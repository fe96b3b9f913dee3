import WebStorage.StorageAdapter

set_option autoImplicit false

/-! The S3 adapter: every storage operation as a program over the S3 calls it makes in its one
bucket. A directory is a key prefix, with or without a marker object whose key ends in a slash. -/
namespace WebStorage.S3
open Effect

/-! ### The service -/

/-- An entry of `Contents`. -/
structure ObjectEntry where
  key : Str
  size : Nat
  lastModified : Time
deriving DecidableEq

/-- The pages of `list_objects_v2` together. -/
structure Listing where
  commonPrefixes : List Str
  contents : List ObjectEntry
deriving DecidableEq

/-- The calls of the client, all of them in the one bucket. -/
inductive S3Cmd
  | headObject (key : Str)
  | getObject (key : Str)
  | putObject (key : Str) (body : Bytes)
  | copyObject (source key : Str)
  | deleteObject (key : Str)
  | deleteObjects (keys : List Str)
  | listObjects (keyPrefix : Str) (delimited : Bool) (maxKeys : Option Nat)
  | createMultipartUpload (key : Str)
  | uploadPart (key uploadId : Str) (partNumber : Nat) (body : Bytes)
  | uploadPartCopy (key uploadId : Str) (partNumber : Nat) (source : Str) (first last : Nat)
  | completeMultipartUpload (key uploadId : Str) (parts : List (Nat × Str))
  | abortMultipartUpload (key uploadId : Str)
deriving DecidableEq

/-- A head is answered with the length of the content, a new upload with its id and a part with
its tag. -/
abbrev S3Cmd.Resp : S3Cmd → Type
  | headObject _ => Nat
  | getObject _ => Bytes
  | listObjects .. => Listing
  | createMultipartUpload _ => Str
  | uploadPart .. => Str
  | uploadPartCopy .. => Str
  | _ => Unit

/-- The keys and prefixes that a call names. -/
def S3Cmd.keys : S3Cmd → List Str
  | headObject key => [key]
  | getObject key => [key]
  | putObject key _ => [key]
  | copyObject source key => [source, key]
  | deleteObject key => [key]
  | deleteObjects keys => keys
  | listObjects keyPrefix _ _ => [keyPrefix]
  | createMultipartUpload key => [key]
  | uploadPart key _ _ _ => [key]
  | uploadPartCopy key _ _ source _ _ => [key, source]
  | completeMultipartUpload key _ _ => [key]
  | abortMultipartUpload key _ => [key]

/-- What a listing lists is under its prefix. -/
def Listed : (c : S3Cmd) → c.Resp → Prop
  | .listObjects keyPrefix _ _, listing => ∀ e ∈ listing.contents, keyPrefix <+: e.key
  | _, _ => True

abbrev S3M := Prog S3Cmd.Resp Exc

def send (c : S3Cmd) : S3M c.Resp := Prog.issue c

/-! ### The adapter -/

/-- The adapter, with the digest and the lower case of the standard library. The constructor
strips the slashes from its root. -/
structure S3StorageAdapter where
  rootPrefix : Str
  sha256 : Bytes → Digest
  lower : Str → Str
  root_stripped : ¬ ['/'] <:+ rootPrefix

/-- The iterator of an upload: its chunks, and the exception that it may end with. -/
structure ByteStream where
  chunks : List Bytes
  failure : Option Exc

/-- `MULTIPART_PART_SIZE`. -/
@[irreducible] def multipartPartSize : Nat := 8 * 1024 * 1024

theorem multipartPartSize_pos : 0 < multipartPartSize := by
  unfold multipartPartSize
  norm_num

/-- `COPY_OBJECT_MAX_BYTES`. -/
@[irreducible] def copyObjectMaxBytes : Nat := 5 * 1024 * 1024 * 1024

/-- `_object_key(path, as_dir=True)` of a key. -/
def asDir (key : Str) : Str :=
  if key = [] ∨ ['/'] <:+ key then key else key ++ ['/']

def isHiddenName (name : Str) : Bool := name = ".tmp".toList || ['.'].isPrefixOf name

/-- `nodes.sort`: directories first, then by name. -/
def nodesInOrder (lower : Str → Str) (a b : FileNode) : Prop :=
  (a.isDir ∧ ¬ b.isDir) ∨ (a.isDir = b.isDir ∧ Text.le (lower a.name) (lower b.name))

instance (lower : Str → Str) : DecidableRel (nodesInOrder lower) := fun _ _ =>
  inferInstanceAs (Decidable (_ ∨ _))

namespace S3StorageAdapter

/-- `__init__`. -/
def new (rootPrefix : Str) (sha256 : Bytes → Digest) (lower : Str → Str) : S3StorageAdapter where
  rootPrefix := Text.stripSlash (Text.strip rootPrefix)
  sha256 := sha256
  lower := lower
  root_stripped := Text.not_suffix_rstripSlash _

variable (s : S3StorageAdapter)

def adapter : Adapter := ⟨s.rootPrefix, none⟩

def key (path : Str) : S3M Str := Prog.done (objectKey s.adapter path)

/-- `_list_prefix`. -/
def listPrefix (path : Str) : S3M Str := do
  let key ← s.key path
  pure (asDir key)

/-- `_head_exists`. -/
def headExists (key : Str) : S3M Bool :=
  if key = [] then pure false
  else (do
    let _ ← send (.headObject key)
    pure true).catchWith fun
      | .clientError true => pure false
      | e => Prog.raise e

/-- `_exists_prefix_or_marker`. -/
def existsPrefixOrMarker (path : Str) : S3M Bool := do
  let markerKey ← s.listPrefix path
  if ← headExists markerKey then pure true
  else
    let listing ← send (.listObjects markerKey false (some 1))
    pure (decide (listing.contents ≠ [] ∨ listing.commonPrefixes ≠ []))

/-- The directories of a listing. -/
def directoryNodes (keyPrefix : Str) (listing : Listing) : List FileNode :=
  listing.commonPrefixes.filterMap fun rawPrefix =>
    let name := Text.rstripSlash (rawPrefix.drop keyPrefix.length)
    if name = [] ∨ isHiddenName name then none
    else some { name := name, isDir := true, size := 0 }

/-- The files of a listing. -/
def fileNodes (keyPrefix : Str) (listing : Listing) : List FileNode :=
  listing.contents.filterMap fun entry =>
    let name := entry.key.drop keyPrefix.length
    if entry.key = keyPrefix ∨ ['/'] <:+ entry.key then none
    else if '/' ∈ name then none
    else if name = [] ∨ isHiddenName name then none
    else some { name := name, isDir := false, size := entry.size }

/-- The check of `list`: the root is always there. -/
def directoryFound (path : Str) : S3M Bool :=
  if Text.stripSlash (Text.strip path) = [] then pure true
  else s.existsPrefixOrMarker path

def list (path : Str) : S3M (List FileNode) := do
  let keyPrefix ← s.listPrefix path
  if ← s.directoryFound path then
    let listing ← send (.listObjects keyPrefix true none)
    pure ((directoryNodes keyPrefix listing ++ fileNodes keyPrefix listing).insertionSort
      (nodesInOrder s.lower))
  else Prog.raise .fileNotFound

/-- A missing object of a read or a size. -/
def orNotFound {α : Type} (p : S3M α) : S3M α :=
  p.catchWith fun
    | .clientError true => Prog.raise .fileNotFound
    | e => Prog.raise e

def read (path : Str) : S3M Bytes := do
  let key ← s.key path
  if key = [] ∨ ['/'] <:+ key then Prog.raise .fileNotFound
  else orNotFound (send (.getObject key))

def getSize (path : Str) : S3M Nat := do
  let key ← s.key path
  if key = [] ∨ ['/'] <:+ key then Prog.raise .fileNotFound
  else orNotFound (send (.headObject key))

/-- `_abort_multipart`: it raises nothing. -/
def abortMultipart (key uploadId : Str) : S3M Unit :=
  (send (.abortMultipartUpload key uploadId)).catchWith fun _ => pure ()

/-- The `while` of `write`: the full parts of the buffer. -/
def uploadFullParts (key uploadId : Str) (partNumber : Nat) (parts : List (Nat × Str))
    (buffer : Bytes) : S3M (Nat × List (Nat × Str) × Bytes) :=
  if _h : multipartPartSize ≤ buffer.length then do
    let tag ← send (.uploadPart key uploadId partNumber (buffer.take multipartPartSize))
    uploadFullParts key uploadId (partNumber + 1) (parts ++ [(partNumber, tag)])
      (buffer.drop multipartPartSize)
  else pure (partNumber, parts, buffer)
termination_by buffer.length
decreasing_by
  have hpart := multipartPartSize_pos
  rw [List.length_drop]
  omega

/-- The end of a multipart upload: the last part, and its completion. -/
def completeMultipart (key uploadId : Str) (partNumber : Nat) (parts : List (Nat × Str))
    (buffer : Bytes) : S3M Unit :=
  if buffer = [] then send (.completeMultipartUpload key uploadId parts)
  else do
    let tag ← send (.uploadPart key uploadId partNumber buffer)
    send (.completeMultipartUpload key uploadId (parts ++ [(partNumber, tag)]))

/-- The `async for` of `write` once an upload has begun. -/
def uploadChunks (key uploadId : Str) (failure : Option Exc) :
    List Bytes → Nat → List (Nat × Str) → Bytes → S3M Unit
  | [], partNumber, parts, buffer =>
    match failure with
    | some e => Prog.raise e
    | none => completeMultipart key uploadId partNumber parts buffer
  | chunk :: chunks, partNumber, parts, buffer => do
    let (partNumber, parts, buffer) ← uploadFullParts key uploadId partNumber parts (buffer ++ chunk)
    uploadChunks key uploadId failure chunks partNumber parts buffer

/-- The rest of `write` from the first full part on. -/
def writeMultipart (key : Str) (failure : Option Exc) (chunks : List Bytes) (buffer : Bytes) :
    S3M Unit := do
  let uploadId ← send (.createMultipartUpload key)
  (do
    let (partNumber, parts, buffer) ← uploadFullParts key uploadId 1 [] buffer
    uploadChunks key uploadId failure chunks partNumber parts buffer).catchWith fun
      | .pathTraversal => Prog.raise .pathTraversal
      | e => do
        abortMultipart key uploadId
        Prog.raise e

/-- The `async for` of `write` as long as the buffer holds no full part. -/
def writeChunks (key : Str) (failure : Option Exc) : List Bytes → Bytes → S3M Unit
  | [], buffer =>
    match failure with
    | some e => Prog.raise e
    | none => send (.putObject key buffer)
  | chunk :: chunks, buffer =>
    if multipartPartSize ≤ (buffer ++ chunk).length then
      writeMultipart key failure chunks (buffer ++ chunk)
    else writeChunks key failure chunks (buffer ++ chunk)

def write (path : Str) (data : ByteStream) : S3M Digest := do
  let finalKey ← s.key path
  if finalKey = [] ∨ ['/'] <:+ finalKey then Prog.raise .pathTraversal
  else
    writeChunks finalKey data.failure data.chunks []
    pure (s.sha256 data.chunks.flatten)

/-- The offsets that the `while` of `_copy_object` goes through. -/
def partOffsets (size : Nat) : List Nat :=
  (List.range ((size + multipartPartSize - 1) / multipartPartSize)).map (· * multipartPartSize)

/-- The `while` of `_copy_object`. -/
def copyParts (sourceKey destKey uploadId : Str) (size : Nat) :
    List Nat → Nat → List (Nat × Str) → S3M Unit
  | [], _, parts => send (.completeMultipartUpload destKey uploadId parts)
  | offset :: rest, partNumber, parts => do
    let last := min (offset + multipartPartSize) size - 1
    let tag ← send (.uploadPartCopy destKey uploadId partNumber sourceKey offset last)
    copyParts sourceKey destKey uploadId size rest (partNumber + 1) (parts ++ [(partNumber, tag)])

/-- `_copy_object`. -/
def copyObject (sourceKey destKey : Str) : S3M Unit := do
  let size ← orNotFound (send (.headObject sourceKey))
  if size < copyObjectMaxBytes then send (.copyObject sourceKey destKey)
  else
    let uploadId ← send (.createMultipartUpload destKey)
    (copyParts sourceKey destKey uploadId size (partOffsets size) 1 []).catchWith fun e => do
      abortMultipart destKey uploadId
      Prog.raise e

/-- The slices of `range(0, len(keys), 1000)`. -/
def batches (keys : List Str) : List (List Str) :=
  (List.range ((keys.length + 999) / 1000)).map fun i => (keys.drop (i * 1000)).take 1000

def deleteBatches : List (List Str) → S3M Unit
  | [] => pure ()
  | batch :: rest => do
    send (.deleteObjects batch)
    deleteBatches rest

def delete (path : Str) : S3M Unit := do
  let logical ← (Prog.done (safeLogicalKey path) : S3M Str)
  if logical = [] ∧ s.rootPrefix = [] then Prog.raise .pathTraversal
  else
    let fileKey ← s.key path
    let dirPrefix ← s.listPrefix path
    let present ← headExists fileKey
    let listing ← send (.listObjects dirPrefix false none)
    let keys := (if present then [fileKey] else []) ++ listing.contents.map (·.key)
    let uniqueKeys := dictFromKeys keys
    if uniqueKeys = [] then Prog.raise .fileNotFound
    else deleteBatches (batches uniqueKeys)

/-- The loop of `mkdir` over the ancestors, the directory itself last. -/
def makeMarkers : List Str → S3M Unit
  | [] => pure ()
  | partialPath :: rest => do
    let markerKey ← s.listPrefix partialPath
    send (.putObject markerKey [])
    makeMarkers rest

/-- The partial paths of a path. -/
def ancestors (logical : Str) : List Str :=
  (List.range (Text.split logical).length).map fun index =>
    Text.join ((Text.split logical).take (index + 1))

def mkdir (path : Str) : S3M Unit := do
  let logical ← (Prog.done (safeLogicalKey path) : S3M Str)
  if logical = [] then pure ()
  else s.makeMarkers (ancestors logical)

def copyAll (oldPrefix newPrefix : Str) : List Str → S3M Unit
  | [] => pure ()
  | sourceKey :: rest => do
    copyObject sourceKey (newPrefix ++ sourceKey.drop oldPrefix.length)
    copyAll oldPrefix newPrefix rest

def rename (oldPath newPath : Str) : S3M Unit := do
  let oldKey ← s.key oldPath
  let newKey ← s.key newPath
  let oldPrefix ← s.listPrefix oldPath
  let newPrefix ← s.listPrefix newPath
  if ← headExists oldKey then
    copyObject oldKey newKey
    send (.deleteObject oldKey)
  else
    let listing ← send (.listObjects oldPrefix false none)
    let sourceKeys := listing.contents.map (·.key)
    if sourceKeys = [] then Prog.raise .fileNotFound
    else
      copyAll oldPrefix newPrefix sourceKeys
      deleteBatches (batches sourceKeys)

def «exists» (path : Str) : S3M Bool := do
  let fileKey ← s.key path
  if ← headExists fileKey then pure true
  else s.existsPrefixOrMarker path

/-- `_tmp_entry_path_from_key`. -/
def tmpEntryPathFromKey (key : Str) : Option Str :=
  let relative := if s.rootPrefix = [] then some key
    else if (s.rootPrefix ++ ['/']).isPrefixOf key then some (key.drop (s.rootPrefix.length + 1))
    else if key = s.rootPrefix then some [] else none
  relative.bind fun relative =>
    if relative = [] ∨ ['/'] <:+ relative then
      let parts := Text.split (Text.rstripSlash relative)
      if parts.dropLast.getLast? = some ".tmp".toList then some (Text.join parts) else none
    else
      let parts := Text.split relative
      let tmpIndex := parts.idxOf ".tmp".toList
      if tmpIndex + 1 < parts.length then some (Text.join (parts.take (tmpIndex + 2))) else none

/-- `entry_mtime` after one more object. -/
def laterOf (entries : List (Str × Time)) (path : Str) (modified : Time) : List (Str × Time) :=
  if entries.any fun e => decide (e.1 = path) then
    entries.map fun e => if e.1 = path then (path, max e.2 modified) else e
  else entries ++ [(path, modified)]

def entryTimes : List ObjectEntry → List (Str × Time) → List (Str × Time)
  | [], entries => entries
  | object :: rest, entries =>
    match s.tmpEntryPathFromKey object.key with
    | none => entryTimes rest entries
    | some path => entryTimes rest (laterOf entries path object.lastModified)

def listStaleTmpEntryPaths (cutoff : Time) : S3M (List Str) := do
  let rootDir := if s.rootPrefix = [] then [] else s.rootPrefix ++ ['/']
  let listing ← send (.listObjects rootDir false none)
  pure (((s.entryTimes listing.contents []).filter fun e => decide (e.2 < cutoff)).map (·.1))

/-- The operation of the storage interface. -/
def perform : (op : StoreOp) → S3M op.Resp
  | .exists path => s.exists path
  | .read path => s.read path
  | .write path data _ => s.write path ⟨[data], none⟩
  | .delete path => s.delete path
  | .mkdir path => s.mkdir path
  | .rename oldPath newPath => s.rename oldPath newPath
  | .list path => s.list path
  | .getSize path => s.getSize path
  | .listStaleTmpEntryPaths cutoff => s.listStaleTmpEntryPaths cutoff

end S3StorageAdapter
end WebStorage.S3
