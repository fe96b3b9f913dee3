import WebStorage.EffectProgram
import WebStorage.Repositories

set_option autoImplicit false

/-! The storage interface, and the programs that use it together with the repositories. -/
namespace WebStorage
open Effect

/-- `_normalize_path` of the file service. -/
def normalizePath (path : Str) : Str := Text.stripSlash (Text.slashes (Text.strip path))

def joinPath (directory name : Str) : Str :=
  if directory ≠ [] then directory ++ '/' :: name else name

/-- `_safe_logical_key`. -/
def safeLogicalKey (userInput : Str) : Except Exc Str :=
  let normalizedInput := (Text.slashes (Text.strip userInput)).dropWhile (· = '/')
  let parts := Text.components normalizedInput
  if "..".toList ∈ parts then .error .pathTraversal else .ok (Text.join parts)

/-- What the key of a private section makes of names and blobs. Encrypting draws a new nonce. -/
structure SectionCipher where
  encryptName : Uuid → Str → Str
  decryptName : Str → Option Str
  encryptBlob : Uuid → Bytes → Bytes
  decryptBlob : Bytes → Except Exc Bytes

/-- An adapter: its key prefix under the disk root and, for a private section, its cipher. -/
structure Adapter where
  diskRelativePrefix : Str
  cipher : Option SectionCipher

def Adapter.decryptBlob (a : Adapter) : Option (Bytes → Except Exc Bytes) :=
  a.cipher.map (·.decryptBlob)

def Adapter.toDiskRelativePath (a : Adapter) (sectionPath : Str) : Except Exc Str := do
  let normalized ← safeLogicalKey sectionPath
  if normalized = [] then pure a.diskRelativePrefix
  else pure (a.diskRelativePrefix ++ '/' :: normalized)

/-- `_object_key`. -/
def objectKey (a : Adapter) (path : Str) : Except Exc Str := do
  let logical ← safeLogicalKey path
  pure (if logical = [] then a.diskRelativePrefix
    else if a.diskRelativePrefix = [] then logical
    else a.diskRelativePrefix ++ '/' :: logical)

/-- `build_disk_root_adapter`. -/
def diskRootAdapter : Adapter := ⟨[], none⟩

/-- A listing entry. -/
structure FileNode where
  name : Str
  isDir : Bool
  size : Int
deriving DecidableEq

/-- The methods of `StorageAdapter`. -/
inductive StoreOp
  | «exists» (path : Str)
  | read (path : Str)
  | write (path : Str) (data : Bytes) (size : Nat)
  | delete (path : Str)
  | mkdir (path : Str)
  | rename (oldPath newPath : Str)
  | list (path : Str)
  | getSize (path : Str)
  | listStaleTmpEntryPaths (cutoff : Time)
deriving DecidableEq

abbrev StoreOp.Resp : StoreOp → Type
  | «exists» _ => Bool
  | read _ => Bytes
  | write .. => Digest
  | delete _ => Unit
  | mkdir _ => Unit
  | rename .. => Unit
  | list _ => List FileNode
  | getSize _ => Nat
  | listStaleTmpEntryPaths _ => List Str

/-- What the services call: a fresh id, a repository, or a storage adapter. -/
inductive FileCmd : Type 1
  | uuid4
  | db {α : Type} (f : DbOp α)
  | store (adapter : Adapter) (op : StoreOp)

abbrev FileCmd.Resp : FileCmd → Type
  | uuid4 => Uuid
  | @db α _ => α
  | store _ op => op.Resp

abbrev FileM := Prog FileCmd.Resp Exc

def uuid4 : FileM Uuid := Prog.issue FileCmd.uuid4

def db {α : Type} (f : DbOp α) : FileM α := Prog.issue (FileCmd.db f)

def store (adapter : Adapter) (op : StoreOp) : FileM op.Resp := Prog.issue (FileCmd.store adapter op)

/-- `if await adapter.exists(path): await adapter.delete(path)`. -/
def deleteIfExists (adapter : Adapter) (path : Str) : FileM Unit := do
  if ← store adapter (.exists path) then store adapter (.delete path)
  else pure ()

/-- A pure computation that can raise. -/
def ofExcept {α : Type} (x : Except Exc α) : FileM α := Prog.done x

/-- `StorageQuota.would_exceed` and `available_bytes`. -/
def wouldExceed (usedBytes limitBytes additionalBytes : Int) : Bool :=
  !(decide (limitBytes ≤ 0)) && decide (limitBytes < usedBytes + additionalBytes)

def availableBytes (usedBytes limitBytes : Int) : Int :=
  if limitBytes ≤ 0 then 0 else max 0 (limitBytes - usedBytes)

/-- The settings the services read. -/
structure Settings where
  ragEnabled : Bool
  maxImageBytes : Int
  defaultUserQuotaBytes : Int
  archiveDaysThreshold : Int

/-- zstd. -/
structure ArchiveManager where
  compress : Bytes → Bytes
  decompress : Bytes → Except Exc Bytes

/-- The queue collaborator of a service, and whether indexing is on. -/
structure Enqueue where
  indexLinks : Bool
  settings : Settings

namespace Enqueue
variable (q : Enqueue)

/-- `_queue(links) is not None`. -/
def active : Bool := q.indexLinks && q.settings.ragEnabled

/-- `_refused_without_row`. -/
def refusedWithoutRow (record : FileRecord) : Bool :=
  record.fileSection = .private || record.isEncrypted ||
    (record.fileSection ≠ .files && record.fileSection ≠ .photos)

/-- A queue call; a refused private link is logged and dropped. -/
def links {α : Type} (f : LinkTable → Except Exc (α × LinkTable)) (refused : α) : FileM α :=
  (db (onLinks f)).catchWith fun
    | .privateIndexRefused => pure refused
    | e => Prog.raise e

/-- `enqueue_upload`. -/
def upload (record : FileRecord) (now : Time) : FileM Unit :=
  if q.active = false ∨ refusedWithoutRow record then pure ()
  else match decideRegistrationTarget record q.settings.maxImageBytes with
    | .error .privateIndexRefused => pure ()
    | .error e => Prog.raise e
    | .ok decision =>
      if decision.skipCode = some .excludedSection then pure ()
      else do
        let id ← uuid4
        let _ ← links (fun t => t.upsertPending id record decision now) none
        pure ()

/-- `enqueue_content_changed`. -/
def contentChanged (record : FileRecord) (now : Time) : FileM Unit :=
  if q.active = false ∨ refusedWithoutRow record then pure ()
  else match decideRegistrationTarget record q.settings.maxImageBytes with
    | .error .privateIndexRefused => pure ()
    | .error e => Prog.raise e
    | .ok decision =>
      if decision.skipCode = some .excludedSection then pure ()
      else do
        let _ ← links (fun t => t.markContentChanged record.id decision now) none
        pure ()

/-- `_rekey_linked`. -/
def rekeyLinked (record : FileRecord) (now : Time) : FileM Unit :=
  if refusedWithoutRow record then pure ()
  else do
    let _ ← links (fun t => t.markRekey record.id record.relativePath now) none
    pure ()

/-- `enqueue_rekey`. -/
def rekey (record : FileRecord) (now : Time) : FileM Unit :=
  if q.active then rekeyLinked record now else pure ()

def rekeyAll (now : Time) : List FileRecord → FileM Unit
  | [] => pure ()
  | record :: records => do
    rekeyLinked record now
    rekeyAll now records

/-- `enqueue_rekey_many`. -/
def rekeyMany (records : List FileRecord) (now : Time) : FileM Unit :=
  if q.active then rekeyAll now records else pure ()

/-- `enqueue_removed`. -/
def removed (fileRecordIds : List Uuid) (now : Time) : FileM Unit :=
  if fileRecordIds = [] ∨ q.active = false then pure ()
  else do
    let _ ← links (fun t => t.markRemoved fileRecordIds now) []
    pure ()

/-- `enqueue_archived`. -/
def archived (record : FileRecord) (now : Time) : FileM Unit :=
  if q.active = false ∨ refusedWithoutRow record then pure ()
  else do
    let _ ← links (fun t => t.markArchived record.id now) none
    pure ()

end Enqueue
end WebStorage
