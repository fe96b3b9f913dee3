import WebStorage.S3Storage

set_option autoImplicit false

/-! The adapter of the private section: the names of a path are stored encrypted, each as a name of
its own, and the blobs in encrypted frames. Since every encryption draws a new nonce, a path is
looked up by listing, level by level. -/
namespace WebStorage.S3
open Effect

/-- `EncryptedStorageAdapter`; the nonce stands for what a call draws from `os.urandom`. -/
structure EncryptedStorageAdapter where
  inner : S3StorageAdapter
  cipher : SectionCipher
  nonce : Uuid

/-- `_is_plain_storage_path`. -/
def isPlainStoragePath (path : Str) : Bool :=
  normalizePath path = ".tmp".toList || (".tmp/".toList).isPrefixOf (normalizePath path)

namespace EncryptedStorageAdapter
variable (e : EncryptedStorageAdapter)

/-- The loop of `_resolve_encrypted_path`: at each level the first name that decrypts to the
segment. -/
def resolveSegments : Str → List Str → S3M Str
  | parent, [] => pure parent
  | parent, segment :: rest => do
    let entries ← e.inner.list parent
    match entries.find? fun entry => decide (e.cipher.decryptName entry.name = some segment) with
    | none => Prog.raise .fileNotFound
    | some entry => resolveSegments (joinPath parent entry.name) rest

/-- `_resolve_encrypted_path`. -/
def resolvePath (path : Str) : S3M Str :=
  if normalizePath path = [] then pure []
  else if isPlainStoragePath (normalizePath path) then pure (normalizePath path)
  else e.resolveSegments [] (Text.split (normalizePath path))

/-- `_to_encrypted_path`: the name at the end is a new one. -/
def toEncryptedPath (path : Str) : S3M Str :=
  if normalizePath path = [] then pure []
  else if isPlainStoragePath (normalizePath path) then pure (normalizePath path)
  else
    let segments := Text.split (normalizePath path)
    let leaf := e.cipher.encryptName e.nonce (segments.getLastD [])
    if segments.length = 1 then pure leaf
    else do
      let parent ← e.resolvePath (Text.join segments.dropLast)
      pure (joinPath parent leaf)

/-- `_decrypted_file_size`. -/
def decryptedFileSize (encryptedPath : Str) : S3M Nat := do
  let payload ← e.inner.read encryptedPath
  let content ← (Prog.done (e.cipher.decryptBlob payload) : S3M Bytes)
  pure content.length

/-- The loop of `list`: what does not decrypt is skipped. -/
def listNodes (encryptedPath : Str) : List FileNode → S3M (List FileNode)
  | [] => pure []
  | node :: rest =>
    match e.cipher.decryptName node.name with
    | none => listNodes encryptedPath rest
    | some name => do
      let size ← if node.isDir then pure node.size
        else do
          let size ← e.decryptedFileSize (joinPath encryptedPath node.name)
          pure (size : Int)
      let nodes ← listNodes encryptedPath rest
      pure ({ name := name, isDir := node.isDir, size := size } :: nodes)

def list (path : Str) : S3M (List FileNode) := do
  let encryptedPath ← e.resolvePath path
  let encryptedNodes ← e.inner.list encryptedPath
  e.listNodes encryptedPath encryptedNodes

def read (path : Str) : S3M Bytes := do
  let encryptedPath ← e.resolvePath path
  if ← e.inner.exists encryptedPath then
    let payload ← e.inner.read encryptedPath
    Prog.done (e.cipher.decryptBlob payload)
  else Prog.raise .fileNotFound

def write (path : Str) (data : Bytes) : S3M Digest := do
  let encryptedPath ← e.toEncryptedPath path
  let _ ← e.inner.write encryptedPath ⟨[e.cipher.encryptBlob e.nonce data], none⟩
  pure (e.inner.sha256 data)

def delete (path : Str) : S3M Unit := do
  let encryptedPath ← e.resolvePath path
  e.inner.delete encryptedPath

def mkdir (path : Str) : S3M Unit := do
  let encryptedPath ← e.toEncryptedPath path
  e.inner.mkdir encryptedPath

def rename (oldPath newPath : Str) : S3M Unit := do
  let encryptedOld ← e.resolvePath oldPath
  let encryptedNew ← e.toEncryptedPath newPath
  e.inner.rename encryptedOld encryptedNew

/-- The `try` of `exists`; without a name there is nothing. -/
def resolved (path : Str) : S3M (Option Str) :=
  (do
    let encryptedPath ← e.resolvePath path
    pure (some encryptedPath)).catchWith fun
      | .fileNotFound => pure none
      | err => Prog.raise err

def «exists» (path : Str) : S3M Bool :=
  if isPlainStoragePath path then e.inner.exists path
  else do
    match ← e.resolved path with
    | none => pure false
    | some encryptedPath => e.inner.exists encryptedPath

def getSize (path : Str) : S3M Nat :=
  if isPlainStoragePath path then e.inner.getSize path
  else do
    let encryptedPath ← e.resolvePath path
    e.decryptedFileSize encryptedPath

/-- The operation of the storage interface. -/
def perform : (op : StoreOp) → S3M op.Resp
  | .exists path => e.exists path
  | .read path => e.read path
  | .write path data _ => e.write path data
  | .delete path => e.delete path
  | .mkdir path => e.mkdir path
  | .rename oldPath newPath => e.rename oldPath newPath
  | .list path => e.list path
  | .getSize path => e.getSize path
  | .listStaleTmpEntryPaths cutoff => e.inner.listStaleTmpEntryPaths cutoff

end EncryptedStorageAdapter
end WebStorage.S3
