import WebStorage.RequestCommands

set_option autoImplicit false

/-! The download routes: a single file, a folder as a ZIP archive, the original of a photo, and a
file of a generated run. Only the last one commits its session once the stream has ended. -/
namespace WebStorage
open Effect Effect.Prog

namespace FileService
variable (s : FileService)

/-- `_arcname_from`. -/
def arcnameFrom (storagePath root filename : Str) : Str :=
  let relative := (storagePath.drop root.length).dropWhile (· = '/')
  if relative = [] then filename else relative

/-- An entry of the walk: the path in the section, and the name in the archive. The name of a
directory ends in a slash. -/
structure WalkEntry where
  storagePath : Str
  arcname : Str
deriving DecidableEq

def WalkEntry.isDir (entry : WalkEntry) : Bool := ['/'].isSuffixOf entry.arcname

/-- The loop of `_walk_directory` over the nodes of a directory; `walk` is the recursive call. -/
def walkNodes (walk : Str → List Str → FileM (List WalkEntry × List Str)) (root normalized : Str) :
    List FileNode → List Str → FileM (List WalkEntry × List Str)
  | [], visited => pure ([], visited)
  | node :: nodes, visited => do
    let storagePath := joinPath normalized node.name
    let arcname := arcnameFrom storagePath root node.name
    if node.isDir then
      let (inner, visited) ← walk storagePath visited
      let (rest, visited) ← walkNodes walk root normalized nodes visited
      pure (⟨storagePath, Text.rstripSlash arcname ++ ['/']⟩ :: (inner ++ rest), visited)
    else
      let (rest, visited) ← walkNodes walk root normalized nodes visited
      pure (⟨storagePath, arcname⟩ :: rest, visited)

/-- `_walk_directory`; the depth is the interpreter's recursion limit. -/
def walkDirectory (root : Str) : Nat → Str → List Str → FileM (List WalkEntry × List Str)
  | 0, _, _ => Prog.raise .other
  | depth + 1, current, visited =>
    let normalized := normalizePath current
    if normalized ∈ visited then pure ([], visited)
    else do
      match ← (store s.adapter (.list normalized)).attempt with
      | .error .fileNotFound => pure ([], normalized :: visited)
      | .error e => Prog.raise e
      | .ok nodes => walkNodes (walkDirectory root depth) root normalized nodes (normalized :: visited)

/-- What is written for an entry; `_collect_file` of a file. -/
def entryContent (entry : WalkEntry) : FileM Bytes :=
  if entry.isDir then pure [] else store s.adapter (.read entry.storagePath)

/-- The loop of `download_directory_as_zip` over the entries. -/
def collectEntries : List WalkEntry → FileM (List (WalkEntry × Bytes))
  | [] => pure []
  | entry :: entries => do
    let content ← entryContent s entry
    let rest ← collectEntries entries
    pure ((entry, content) :: rest)

/-- `_ensure_can_download_directory`. -/
def ensureCanDownloadDirectory (actorId : Uuid) (path : Str) : FileM Unit := do
  let normalized := normalizePath path
  if (← store s.adapter (.exists normalized)) = false then Prog.raise .fileNotFound
  else if (← isDirectory s normalized) = false then Prog.raise .fileNotFound
  else if s.fileSection ≠ .shared then
    let _ ← getRecordBySectionPath s actorId normalized s.fileSection
    pure ()
  else pure ()

/-- `download_directory_as_zip`: the entries in their order. -/
def downloadDirectoryAsZip (depth : Nat) (actorId : Uuid) (path : Str) :
    FileM (List (WalkEntry × Bytes)) := do
  let normalized := normalizePath path
  ensureCanDownloadDirectory s actorId normalized
  let (entries, _) ← walkDirectory s normalized depth normalized []
  collectEntries s entries

def pathExists (path : Str) : FileM Bool := store s.adapter (.exists (normalizePath path))

def readableObjectExists (actorId : Uuid) (path : Str) : FileM Bool := do
  let normalized := normalizePath path
  match ← getRecordBySectionPath s actorId normalized s.fileSection with
  | some record =>
    if record.isArchived ∧ record.archivePath.any (· ≠ []) then pure true
    else store s.adapter (.exists normalized)
  | none => store s.adapter (.exists normalized)

/-- `read_by_path`, with the record whose bytes it read. -/
def readNoted (actorId : Uuid) (path : Str) (now : Time) : FileM (Option Uuid × Bytes) := do
  let normalized := normalizePath path
  match ← recordToRead s actorId normalized with
  | some record =>
    let content ← readRecord s record normalized
    let _ ← db (FileRepo.touchLastAccessed record.id now)
    pure (some record.id, content)
  | none =>
    let content ← store s.adapter (.read normalized)
    pure (none, content)

end FileService

namespace PhotoService
variable (s : PhotoService)

/-- `_stream_archived`. -/
def streamArchived (record : FileRecord) : FileM Bytes :=
  match s.archiveManager with
  | none => Prog.raise .fileNotFound
  | some manager => streamDecompressedArchived record manager none

/-- The content of a photo: its archive, or the object at its path. -/
def readOriginal (record : FileRecord) : FileM Bytes :=
  if record.isArchived then streamArchived s record
  else store s.adapter (.read (toSectionPath s record))

/-- `stream_original`, and the stream of `get_original`. -/
def getOriginal (userId fileId : Uuid) (now : Time) : FileM Bytes := do
  let record ← getDownloadableRecord userId fileId
  let content ← readOriginal s record
  let _ ← db (FileRepo.touchLastAccessed fileId now)
  pure content

end PhotoService

/-- The generated images of a user; `listed` is the names that a readable `meta.yaml` lists. -/
structure GeneratedService where
  fileService : FileService
  isRunId : Str → Bool
  listed : Bytes → List Str

namespace GeneratedService
variable (s : GeneratedService)

def metaFilename : Str := "meta.yaml".toList

/-- `_read_bytes` of `meta.yaml`. -/
def readMeta (userId : Uuid) (runId : Str) (now : Time) : FileM (Option Bytes) :=
  (do
    let raw ← s.fileService.readByPath userId (runId ++ '/' :: metaFilename) now
    pure (some raw)).catchWith fun
      | .fileNotFound => pure none
      | e => Prog.raise e

/-- `_listed_file_names`. -/
def listedFileNames (userId : Uuid) (runId : Str) (now : Time) : FileM (List Str) := do
  match ← readMeta s userId runId now with
  | none => pure []
  | some raw => pure (s.listed raw)

def prepareFile (userId : Uuid) (runId name : Str) (now : Time) : FileM Str :=
  if s.isRunId runId = false then Prog.raise .fileNotFound
  else do
    if (← s.fileService.pathExists runId) = false then Prog.raise .fileNotFound
    else
      let allowed ← listedFileNames s userId runId now
      if name ∉ allowed then Prog.raise .fileNotFound
      else if (← s.fileService.readableObjectExists userId (runId ++ '/' :: name)) = false then
        Prog.raise .fileNotFound
      else pure (runId ++ '/' :: name)

end GeneratedService

/-- A request of a download route. -/
inductive Download
  | file (s : FileService) (actorId : Uuid) (path : Str)
  | folder (s : FileService) (depth : Nat) (actorId : Uuid) (path : Str)
  | photoOriginal (s : PhotoService) (userId fileId : Uuid)
  | generatedFile (s : GeneratedService) (userId : Uuid) (runId name : Str)

/-- `stream_and_commit`: the other routes hand out a stream, and nobody commits their session. -/
def Download.commits : Download → Bool
  | generatedFile .. => true
  | _ => false

/-- The records of a section whose objects are among the entries of an archive. -/
def zipRecords (s : FileService) (actorId : Uuid) (entries : List (FileService.WalkEntry × Bytes)) :
    DbOp (List Uuid) := fun d =>
  (.ok ((d.records.rows.filter fun r =>
    inScope (if s.fileSection = .shared then none else some actorId) s.fileSection r &&
      isDownloadable r && entries.any fun entry => !entry.1.isDir &&
        decide (s.adapter.toDiskRelativePath entry.1.storagePath = .ok r.relativePath)).map (·.id)), d)

/-- The route's work, ending with the records whose bytes were handed out. -/
def Download.program (now : Time) : Download → FileM (List Uuid)
  | file s actorId path => do
    let (record, _) ← s.readNoted actorId path now
    pure record.toList
  | folder s depth actorId path => do
    let entries ← s.downloadDirectoryAsZip depth actorId path
    db (zipRecords s actorId entries)
  | photoOriginal s userId fileId => do
    let _ ← s.getOriginal userId fileId now
    pure [fileId]
  | generatedFile s userId runId name => do
    let relativePath ← s.prepareFile userId runId name now
    let (record, _) ← s.fileService.readNoted userId relativePath now
    pure record.toList

section
-- The paths play no part here, and must not be evaluated.
attribute [local irreducible] Adapter.toDiskRelativePath normalizePath FileService.recordToRead
  FileService.readRecord FileService.getRecordBySectionPath

variable {now : Time} {P : FileCmd → Prop} (h : Inventory now P)
include h

theorem Inventory.readNoted (s : FileService) (actorId : Uuid) (path : Str) :
    Prog.Only P (s.readNoted actorId path now) := by
  unfold FileService.readNoted
  apply all_bind (h.recordToRead _ _ _)
  intro found
  split
  · apply all_bind (h.readRecord _ _ _)
    intro content
    exact all_bind (Inventory.call (h.touchLastAccessed _)) fun _ => all_done _
  · exact all_bind (h.stores (onlyStores_store _ _)) fun _ => all_done _

theorem Inventory.prepareFile (s : GeneratedService) (userId : Uuid) (runId name : Str) :
    Prog.Only P (s.prepareFile userId runId name now) := by
  have hmeta : Prog.Only P (s.readMeta userId runId now) := by
    apply all_catchWith
    · exact all_bind (h.readByPath _ _ _) fun _ => all_done _
    · intro e
      split <;> trivial
  have hreadable : Prog.Only P (s.fileService.readableObjectExists userId (runId ++ '/' :: name)) := by
    unfold FileService.readableObjectExists
    apply all_bind (h.lookup _ _ _ _)
    intro found
    split
    · split
      · trivial
      · exact h.stores (onlyStores_store _ _)
    · exact h.stores (onlyStores_store _ _)
  unfold GeneratedService.prepareFile GeneratedService.listedFileNames
  split
  · trivial
  apply all_bind (h.stores (onlyStores_store _ _))
  intro present
  split
  · trivial
  apply all_bind
  · apply all_bind hmeta
    intro raw
    split <;> trivial
  intro allowed
  split
  · trivial
  apply all_bind hreadable
  intro readable
  split <;> trivial

end
end WebStorage
