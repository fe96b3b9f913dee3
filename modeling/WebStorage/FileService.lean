import WebStorage.StorageAdapter

set_option autoImplicit false

/-! The file service of a section: uploads, overwrites, reads, renames and deletions by path
and by id. -/
namespace WebStorage
open Effect

/-- One service instance. `userFiles` and the like are built with an adapter of the section. -/
structure FileService where
  adapter : Adapter
  fileSection : FileSection
  archiveManager : Option ArchiveManager
  queue : Enqueue

def archiveExtension : Str := ".zst".toList
def tmpDir : Str := ".tmp".toList

/-- `f"{TMP_DIR}/{record.id}"`. -/
def tmpPath (id : Uuid) : Str := joinPath tmpDir id.text

/-- `delete_archived_blob`. -/
def deleteArchivedBlob (record : FileRecord) : FileM Unit :=
  match record.archivePath with
  | none => pure ()
  | some archivePath =>
    if archivePath = [] then pure ()
    else (deleteIfExists diskRootAdapter archivePath).catchWith fun
      | .fileNotFound => pure ()
      | e => Prog.raise e

/-- `stream_decompressed_archived`. -/
def streamDecompressedArchived (record : FileRecord) (manager : ArchiveManager)
    (encryptedAdapter : Option (Bytes → Except Exc Bytes)) : FileM Bytes :=
  match record.archivePath with
  | none => Prog.raise .fileNotFound
  | some archivePath =>
    if archivePath = [] then Prog.raise .fileNotFound
    else do
      let archive ← store diskRootAdapter (.read archivePath)
      let decompressed ← ofExcept (manager.decompress archive)
      if record.isEncrypted then
        match encryptedAdapter with
        | none => Prog.raise .valueError
        | some decryptBlob => ofExcept (decryptBlob decompressed)
      else pure decompressed

/-- One entry of a ZIP archive, with its content. -/
structure ZipInfo where
  filename : Str
  fileSize : Nat
  content : Bytes
deriving DecidableEq

def ZipInfo.isDir (info : ZipInfo) : Bool := ['/'].isSuffixOf info.filename

structure ZipStats where
  files : Nat
  dirs : Nat
  totalBytes : Nat
deriving DecidableEq

inductive Role
  | user | family | admin
deriving DecidableEq

namespace FileService
variable (s : FileService)

def toDisk (path : Str) : FileM Str := ofExcept (s.adapter.toDiskRelativePath path)

/-- `_get_record_by_section_path`: the record at the path, or else the only `COMMITTED` record
of that name in the section, moved to the path. -/
def getRecordBySectionPath (userId : Uuid) (sectionPath : Str) (fileSection : FileSection) :
    FileM (Option FileRecord) := do
  let diskRelativePath ← toDisk s sectionPath
  let filename := Text.name sectionPath
  if fileSection = .shared then
    match ← db (FileRepo.getDownloadableByRelativePathInSection diskRelativePath fileSection) with
    | some record => pure (some record)
    | none => db (FileRepo.healStaleRelativePathInSection fileSection diskRelativePath filename)
  else
    match ← db (FileRepo.getDownloadableByRelativePath userId diskRelativePath fileSection) with
    | some record => pure (some record)
    | none => db (FileRepo.healStaleRelativePath userId fileSection diskRelativePath filename)

/-- The `try` body of `upload_file`. -/
def commitUpload (record : FileRecord) (finalPath : Str) (data : Bytes) (size : Nat)
    (now : Time) : FileM FileRecord := do
  let checksum ← store s.adapter (.write (tmpPath record.id) data size)
  store s.adapter (.rename (tmpPath record.id) finalPath)
  let relativePath ← toDisk s finalPath
  match ← db (FileRepo.updateStatus record.id .committed (some checksum) (some relativePath)
      none) with
  | none => Prog.raise .fileNotFound
  | some committed =>
    let _ ← db (QuotaRepo.increment s.queue.settings.defaultUserQuotaBytes record.userId size
      record.fileSection)
    s.queue.upload committed now
    pure committed

def uploadFile (userId : Uuid) (path filename : Str) (data : Bytes) (size : Nat)
    (fileSection : FileSection) (now : Time) : FileM FileRecord := do
  let finalPath := joinPath (normalizePath path) filename
  let diskRelativePath ← toDisk s finalPath
  let id ← uuid4
  let record ← db (FileRepo.create id userId diskRelativePath filename size
    (fileSection = .private) fileSection .pending now)
  (commitUpload s record finalPath data size now).catchWith fun e => do
    deleteIfExists s.adapter (tmpPath record.id)
    let _ ← db (FileRepo.delete record.id)
    Prog.raise e

/-- `_ensure_overwrite_quota`, for an overwrite that needs more bytes. -/
def ensureOverwriteQuota (userId : Uuid) (extraBytes : Int) (fileSection : FileSection) :
    FileM Unit :=
  if extraBytes ≤ 0 then pure () else do
  let usage ← db (QuotaRepo.getByUserId s.queue.settings.defaultUserQuotaBytes userId)
  if wouldExceed usage.totalBytes usage.limitBytes extraBytes then
    Prog.raise (.quotaExceeded (some (availableBytes usage.totalBytes usage.limitBytes)))
  else if fileSection = .private ∧
      wouldExceed usage.privateBytes usage.privateLimitBytes extraBytes then
    Prog.raise
      (.quotaExceeded (some (availableBytes usage.privateBytes usage.privateLimitBytes)))
  else pure ()

/-- The quota change of an overwrite. -/
def chargeDelta (userId : Uuid) (delta : Int) (fileSection : FileSection) : FileM Unit :=
  if 0 < delta then do
    let _ ← db (QuotaRepo.increment s.queue.settings.defaultUserQuotaBytes userId delta
      fileSection)
    pure ()
  else if delta < 0 then do
    let _ ← db (QuotaRepo.decrement s.queue.settings.defaultUserQuotaBytes userId (-delta)
      fileSection)
    pure ()
  else pure ()

/-- The `try` body of `overwrite_file`. -/
def commitOverwrite (userId : Uuid) (existing : FileRecord) (finalPath : Str) (data : Bytes)
    (size : Nat) (fileSection : FileSection) (now : Time) : FileM FileRecord := do
  let checksum ← store s.adapter (.write (tmpPath existing.id) data size)
  deleteIfExists s.adapter finalPath
  store s.adapter (.rename (tmpPath existing.id) finalPath)
  match ← db (FileRepo.updateSize existing.id size (some checksum)) with
  | none => Prog.raise .fileNotFound
  | some updated =>
    chargeDelta s userId (size - existing.sizeBytes) fileSection
    s.queue.contentChanged updated now
    pure updated

def overwriteFile (userId : Uuid) (path filename : Str) (data : Bytes) (size : Nat)
    (fileSection : FileSection) (now : Time) : FileM FileRecord := do
  let finalPath := joinPath (normalizePath path) filename
  match ← getRecordBySectionPath s userId finalPath fileSection with
  | none => uploadFile s userId path filename data size fileSection now
  | some existing =>
    ensureOverwriteQuota s userId (size - existing.sizeBytes) fileSection
    (commitOverwrite s userId existing finalPath data size fileSection now).catchWith fun e => do
      deleteIfExists s.adapter (tmpPath existing.id)
      Prog.raise e

/-- `_get_downloadable_record`. -/
def getDownloadableRecord (fileId actorId : Uuid) : FileM FileRecord := do
  match ← db (FileRepo.getById fileId) with
  | none => Prog.raise .fileNotFound
  | some record =>
    if isDownloadable record = false then Prog.raise .fileNotFound
    else if s.fileSection ≠ .shared ∧ record.userId ≠ actorId then Prog.raise .accessDenied
    else pure record

/-- `_to_section_path`. -/
def toSectionPath (record : FileRecord) : Str :=
  let pathPrefix := s.adapter.diskRelativePrefix ++ ['/']
  if pathPrefix.isPrefixOf record.relativePath then
    record.relativePath.drop pathPrefix.length
  else Text.name record.relativePath

/-- `_stream_archived`. -/
def streamArchived (record : FileRecord) : FileM Bytes :=
  match s.archiveManager with
  | none => Prog.raise .fileNotFound
  | some manager => streamDecompressedArchived record manager s.adapter.decryptBlob

/-- The content of a record: its archive, or the object at the path. -/
def readRecord (record : FileRecord) (sectionPath : Str) : FileM Bytes :=
  if record.isArchived then streamArchived s record
  else store s.adapter (.read sectionPath)

/-- `_ensure_can_delete_record`. -/
def ensureCanDeleteRecord (record : FileRecord) (actorId : Uuid) (actorRole : Option Role) :
    FileM Unit :=
  if s.fileSection = .shared then
    if actorRole ≠ some .admin ∧ record.userId ≠ actorId then Prog.raise .accessDenied
    else pure ()
  else if record.userId ≠ actorId then Prog.raise .accessDenied
  else pure ()

/-- The object of a record that is deleted: the archive blob, or the object at its path. -/
def deleteObject (record : FileRecord) : FileM Unit :=
  if record.isArchived then deleteArchivedBlob record
  else deleteIfExists s.adapter (toSectionPath s record)

def deleteFile (actorId fileId : Uuid) (actorRole : Option Role) (now : Time) : FileM Unit := do
  let record ← getDownloadableRecord s fileId actorId
  ensureCanDeleteRecord s record actorId actorRole
  deleteObject s record
  let _ ← db (FileRepo.delete fileId)
  let _ ← db (QuotaRepo.decrement s.queue.settings.defaultUserQuotaBytes record.userId
    record.sizeBytes record.fileSection)
  s.queue.removed [fileId] now

def createDirectory (path name : Str) : FileM Unit :=
  store s.adapter (.mkdir (joinPath (normalizePath path) name))

/-- `new_name` next to the last component of a path. -/
def sibling (path newName : Str) : Str :=
  if Text.parent path = [] then newName else Text.parent path ++ '/' :: newName

def rename (actorId fileId : Uuid) (newName : Str) (now : Time) : FileM FileRecord := do
  let record ← getDownloadableRecord s fileId actorId
  if record.isArchived then Prog.raise .fileNotFound
  else
    let oldSectionPath := toSectionPath s record
    let newSectionPath := sibling oldSectionPath newName
    store s.adapter (.rename oldSectionPath newSectionPath)
    let relativePath ← toDisk s newSectionPath
    match ← db (FileRepo.updateStatus record.id record.status none (some relativePath)
        (some newName)) with
    | none => Prog.raise .fileNotFound
    | some updated =>
      s.queue.rekey updated now
      pure updated

/-- `_is_directory`. -/
def isDirectory (path : Str) : FileM Bool :=
  (do
    let _ ← store s.adapter (.list path)
    pure true).catchWith fun
      | .fileNotFound => pure false
      | e => Prog.raise e

/-- The record of `read_by_path`: that of the path, or of the path without its `.zst`. -/
def recordToRead (actorId : Uuid) (normalized : Str) : FileM (Option FileRecord) := do
  match ← getRecordBySectionPath s actorId normalized s.fileSection with
  | some record => pure (some record)
  | none =>
    if archiveExtension.isSuffixOf normalized then
      getRecordBySectionPath s actorId
        (normalized.take (normalized.length - archiveExtension.length)) s.fileSection
    else pure none

def readByPath (actorId : Uuid) (path : Str) (now : Time) : FileM Bytes := do
  let normalized := normalizePath path
  match ← recordToRead s actorId normalized with
  | some record =>
    let content ← readRecord s record normalized
    let _ ← db (FileRepo.touchLastAccessed record.id now)
    pure content
  | none => store s.adapter (.read normalized)

/-- Within a deleted directory only the archive of a record is left. -/
def deleteArchive (record : FileRecord) : FileM Unit :=
  if record.isArchived then deleteArchivedBlob record else pure ()

/-- The loop of `delete_directory_recursive` over the records it listed. -/
def deleteRecords : List FileRecord → FileM Unit
  | [] => pure ()
  | record :: records => do
    deleteArchive record
    let _ ← db (FileRepo.delete record.id)
    deleteRecords records

def releaseBytes (userId : Uuid) (releasedBytes : Int) : FileM Unit :=
  if releasedBytes = 0 then pure ()
  else do
    let _ ← db (QuotaRepo.decrement s.queue.settings.defaultUserQuotaBytes userId releasedBytes
      s.fileSection)
    pure ()

def deleteDirectoryRecursive (userId : Uuid) (path : Str) (now : Time) : FileM Int := do
  let normalized := normalizePath path
  if normalized = [] then Prog.raise .fileNotFound
  else if (← store s.adapter (.exists normalized)) = false then Prog.raise .fileNotFound
  else if (← isDirectory s normalized) = false then Prog.raise .fileNotFound
  else
    let diskPrefix ← toDisk s normalized
    let records ← db (FileRepo.listActiveUnderPrefix userId s.fileSection diskPrefix)
    let releasedBytes := (records.map (·.sizeBytes)).sum
    store s.adapter (.delete normalized)
    deleteRecords records
    releaseBytes s userId releasedBytes
    s.queue.removed (records.map (·.id)) now
    pure releasedBytes

/-- `delete_by_path` of a path without a record. -/
def deleteUntracked (actorId : Uuid) (normalized : Str) (now : Time) : FileM Unit := do
  if (← store s.adapter (.exists normalized)) = false then Prog.raise .fileNotFound
  else if ← isDirectory s normalized then
    if s.fileSection = .files ∧ normalized ≠ [] then
      let _ ← deleteDirectoryRecursive s actorId normalized now
      pure ()
    else store s.adapter (.delete normalized)
  else store s.adapter (.delete normalized)

def deleteByPath (actorId : Uuid) (path : Str) (actorRole : Option Role) (now : Time) :
    FileM Unit := do
  let normalized := normalizePath path
  match ← getRecordBySectionPath s actorId normalized s.fileSection with
  | some record => deleteFile s actorId record.id actorRole now
  | none => deleteUntracked s actorId normalized now

/-- `_enqueue_renamed_descendants`. -/
def enqueueRenamedDescendants (userId : Uuid) (diskPrefix : Str) (now : Time) : FileM Unit :=
  if s.queue.active then do
    let descendants ← db (FileRepo.listActiveUnderPrefix userId s.fileSection diskPrefix)
    s.queue.rekeyMany descendants now
  else pure ()

/-- `rename_by_path` of a directory. -/
def renameDirectory (userId : Uuid) (normalized newPath : Str) (now : Time) : FileM Unit := do
  let oldDiskPrefix ← toDisk s normalized
  let newDiskPrefix ← toDisk s newPath
  store s.adapter (.rename normalized newPath)
  if s.fileSection = .shared then
    let _ ← db (FileRepo.updateRelativePathPrefixInSection s.fileSection oldDiskPrefix
      newDiskPrefix)
    pure ()
  else
    let _ ← db (FileRepo.updateRelativePathPrefix userId s.fileSection oldDiskPrefix newDiskPrefix)
    enqueueRenamedDescendants s userId newDiskPrefix now

def renameByPath (userId : Uuid) (path newName : Str) (now : Time) :
    FileM (Option FileRecord) := do
  let normalized := normalizePath path
  if (← store s.adapter (.exists normalized)) = false then Prog.raise .fileNotFound
  else if ← isDirectory s normalized then
    renameDirectory s userId normalized (sibling normalized newName) now
    pure none
  else
    match ← getRecordBySectionPath s userId normalized s.fileSection with
    | none => Prog.raise .fileNotFound
    | some record =>
      let renamed ← rename s userId record.id newName now
      pure (some renamed)

/-! `upload_zip_folder`. -/

/-- Where an entry goes. The check refuses absolute names and names with `..`. -/
def entryPath (targetRoot : Str) (info : ZipInfo) : Except Exc Str :=
  let clean := Text.slashes info.filename
  if ['/'].isPrefixOf clean then .error .valueError
  else if "..".toList ∈ Text.components clean then .error .valueError
  else if info.isDir then .ok (joinPath targetRoot (Text.rstripSlash clean))
  else .ok (normalizePath (joinPath targetRoot clean))

def effectivePaths (targetRoot : Str) (entries : List ZipInfo) :
    Except Exc (List (Str × ZipInfo)) :=
  entries.mapM fun info => return (← entryPath targetRoot info, info)

/-- The directories of the archive that are not there yet. -/
def makeDirectories : List (Str × ZipInfo) → List Str → FileM (List Str)
  | [], created => pure created
  | (sectionPath, info) :: rest, created =>
    if info.isDir ∧ sectionPath ∉ created then do
      store s.adapter (.mkdir sectionPath)
      makeDirectories rest (sectionPath :: created)
    else makeDirectories rest created

/-- The `try` body of one entry; `false` when its record has disappeared. -/
def extractEntry (userId : Uuid) (sectionPath : Str) (info : ZipInfo) (now : Time) :
    FileM Bool := do
  let diskRelativePath ← toDisk s sectionPath
  let id ← uuid4
  let record ← db (FileRepo.create id userId diskRelativePath
    (Text.name (Text.slashes info.filename)) info.fileSize (s.fileSection = .private)
    s.fileSection .pending now)
  let checksum ← store s.adapter (.write (tmpPath record.id) info.content info.fileSize)
  store s.adapter (.rename (tmpPath record.id) sectionPath)
  let relativePath ← toDisk s sectionPath
  match ← db (FileRepo.updateStatus record.id .committed (some checksum) (some relativePath)
      none) with
  | none =>
    let _ ← db (FileRepo.delete record.id)
    pure false
  | some committed =>
    let _ ← db (QuotaRepo.increment s.queue.settings.defaultUserQuotaBytes userId info.fileSize
      s.fileSection)
    s.queue.upload committed now
    pure true

/-- The parent directory of an entry is made once. -/
def ensureParent (sectionPath : Str) (created : List Str) : FileM (List Str) :=
  let parent := Text.parent sectionPath
  if parent ≠ [] ∧ parent ∉ created then do
    store s.adapter (.mkdir parent)
    pure (parent :: created)
  else pure created

/-- The loop over the file entries. A failed entry is counted and skipped. -/
def extractAll (userId : Uuid) (now : Time) :
    List (Str × ZipInfo) → List Str → Nat × Nat → FileM ZipStats
  | [], created, (files, totalBytes) => pure ⟨files, created.length, totalBytes⟩
  | (sectionPath, info) :: rest, created, (files, totalBytes) =>
    if info.isDir then extractAll userId now rest created (files, totalBytes)
    else do
      let created ← ensureParent s sectionPath created
      match ← (extractEntry s userId sectionPath info now).attempt with
      | .ok true =>
        extractAll userId now rest created (files + 1, totalBytes + info.fileSize)
      | _ => extractAll userId now rest created (files, totalBytes)

/-- `upload_zip_folder`; `zip` is `none` when the upload is no ZIP archive. -/
def uploadZipFolder (userId : Uuid) (path zipFilename : Str) (zip : Option (List ZipInfo))
    (totalUncompressedBytes available : Int) (now : Time) : FileM ZipStats :=
  if available < totalUncompressedBytes then
    Prog.raise (.quotaExceeded (some available))
  else match zip with
    | none => Prog.raise .valueError
    | some [] => Prog.raise .valueError
    | some entries => do
      let targetRoot := joinPath (normalizePath path) (Text.stem zipFilename)
      let paths ← ofExcept (effectivePaths targetRoot entries)
      store s.adapter (.mkdir targetRoot)
      let created ← makeDirectories s paths [targetRoot]
      extractAll s userId now paths created (0, 0)

end FileService
end WebStorage
