import WebStorage.FileService

set_option autoImplicit false

/-! The photo and private services, and the scheduled jobs over the stored files. -/
namespace WebStorage
open Effect

structure PhotoService where
  adapter : Adapter
  archiveManager : Option ArchiveManager
  queue : Enqueue

namespace PhotoService
variable (s : PhotoService)

def supportedExtensions : List Str :=
  [".jpg", ".jpeg", ".png", ".webp", ".gif", ".heic", ".heif"].map String.toList

/-- `_original_path`; the extension of a supported photo is not empty. -/
def originalPath (fileId : Uuid) (extension : Str) : Str :=
  "originals/".toList ++ fileId.text ++ extension

def previewPath (fileId : Uuid) : Str :=
  "previews/".toList ++ fileId.text ++ "_thumb.jpg".toList

/-- The `try` body of `upload_photo`. The preview is generated by a task of its own. -/
def commitPhoto (record : FileRecord) (originalSectionPath diskRelativePath : Str) (data : Bytes)
    (size : Nat) (now : Time) : FileM FileRecord := do
  let checksum ← store s.adapter (.write originalSectionPath data size)
  match ← db (FileRepo.updateStatus record.id .committed (some checksum) (some diskRelativePath)
      none) with
  | none => Prog.raise .fileNotFound
  | some committed =>
    let _ ← db (QuotaRepo.increment s.queue.settings.defaultUserQuotaBytes record.userId size
      .photos)
    s.queue.upload committed now
    pure committed

def uploadPhoto (userId : Uuid) (filename : Str) (data : Bytes) (size : Nat) (now : Time) :
    FileM FileRecord := do
  let extension := Text.lower (Text.suffix filename)
  if extension ∉ supportedExtensions then Prog.raise .unsupportedFormat
  else
    let id ← uuid4
    let record ← db (FileRepo.create id userId [] filename size false .photos .pending now)
    let originalSectionPath := originalPath record.id extension
    let diskRelativePath ← ofExcept (s.adapter.toDiskRelativePath originalSectionPath)
    (commitPhoto s record originalSectionPath diskRelativePath data size now).catchWith
      fun e => do
        deleteIfExists s.adapter originalSectionPath
        let _ ← db (FileRepo.delete record.id)
        Prog.raise e

/-- `_get_downloadable_record`. -/
def getDownloadableRecord (userId fileId : Uuid) : FileM FileRecord := do
  match ← db (FileRepo.getById fileId) with
  | none => Prog.raise .fileNotFound
  | some record =>
    if isDownloadable record = false then Prog.raise .fileNotFound
    else if record.userId ≠ userId then Prog.raise .accessDenied
    else if record.fileSection ≠ .photos then Prog.raise .fileNotFound
    else pure record

/-- `_to_section_path`. -/
def toSectionPath (record : FileRecord) : Str :=
  let pathPrefix := s.adapter.diskRelativePrefix ++ ['/']
  if pathPrefix.isPrefixOf record.relativePath then
    record.relativePath.drop pathPrefix.length
  else Text.name record.relativePath

/-- The object of a photo that is deleted. -/
def deleteObject (record : FileRecord) : FileM Unit :=
  if record.isArchived then deleteArchivedBlob record
  else deleteIfExists s.adapter (toSectionPath s record)

def deletePhoto (userId fileId : Uuid) (now : Time) : FileM Unit := do
  let record ← getDownloadableRecord userId fileId
  deleteObject s record
  deleteIfExists s.adapter (previewPath fileId)
  let _ ← db (FileRepo.delete fileId)
  let _ ← db (QuotaRepo.decrement s.queue.settings.defaultUserQuotaBytes userId record.sizeBytes
    .photos)
  s.queue.removed [fileId] now

end PhotoService

/-- `reset_storage`, with the adapter of the user's private section without encryption. -/
def resetPrivateStorage (settings : Settings) (inner : Adapter) (userId : Uuid) : FileM Unit := do
  store inner (.mkdir [])
  (deleteIfExists inner []).catchWith fun
    | .fileNotFound => pure ()
    | e => Prog.raise e
  store inner (.mkdir [])
  let _ ← db (FileRepo.deleteAllByUserSection userId .private)
  let _ ← db (QuotaRepo.resetPrivateUsage settings.defaultUserQuotaBytes userId)
  pure ()

structure ArchiveService where
  archiveManager : ArchiveManager
  queue : Enqueue

structure ArchiveReport where
  processed : Nat
  skipped : Nat
  errors : Nat
deriving DecidableEq

namespace ArchiveService
variable (s : ArchiveService)

def archivePathOf (record : FileRecord) : Str := record.relativePath ++ archiveExtension

/-- `_archive_record`. -/
def archiveRecord (record : FileRecord) (now : Time) : FileM Bool := do
  if (← store diskRootAdapter (.exists record.relativePath)) = false then pure false
  else
    let source ← store diskRootAdapter (.read record.relativePath)
    let archive := s.archiveManager.compress source
    let _ ← store diskRootAdapter (.write (archivePathOf record) archive archive.length)
    store diskRootAdapter (.delete record.relativePath)
    match ← db (FileRepo.markArchived record.id (archivePathOf record)) with
    | none => pure false
    | some _ =>
      s.queue.archived record now
      pure true

/-- The loop over the candidates: an exception of one record is counted. -/
def archiveAll (now : Time) : List FileRecord → ArchiveReport → FileM ArchiveReport
  | [], report => pure report
  | record :: records, report => do
    match ← (archiveRecord s record now).attempt with
    | .ok true => archiveAll now records { report with processed := report.processed + 1 }
    | .ok false => archiveAll now records { report with skipped := report.skipped + 1 }
    | .error _ => archiveAll now records { report with errors := report.errors + 1 }

/-- `_compute_total_archived_bytes`. -/
def totalArchivedBytes : List FileRecord → Nat → FileM Nat
  | [], total => pure total
  | record :: records, total =>
    match record.archivePath with
    | none => totalArchivedBytes records total
    | some archivePath =>
      if archivePath = [] then totalArchivedBytes records total
      else do
        let size ← (store diskRootAdapter (.getSize archivePath)).catchWith fun
          | .fileNotFound => pure 0
          | e => Prog.raise e
        totalArchivedBytes records (total + size)

/-- Microseconds of a day. -/
def day : Int := 86400 * 1000000

def runDailyArchive (now : Time) : FileM ArchiveReport := do
  let cutoff := now - s.queue.settings.archiveDaysThreshold * day
  let candidates ← db (FileRepo.listCandidatesForArchive cutoff)
  let report ← archiveAll s now candidates ⟨0, 0, 0⟩
  let archived ← db FileRepo.listArchivedRecords
  let _ ← totalArchivedBytes archived 0
  pure report

end ArchiveService

namespace Maintenance

def hour : Int := 3600 * 1000000

def sectionDiskPrefix (record : FileRecord) : Str :=
  let own := fun section_ : String => "users/".toList ++ record.userId.text ++ section_.toList
  match record.fileSection with
  | .files => own "/files"
  | .photos => own "/photos/originals"
  | .private => own "/private"
  | .shared => "shared".toList
  | .resumes => own "/resumes"
  | .generated => own "/generated"

/-- `_resolve_tmp_logical_path`. -/
def tmpLogicalPath (record : FileRecord) : Str :=
  sectionDiskPrefix record ++ '/' :: tmpDir ++ '/' :: record.id.text

/-- `_delete_tmp_file`. -/
def deleteTmpFile (record : FileRecord) : FileM Unit :=
  (deleteIfExists diskRootAdapter (tmpLogicalPath record)).catchWith fun
    | .fileNotFound => pure ()
    | e => Prog.raise e

def cleanupAll : List FileRecord → Nat → FileM Nat
  | [], deleted => pure deleted
  | record :: records, deleted => do
    match ← (do
        deleteTmpFile record
        db (FileRepo.hardDelete record.id)).attempt with
    | .ok true => cleanupAll records (deleted + 1)
    | _ => cleanupAll records deleted

def cleanupPendingRecords (now : Time) : FileM Nat := do
  let staleRecords ← db (FileRepo.listStalePending (now - hour))
  cleanupAll staleRecords 0

def deleteTmpEntries : List Str → Nat → FileM Nat
  | [], deleted => pure deleted
  | path :: paths, deleted => do
    match ← (store diskRootAdapter (.delete path)).attempt with
    | .ok _ => deleteTmpEntries paths (deleted + 1)
    | .error _ => deleteTmpEntries paths deleted

/-- `cleanup_tmp_dirs` on the one volume. -/
def cleanupTmpDirs (now : Time) : FileM Nat := do
  let stalePaths ← store diskRootAdapter (.listStaleTmpEntryPaths (now - hour))
  deleteTmpEntries stalePaths 0

def quotaMismatchThresholdBytes : Int := 1000000

/-- One turn of the loop of `reconcile_quotas`: whether the user's total was corrected. -/
def reconcileUser (settings : Settings) (userId : Uuid) : FileM Bool := do
  let realTotal ← db (FileRepo.sumCommittedBytesByUser userId)
  let usage ← db (QuotaRepo.getByUserId settings.defaultUserQuotaBytes userId)
  if |realTotal - usage.totalBytes| ≤ quotaMismatchThresholdBytes then pure false
  else
    let _ ← db (QuotaRepo.updateTotalBytes settings.defaultUserQuotaBytes userId realTotal)
    pure true

def reconcileAll (settings : Settings) : List Uuid → Nat → FileM Nat
  | [], fixed => pure fixed
  | userId :: userIds, fixed => do
    let corrected ← reconcileUser settings userId
    reconcileAll settings userIds (if corrected then fixed + 1 else fixed)

/-- `reconcile_quotas`: how many users were checked, and how many totals were corrected. -/
def reconcileQuotas (settings : Settings) : FileM (Nat × Nat) := do
  let committed ← db FileRepo.listDistinctUserIdsWithCommitted
  let all ← db QuotaRepo.listAllUserIds
  let userIds := dictFromKeys (committed ++ all)
  let fixed ← reconcileAll settings userIds 0
  pure (userIds.length, fixed)

end Maintenance
end WebStorage
