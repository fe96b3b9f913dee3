import WebStorage.Requests

set_option autoImplicit false

/-! What the services call: an inventory of the repository calls that change records. What holds of
each call of the inventory holds of every command that a request issues. -/
namespace WebStorage
open Effect Effect.Prog

/-- A property of commands that all calls at one moment have. -/
structure Inventory (now : Time) (P : FileCmd → Prop) : Prop where
  uuid4 : P .uuid4
  store : ∀ adapter op, P (.store adapter op)
  quiet : ∀ {α : Type} (f : DbOp α), (∀ d, (f d).2.records = d.records) → P (.db f)
  create : ∀ id userId relativePath originalName sizeBytes isEncrypted fileSection,
    P (.db (FileRepo.create id userId relativePath originalName sizeBytes isEncrypted fileSection
      .pending now))
  updateStatus : ∀ id status checksum relativePath originalName,
    P (.db (FileRepo.updateStatus id status checksum relativePath originalName))
  updateSize : ∀ id sizeBytes checksum, P (.db (FileRepo.updateSize id sizeBytes checksum))
  heal : ∀ owner fileSection relativePath originalName,
    P (.db (FileRepo.heal owner fileSection relativePath originalName))
  movePrefix : ∀ owner fileSection oldPrefix newPrefix,
    P (.db (FileRepo.movePrefix owner fileSection oldPrefix newPrefix))
  touchLastAccessed : ∀ id, P (.db (FileRepo.touchLastAccessed id now))
  delete : ∀ id, P (.db (FileRepo.delete id))
  deleteAllByUserSection : ∀ userId fileSection,
    P (.db (FileRepo.deleteAllByUserSection userId fileSection))
  markArchived : ∀ id archivePath, P (.db (FileRepo.markArchived id archivePath))
  hardDelete : ∀ id, P (.db (FileRepo.hardDelete id))

/-- Every command of the program has the property. -/
abbrev Prog.Only {α : Type} (P : FileCmd → Prop) (p : FileM α) : Prop := p.All P fun _ _ => True

section
variable {α β : Type} {P : FileCmd → Prop} {now : Time}

namespace Inventory
variable (h : Inventory now P)
include h

theorem books {p : FileM α} (hp : KeepsBooks p) : Prog.Only P p := by
  apply all_mono hp
  intro c hc
  cases c with
  | uuid4 => exact h.uuid4
  | db f => exact h.quiet f fun d => (hc d).1
  | store adapter op => exact h.store adapter op

theorem stores {p : FileM α} (hp : OnlyStores p) : Prog.Only P p := h.books hp.keepsBooks

omit h in
theorem call {f : DbOp α} (hf : P (.db f)) : Prog.Only P (db f) := ⟨hf, fun _ _ => all_done _⟩

theorem reads {f : DbOp α} (hf : ∀ d, (f d).2 = d) : Prog.Only P (db f) :=
  call (h.quiet f fun d => by rw [hf d])

theorem charge (limit : Int) (userId : Uuid) (f : QuotaUsage → QuotaUsage) :
    Prog.Only P (db (QuotaRepo.modify limit userId f)) :=
  call (h.quiet _ fun _ => rfl)

section
-- The paths play no part here, and must not be evaluated.
attribute [local irreducible] Adapter.toDiskRelativePath normalizePath

theorem lookup (s : FileService) (userId : Uuid) (sectionPath : Str) (fileSection : FileSection) :
    Prog.Only P (s.getRecordBySectionPath userId sectionPath fileSection) := by
  have hdownloadable : ∀ owner path, Prog.Only P (db (FileRepo.getDownloadable owner path
      fileSection)) := fun _ _ => h.reads fun d => rfl
  apply all_bind (all_done _)
  intro path
  dsimp only
  split
  · apply all_bind (hdownloadable _ _)
    intro found
    split
    · trivial
    · exact call (h.heal _ _ _ _)
  · apply all_bind (hdownloadable _ _)
    intro found
    split
    · trivial
    · exact call (h.heal _ _ _ _)

theorem getDownloadableRecord (s : FileService) (fileId actorId : Uuid) :
    Prog.Only P (s.getDownloadableRecord fileId actorId) := by
  apply all_bind (h.reads fun d => rfl)
  intro found
  split
  · trivial
  · split_ifs <;> trivial

attribute [local irreducible] FileService.getRecordBySectionPath FileService.getDownloadableRecord
  FileService.isDirectory FileService.deleteObject

theorem chargeDelta (s : FileService) (userId : Uuid) (delta : Int) (fileSection : FileSection) :
    Prog.Only P (s.chargeDelta userId delta fileSection) := by
  unfold FileService.chargeDelta
  split
  · exact all_bind (h.charge _ _ _) fun _ => all_done _
  · split
    · exact all_bind (h.charge _ _ _) fun _ => all_done _
    · trivial

theorem getByUserId (limit : Int) (userId : Uuid) :
    Prog.Only P (db (QuotaRepo.getByUserId limit userId)) := by
  apply call
  apply h.quiet
  intro d
  unfold QuotaRepo.getByUserId
  split <;> rfl

theorem ensureOverwriteQuota (s : FileService) (userId : Uuid) (extraBytes : Int)
    (fileSection : FileSection) :
    Prog.Only P (s.ensureOverwriteQuota userId extraBytes fileSection) := by
  unfold FileService.ensureOverwriteQuota
  split
  · trivial
  · apply all_bind (h.getByUserId _ _)
    intro usage
    split_ifs <;> trivial

/-! The uploads. -/

/-- A committed record is charged and queued. -/
theorem settle (q : Enqueue) (record : FileRecord) (limit : Int) (userId : Uuid) (sizeBytes : Int)
    (fileSection : FileSection) (answer : α) :
    Prog.Only P ((db (QuotaRepo.increment limit userId sizeBytes fileSection)).bind fun _ =>
      (q.upload record now).bind fun _ => done (.ok answer)) := by
  apply all_bind (h.charge _ _ _)
  intro _
  exact all_bind (h.books (keepsBooks_enqueueUpload q record now)) fun _ => all_done _

theorem commitUpload (s : FileService) (record : FileRecord) (finalPath : Str) (data : Bytes)
    (size : Nat) : Prog.Only P (s.commitUpload record finalPath data size now) := by
  unfold FileService.commitUpload
  apply all_bind (h.stores (onlyStores_store _ _))
  intro checksum
  apply all_bind (h.stores (onlyStores_store _ _))
  intro _
  apply all_bind (all_done _)
  intro relativePath
  apply all_bind (call (h.updateStatus _ _ _ _ _))
  intro committed
  split
  · trivial
  · exact h.settle _ _ _ _ _ _ _

theorem uploadFile (s : FileService) (userId : Uuid) (path filename : Str) (data : Bytes)
    (size : Nat) (fileSection : FileSection) :
    Prog.Only P (s.uploadFile userId path filename data size fileSection now) := by
  unfold FileService.uploadFile
  apply all_bind (all_done _)
  intro diskRelativePath
  apply all_issue_bind h.uuid4
  intro id _
  apply all_bind (call (h.create _ _ _ _ _ _ _))
  intro record
  apply all_catchWith (h.commitUpload _ _ _ _ _)
  intro e
  apply all_bind (h.stores (onlyStores_deleteIfExists _ _))
  intro _
  exact all_bind (call (h.delete _)) fun _ => all_raise e

theorem commitOverwrite (s : FileService) (userId : Uuid) (existing : FileRecord) (finalPath : Str)
    (data : Bytes) (size : Nat) (fileSection : FileSection) :
    Prog.Only P (s.commitOverwrite userId existing finalPath data size fileSection now) := by
  unfold FileService.commitOverwrite
  apply all_bind (h.stores (onlyStores_store _ _))
  intro checksum
  apply all_bind (h.stores (onlyStores_deleteIfExists _ _))
  intro _
  apply all_bind (h.stores (onlyStores_store _ _))
  intro _
  apply all_bind (call (h.updateSize _ _ _))
  intro updated
  split
  · trivial
  · apply all_bind (h.chargeDelta _ _ _ _)
    intro _
    exact all_bind (h.books (keepsBooks_enqueueContentChanged _ _ _)) fun _ => all_done _

theorem overwriteFile (s : FileService) (userId : Uuid) (path filename : Str) (data : Bytes)
    (size : Nat) (fileSection : FileSection) :
    Prog.Only P (s.overwriteFile userId path filename data size fileSection now) := by
  unfold FileService.overwriteFile
  apply all_bind (h.lookup _ _ _ _)
  intro found
  cases found with
  | none => exact h.uploadFile _ _ _ _ _ _ _
  | some existing =>
    apply all_bind (h.ensureOverwriteQuota _ _ _ _)
    intro _
    apply all_catchWith (h.commitOverwrite _ _ _ _ _ _ _)
    intro e
    exact all_bind (h.stores (onlyStores_deleteIfExists _ _)) fun _ => all_raise e

theorem extractEntry (s : FileService) (userId : Uuid) (sectionPath : Str) (info : ZipInfo) :
    Prog.Only P (s.extractEntry userId sectionPath info now) := by
  unfold FileService.extractEntry
  apply all_bind (all_done _)
  intro diskRelativePath
  apply all_issue_bind h.uuid4
  intro id _
  apply all_bind (call (h.create _ _ _ _ _ _ _))
  intro record
  apply all_bind (h.stores (onlyStores_store _ _))
  intro checksum
  apply all_bind (h.stores (onlyStores_store _ _))
  intro _
  apply all_bind (all_done _)
  intro relativePath
  apply all_bind (call (h.updateStatus _ _ _ _ _))
  intro committed
  split
  · exact all_bind (call (h.delete _)) fun _ => all_done _
  · exact h.settle _ _ _ _ _ _ _

theorem extractAll (s : FileService) (userId : Uuid) (paths : List (Str × ZipInfo))
    (created : List Str) (counts : Nat × Nat) :
    Prog.Only P (s.extractAll userId now paths created counts) := by
  induction paths generalizing created counts with
  | nil => trivial
  | cons entry rest ih =>
    obtain ⟨sectionPath, info⟩ := entry
    obtain ⟨files, totalBytes⟩ := counts
    unfold FileService.extractAll
    split
    · exact ih _ _
    · apply all_bind (h.stores (onlyStores_ensureParent _ _ _))
      intro created
      apply all_bind (all_attempt (h.extractEntry _ _ _ _))
      intro outcome
      split <;> exact ih _ _

theorem uploadZipFolder (s : FileService) (userId : Uuid) (path zipFilename : Str)
    (zip : Option (List ZipInfo)) (totalUncompressedBytes available : Int) :
    Prog.Only P (s.uploadZipFolder userId path zipFilename zip totalUncompressedBytes available
      now) := by
  unfold FileService.uploadZipFolder
  split
  · trivial
  split
  · trivial
  · trivial
  · apply all_bind (all_done _)
    intro paths
    apply all_bind (h.stores (onlyStores_store _ _))
    intro _
    apply all_bind (h.stores (onlyStores_makeDirectories _ _ _))
    intro created
    exact h.extractAll _ _ _ _ _

theorem uploadPhoto (s : PhotoService) (userId : Uuid) (filename : Str) (data : Bytes)
    (size : Nat) : Prog.Only P (s.uploadPhoto userId filename data size now) := by
  unfold PhotoService.uploadPhoto PhotoService.commitPhoto
  dsimp only
  split
  · trivial
  apply all_issue_bind h.uuid4
  intro id _
  apply all_bind (call (h.create _ _ _ _ _ _ _))
  intro record
  apply all_bind (all_done _)
  intro diskRelativePath
  apply all_catchWith
  · apply all_bind (h.stores (onlyStores_store _ _))
    intro checksum
    apply all_bind (call (h.updateStatus _ _ _ _ _))
    intro committed
    split
    · trivial
    · exact h.settle _ _ _ _ _ _ _
  · intro e
    apply all_bind (h.stores (onlyStores_deleteIfExists _ _))
    intro _
    exact all_bind (call (h.delete _)) fun _ => all_raise e

/-! Reads and renames. -/

theorem recordToRead (s : FileService) (actorId : Uuid) (normalized : Str) :
    Prog.Only P (s.recordToRead actorId normalized) := by
  unfold FileService.recordToRead
  apply all_bind (h.lookup _ _ _ _)
  intro found
  split
  · trivial
  · split
    · exact h.lookup _ _ _ _
    · trivial

theorem readRecord (s : FileService) (record : FileRecord) (sectionPath : Str) :
    Prog.Only P (s.readRecord record sectionPath) := by
  apply h.stores
  unfold FileService.readRecord
  split
  · exact onlyStores_streamArchived _ _
  · exact onlyStores_store _ _

theorem readByPath (s : FileService) (actorId : Uuid) (path : Str) :
    Prog.Only P (s.readByPath actorId path now) := by
  unfold FileService.readByPath
  apply all_bind (h.recordToRead _ _ _)
  intro found
  split
  · apply all_bind (h.readRecord _ _ _)
    intro content
    exact all_bind (call (h.touchLastAccessed _)) fun _ => all_done _
  · exact h.stores (onlyStores_store _ _)

theorem rename (s : FileService) (actorId fileId : Uuid) (newName : Str) :
    Prog.Only P (s.rename actorId fileId newName now) := by
  unfold FileService.rename
  apply all_bind (h.getDownloadableRecord _ _ _)
  intro record
  split
  · trivial
  · apply all_bind (h.stores (onlyStores_store _ _))
    intro _
    apply all_bind (all_done _)
    intro relativePath
    apply all_bind (call (h.updateStatus _ _ _ _ _))
    intro updated
    split
    · trivial
    · exact all_bind (h.books (keepsBooks_enqueueRekey _ _ _)) fun _ => all_done _

theorem renameDirectory (s : FileService) (userId : Uuid) (normalized newPath : Str) :
    Prog.Only P (s.renameDirectory userId normalized newPath now) := by
  unfold FileService.renameDirectory FileService.enqueueRenamedDescendants
  apply all_bind (all_done _)
  intro oldDiskPrefix
  apply all_bind (all_done _)
  intro newDiskPrefix
  apply all_bind (h.stores (onlyStores_store _ _))
  intro _
  split
  · exact all_bind (call (h.movePrefix _ _ _ _)) fun _ => all_done _
  · apply all_bind (call (h.movePrefix _ _ _ _))
    intro _
    split
    · apply all_bind (h.reads fun d => rfl)
      intro descendants
      exact h.books (keepsBooks_enqueueRekeyMany _ _ _)
    · trivial

theorem renameByPath (s : FileService) (userId : Uuid) (path newName : Str) :
    Prog.Only P (s.renameByPath userId path newName now) := by
  unfold FileService.renameByPath
  apply all_bind (h.stores (onlyStores_store _ _))
  intro present
  split
  · trivial
  apply all_bind (h.stores (onlyStores_isDirectory _ _))
  intro directory
  split
  · exact all_bind (h.renameDirectory _ _ _ _) fun _ => all_done _
  apply all_bind (h.lookup _ _ _ _)
  intro found
  split
  · trivial
  · exact all_bind (h.rename _ _ _ _) fun _ => all_done _

/-! Deletions. -/

theorem deleteFile (s : FileService) (actorId fileId : Uuid) (actorRole : Option Role) :
    Prog.Only P (s.deleteFile actorId fileId actorRole now) := by
  unfold FileService.deleteFile
  apply all_bind (h.getDownloadableRecord _ _ _)
  intro record
  apply all_bind (h.stores (onlyStores_ensureCanDelete _ _ _ _))
  intro _
  apply all_bind (h.stores (onlyStores_deleteObject _ _))
  intro _
  apply all_bind (call (h.delete _))
  intro _
  exact all_bind (h.charge _ _ _) fun _ => h.books (keepsBooks_enqueueRemoved _ _ _)

theorem deleteRecords (records : List FileRecord) :
    Prog.Only P (FileService.deleteRecords records) := by
  induction records with
  | nil => trivial
  | cons record records ih =>
    unfold FileService.deleteRecords FileService.deleteArchive
    apply all_bind
    · split
      · exact h.stores (onlyStores_deleteArchivedBlob _)
      · trivial
    · intro _
      exact all_bind (call (h.delete _)) fun _ => ih

theorem deleteDirectoryRecursive (s : FileService) (userId : Uuid) (path : Str) :
    Prog.Only P (s.deleteDirectoryRecursive userId path now) := by
  unfold FileService.deleteDirectoryRecursive FileService.releaseBytes
  dsimp only
  split
  · trivial
  apply all_bind (h.stores (onlyStores_store _ _))
  intro present
  split
  · trivial
  apply all_bind (h.stores (onlyStores_isDirectory _ _))
  intro directory
  split
  · trivial
  apply all_bind (all_done _)
  intro diskPrefix
  apply all_bind (h.reads fun d => rfl)
  intro records
  apply all_bind (h.stores (onlyStores_store _ _))
  intro _
  apply all_bind (h.deleteRecords _)
  intro _
  apply all_bind
  · split
    · trivial
    · exact all_bind (h.charge _ _ _) fun _ => all_done _
  · intro _
    exact all_bind (h.books (keepsBooks_enqueueRemoved _ _ _)) fun _ => all_done _

attribute [local irreducible] FileService.deleteDirectoryRecursive

theorem deleteByPath (s : FileService) (actorId : Uuid) (path : Str) (actorRole : Option Role) :
    Prog.Only P (s.deleteByPath actorId path actorRole now) := by
  unfold FileService.deleteByPath FileService.deleteUntracked
  apply all_bind (h.lookup _ _ _ _)
  intro found
  split
  · exact h.deleteFile _ _ _ _
  apply all_bind (h.stores (onlyStores_store _ _))
  intro present
  split
  · trivial
  apply all_bind (h.stores (onlyStores_isDirectory _ _))
  intro directory
  split
  · split
    · exact all_bind (h.deleteDirectoryRecursive _ _ _) fun _ => all_done _
    · exact h.stores (onlyStores_store _ _)
  · exact h.stores (onlyStores_store _ _)

theorem photoRecord (userId fileId : Uuid) :
    Prog.Only P (PhotoService.getDownloadableRecord userId fileId) := by
  unfold PhotoService.getDownloadableRecord
  apply all_bind (h.reads fun d => rfl)
  intro found
  split
  · trivial
  · split_ifs <;> trivial

theorem deletePhoto (s : PhotoService) (userId fileId : Uuid) :
    Prog.Only P (s.deletePhoto userId fileId now) := by
  unfold PhotoService.deletePhoto PhotoService.deleteObject
  apply all_bind (h.photoRecord _ _)
  intro record
  apply all_bind
  · split
    · exact h.stores (onlyStores_deleteArchivedBlob _)
    · exact h.stores (onlyStores_deleteIfExists _ _)
  intro _
  apply all_bind (h.stores (onlyStores_deleteIfExists _ _))
  intro _
  apply all_bind (call (h.delete _))
  intro _
  exact all_bind (h.charge _ _ _) fun _ => h.books (keepsBooks_enqueueRemoved _ _ _)

theorem resetPrivateStorage (settings : Settings) (inner : Adapter) (userId : Uuid) :
    Prog.Only P (WebStorage.resetPrivateStorage settings inner userId) := by
  unfold WebStorage.resetPrivateStorage
  apply all_bind (h.stores (onlyStores_store _ _))
  intro _
  apply all_bind
  · apply all_catchWith (h.stores (onlyStores_deleteIfExists _ _))
    intro e
    split <;> trivial
  intro _
  apply all_bind (h.stores (onlyStores_store _ _))
  intro _
  apply all_bind (call (h.deleteAllByUserSection _ _))
  intro _
  exact all_bind (h.charge _ _ _) fun _ => all_done _

/-! The jobs. -/

theorem archiveRecord (s : ArchiveService) (record : FileRecord) :
    Prog.Only P (s.archiveRecord record now) := by
  unfold ArchiveService.archiveRecord
  apply all_bind (h.stores (onlyStores_store _ _))
  intro present
  split
  · trivial
  apply all_bind (h.stores (onlyStores_store _ _))
  intro source
  apply all_bind (h.stores (onlyStores_store _ _))
  intro _
  apply all_bind (h.stores (onlyStores_store _ _))
  intro _
  apply all_bind (call (h.markArchived _ _))
  intro found
  split
  · trivial
  · exact all_bind (h.books (keepsBooks_enqueueArchived _ _ _)) fun _ => all_done _

theorem archiveAll (s : ArchiveService) (records : List FileRecord) (report : ArchiveReport) :
    Prog.Only P (s.archiveAll now records report) := by
  induction records generalizing report with
  | nil => trivial
  | cons record records ih =>
    unfold ArchiveService.archiveAll
    apply all_bind (all_attempt (h.archiveRecord s record))
    intro outcome
    split <;> exact ih _

theorem runDailyArchive (s : ArchiveService) : Prog.Only P (s.runDailyArchive now) := by
  unfold ArchiveService.runDailyArchive
  apply all_bind (h.reads fun d => rfl)
  intro candidates
  apply all_bind (h.archiveAll _ _ _)
  intro report
  apply all_bind (h.reads fun d => rfl)
  intro archived
  exact all_bind (h.stores (onlyStores_totalArchivedBytes _ _)) fun _ => all_done _

theorem cleanupAll (records : List FileRecord) (deleted : Nat) :
    Prog.Only P (Maintenance.cleanupAll records deleted) := by
  induction records generalizing deleted with
  | nil => trivial
  | cons record records ih =>
    unfold Maintenance.cleanupAll Maintenance.deleteTmpFile
    apply all_bind
    · apply all_attempt
      apply all_bind
      · apply all_catchWith (h.stores (onlyStores_deleteIfExists _ _))
        intro e
        split <;> trivial
      · intro _
        exact call (h.hardDelete _)
    · intro outcome
      split <;> exact ih _

theorem reconcileAll (settings : Settings) (userIds : List Uuid) (fixed : Nat) :
    Prog.Only P (Maintenance.reconcileAll settings userIds fixed) := by
  induction userIds generalizing fixed with
  | nil => trivial
  | cons userId userIds ih =>
    unfold Maintenance.reconcileAll Maintenance.reconcileUser
    apply all_bind
    · apply all_bind (h.reads fun d => rfl)
      intro realTotal
      apply all_bind (h.getByUserId _ _)
      intro usage
      split
      · trivial
      · exact all_bind (h.charge _ _ _) fun _ => all_done _
    · intro corrected
      exact ih _

/-- Every command of a request is one of the inventory. -/
theorem program (request : Request) : Prog.Only P (request.program now) := by
  have hignore : ∀ {γ : Type} {p : FileM γ}, Prog.Only P p → Prog.Only P (ignore p) :=
    fun hp => all_bind hp fun _ => all_done _
  cases request with
  | uploadFile s userId path filename data size fileSection =>
    exact hignore (h.uploadFile _ _ _ _ _ _ _)
  | overwriteFile s userId path filename data size fileSection =>
    exact hignore (h.overwriteFile _ _ _ _ _ _ _)
  | uploadZipFolder s userId path zipFilename zip total available =>
    exact hignore (h.uploadZipFolder _ _ _ _ _ _ _)
  | createDirectory s path name => exact h.stores (onlyStores_store _ _)
  | rename s actorId fileId newName => exact hignore (h.rename _ _ _ _)
  | renameByPath s userId path newName => exact hignore (h.renameByPath _ _ _ _)
  | readByPath s actorId path => exact hignore (h.readByPath _ _ _)
  | deleteFile s actorId fileId actorRole => exact h.deleteFile _ _ _ _
  | deleteByPath s actorId path actorRole => exact h.deleteByPath _ _ _ _
  | uploadPhoto s userId filename data size => exact hignore (h.uploadPhoto _ _ _ _ _)
  | deletePhoto s userId fileId => exact h.deletePhoto _ _ _
  | resetPrivateStorage settings inner userId => exact h.resetPrivateStorage _ _ _
  | runDailyArchive s => exact hignore (h.runDailyArchive _)
  | cleanupPendingRecords =>
    apply hignore
    exact all_bind (h.reads fun d => rfl) fun records => h.cleanupAll _ _
  | cleanupTmpDirs => exact hignore (h.stores (onlyStores_cleanupTmpDirs now))
  | reconcileQuotas settings =>
    apply hignore
    apply all_bind (h.reads fun d => rfl)
    intro committed
    apply all_bind (h.reads fun d => rfl)
    intro all
    exact all_bind (h.reconcileAll _ _ _) fun _ => all_done _

end
end Inventory
end
end WebStorage
