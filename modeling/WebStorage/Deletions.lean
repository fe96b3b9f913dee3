import WebStorage.PathLookup
import WebStorage.AdminService
import WebStorage.IndexingRuns

set_option autoImplicit false

/-! Everything that deletes files, next to the bucket: which objects it takes away, and which
queue rows stand for files that are no longer there. -/
namespace WebStorage.DeletedUnindexed
open Effect Effect.Prog

/-! ### The bucket -/

/-- The key, or a key of the directory of that name. -/
def Under (key k : Str) : Prop := k = key ∨ key ++ ['/'] <+: k

/-- The tables, and the keys in the bucket. -/
structure Site where
  db : Db
  objects : List Str

/-- A deletion takes away what is at the path and under it, and on an error any part of that. A
directory that is not found has nothing in it. A rename takes away at its old path only, and what is
written is added. -/
def StoreServes (a : Adapter) : (op : StoreOp) → List Str → Except Exc op.Resp → List Str → Prop
  | .delete path, o, x, o' => (∀ k ∈ o', k ∈ o) ∧
    (∀ k ∈ o, k ∉ o' → ∃ key, objectKey a path = .ok key ∧ Under key k) ∧
    (x = .ok () → ∀ key, objectKey a path = .ok key → ∀ k ∈ o', ¬ Under key k)
  | .list path, o, x, o' => o' = o ∧ (x = .error .fileNotFound →
    ∀ key, objectKey a path = .ok key → ∀ k ∈ o, ¬ key ++ ['/'] <+: k)
  | .listStaleTmpEntryPaths _, o, x, o' => o' = o ∧ ∀ paths, x = .ok paths → ∀ path ∈ paths,
    ∀ key, objectKey a path = .ok key → tmpDir ∈ Text.split key
  | .write .., o, _, o' => ∀ k ∈ o, k ∈ o'
  | .mkdir _, o, _, o' => ∀ k ∈ o, k ∈ o'
  | .rename oldPath _, o, _, o' =>
    ∀ k ∈ o, k ∉ o' → ∃ key, objectKey a oldPath = .ok key ∧ Under key k
  | _, o, _, o' => o' = o

def Answers : Handler FileCmd.Resp Exc Site
  | .uuid4, s, _, t => t = s
  | .db f, s, x, t => f s.db = (x, t.db) ∧ t.objects = s.objects
  | .store a op, s, x, t => t.db = s.db ∧ StoreServes a op s.objects x t.objects

/-- The keys whose objects a command may take away, with what is under them. -/
def takesAway : FileCmd → List Str
  | .store a (.delete path) => (objectKey a path).toOption.toList
  | .store a (.rename oldPath _) => (objectKey a oldPath).toOption.toList
  | _ => []

/-- The bucket that also keeps the keys it was asked to take away. -/
def Watched : Handler FileCmd.Resp Exc (Site × List Str) := fun c s x t =>
  Answers c s.1 x t.1 ∧ t.2 = s.2 ++ takesAway c

/-! ### What deletes -/

/-- `delete_file` is reached through `delete_by_path` only, `delete_directory_recursive` also from
the services of resumes and generated files. -/
inductive Deletion
  | deleteByPath (s : FileService) (actorId : Uuid) (path : Str) (actorRole : Option Role)
  | deleteDirectory (s : FileService) (userId : Uuid) (path : Str)
  | deletePhoto (s : PhotoService) (userId fileId : Uuid)
  | cleanupPendingRecords
  | cleanupTmpDirs
  | deleteUser (s : AdminService) (adminId targetUserId : Uuid)

namespace Deletion

def program (now : Time) : Deletion → FileM Unit
  | .deleteByPath s actorId path actorRole => s.deleteByPath actorId path actorRole now
  | .deleteDirectory s userId path => ignore (s.deleteDirectoryRecursive userId path now)
  | .deletePhoto s userId fileId => s.deletePhoto userId fileId now
  | .cleanupPendingRecords => ignore (Maintenance.cleanupPendingRecords now)
  | .cleanupTmpDirs => ignore (Maintenance.cleanupTmpDirs now)
  | .deleteUser s adminId targetUserId => s.deleteUser adminId targetUserId

/-- Indexing is on: the services of the files and photos sections have the queue. -/
def Enabled : Deletion → Prop
  | .deleteByPath s .. => s.fileSection = .files ∨ s.fileSection = .photos → s.queue.active
  | .deleteDirectory s .. => s.fileSection = .files ∨ s.fileSection = .photos → s.queue.active
  | .deletePhoto s .. => s.queue.active
  | _ => True

end Deletion

/-! ### The system -/

/-- The tables and the bucket, the records whose object a deletion took away, and the RAG ids
that RAG was asked to delete. -/
structure World where
  db : Db
  objects : List Str
  wiped : List Uuid
  asked : List Uuid

/-- The key of a record's object. -/
def recordKey (r : FileRecord) : Str :=
  if r.isArchived then r.archivePath.getD [] else r.relativePath

namespace World
variable (w : World)

/-- The records whose object is gone once the bucket holds `objects`. -/
def lost (objects : List Str) : List Uuid :=
  (w.db.records.rows.filter fun r =>
    decide (recordKey r ∈ w.objects ∧ recordKey r ∉ objects)).map (·.id)

def after (d : Db) (objects : List Str) : World := ⟨d, objects, w.wiped ++ w.lost objects, w.asked⟩

/-- The record behind the link is deleted, is no longer there, or has lost its object. -/
def Gone (link : IndexLink) : Prop := ∀ id, link.fileRecordId = some id →
  ∀ r, w.db.records.get id = some r → r.status = .deleted ∨ id ∈ w.wiped

/-- There is no object at the path. -/
def Missing (path : Str) : Prop := ∀ key, objectKey diskRootAdapter path = .ok key → key ∉ w.objects

/-- The removal from the index is queued or confirmed, or has failed after RAG was asked. A link
that RAG does not know has nothing to remove, and is not going to be registered. -/
def Retired (link : IndexLink) : Prop :=
  link.state = .removed ∨ link.state = .archived ∨
  (link.state = .failed ∧ ∀ ragFileId, link.ragFileId = some ragFileId → ragFileId ∈ w.asked) ∨
  (link.ragFileId = none ∧ (link.state = .skipped ∨ w.Missing link.s3Key))

end World

/-- A read or a size needs an object. -/
def ObjectsServe (w : World) : (c : SyncCmd) → Except Exc c.Resp → Prop
  | .objectRead path, x => ∀ payload, x = .ok payload → ¬ w.Missing path
  | .objectSize path, x => ∀ size, x = .ok size → ¬ w.Missing path
  | _, _ => True

def askedFor : SyncCmd → List Uuid
  | .deleteVectors ragFileId _ => [ragFileId]
  | _ => []

/-- The queue answers from its table, or any call fails; RAG and the records answer anything. -/
def SyncAnswers : Handler SyncCmd.Resp Exc World := fun c w x w' =>
  ((∃ e, x = .error e ∧ w'.db = w.db) ∨ PrivateUnindexed.QueueServes c w.db x w'.db) ∧
    ObjectsServe w c x ∧ w'.objects = w.objects ∧ w'.wiped = w.wiped ∧
      w'.asked = w.asked ++ askedFor c

/-- A sync transaction commits, or is stopped anywhere: then the tables are the old ones. -/
inductive Synced {α : Type} (p : Sync α) (w : World) : World → Prop
  | commit {a w'} : Exec SyncAnswers p w (.ok a) w' → Synced p w w'
  | stopped {w'} : Reaches SyncAnswers p w w' → Synced p w { w' with db := w.db }

/-- A deletion is committed, or stopped after some of its commands and rolled back. By then it has
asked the bucket to take away some keys. -/
inductive Event
  | committed (e : Deletion)
  | rolledBack (e : Deletion) (keys : List Str)
  | tick (job : IndexSyncJob)
  | notify (job : IndexSyncJob) (enabled : Bool) (fileRecordIds : List Uuid)

inductive Step (w : World) : Event × Time → World → Prop
  | committed {e now t} : e.Enabled → Exec Answers (e.program now) ⟨w.db, w.objects⟩ (.ok ()) t →
      Step w (.committed e, now) (w.after t.db t.objects)
  | rolledBack {e now t keys} : e.Enabled →
      Reaches Watched (e.program now) (⟨w.db, w.objects⟩, []) (t, keys) →
      Step w (.rolledBack e keys, now) (w.after w.db t.objects)
  | tick {job now w'} : Synced (job.run now) w w' → Step w (.tick job, now) w'
  | notify {job enabled fileRecordIds now w'} :
      Synced (notifyIndexLinks job enabled fileRecordIds now) w w' →
      Step w (.notify job enabled fileRecordIds, now) w'

/-! ### What a deletion takes with it -/

/-- The record that a path addresses, and the disk path that it is found at. -/
def Found (s : FileService) (userId : Uuid) (path : Str) (d : Db) (diskPath : Str)
    (r : FileRecord) : Prop :=
  s.adapter.toDiskRelativePath path = .ok diskPath ∧
    Addressed d.records.rows (lookupOwner userId s.fileSection) s.fileSection diskPath
      (Text.name path) r

/-- The records that `delete_directory_recursive` lists. -/
def Listed (s : FileService) (userId : Uuid) (path : Str) (d : Db) (r : FileRecord) : Prop :=
  ∃ diskPath records, s.adapter.toDiskRelativePath (normalizePath path) = .ok diskPath ∧
    (FileRepo.listActiveUnderPrefix userId s.fileSection diskPath d).1 = .ok records ∧ r ∈ records

/-- The key of the object that is deleted along with a record. -/
def TakenAt (a : Adapter) (sectionPath : Str) (r : FileRecord) (key : Str) : Prop :=
  if r.isArchived then ∃ path, r.archivePath = some path ∧ objectKey diskRootAdapter path = .ok key
  else objectKey a sectionPath = .ok key

/-- The archives of the records of a directory are deleted one by one. -/
def ListedArchive (s : FileService) (userId : Uuid) (path : Str) (d : Db) (key : Str) : Prop :=
  ∃ r, Listed s userId path d r ∧ r.isArchived ∧
    ∃ archivePath, r.archivePath = some archivePath ∧
      objectKey diskRootAdapter archivePath = .ok key

namespace Deletion

/-- The keys that the deletion may delete, with what is under them. -/
def Wipes (now : Time) : Deletion → Db → Str → Prop
  | .deleteByPath s actorId path _, d, key =>
    (∃ diskPath r, Found s actorId (normalizePath path) d diskPath r ∧
      TakenAt s.adapter (s.toSectionPath (movedTo diskPath r)) r key) ∨
    ((∀ diskPath r, ¬ Found s actorId (normalizePath path) d diskPath r) ∧
      (objectKey s.adapter (normalizePath path) = .ok key ∨
        s.fileSection = .files ∧ (objectKey s.adapter (normalizePath (normalizePath path)) = .ok key ∨
          ListedArchive s actorId (normalizePath path) d key)))
  | .deleteDirectory s userId path, d, key =>
    objectKey s.adapter (normalizePath path) = .ok key ∨ ListedArchive s userId path d key
  | .deletePhoto s _ fileId, d, key => ∃ r, d.records.get fileId = some r ∧
    (TakenAt s.adapter (s.toSectionPath r) r key ∨
      objectKey s.adapter (PhotoService.previewPath fileId) = .ok key)
  | .cleanupPendingRecords, d, key => ∃ records r,
    (FileRepo.listStalePending (now - Maintenance.hour) d).1 = .ok records ∧ r ∈ records ∧
      objectKey diskRootAdapter (Maintenance.tmpLogicalPath r) = .ok key
  | .cleanupTmpDirs, _, key => tmpDir ∈ Text.split key
  | .deleteUser _ _ targetUserId, d, key =>
    objectKey diskRootAdapter (AdminService.userPrefix targetUserId) = .ok key ∨
      ∃ r ∈ d.records.rows, r.userId = targetUserId ∧ r.fileSection = .shared ∧
        objectKey diskRootAdapter (AdminService.sharedPath r) = .ok key

/-- The records whose row is deleted. -/
def Drops (now : Time) : Deletion → FileRecord → Prop
  | .cleanupPendingRecords, r => r.status = .pending ∧ r.createdAt < now - Maintenance.hour
  | .deleteUser _ _ targetUserId, r => r.userId = targetUserId
  | _, _ => False

/-- The records for which the removal from the index is queued: the record that the path
addresses, or those listed in the directory. -/
def Queues : Deletion → Db → FileRecord → Prop
  | .deleteByPath s actorId path _, d, r =>
    (∃ diskPath, Found s actorId (normalizePath path) d diskPath r) ∨
    ((∀ diskPath r, ¬ Found s actorId (normalizePath path) d diskPath r) ∧
      s.fileSection = .files ∧ normalizePath path ≠ [] ∧ Listed s actorId (normalizePath path) d r ∧
        objectKey s.adapter (normalizePath path) ≠ .ok (recordKey r))
  | .deleteDirectory s userId path, d, r => Listed s userId path d r
  | .deletePhoto _ _ fileId, _, r => r.id = fileId
  | _, _, _ => False

/-- The deletion takes away the record's object or its row. -/
def Endangers (now : Time) (e : Deletion) (w : World) (r : FileRecord) : Prop :=
  (recordKey r ∈ w.objects ∧ ∃ key, e.Wipes now w.db key ∧ Under key (recordKey r)) ∨ e.Drops now r

end Deletion

/-- A deletion that commits takes no record with it whose link is in the index or on its way there, but
for those it queues the removal of. One that is rolled back had not yet asked for the object of such
a record. -/
def Covered (w : World) : Event × Time → Prop
  | (.committed e, now) => ∀ link ∈ w.db.links.rows, ¬ w.Retired link →
    ∀ r ∈ w.db.records.rows, link.fileRecordId = some r.id → e.Endangers now w r → e.Queues w.db r
  | (.rolledBack _ keys, _) => ∀ link ∈ w.db.links.rows, ¬ w.Retired link →
    ∀ r ∈ w.db.records.rows, link.fileRecordId = some r.id → recordKey r ∈ w.objects →
    ∀ key ∈ keys, ¬ Under key (recordKey r)
  | _ => True

/-- Links stand for records of the indexed sections, and whatever is gone is retired. -/
structure Start (w : World) : Prop where
  sections : ∀ link ∈ w.db.links.rows, link.fileSection ≠ .private ∧
    ∀ r ∈ w.db.records.rows, link.fileRecordId = some r.id →
      r.fileSection = .files ∨ r.fileSection = .photos
  retired : ∀ link ∈ w.db.links.rows, w.Gone link → w.Retired link

end WebStorage.DeletedUnindexed
