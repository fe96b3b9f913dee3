import WebStorage.StorageJobs

set_option autoImplicit false

/-! The operations of the services as requests: each runs in one transaction, which is committed
if it returns and rolled back if it raises. -/
namespace WebStorage
open Effect Effect.Prog

inductive Request
  | uploadFile (s : FileService) (userId : Uuid) (path filename : Str) (data : Bytes)
    (size : Nat) (fileSection : FileSection)
  | overwriteFile (s : FileService) (userId : Uuid) (path filename : Str) (data : Bytes)
    (size : Nat) (fileSection : FileSection)
  | uploadZipFolder (s : FileService) (userId : Uuid) (path zipFilename : Str)
    (zip : Option (List ZipInfo)) (totalUncompressedBytes available : Int)
  | createDirectory (s : FileService) (path name : Str)
  | rename (s : FileService) (actorId fileId : Uuid) (newName : Str)
  | renameByPath (s : FileService) (userId : Uuid) (path newName : Str)
  | readByPath (s : FileService) (actorId : Uuid) (path : Str)
  | deleteFile (s : FileService) (actorId fileId : Uuid) (actorRole : Option Role)
  | deleteByPath (s : FileService) (actorId : Uuid) (path : Str) (actorRole : Option Role)
  | uploadPhoto (s : PhotoService) (userId : Uuid) (filename : Str) (data : Bytes) (size : Nat)
  | deletePhoto (s : PhotoService) (userId fileId : Uuid)
  | resetPrivateStorage (settings : Settings) (inner : Adapter) (userId : Uuid)
  | runDailyArchive (s : ArchiveService)
  | cleanupPendingRecords
  | cleanupTmpDirs
  | reconcileQuotas (settings : Settings)

/-- The answer is dropped: only what the request leaves behind counts. -/
def ignore {α : Type} (p : FileM α) : FileM Unit := do
  let _ ← p
  pure ()

def Request.program (now : Time) : Request → FileM Unit
  | .uploadFile s userId path filename data size fileSection =>
    ignore (s.uploadFile userId path filename data size fileSection now)
  | .overwriteFile s userId path filename data size fileSection =>
    ignore (s.overwriteFile userId path filename data size fileSection now)
  | .uploadZipFolder s userId path zipFilename zip total available =>
    ignore (s.uploadZipFolder userId path zipFilename zip total available now)
  | .createDirectory s path name => s.createDirectory path name
  | .rename s actorId fileId newName => ignore (s.rename actorId fileId newName now)
  | .renameByPath s userId path newName => ignore (s.renameByPath userId path newName now)
  | .readByPath s actorId path => ignore (s.readByPath actorId path now)
  | .deleteFile s actorId fileId actorRole => s.deleteFile actorId fileId actorRole now
  | .deleteByPath s actorId path actorRole => s.deleteByPath actorId path actorRole now
  | .uploadPhoto s userId filename data size => ignore (s.uploadPhoto userId filename data size now)
  | .deletePhoto s userId fileId => s.deletePhoto userId fileId now
  | .resetPrivateStorage settings inner userId => WebStorage.resetPrivateStorage settings inner userId
  | .runDailyArchive s => ignore (s.runDailyArchive now)
  | .cleanupPendingRecords => ignore (Maintenance.cleanupPendingRecords now)
  | .cleanupTmpDirs => ignore (Maintenance.cleanupTmpDirs now)
  | .reconcileQuotas settings => ignore (Maintenance.reconcileQuotas settings)

/-- The repositories answer exactly, fresh ids are new, and the storage answers anything. -/
def DbAnswers : Handler FileCmd.Resp Exc Db
  | .uuid4, d, x, d' => d' = d ∧
    ∀ id, x = .ok id → d.records.get id = none ∧ d.links.get id = none
  | .db f, d, x, d' => f d = (x, d')
  | .store .., d, _, d' => d' = d

/-- A request is committed if it returns; else the tables stay as they were. -/
inductive Transact (d : Db) : Request × Time → Db → Prop
  | commit {request now d'} : Exec DbAnswers (request.program now) d (.ok ()) d' →
      Transact d (request, now) d'
  | rollback {request now} : Transact d (request, now) d

section
variable {α β : Type} {Q : Except Exc α → Db → Prop} {d : Db}

/-- The weakest precondition over the tables. -/
abbrev dbWp (p : FileM α) (Q : Except Exc α → Db → Prop) (d : Db) : Prop :=
  wp DbAnswers (fun _ => True) p Q d

theorem dbWp_db {f : DbOp α} (h : Q (f d).1 (f d).2) : dbWp (db f) Q d := by
  refine ⟨trivial, fun x t ht => ⟨trivial, ?_⟩⟩
  have hx : f d = (x, t) := ht
  rw [hx] at h
  exact h

theorem dbWp_store {adapter : Adapter} {op : StoreOp}
    {Q : Except Exc op.Resp → Db → Prop} (h : ∀ x, Q x d) : dbWp (store adapter op) Q d := by
  refine ⟨trivial, fun x t ht => ⟨trivial, ?_⟩⟩
  have hd : t = d := ht
  rw [hd]
  exact h x

theorem dbWp_uuid4 {Q : Except Exc Uuid → Db → Prop}
    (h : ∀ x, (∀ id, x = .ok id → d.records.get id = none ∧ d.links.get id = none) → Q x d) :
    dbWp uuid4 Q d := by
  refine ⟨trivial, fun x t ht => ⟨trivial, ?_⟩⟩
  obtain ⟨rfl, hx⟩ := ht
  exact h x hx

theorem bind_db {f : DbOp α} {k : α → FileM β} {Q : Except Exc β → Db → Prop}
    (hok : ∀ a, (f d).1 = .ok a → dbWp (k a) Q (f d).2)
    (herr : ∀ e, (f d).1 = .error e → Q (.error e) (f d).2) : dbWp ((db f).bind k) Q d := by
  rw [dbWp, wp_bind]
  refine dbWp_db ?_
  cases hf : (f d).1 with
  | ok a => exact hok a hf
  | error e => exact herr e hf

theorem bind_store {adapter : Adapter} {op : StoreOp} {k : op.Resp → FileM β}
    {Q : Except Exc β → Db → Prop} (hok : ∀ a, dbWp (k a) Q d) (herr : ∀ e, Q (.error e) d) :
    dbWp ((store adapter op).bind k) Q d := by
  rw [dbWp, wp_bind]
  refine dbWp_store fun x => ?_
  cases x with
  | ok a => exact hok a
  | error e => exact herr e

theorem bind_ofExcept {x : Except Exc α} {k : α → FileM β} {Q : Except Exc β → Db → Prop}
    (hok : ∀ a, x = .ok a → dbWp (k a) Q d) (herr : ∀ e, Q (.error e) d) :
    dbWp ((ofExcept x).bind k) Q d := by
  cases x with
  | ok a => exact hok a rfl
  | error e => exact ⟨trivial, herr e⟩

theorem bind_uuid4 {k : Uuid → FileM β} {Q : Except Exc β → Db → Prop}
    (hok : ∀ id, d.records.get id = none → d.links.get id = none → dbWp (k id) Q d)
    (herr : ∀ e, Q (.error e) d) : dbWp (uuid4.bind k) Q d := by
  rw [dbWp, wp_bind]
  refine dbWp_uuid4 fun x hx => ?_
  cases x with
  | ok id => exact hok id (hx id rfl).1 (hx id rfl).2
  | error e => exact herr e

/-- What is known of a first part is what the second part starts from. -/
theorem bind_spec {p : FileM α} {k : α → FileM β} {P : Except Exc α → Db → Prop}
    {Q : Except Exc β → Db → Prop} (hp : dbWp p P d)
    (hok : ∀ a t, P (.ok a) t → dbWp (k a) Q t) (herr : ∀ e t, P (.error e) t → Q (.error e) t) :
    dbWp (p.bind k) Q d := by
  rw [dbWp, wp_bind]
  refine wp_mono hp ?_
  rintro (e | a) t - h
  · exact herr e t h
  · exact hok a t h

theorem bind_attempt {p : FileM α} {k : Except Exc α → FileM β} {P : Except Exc α → Db → Prop}
    {Q : Except Exc β → Db → Prop} (hp : dbWp p P d) (hk : ∀ r t, P r t → dbWp (k r) Q t) :
    dbWp (p.attempt.bind k) Q d := by
  rw [dbWp, wp_bind, wp_attempt]
  exact wp_mono hp fun r t _ h => hk r t h

/-- A command that changes neither records nor quotas. -/
def FileCmd.KeepsBooks : FileCmd → Prop
  | .db f => ∀ d, (f d).2.records = d.records ∧ (f d).2.quotas = d.quotas
  | _ => True

/-- Records and quotas are the same. -/
def SameBooks (d t : Db) : Prop := t.records = d.records ∧ t.quotas = d.quotas

abbrev KeepsBooks (p : FileM α) : Prop := p.All FileCmd.KeepsBooks fun _ _ => True

theorem wp_keepsBooks {p : FileM α} (hp : KeepsBooks p) :
    dbWp p (fun _ t => SameBooks d t) d := by
  refine wp_weaken (wp_of_all (I := SameBooks d) hp ⟨rfl, rfl⟩ ?_) fun _ _ => trivial
  intro c s x t hc hs hx
  refine ⟨?_, fun _ _ => trivial⟩
  cases c with
  | uuid4 => exact hx.1 ▸ hs
  | db f =>
    have hf : f s = (x, t) := hx
    have hkeep := hc s
    rw [hf] at hkeep
    exact ⟨hkeep.1.trans hs.1, hkeep.2.trans hs.2⟩
  | store adapter op =>
    have ht : t = s := hx
    exact ht ▸ hs

theorem bind_keepsBooks {p : FileM α} {k : α → FileM β} {Q : Except Exc β → Db → Prop}
    (hp : KeepsBooks p) (hok : ∀ a t, SameBooks d t → dbWp (k a) Q t)
    (herr : ∀ e t, SameBooks d t → Q (.error e) t) : dbWp (p.bind k) Q d :=
  bind_spec (wp_keepsBooks hp) hok herr

/-- A call of a storage adapter. -/
def FileCmd.IsStore : FileCmd → Prop
  | .store .. => True
  | _ => False

/-- The program reads and writes objects only. -/
abbrev OnlyStores (p : FileM α) : Prop := p.All FileCmd.IsStore fun _ _ => True

theorem OnlyStores.keepsBooks {p : FileM α} (hp : OnlyStores p) : KeepsBooks p := by
  refine all_mono hp fun c hc => ?_
  cases c with
  | store adapter op => trivial
  | _ => exact hc.elim

/-! The deletion of objects touches no table, and the queue calls keep the books. -/

theorem onlyStores_store (adapter : Adapter) (op : StoreOp) : OnlyStores (store adapter op) :=
  ⟨trivial, fun _ _ => all_done _⟩

theorem keepsBooks_store (adapter : Adapter) (op : StoreOp) : KeepsBooks (store adapter op) :=
  (onlyStores_store adapter op).keepsBooks

theorem keepsBooks_catch {p : FileM α} {h : Exc → FileM α} (hp : KeepsBooks p)
    (hh : ∀ e, KeepsBooks (h e)) : KeepsBooks (p.catchWith h) := all_catchWith hp hh

theorem keepsBooks_links {f : LinkTable → Except Exc (α × LinkTable)} {refused : α} :
    KeepsBooks (Enqueue.links f refused) := by
  refine keepsBooks_catch ⟨?_, fun _ _ => all_done _⟩ fun e => ?_
  · intro d
    simp only [onLinks]
    split <;> exact ⟨rfl, rfl⟩
  · split <;> trivial

theorem keepsBooks_enqueueUpload (q : Enqueue) (record : FileRecord) (now : Time) :
    KeepsBooks (q.upload record now) := by
  unfold Enqueue.upload
  split
  · trivial
  · split
    · trivial
    · trivial
    · split
      · trivial
      · exact all_issue_bind trivial fun _ _ => all_bind keepsBooks_links fun _ => all_done _

theorem keepsBooks_enqueueContentChanged (q : Enqueue) (record : FileRecord) (now : Time) :
    KeepsBooks (q.contentChanged record now) := by
  unfold Enqueue.contentChanged
  split
  · trivial
  · split
    · trivial
    · trivial
    · split
      · trivial
      · exact all_bind keepsBooks_links fun _ => all_done _

theorem keepsBooks_rekeyLinked (record : FileRecord) (now : Time) :
    KeepsBooks (Enqueue.rekeyLinked record now) := by
  unfold Enqueue.rekeyLinked
  split
  · trivial
  · exact all_bind keepsBooks_links fun _ => all_done _

theorem keepsBooks_enqueueRekey (q : Enqueue) (record : FileRecord) (now : Time) :
    KeepsBooks (q.rekey record now) := by
  unfold Enqueue.rekey
  split
  · exact keepsBooks_rekeyLinked record now
  · trivial

theorem keepsBooks_enqueueRekeyMany (q : Enqueue) (records : List FileRecord) (now : Time) :
    KeepsBooks (q.rekeyMany records now) := by
  have hall : KeepsBooks (Enqueue.rekeyAll now records) := by
    induction records with
    | nil => trivial
    | cons record records ih => exact all_bind (keepsBooks_rekeyLinked record now) fun _ => ih
  unfold Enqueue.rekeyMany
  split
  · exact hall
  · trivial

theorem keepsBooks_enqueueRemoved (q : Enqueue) (ids : List Uuid) (now : Time) :
    KeepsBooks (q.removed ids now) := by
  unfold Enqueue.removed
  split
  · trivial
  · exact all_bind keepsBooks_links fun _ => all_done _

theorem keepsBooks_enqueueArchived (q : Enqueue) (record : FileRecord) (now : Time) :
    KeepsBooks (q.archived record now) := by
  unfold Enqueue.archived
  split
  · trivial
  · exact all_bind keepsBooks_links fun _ => all_done _

theorem onlyStores_deleteIfExists (adapter : Adapter) (path : Str) :
    OnlyStores (deleteIfExists adapter path) := by
  refine all_bind (onlyStores_store _ _) fun present => ?_
  split
  · exact onlyStores_store _ _
  · trivial

theorem onlyStores_deleteArchivedBlob (record : FileRecord) :
    OnlyStores (deleteArchivedBlob record) := by
  unfold deleteArchivedBlob
  split
  · trivial
  · split
    · trivial
    · refine all_catchWith (onlyStores_deleteIfExists _ _) fun e => ?_
      split <;> trivial

theorem onlyStores_isDirectory (s : FileService) (path : Str) : OnlyStores (s.isDirectory path) := by
  refine all_catchWith (all_bind (onlyStores_store _ _) fun _ => all_done _) fun e => ?_
  split <;> trivial

theorem onlyStores_streamArchived (s : FileService) (record : FileRecord) :
    OnlyStores (s.streamArchived record) := by
  unfold FileService.streamArchived
  split
  · trivial
  unfold streamDecompressedArchived
  split
  · trivial
  split
  · trivial
  refine all_bind (onlyStores_store _ _) fun archive => all_bind (all_done _) fun content => ?_
  split
  · split <;> trivial
  · trivial

theorem onlyStores_makeDirectories (s : FileService) (paths : List (Str × ZipInfo))
    (created : List Str) : OnlyStores (s.makeDirectories paths created) := by
  induction paths generalizing created with
  | nil => trivial
  | cons entry rest ih =>
    obtain ⟨sectionPath, info⟩ := entry
    unfold FileService.makeDirectories
    split
    · exact all_bind (onlyStores_store _ _) fun _ => ih _
    · exact ih _

theorem onlyStores_ensureParent (s : FileService) (sectionPath : Str) (created : List Str) :
    OnlyStores (s.ensureParent sectionPath created) := by
  simp only [FileService.ensureParent]
  split
  · exact all_bind (onlyStores_store _ _) fun _ => all_done _
  · trivial

theorem onlyStores_ensureCanDelete (s : FileService) (record : FileRecord) (actorId : Uuid)
    (actorRole : Option Role) :
    OnlyStores (s.ensureCanDeleteRecord record actorId actorRole) := by
  unfold FileService.ensureCanDeleteRecord
  split_ifs <;> trivial

theorem onlyStores_deleteObject (s : FileService) (record : FileRecord) :
    OnlyStores (s.deleteObject record) := by
  unfold FileService.deleteObject
  split
  · exact onlyStores_deleteArchivedBlob _
  · exact onlyStores_deleteIfExists _ _

theorem onlyStores_totalArchivedBytes (records : List FileRecord) (total : Nat) :
    OnlyStores (ArchiveService.totalArchivedBytes records total) := by
  induction records generalizing total with
  | nil => trivial
  | cons record records ih =>
    unfold ArchiveService.totalArchivedBytes
    split
    · exact ih total
    split
    · exact ih total
    · refine all_bind (all_catchWith (onlyStores_store _ _) fun e => ?_) fun size => ih _
      split <;> trivial

theorem onlyStores_cleanupTmpDirs (now : Time) :
    OnlyStores (Maintenance.cleanupTmpDirs now) := by
  have hall : ∀ paths deleted, OnlyStores (Maintenance.deleteTmpEntries paths deleted) := by
    intro paths
    induction paths with
    | nil => exact fun _ => trivial
    | cons path paths ih =>
      intro deleted
      refine all_bind (all_attempt (onlyStores_store _ _)) fun r => ?_
      split <;> exact ih _
  exact all_bind (onlyStores_store _ _) fun paths => hall paths 0

end
end WebStorage
