import WebStorage.CleanPaths
import WebStorage.FailedUpload
import WebStorage.FailingRequests
import WebStorage.ReturningRuns
import WebStorage.StorageJobs

set_option autoImplicit false

/-! The clean-up of uploads that never ended, and of the temporary files that they left. -/
namespace WebStorage
open Effect Effect.Prog S3
namespace Maintenance

/-! ### Temporary keys -/

/-- The parts of `sectionDiskPrefix`. -/
def sectionNames (record : FileRecord) : List Str :=
  let own := fun names : List String =>
    "users".toList :: record.userId.text :: names.map String.toList
  match record.fileSection with
  | .files => own ["files"]
  | .photos => own ["photos", "originals"]
  | .private => own ["private"]
  | .shared => ["shared".toList]
  | .resumes => own ["resumes"]
  | .generated => own ["generated"]

theorem sectionNames_clean (record : FileRecord) : Clean (sectionNames record) := by
  have hown : ∀ names : List String, Clean (names.map String.toList) →
      Clean ("users".toList :: record.userId.text :: names.map String.toList) := by
    intro names hnames v hv
    rcases List.mem_cons.1 hv with husers | hv
    · rw [husers]
      decide +kernel
    · rcases List.mem_cons.1 hv with hid | hname
      · rw [hid]
        exact record.userId.clean
      · exact hnames v hname
  unfold sectionNames
  cases record.fileSection with
  | shared =>
    show Clean ["shared".toList]
    decide +kernel
  | files => exact hown _ (by decide +kernel)
  | photos => exact hown _ (by decide +kernel)
  | «private» => exact hown _ (by decide +kernel)
  | resumes => exact hown _ (by decide +kernel)
  | generated => exact hown _ (by decide +kernel)

theorem sectionDiskPrefix_join (record : FileRecord) :
    sectionDiskPrefix record = Text.join (sectionNames record) := by
  unfold sectionDiskPrefix sectionNames
  cases record.fileSection <;> simp [Text.join]

/-- The names on the way to the temporary file of a record. -/
def tmpNames (record : FileRecord) : List Str := sectionNames record ++ [tmpDir, record.id.text]

theorem tmpNames_clean (record : FileRecord) : Clean (tmpNames record) := by
  apply Clean.append (sectionNames_clean record)
  intro v hv
  rcases List.mem_cons.1 hv with htmp | hv
  · rw [htmp]
    decide +kernel
  · rw [List.mem_singleton.1 hv]
    exact record.id.clean

theorem tmpLogicalPath_join (record : FileRecord) :
    tmpLogicalPath record = Text.join (tmpNames record) := by
  have hne : sectionNames record ≠ [] := by
    unfold sectionNames
    cases record.fileSection <;> exact List.cons_ne_nil _ _
  have hparts : Text.join [tmpDir, record.id.text] = tmpDir ++ '/' :: record.id.text := rfl
  unfold tmpLogicalPath tmpNames
  rw [Text.join_append hne (List.cons_ne_nil _ _), ← sectionDiskPrefix_join, hparts, List.append_assoc]
  rfl

/-- On the volume the path of a temporary file is its key. -/
theorem objectKey_tmp (record : FileRecord) :
    objectKey diskRootAdapter (tmpLogicalPath record) = .ok (tmpLogicalPath record) := by
  rw [tmpLogicalPath_join]
  exact objectKey_diskRoot (tmpNames_clean record)

theorem tmpLogicalPath_ne_nil (record : FileRecord) : tmpLogicalPath record ≠ [] := by
  unfold tmpLogicalPath
  simp

attribute [local irreducible] tmpLogicalPath

/-! ### Records that are deleted -/

/-- A record that `list_stale_pending` selects. -/
def stale (now : Time) (r : FileRecord) : Bool := r.status = .pending && decide (r.createdAt < now - hour)

/-- The tables without the records that are gone; their links lose the reference. -/
structure Cleaned (gone : Uuid → Bool) (d e : Db) : Prop where
  records : e.records.rows = d.records.rows.filter fun r => !gone r.id
  quotas : e.quotas = d.quotas
  links : e.links.rows = d.links.rows.map (LinkTable.forgotten gone)

section
variable {d e f : Db} {gone gone' : Uuid → Bool}

theorem forgotten_forgotten (row : IndexLink) :
    LinkTable.forgotten gone' (LinkTable.forgotten gone row) =
      LinkTable.forgotten (fun id => gone id || gone' id) row := by
  unfold LinkTable.forgotten
  cases row.fileRecordId with
  | none => rfl
  | some id => cases hgone : gone id <;> simp [Option.filter, hgone]

theorem forgotten_none (row : IndexLink) : LinkTable.forgotten (fun _ => false) row = row := by
  unfold LinkTable.forgotten
  cases hid : row.fileRecordId with
  | none =>
    show { row with fileRecordId := none } = row
    rw [← hid]
  | some id =>
    show { row with fileRecordId := some id } = row
    rw [← hid]

theorem Cleaned.nothing (d : Db) : Cleaned (fun _ => false) d d where
  records := (List.filter_eq_self.2 fun _ _ => rfl).symm
  quotas := rfl
  links := by
    rw [show LinkTable.forgotten (fun _ => false) = id from funext forgotten_none, List.map_id]

theorem Cleaned.trans (h : Cleaned gone d e) (h' : Cleaned gone' e f) :
    Cleaned (fun id => gone id || gone' id) d f where
  records := by
    rw [h'.records, h.records, List.filter_filter]
    apply List.filter_congr
    intro r _
    rw [Bool.not_or, Bool.and_comm]
  quotas := h'.quotas.trans h.quotas
  links := by
    rw [h'.links, h.links, List.map_map]
    apply List.map_congr_left
    intro row _
    exact forgotten_forgotten row

theorem cleaned_hardDelete (id : Uuid) (d : Db) :
    Cleaned (fun v => decide (v = id)) d (FileRepo.hardDelete id d).2 := ⟨rfl, rfl, rfl⟩

/-- `hard_delete` answers whether the record was there, and then there is one record less. -/
theorem length_hardDelete (id : Uuid) (d : Db) :
    (FileRepo.hardDelete id d).2.records.rows.length +
        (if (d.records.get id).isSome = true then 1 else 0) = d.records.rows.length := by
  have hkept : (FileRepo.hardDelete id d).2.records.rows.length =
      d.records.rows.countP fun r => ¬ decide (r.id = id) = true := by
    show (d.records.rows.filter fun r => !decide (r.id = id)).length = _
    rw [← List.countP_eq_length_filter]
    apply List.countP_congr
    intro r _
    simp
  have hgone : (d.records.rows.countP fun r => decide (r.id = id)) =
      if (d.records.get id).isSome = true then 1 else 0 := by
    cases hfound : d.records.get id with
    | none =>
      apply List.countP_eq_zero.2
      intro r hr
      exact List.find?_eq_none.1 hfound r hr
    | some r =>
      obtain ⟨hmem, hid⟩ := RecordTable.get_some hfound
      have hids : id ∈ d.records.rows.map (·.id) := List.mem_map.2 ⟨r, hmem, hid⟩
      have hone := List.count_eq_one_of_mem d.records.id_unique hids
      rw [List.count, List.countP_map] at hone
      rw [Option.isSome_some, if_pos rfl, ← hone]
      apply List.countP_congr
      intro r' _
      simp
  have hall := List.length_eq_countP_add_countP (fun r : FileRecord => decide (r.id = id))
    (l := d.records.rows)
  omega

end

/-! ### The clean-up when calls fail -/

section
variable {host : Host} {now : Time} {w : Installation} {a : Attempt} {record : FileRecord}

/-- A clean-up leaves the tables alone, and every object that its key does not cover. -/
theorem survives_removal {adapter : Adapter} {path key : Str} (hplain : adapter.Plain)
    (hkey : objectKey adapter path = .ok key) (hne : key ≠ []) :
    Survives host (deleteIfExists adapter path) a fun _ t => t.db = a.db ∧
      ∀ k, ¬ Bucket.Covers key k → t.bucket.content k = a.bucket.content k := by
  have hkey' := (hplain.objectKey_storage host _).trans hkey
  have hexists : Survives host (store adapter (.exists path)) a fun _ t =>
      t.db = a.db ∧ t.bucket = a.bucket := by
    apply survives_store hplain (fun path data size heq => by cases heq)
    intro step
    apply ends_mono (at_exists hkey' a.bucket)
    exact fun r t h => ⟨rfl, h.1⟩
  unfold deleteIfExists
  apply survives_bind hexists
  · intro found u hu
    split
    · apply survives_store hplain (fun path data size heq => by cases heq)
      intro step
      apply ends_mono (at_delete hkey' hne u.bucket)
      intro r t h
      rw [← hu.2]
      exact ⟨hu.1, h.1⟩
    · exact survives_done ⟨hu.1, fun k _ => by rw [hu.2]⟩
  · intro e u hu
    exact ⟨hu.1, fun k _ => by rw [hu.2]⟩

theorem survives_deleteTmpFile (record : FileRecord) :
    Survives host (deleteTmpFile record) a fun _ t => t.db = a.db ∧
      ∀ k, ¬ Bucket.Covers (tmpLogicalPath record) k → t.bucket.content k = a.bucket.content k := by
  unfold deleteTmpFile
  apply survives_catch
    (survives_removal plain_diskRoot (objectKey_tmp record) (tmpLogicalPath_ne_nil record))
  · exact fun _ _ h => h
  · intro e t h
    cases e
    case fileNotFound => exact survives_done h
    all_goals exact survives_done h

/-- What a clean-up has done so far: only stale records are gone, as many as were counted, and only
what their temporary keys cover has been touched. -/
structure Sweeping (now : Time) (w : Installation) (deleted : Nat) (a : Attempt) : Prop where
  tables : ∃ gone, (∀ r ∈ w.db.records.rows, gone r.id = true → stale now r = true) ∧
    Cleaned gone w.db a.db
  counted : a.db.records.rows.length + deleted = w.db.records.rows.length
  objects : ∀ k, (∀ r ∈ w.db.records.rows, stale now r = true → ¬ Bucket.Covers (tmpLogicalPath r) k) →
    a.bucket.content k = w.bucket.content k

theorem Sweeping.start (now : Time) (w : Installation) : Sweeping now w 0 (.start w) where
  tables := ⟨fun _ => false, fun _ _ h => (Bool.false_ne_true h).elim, .nothing _⟩
  counted := rfl
  objects _ _ := rfl

theorem survives_cleanupOne {deleted : Nat} (hmem : record ∈ w.db.records.rows)
    (hstale : stale now record = true) (h : Sweeping now w deleted a) :
    Survives host (do
      deleteTmpFile record
      db (FileRepo.hardDelete record.id)) a fun r t =>
        Sweeping now w (if r = .ok true then deleted + 1 else deleted) t := by
  have hswept : ∀ t : Attempt, t.db = a.db → (∀ k, ¬ Bucket.Covers (tmpLogicalPath record) k →
      t.bucket.content k = a.bucket.content k) → Sweeping now w deleted t := by
    intro t hdb hother
    refine ⟨by rw [hdb]; exact h.tables, by rw [hdb]; exact h.counted, ?_⟩
    intro k hk
    exact (hother k (hk record hmem hstale)).trans (h.objects k hk)
  -- the temporary object first; if that raises, the record stays
  apply survives_bind (survives_deleteTmpFile record)
  · intro _ u hu
    have hu' := hswept u hu.1 hu.2
    apply survives_db
    · intro t hbucket _ _ hdb
      obtain ⟨gone, hgone, hcleaned⟩ := hu'.tables
      -- one record less exactly if it was found, which is what is counted
      have hlength := length_hardDelete record.id u.db
      have hcounted := hu'.counted
      refine ⟨⟨_, ?_, hdb ▸ hcleaned.trans (cleaned_hardDelete record.id u.db)⟩, ?_, ?_⟩
      · intro r hr hor
        rcases Bool.or_eq_true _ _ ▸ hor with hearlier | hnow
        · exact hgone r hr hearlier
        · rw [RecordTable.eq_of_id hr hmem (of_decide_eq_true hnow)]
          exact hstale
      · rw [hdb]
        show (FileRepo.hardDelete record.id u.db).2.records.rows.length +
          (if (Except.ok (u.db.records.get record.id).isSome : Except Exc Bool) = .ok true
            then deleted + 1 else deleted) = _
        cases hfound : (u.db.records.get record.id).isSome with
        | true =>
          rw [hfound, if_pos rfl] at hlength
          rw [if_pos rfl]
          omega
        | false =>
          rw [hfound, if_neg Bool.false_ne_true] at hlength
          rw [if_neg (by decide)]
          omega
      · intro k hk
        rw [hbucket]
        exact hu'.objects k hk
    · intro e t hbucket _ _ hdb
      rw [if_neg (fun heq => by cases heq)]
      refine ⟨by rw [hdb]; exact hu'.tables, by rw [hdb]; exact hu'.counted, ?_⟩
      rw [hbucket]
      exact hu'.objects
  · intro e t ht
    rw [if_neg (fun heq => by cases heq)]
    exact hswept t ht.1 ht.2

theorem survives_cleanupAll (records : List FileRecord) : ∀ (deleted : Nat) (a : Attempt),
    (∀ r ∈ records, r ∈ w.db.records.rows ∧ stale now r = true) → Sweeping now w deleted a →
    Survives host (cleanupAll records deleted) a fun r t => ∃ n, r = .ok n ∧ Sweeping now w n t := by
  induction records with
  | nil =>
    intro deleted a _ h
    exact survives_done ⟨deleted, rfl, h⟩
  | cons record records ih =>
    intro deleted a hall h
    obtain ⟨hmem, hstale⟩ := hall record List.mem_cons_self
    have hlater : ∀ r ∈ records, r ∈ w.db.records.rows ∧ stale now r = true :=
      fun r hr => hall r (List.mem_cons_of_mem _ hr)
    have hone : Survives host (attempt (do
        deleteTmpFile record
        db (FileRepo.hardDelete record.id))) a fun r t => ∃ x, r = .ok x ∧
          Sweeping now w (if x = .ok true then deleted + 1 else deleted) t := by
      apply (wp_attempt _ _ _).2
      apply survives_mono (survives_cleanupOne hmem hstale h)
      exact fun x t ht => ⟨x, rfl, ht⟩
    unfold cleanupAll
    apply survives_bind hone
    · intro x u hu
      obtain ⟨x', hx, hswept⟩ := hu
      cases hx
      cases x with
      | error e => exact ih deleted u hlater hswept
      | ok found =>
        cases found with
        | true => exact ih (deleted + 1) u hlater hswept
        | false => exact ih deleted u hlater hswept
    · intro e t ht
      obtain ⟨x', hx, -⟩ := ht
      cases hx

/-- The tables answer every call. -/
def TablesAnswer : (c : FileCmd) → Attempt → Except Exc c.Resp → Attempt → Prop
  | .db f, a, x, t => x = (f a.db).1 ∧ t.db = (f a.db).2
  | _, _, _, _ => True

/-- The storage calls may raise, carried out or not. -/
def StorageOutage (host : Host) : Handler FileCmd.Resp Exc Attempt := fun c a x t =>
  Outage host c a x t ∧ TablesAnswer c a x t

/-- Whichever storage calls fail on the way, the clean-up of stale records ends with a count. As many
records are gone as it counts, each of them was pending for over an hour, every other record, every
quota row and every other link is as it was, and no object has been touched that no temporary key of
a stale record covers. -/
theorem failing_cleanup_spares (host : Host) (now : Time) (w : Installation) (r : Except Exc Nat)
    (t : Attempt) (h : Exec (StorageOutage host) (cleanupPendingRecords now) (.start w) r t) :
    ∃ n gone, r = .ok n ∧ t.db.records.rows.length + n = w.db.records.rows.length ∧
      (∀ r ∈ w.db.records.rows, gone r.id = true → stale now r = true) ∧
      Cleaned gone w.db t.db ∧
      ∀ k, (∀ r ∈ w.db.records.rows, stale now r = true → ¬ Bucket.Covers (tmpLogicalPath r) k) →
        t.bucket.content k = w.bucket.content k := by
  have hrun : wp (StorageOutage host) (fun _ => True) (cleanupPendingRecords now) (fun r t =>
      ∃ n, r = .ok n ∧ Sweeping now w n t) (.start w) := by
    have hlisted : wp (StorageOutage host) (fun _ => True) (db (FileRepo.listStalePending (now - hour)))
        (fun r t => r = .ok (w.db.records.rows.filter (stale now)) ∧ t.db = w.db ∧
          t.bucket = w.bucket) (.start w) := by
      refine ⟨trivial, ?_⟩
      intro x u hx
      obtain ⟨⟨hbucket, -⟩, hanswer⟩ := hx
      exact ⟨trivial, hanswer.1, hanswer.2, hbucket⟩
    unfold cleanupPendingRecords
    apply wp_bind_of hlisted
    · intro records u _ hu
      obtain ⟨hrecords, hdb, hbucket⟩ := hu
      have hstart : Sweeping now w 0 u := by
        have hbegin := Sweeping.start now w
        exact ⟨by rw [hdb]; exact hbegin.tables, by rw [hdb]; exact hbegin.counted,
          by rw [hbucket]; exact hbegin.objects⟩
      have hall : ∀ r ∈ records, r ∈ w.db.records.rows ∧ stale now r = true := by
        intro r hr
        rw [Except.ok.inj hrecords] at hr
        exact List.mem_filter.1 hr
      exact wp_handler (survives_cleanupAll records 0 u hall hstart) fun _ _ _ _ _ hx => hx.1
    · intro e u hu
      cases hu.1
  obtain ⟨-, n, hn, hswept⟩ := wp_sound hrun h
  obtain ⟨gone, hgone, hcleaned⟩ := hswept.tables
  exact ⟨n, gone, hn, hswept.counted, hgone, hcleaned, hswept.objects⟩

end

/-- A record that was pending for two hours and one that has just been created. -/
def pendingRecord (digit : Nat) (createdAt : Time) : FileRecord where
  id := .ofDigit digit
  userId := .ofDigit 9
  relativePath := "a.txt".toList
  originalName := "a.txt".toList
  sizeBytes := 1
  isEncrypted := false
  fileSection := .files
  status := .pending
  checksumSha256 := none
  createdAt := createdAt
  lastAccessedAt := createdAt
  isArchived := false
  archivePath := none

theorem pending_apart : ([pendingRecord 1 0, pendingRecord 2 (2 * hour)].map (·.id)).Nodup := by
  decide +kernel

def pendingUploads : Installation :=
  ⟨⟨⟨[pendingRecord 1 0, pendingRecord 2 (2 * hour)], pending_apart⟩, ∅, .empty⟩,
    (Bucket.empty.put (tmpLogicalPath (pendingRecord 1 0)) [1] 0).put
      (tmpLogicalPath (pendingRecord 2 (2 * hour))) [2] 0⟩

/-- The object of the first record cannot be deleted. -/
def stoppedCleanup : Except Exc Nat × Attempt :=
  (cleanupPendingRecords (2 * hour)).run (FailedUpload.sampleHost.stopAt 0
    (.call (.deleteObjects [tmpLogicalPath (pendingRecord 1 0)]) false)) (.start pendingUploads)

theorem tables_stopAt (host : Host) (now : Time) (c : S3Cmd) (done : Bool) (cmd : FileCmd) (a : Attempt) :
    TablesAnswer cmd a (host.stopAt now (.call c done) cmd a).1 (host.stopAt now (.call c done) cmd a).2 := by
  cases cmd with
  | db f =>
    have hnot : Step.call c done ≠ .table a.operations := fun h => by cases h
    unfold TablesAnswer Host.stopAt
    dsimp only
    rw [if_neg hnot]
    exact ⟨rfl, rfl⟩
  | uuid4 => trivial
  | store adapter op => trivial

/-- The clean-up ends with a count, and the temporary file of the younger upload stays. -/
theorem sample_cleanup_spares : ∃ n, stoppedCleanup.1 = .ok n ∧
    stoppedCleanup.2.bucket.content (tmpLogicalPath (pendingRecord 2 (2 * hour))) =
      pendingUploads.bucket.content (tmpLogicalPath (pendingRecord 2 (2 * hour))) := by
  have hexec : Exec (StorageOutage FailedUpload.sampleHost) (cleanupPendingRecords (2 * hour))
      (.start pendingUploads) stoppedCleanup.1 stoppedCleanup.2 :=
    exec_run (fun c a => ⟨outage_stopAt _ _ _ c a, tables_stopAt _ _ _ _ c a⟩) _ _
  have hother : ∀ r ∈ pendingUploads.db.records.rows, stale (2 * hour) r = true →
      ¬ Bucket.Covers (tmpLogicalPath r) (tmpLogicalPath (pendingRecord 2 (2 * hour))) := by
    decide +kernel
  obtain ⟨n, gone, hn, -, -, -, hobjects⟩ := failing_cleanup_spares _ _ _ _ _ hexec
  exact ⟨n, hn, hobjects _ hother⟩

/-! ### The clean-up when every call is answered -/

section
variable {host : Host} {now : Time} {w : Installation}

theorem run_deleteTmpFile (record : FileRecord) (w : Installation) :
    (deleteTmpFile record).run (host.serve now) w = (.ok (), ⟨w.db, w.bucket.keep fun k =>
      !decide (Bucket.Covers (tmpLogicalPath record) k)⟩) := by
  unfold deleteTmpFile
  exact run_catch_ok (run_deleteIfExists plain_diskRoot (objectKey_tmp record)
    (tmpLogicalPath_ne_nil record) w) _

/-- The objects at and below the temporary keys of some records. -/
def TmpOf (records : List FileRecord) (k : Str) : Prop :=
  ∃ r ∈ records, Bucket.Covers (tmpLogicalPath r) k

variable (host now) in
theorem run_cleanupAll (records : List FileRecord) : ∀ (deleted : Nat) (w : Installation),
    (records.map (·.id)).Nodup → (∀ r ∈ records, r ∈ w.db.records.rows) →
      ∃ t, (cleanupAll records deleted).run (host.serve now) w = (.ok (deleted + records.length), t) ∧
        Cleaned (fun id => decide (id ∈ records.map (·.id))) w.db t.db ∧
        Swept (TmpOf records) w.bucket t.bucket := by
  induction records with
  | nil =>
    intro deleted w _ _
    refine ⟨w, rfl, .nothing w.db, ?_⟩
    apply (Swept.nothing w.bucket).congr
    intro k
    constructor
    · exact fun h => h.elim
    · rintro ⟨r, hr, -⟩
      cases hr
  | cons record records ih =>
    intro deleted w hnodup hall
    rw [List.map_cons, List.nodup_cons] at hnodup
    have hfound : (w.db.records.get record.id).isSome = true := by
      rw [RecordTable.get_of_mem (hall record List.mem_cons_self)]
      rfl
    have hone : ((deleteTmpFile record).bind fun _ => db (FileRepo.hardDelete record.id)).run
        (host.serve now) w = (.ok true, ⟨(FileRepo.hardDelete record.id w.db).2, w.bucket.keep fun k =>
          !decide (Bucket.Covers (tmpLogicalPath record) k)⟩) := by
      rw [run_bind_ok (run_deleteTmpFile record w), run_db, ← hfound]
      rfl
    have hlater : ∀ r ∈ records, r ∈ (FileRepo.hardDelete record.id w.db).2.records.rows := by
      intro r hr
      rw [(cleaned_hardDelete record.id w.db).records, List.mem_filter]
      refine ⟨hall r (List.mem_cons_of_mem _ hr), ?_⟩
      -- the deletion of this record leaves the others of the list
      have hother : r.id ≠ record.id :=
        fun heq => hnodup.1 (List.mem_map.2 ⟨r, hr, heq⟩)
      simpa using hother
    obtain ⟨t, hrun, hcleaned, hswept⟩ := ih (deleted + 1)
      ⟨(FileRepo.hardDelete record.id w.db).2, w.bucket.keep fun k =>
        !decide (Bucket.Covers (tmpLogicalPath record) k)⟩ hnodup.2 hlater
    refine ⟨t, ?_, ?_, ?_⟩
    · have hattempt := run_attempt (host.serve now)
        ((deleteTmpFile record).bind fun _ => db (FileRepo.hardDelete record.id)) w
      rw [hone] at hattempt
      unfold cleanupAll
      rw [bind_eq, bind_eq, run_bind_ok hattempt]
      dsimp only
      have hcount : deleted + 1 + records.length = deleted + (records.length + 1) := by omega
      rw [hrun, List.length_cons, hcount]
    · have hboth := (cleaned_hardDelete record.id w.db).trans hcleaned
      have hsame : (fun id => decide (id = record.id) || decide (id ∈ records.map (·.id))) =
          fun id => decide (id ∈ (record :: records).map (·.id)) := by
        funext id
        rw [List.map_cons, ← Bool.decide_or]
        exact decide_eq_decide.2 List.mem_cons.symm
      rw [← hsame]
      exact hboth
    · apply ((swept_covers w.bucket (tmpLogicalPath record)).trans hswept).congr
      intro k
      constructor
      · rintro (hfirst | hrest)
        · obtain ⟨top, htop, hcovers⟩ := hfirst
          rw [← Option.some.inj htop] at hcovers
          exact ⟨record, List.mem_cons_self, hcovers⟩
        · obtain ⟨r, hr, hcovers⟩ := hrest
          exact ⟨r, List.mem_cons_of_mem _ hr, hcovers⟩
      · rintro ⟨r, hr, hcovers⟩
        rcases List.mem_cons.1 hr with hfirst | hrest
        · rw [hfirst] at hcovers
          exact .inl ⟨_, rfl, hcovers⟩
        · exact .inr ⟨r, hrest, hcovers⟩

end

/-- When every call is answered, the clean-up deletes exactly the records that were pending for over
an hour, counts them, and takes away exactly the objects at and below their temporary keys; a second
run at that time finds nothing. -/
theorem stale_records_cleaned (host : Host) (now : Time) (w : Installation) :
    ∃ t, (cleanupPendingRecords now).run (host.serve now) w =
        (.ok (w.db.records.rows.countP (stale now)), t) ∧
      t.db.records.rows = (w.db.records.rows.filter fun r => !stale now r) ∧
      t.db.quotas = w.db.quotas ∧
      t.db.links.rows = w.db.links.rows.map (LinkTable.forgotten fun id =>
        decide (id ∈ (w.db.records.rows.filter (stale now)).map (·.id))) ∧
      Swept (TmpOf (w.db.records.rows.filter (stale now))) w.bucket t.bucket ∧
      (cleanupPendingRecords now).run (host.serve now) t = (.ok 0, t) := by
  have hnodup : ((w.db.records.rows.filter (stale now)).map (·.id)).Nodup :=
    w.db.records.id_unique.sublist (List.filter_sublist.map _)
  obtain ⟨t, hrun, hcleaned, hswept⟩ := run_cleanupAll host now
    (w.db.records.rows.filter (stale now)) 0 w hnodup fun r hr => List.mem_of_mem_filter hr
  have hrecords : t.db.records.rows = w.db.records.rows.filter fun r => !stale now r := by
    rw [hcleaned.records]
    apply List.filter_congr
    intro r hr
    congr 1
    rw [Bool.eq_iff_iff, decide_eq_true_iff]
    constructor
    · intro hid
      obtain ⟨r', hr', hsame⟩ := List.mem_map.1 hid
      obtain ⟨hmem, hstale⟩ := List.mem_filter.1 hr'
      rw [RecordTable.eq_of_id hr hmem hsame.symm]
      exact hstale
    · intro hstale
      exact List.mem_map.2 ⟨r, List.mem_filter.2 ⟨hr, hstale⟩, rfl⟩
  have hnone : t.db.records.rows.filter (stale now) = [] := by
    rw [hrecords, List.filter_filter]
    apply List.filter_eq_nil_iff.2
    intro r _
    simp
  have hlisted : ∀ v : Installation, (db (FileRepo.listStalePending (now - hour))).run (host.serve now) v =
      (.ok (v.db.records.rows.filter (stale now)), v) := fun v => rfl
  refine ⟨t, ?_, hrecords, hcleaned.quotas, hcleaned.links, hswept, ?_⟩
  · unfold cleanupPendingRecords
    rw [bind_eq, run_bind_ok (hlisted w), hrun, Nat.zero_add, List.countP_eq_length_filter]
  · unfold cleanupPendingRecords
    rw [bind_eq, run_bind_ok (hlisted t), hnone]
    rfl

end Maintenance
end WebStorage
