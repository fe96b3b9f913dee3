import WebStorage.Downloads
import WebStorage.AdminService
import WebStorage.QuotaRuns

set_option autoImplicit false

/-! Which files the archive job takes. A download marks the file it read, but the mark is kept only
where the route commits its session. -/
namespace WebStorage.FilesInUse
open Effect Effect.Prog

/-! ### The time of the last access -/

/-- No record was accessed longer ago than before; new records were accessed now. -/
def Fresher (now : Time) (d t : Db) : Prop :=
  ∀ r' ∈ t.records.rows, now ≤ r'.lastAccessedAt ∨
    ∃ r ∈ d.records.rows, r.id = r'.id ∧ r.lastAccessedAt ≤ r'.lastAccessedAt

/-- A command after which that is so. -/
def Ages (now : Time) : FileCmd → Prop
  | .db f => ∀ d, Fresher now d (f d).2
  | _ => True

section
variable {α : Type} {now : Time} {d t u : Db}

theorem Fresher.refl (now : Time) (d : Db) : Fresher now d d :=
  fun r' hr' => .inr ⟨r', hr', rfl, le_refl _⟩

theorem Fresher.of_records (h : t.records = d.records) : Fresher now d t := by
  intro r' hr'
  rw [h] at hr'
  exact .inr ⟨r', hr', rfl, le_refl _⟩

theorem Fresher.trans (h : Fresher now d t) (h' : Fresher now t u) : Fresher now d u := by
  intro r'' hr''
  rcases h' r'' hr'' with hnew | ⟨r', hr', hid', hle'⟩
  · exact .inl hnew
  rcases h r' hr' with hnew | ⟨r, hr, hid, hle⟩
  · exact .inl (hnew.trans hle')
  · exact .inr ⟨r, hr, hid.trans hid', hle.trans hle'⟩

theorem fresher_update {p : FileRecord → Bool} {f : FileRecord → FileRecord}
    (hf : ∀ r, now ≤ (f r).lastAccessedAt ∨ r.lastAccessedAt ≤ (f r).lastAccessedAt) :
    Fresher now d { d with records := d.records.update p f } := by
  intro r' hr'
  obtain ⟨r, hr, heq⟩ := List.mem_map.1 hr'
  rw [← heq]
  split
  · rcases hf r with hnew | hle
    · exact .inl hnew
    · exact .inr ⟨r, hr, rfl, hle⟩
  · exact .inr ⟨r, hr, rfl, le_refl _⟩

theorem fresher_drop (p : FileRecord → Bool) {quotas : QuotaTable} {links : LinkTable} :
    Fresher now d ⟨d.records.drop p, quotas, links⟩ :=
  fun r' hr' => .inr ⟨r', (List.mem_filter.1 hr').1, rfl, le_refl _⟩

theorem fresher_create (id userId : Uuid) (relativePath originalName : Str) (sizeBytes : Int)
    (isEncrypted : Bool) (fileSection : FileSection) (status : FileStatus) :
    Fresher now d (FileRepo.create id userId relativePath originalName sizeBytes isEncrypted
      fileSection status now d).2 := by
  unfold FileRepo.create RecordTable.add
  dsimp only
  split
  · rename_i records hadd
    split at hadd
    · cases hadd
    cases hadd
    intro r' hr'
    rcases List.mem_append.1 hr' with hold | hnew
    · exact .inr ⟨r', hold, rfl, le_refl _⟩
    · rw [List.mem_singleton.1 hnew]
      exact .inl (le_refl _)
  · exact .refl now d

theorem fresher_heal (owner : Option Uuid) (fileSection : FileSection)
    (relativePath originalName : Str) :
    Fresher now d (FileRepo.heal owner fileSection relativePath originalName d).2 := by
  unfold FileRepo.heal
  split
  · split
    · exact .refl now d
    · exact fresher_update fun r => .inr (le_refl _)
  · exact .refl now d

/-- No call of the services sets a mark back. -/
theorem ages_inventory (now : Time) : Inventory now (Ages now) where
  uuid4 := trivial
  store _ _ := trivial
  quiet _ hf d := .of_records (hf d)
  create _ _ _ _ _ _ _ _ := fresher_create _ _ _ _ _ _ _ _
  updateStatus _ _ _ _ _ _ := fresher_update fun _ => .inr (le_refl _)
  updateSize _ _ _ _ := fresher_update fun _ => .inr (le_refl _)
  heal _ _ _ _ _ := fresher_heal _ _ _ _
  movePrefix _ _ _ _ _ := fresher_update fun _ => .inr (le_refl _)
  touchLastAccessed _ _ := fresher_update fun _ => .inl (le_refl _)
  delete _ _ := fresher_update fun _ => .inr (le_refl _)
  deleteAllByUserSection _ _ _ := fresher_update fun _ => .inr (le_refl _)
  markArchived _ _ _ := fresher_update fun _ => .inr (le_refl _)
  hardDelete _ _ := fresher_drop _

/-- What each command of a program does to the tables, the program does. -/
theorem dbWp_of_only {R : Db → Db → Prop} {P : FileCmd → Prop} {p : FileM α}
    (hrefl : R d d) (htrans : ∀ s t u, R s t → R t u → R s u)
    (hP : ∀ {β : Type} (f : DbOp β), P (.db f) → ∀ s, R s (f s).2) (hp : Prog.Only P p) :
    dbWp p (fun _ t => R d t) d := by
  have hwp : wp DbAnswers (R d) p (fun _ => R d) d := by
    apply wp_of_all hp hrefl
    intro c s x t hc hs hx
    refine ⟨?_, fun _ _ => trivial⟩
    cases c with
    | uuid4 => exact hx.1 ▸ hs
    | db f =>
      have hcall : f s = (x, t) := hx
      have hstep := hP f hc s
      rw [hcall] at hstep
      exact htrans _ _ _ hs hstep
    | store adapter op =>
      have hsame : t = s := hx
      exact hsame ▸ hs
  exact wp_weaken hwp fun _ _ => trivial

theorem fresher_of_only {p : FileM α} (hp : Prog.Only (Ages now) p) :
    dbWp p (fun _ t => Fresher now d t) d :=
  dbWp_of_only (.refl now d) (fun _ _ _ => Fresher.trans) (fun _ hf => hf) hp

/-! ### What the archive job takes -/

/-- Only records of the list may be archived that were not. -/
def Marks (ids : List Uuid) (d t : Db) : Prop :=
  ∀ r' ∈ t.records.rows, ∃ r ∈ d.records.rows, r.id = r'.id ∧
    (r'.isArchived = true → r.isArchived = true ∨ r'.id ∈ ids)

variable {ids : List Uuid}

theorem Marks.of_records (h : t.records = d.records) : Marks ids d t := by
  intro r' hr'
  rw [h] at hr'
  exact ⟨r', hr', rfl, .inl⟩

theorem Marks.trans (h : Marks ids d t) (h' : Marks ids t u) : Marks ids d u := by
  intro r'' hr''
  obtain ⟨r', hr', hid', hmark'⟩ := h' r'' hr''
  obtain ⟨r, hr, hid, hmark⟩ := h r' hr'
  refine ⟨r, hr, hid.trans hid', ?_⟩
  intro harchived
  rcases hmark' harchived with hbefore | hin
  · rw [← hid']
    exact hmark hbefore
  · exact .inr hin

theorem marks_markArchived {id : Uuid} (archivePath : Str) (hid : id ∈ ids) :
    Marks ids d (FileRepo.markArchived id archivePath d).2 := by
  intro r' hr'
  obtain ⟨r, hr, heq⟩ := List.mem_map.1 hr'
  by_cases hsame : r.id = id
  · rw [if_pos (decide_eq_true hsame)] at heq
    rw [← heq]
    refine ⟨r, hr, rfl, fun _ => .inr ?_⟩
    dsimp only
    rw [hsame]
    exact hid
  · rw [if_neg (by simpa using hsame)] at heq
    rw [← heq]
    exact ⟨r, hr, rfl, .inl⟩

/-- A command that archives records of the list only. -/
def MarksOnly (ids : List Uuid) : FileCmd → Prop
  | .db f => ∀ d, Marks ids d (f d).2
  | _ => True

theorem marks_books {p : FileM α} (hp : KeepsBooks p) : Prog.Only (MarksOnly ids) p := by
  apply all_mono hp
  intro c hc
  cases c with
  | db f => exact fun d => .of_records (hc d).1
  | _ => trivial

theorem marks_archiveAll (s : ArchiveService) (records : List FileRecord) (report : ArchiveReport)
    (hrecords : ∀ r ∈ records, r.id ∈ ids) :
    Prog.Only (MarksOnly ids) (s.archiveAll now records report) := by
  induction records generalizing report with
  | nil => trivial
  | cons record records ih =>
    have hstores : ∀ op, Prog.Only (MarksOnly ids) (store diskRootAdapter op) :=
      fun op => marks_books (keepsBooks_store _ op)
    have hrecord : Prog.Only (MarksOnly ids) (s.archiveRecord record now) := by
      unfold ArchiveService.archiveRecord
      apply all_bind (hstores _)
      intro present
      split
      · trivial
      apply all_bind (hstores _)
      intro source
      apply all_bind (hstores _)
      intro _
      apply all_bind (hstores _)
      intro _
      have hid := hrecords record List.mem_cons_self
      apply all_bind (Inventory.call fun d => marks_markArchived _ hid)
      intro found
      split
      · trivial
      · exact all_bind (marks_books (keepsBooks_enqueueArchived _ _ _)) fun _ => all_done _
    unfold ArchiveService.archiveAll
    apply all_bind (all_attempt hrecord)
    intro outcome
    have hrest : ∀ report, Prog.Only (MarksOnly ids) (s.archiveAll now records report) :=
      fun report => ih report fun r hr => hrecords r (List.mem_cons_of_mem record hr)
    split <;> exact hrest _

/-- What is archived after a run was archived before, or had not been accessed since the cutoff. -/
def Takes (cutoff : Time) (d t : Db) : Prop :=
  ∀ r' ∈ t.records.rows, r'.isArchived = true → ∃ r ∈ d.records.rows, r.id = r'.id ∧
    (r.isArchived = true ∨ r.lastAccessedAt < cutoff)

def cutoffOf (s : ArchiveService) (now : Time) : Time :=
  now - s.queue.settings.archiveDaysThreshold * ArchiveService.day

theorem takes_runDailyArchive (s : ArchiveService) (now : Time) (d : Db) :
    dbWp (s.runDailyArchive now) (fun _ t => Takes (cutoffOf s now) d t) d := by
  let candidates := d.records.rows.filter fun r =>
    decide (r.lastAccessedAt < cutoffOf s now) && r.status = .committed && !r.isArchived
  have hrest : Prog.Only (MarksOnly (candidates.map (·.id)))
      ((s.archiveAll now candidates ⟨0, 0, 0⟩).bind fun report =>
        (db FileRepo.listArchivedRecords).bind fun archived =>
          (ArchiveService.totalArchivedBytes archived 0).bind fun _ => done (.ok report)) := by
    apply all_bind (marks_archiveAll s candidates _ fun r hr => List.mem_map_of_mem hr)
    intro report
    apply all_bind (Inventory.call fun d => Marks.of_records rfl)
    intro archived
    exact all_bind (marks_books (onlyStores_totalArchivedBytes _ _).keepsBooks) fun _ => all_done _
  have hmarks : dbWp _ (fun _ t => Marks (candidates.map (·.id)) d t) d :=
    dbWp_of_only (Marks.of_records rfl) (fun _ _ _ => Marks.trans) (fun _ hf => hf) hrest
  have htakes : ∀ t, Marks (candidates.map (·.id)) d t → Takes (cutoffOf s now) d t := by
    intro t hmarks r' hr' harchived
    obtain ⟨r, hr, hid, hmark⟩ := hmarks r' hr'
    refine ⟨r, hr, hid, ?_⟩
    rcases hmark harchived with hbefore | hin
    · exact .inl hbefore
    · obtain ⟨candidate, hcandidate, hsame⟩ := List.mem_map.1 hin
      obtain ⟨hmem, hkept⟩ := List.mem_filter.1 hcandidate
      rw [← RecordTable.eq_of_id hmem hr (hsame.trans hid.symm)]
      simp only [Bool.and_eq_true, decide_eq_true_eq] at hkept
      exact .inr hkept.1.1
  unfold ArchiveService.runDailyArchive
  apply bind_db
  · intro found hfound
    cases hfound
    exact wp_mono hmarks fun _ t _ ht => htakes t ht
  · intro e he
    cases he

/-! ### Requests and downloads -/

/-- What writes to the tables: the operations of the services, with those that routes call on
their own. -/
inductive Writer
  | request (r : Request)
  | deleteDirectory (s : FileService) (userId : Uuid) (path : Str)
  | deleteUser (s : AdminService) (adminId targetUserId : Uuid)

def Writer.program (now : Time) : Writer → FileM Unit
  | request r => r.program now
  | deleteDirectory s userId path => ignore (s.deleteDirectoryRecursive userId path now)
  | deleteUser s adminId targetUserId => s.deleteUser adminId targetUserId

/-- The cutoff of an archive run. -/
def Writer.cutoff (now : Time) : Writer → Option Time
  | request (.runDailyArchive s) => some (cutoffOf s now)
  | _ => none

inductive Event
  | write (w : Writer)
  | download (dl : Download)

/-- The tables and the time; who read what when, and the files that were archived although they
had been read after the cutoff. -/
structure Desk where
  db : Db
  clock : Time
  reads : List (Uuid × Time)
  lost : List Uuid

def newlyArchived (d t : Db) (id : Uuid) : Bool :=
  (t.records.rows.any fun r => decide (r.id = id) && r.isArchived) &&
    !(d.records.rows.any fun r => decide (r.id = id) && r.isArchived)

/-- The files that a run with the cutoff archived although they had been read since. -/
def lostBy (cutoff : Option Time) (reads : List (Uuid × Time)) (d t : Db) : List Uuid :=
  match cutoff with
  | none => []
  | some cutoff =>
    (reads.filter fun read => decide (cutoff < read.2) && newlyArchived d t read.1).map (·.1)

/-- A writer is committed if it returns. A download that hands out its stream is noted; its
effects on the tables are kept if the route commits. -/
inductive Step (s : Desk) : Event × Time → Desk → Prop
  | commit {w now t} : s.clock ≤ now → Exec DbAnswers (w.program now) s.db (.ok ()) t →
      Step s (.write w, now) ⟨t, now, s.reads, lostBy (w.cutoff now) s.reads s.db t ++ s.lost⟩
  | rollback {e now} : s.clock ≤ now → Step s (e, now) ⟨s.db, now, s.reads, s.lost⟩
  | served {dl now ids t} : s.clock ≤ now → Exec DbAnswers (dl.program now) s.db (.ok ids) t →
      Step s (.download dl, now)
        ⟨if dl.commits then t else s.db, now, ids.map (·, now) ++ s.reads, s.lost⟩

theorem served_committed {s : Desk} {dl : Download} {now : Time} {ids : List Uuid} {t : Db}
    (hdl : dl.commits = true) (hclock : s.clock ≤ now)
    (h : Exec DbAnswers (dl.program now) s.db (.ok ids) t) :
    Step s (.download dl, now) ⟨t, now, ids.map (·, now) ++ s.reads, s.lost⟩ := by
  have hstep := Step.served hclock h
  rwa [hdl, if_pos rfl] at hstep

/-- A download is committed. -/
def Committed (_ : Desk) (e : Event × Time) : Prop := ∀ dl, e.1 = .download dl → dl.commits = true

theorem ages_writer (w : Writer) (now : Time) : Prog.Only (Ages now) (w.program now) := by
  have h := ages_inventory now
  cases w with
  | request r => exact h.program r
  | deleteDirectory s userId path =>
    exact all_bind (h.deleteDirectoryRecursive _ _ _) fun _ => all_done _
  | deleteUser s adminId targetUserId =>
    have hremove : ∀ path, Prog.Only (Ages now) (AdminService.removeStorage path) := by
      intro path
      exact all_catchWith (h.stores (onlyStores_deleteIfExists _ _)) fun _ => all_done _
    have hshared : ∀ records, Prog.Only (Ages now) (AdminService.removeShared records) := by
      intro records
      induction records with
      | nil => trivial
      | cons record records ih =>
        unfold AdminService.removeShared
        split
        · exact all_bind (hremove _) fun _ => ih
        · exact ih
    have hrow : ∀ d, Fresher now d (UserRepo.delete s.users targetUserId d).2 := by
      intro d
      unfold UserRepo.delete
      split
      · exact fresher_drop _
      · exact .refl now d
    show Prog.Only (Ages now) (s.deleteUser adminId targetUserId)
    unfold AdminService.deleteUser
    split
    · trivial
    split
    · trivial
    apply all_bind (h.reads fun d => rfl)
    intro records
    apply all_bind
    · exact all_bind (hremove _) fun _ => hshared _
    intro _
    apply all_bind (Inventory.call hrow)
    intro deleted
    split <;> trivial

theorem any_after {β : Type} (p : FileM β) (d : Db) : dbWp p (fun _ _ => True) d := by
  induction p generalizing d with
  | done r => exact ⟨trivial, trivial⟩
  | call c k ih => exact ⟨trivial, fun x t _ => ih x t⟩

theorem dbWp_and {β : Type} {p : FileM β} {Q Q' : Except Exc β → Db → Prop} (h : dbWp p Q d)
    (h' : dbWp p Q' d) : dbWp p (fun x t => Q x t ∧ Q' x t) d := by
  induction p generalizing d with
  | done r => exact ⟨trivial, h.2, h'.2⟩
  | call c k ih => exact ⟨trivial, fun x t ht => ih x (h.2 x t ht) (h'.2 x t ht)⟩

/-- The mark of a read. -/
theorem touch_spec (id : Uuid) (now : Time) (d : Db) :
    dbWp (db (FileRepo.touchLastAccessed id now))
      (fun _ t => ∀ r ∈ t.records.rows, r.id = id → now ≤ r.lastAccessedAt) d := by
  apply dbWp_db
  intro r' hr' hid
  obtain ⟨r, hr, heq⟩ := List.mem_map.1 hr'
  by_cases hsame : r.id = id
  · rw [if_pos (decide_eq_true hsame)] at heq
    rw [← heq]
  · rw [if_neg (by simpa using hsame)] at heq
    rw [heq] at hsame
    exact absurd hid hsame

section
-- The paths play no part here, and must not be evaluated.
attribute [local irreducible] Adapter.toDiskRelativePath normalizePath FileService.recordToRead
  FileService.readRecord

theorem readNoted_spec (s : FileService) (actorId : Uuid) (path : Str) (now : Time) (d : Db) :
    dbWp (s.readNoted actorId path now) (fun x t => ∀ noted, x = .ok noted → ∀ id, noted.1 = some id →
      ∀ r ∈ t.records.rows, r.id = id → now ≤ r.lastAccessedAt) d := by
  unfold FileService.readNoted
  apply bind_spec (any_after _ d)
  · intro found t _
    cases found with
    | none =>
      apply bind_spec (any_after _ t)
      · intro content u _
        refine ⟨trivial, ?_⟩
        intro noted hnoted id hid
        cases hnoted
        cases hid
      · intro e u _ noted hnoted
        cases hnoted
    | some record =>
      apply bind_spec (any_after _ t)
      · intro content u _
        apply bind_spec (touch_spec record.id now u)
        · intro _ v hv
          refine ⟨trivial, ?_⟩
          intro noted hnoted id hid
          cases hnoted
          cases hid
          exact hv
        · intro e v _ noted hnoted
          cases hnoted
      · intro e u _ noted hnoted
        cases hnoted
  · intro e t _ noted hnoted
    cases hnoted

/-- A committed download has marked every record that it read. -/
theorem committed_download (dl : Download) (now : Time) (d : Db) (h : dl.commits = true) :
    dbWp (dl.program now) (fun x t => Fresher now d t ∧ ∀ ids, x = .ok ids → ∀ id ∈ ids,
      ∀ r ∈ t.records.rows, r.id = id → now ≤ r.lastAccessedAt) d := by
  have hinventory := ages_inventory now
  cases dl with
  | generatedFile s userId runId name =>
    have honly : Prog.Only (Ages now) (Download.program now (.generatedFile s userId runId name)) := by
      apply all_bind (hinventory.prepareFile _ _ _ _)
      intro relativePath
      exact all_bind (hinventory.readNoted _ _ _) fun _ => all_done _
    have hmarks : dbWp (Download.program now (.generatedFile s userId runId name))
        (fun x t => ∀ ids, x = .ok ids → ∀ id ∈ ids, ∀ r ∈ t.records.rows, r.id = id →
          now ≤ r.lastAccessedAt) d := by
      apply bind_spec (any_after _ d)
      · intro relativePath t _
        apply bind_spec (readNoted_spec _ _ _ now t)
        · intro noted u hu
          refine ⟨trivial, ?_⟩
          intro ids hids id hid
          cases hids
          exact hu noted rfl id (Option.mem_toList.1 hid)
        · intro e u _ ids hids
          cases hids
      · intro e t _ ids hids
        cases hids
    exact dbWp_and (fresher_of_only honly) hmarks
  | file s actorId path => cases h
  | folder s depth actorId path => cases h
  | photoOriginal s userId fileId => cases h

end

/-- Every file that was read has been marked, and none was archived in spite of it. -/
structure Marked (s : Desk) : Prop where
  past : ∀ read ∈ s.reads, read.2 ≤ s.clock
  marked : ∀ read ∈ s.reads, ∀ r ∈ s.db.records.rows, r.id = read.1 → read.2 ≤ r.lastAccessedAt
  lost : s.lost = []

theorem Marked.fresher {s : Desk} (h : Marked s) (hclock : s.clock ≤ now) (ht : Fresher now s.db t) :
    ∀ read ∈ s.reads, ∀ r ∈ t.records.rows, r.id = read.1 → read.2 ≤ r.lastAccessedAt := by
  intro read hread r' hr' hid'
  rcases ht r' hr' with hnew | ⟨r, hr, hid, hle⟩
  · exact ((h.past read hread).trans hclock).trans hnew
  · exact (h.marked read hread r hr (hid.trans hid')).trans hle

/-- An archive run takes no file that was read after its cutoff. -/
theorem Marked.lostBy_nil {s : Desk} (h : Marked s) {w : Writer}
    (hexec : Exec DbAnswers (w.program now) s.db (.ok ()) t) :
    lostBy (w.cutoff now) s.reads s.db t = [] := by
  unfold lostBy
  split
  · rfl
  rename_i cutoff hcutoff
  have htakes : Takes cutoff s.db t := by
    unfold Writer.cutoff at hcutoff
    split at hcutoff
    · rename_i archive
      cases hcutoff
      have hrun : dbWp (ignore (archive.runDailyArchive now))
          (fun _ t => Takes (cutoffOf archive now) s.db t) s.db := by
        apply bind_spec (takes_runDailyArchive archive now s.db)
        · intro _ t ht
          exact ⟨trivial, ht⟩
        · intro e t ht
          exact ht
      exact (wp_sound hrun hexec).2
    · cases hcutoff
  rw [List.map_eq_nil_iff, List.filter_eq_nil_iff]
  intro read hread hbad
  simp only [newlyArchived, Bool.and_eq_true, decide_eq_true_eq, Bool.not_eq_true',
    List.any_eq_true, List.any_eq_false, not_and, Bool.not_eq_true] at hbad
  obtain ⟨hlate, ⟨r', hr', hid', harchived⟩, hnone⟩ := hbad
  obtain ⟨r, hr, hid, hbefore⟩ := htakes r' hr' harchived
  have hsame : r.id = read.1 := hid.trans hid'
  rcases hbefore with hbefore | hstale
  · rw [hnone r hr hsame] at hbefore
    cases hbefore
  · -- the mark of the read is after the cutoff
    have hmark := h.marked read hread r hr hsame
    exact lt_irrefl _ ((lt_of_lt_of_le hlate hmark).trans hstale)

theorem step_marked {s s' : Desk} {e : Event × Time} (h : Marked s) (hok : Committed s e)
    (hstep : Step s e s') : Marked s' := by
  cases hstep with
  | @commit w now t hclock hexec =>
    have ht : Fresher now s.db t := (wp_sound (fresher_of_only (ages_writer w now)) hexec).2
    refine ⟨fun read hread => (h.past read hread).trans hclock, h.fresher hclock ht, ?_⟩
    rw [h.lostBy_nil hexec, h.lost]
    rfl
  | rollback hclock =>
    exact ⟨fun read hread => (h.past read hread).trans hclock, h.marked, h.lost⟩
  | @served dl now ids t hclock hexec =>
    have hcommits := hok dl rfl
    obtain ⟨ht, hids⟩ := (wp_sound (committed_download dl now s.db hcommits) hexec).2
    have hnow := hids ids rfl
    refine ⟨?_, ?_, h.lost⟩
    · intro read hread
      rcases List.mem_append.1 hread with hnew | hold
      · obtain ⟨id, -, rfl⟩ := List.mem_map.1 hnew
        exact le_refl _
      · exact (h.past read hold).trans hclock
    · rw [hcommits, if_pos rfl]
      intro read hread
      rcases List.mem_append.1 hread with hnew | hold
      · obtain ⟨id, hid, rfl⟩ := List.mem_map.1 hnew
        exact hnow id hid
      · exact h.fresher hclock ht read hold

/-- As long as every download commits its session, no archive run takes a file that was read after
its cutoff. -/
theorem in_use_not_archived (d : Db) (clock : Time) (s : Desk)
    (h : Steps Step Committed ⟨d, clock, [], []⟩ s) : s.lost = [] := by
  have hmarked : Marked s := by
    apply h.invariant
    · exact ⟨nofun, nofun, rfl⟩
    · intro t e u ht hok hstep
      exact step_marked ht hok hstep
  exact hmarked.lost

end

/-! ### A download a day before the archive run -/

section
open QuotaBooks

def sampleRecord (relativePath : Str) (fileSection : FileSection) : FileRecord :=
  { id := fileId
    userId := user
    relativePath := relativePath
    originalName := "a.bin".toList
    sizeBytes := 3
    isEncrypted := false
    fileSection := fileSection
    status := .committed
    checksumSha256 := none
    createdAt := 0
    lastAccessedAt := 0
    isArchived := false
    archivePath := none }

def sampleDb (relativePath : Str) (fileSection : FileSection) : Db :=
  ⟨⟨[sampleRecord relativePath fileSection], List.nodup_singleton _⟩, ∅, LinkTable.empty⟩

def plainDb : Db := sampleDb "users/u/files/a.bin".toList .files

def generatedDb : Db := sampleDb "users/u/files/r/a.bin".toList .generated

def archiveJob : Writer := .request (.runDailyArchive ⟨⟨id, .ok⟩, queue⟩)

def plainDownload : Download := .file userFiles user "a.bin".toList

def generatedDownload : Download :=
  .generatedFile ⟨{ userFiles with fileSection := .generated }, fun _ => true,
    fun _ => ["a.bin".toList]⟩ user "r".toList "a.bin".toList

def thirtyDays : Time := 30 * ArchiveService.day

/-- What a run leaves when the storage answers everything. -/
def left {α : Type} (p : FileM α) (d : Db) : Db := (run online p d).2

theorem exec_online {α : Type} {p : FileM α} {d : Db} {a : α} (h : (run online p d).1 = .ok a) :
    Exec DbAnswers p d (.ok a) (left p d) := by
  have hexec := exec_run online_answers p d
  rw [h] at hexec
  exact hexec

/-- The mark of an ordinary download is lost with its session, and the job takes the file. -/
theorem plain_download_lost : ¬ ∀ (d : Db) (clock : Time) (s : Desk),
    Steps Step (fun _ _ => True) ⟨d, clock, [], []⟩ s → s.lost = [] := by
  intro hall
  have hread : Exec DbAnswers (plainDownload.program thirtyDays) plainDb (.ok [fileId])
      (left (plainDownload.program thirtyDays) plainDb) := exec_online rfl
  have harchive : Exec DbAnswers (archiveJob.program (thirtyDays + 1)) plainDb (.ok ())
      (left (archiveJob.program (thirtyDays + 1)) plainDb) := exec_online rfl
  have hfirst : Step ⟨plainDb, 0, [], []⟩ (.download plainDownload, thirtyDays) _ :=
    .served (by decide) hread
  have hsecond : Step ⟨plainDb, thirtyDays, [(fileId, thirtyDays)], []⟩
      (.write archiveJob, thirtyDays + 1) _ := .commit (by decide) harchive
  have hlost := hall plainDb 0 _ (.tail (.tail .refl trivial hfirst) trivial hsecond)
  have hfile : lostBy (archiveJob.cutoff (thirtyDays + 1)) [(fileId, thirtyDays)] plainDb
      (left (archiveJob.program (thirtyDays + 1)) plainDb) = [fileId] := rfl
  dsimp only at hlost
  rw [hfile] at hlost
  cases hlost

/-- The mark of a generated file is kept, and the job passes it over. -/
theorem generated_download_kept :
    lostBy (archiveJob.cutoff (thirtyDays + 1)) [(fileId, thirtyDays)]
      (left (generatedDownload.program thirtyDays) generatedDb)
      (left (archiveJob.program (thirtyDays + 1))
        (left (generatedDownload.program thirtyDays) generatedDb)) ++ [] = [] := by
  have hread : Exec DbAnswers (generatedDownload.program thirtyDays) generatedDb (.ok [fileId])
      (left (generatedDownload.program thirtyDays) generatedDb) := exec_online rfl
  have harchive : Exec DbAnswers (archiveJob.program (thirtyDays + 1))
      (left (generatedDownload.program thirtyDays) generatedDb) (.ok ())
      (left (archiveJob.program (thirtyDays + 1))
        (left (generatedDownload.program thirtyDays) generatedDb)) := exec_online rfl
  have hfirst : Step ⟨generatedDb, 0, [], []⟩ (.download generatedDownload, thirtyDays)
      ⟨left (generatedDownload.program thirtyDays) generatedDb, thirtyDays,
        [(fileId, thirtyDays)], []⟩ := by
    have hclock : (0 : Time) ≤ thirtyDays := by decide
    exact served_committed (s := ⟨generatedDb, 0, [], []⟩) rfl hclock hread
  have hsecond : Step ⟨left (generatedDownload.program thirtyDays) generatedDb, thirtyDays,
      [(fileId, thirtyDays)], []⟩ (.write archiveJob, thirtyDays + 1) _ :=
    .commit (by decide) harchive
  have hcommits : Committed ⟨generatedDb, 0, [], []⟩ (.download generatedDownload, thirtyDays) := by
    intro dl hdl
    cases hdl
    rfl
  have hwriter : Committed ⟨left (generatedDownload.program thirtyDays) generatedDb, thirtyDays,
      [(fileId, thirtyDays)], []⟩ (.write archiveJob, thirtyDays + 1) := by
    intro dl hdl
    cases hdl
  exact in_use_not_archived generatedDb 0 _ (.tail (.tail .refl hcommits hfirst) hwriter hsecond)

end
end WebStorage.FilesInUse
