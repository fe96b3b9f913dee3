import WebStorage.Backfill
import WebStorage.KeysetPages

set_option autoImplicit false

/-! A complete backfill: page after page, each called with the cursor of the one before. Every
stored record of the indexed sections that has no queue row is examined once. -/
namespace WebStorage.BackfillPages
open Effect Effect.Prog

/-! ### The order of the pages -/

/-- `(created_at, id)`. -/
abbrev OrderKey := Lex (Time × Str)

def orderKey (r : FileRecord) : OrderKey := toLex (r.createdAt, r.id.text)

def cursorKey (cursor : BackfillCursor) : OrderKey := toLex (cursor.createdAt, cursor.recordId.text)

theorem recordsOldestFirst_iff (a b : FileRecord) :
    recordsOldestFirst a b ↔ orderKey a ≤ orderKey b := by
  unfold recordsOldestFirst orderKey
  rw [Prod.Lex.toLex_le_toLex, Text.le_iff]

theorem before_iff (cursor : BackfillCursor) (r : FileRecord) :
    cursor.before r = true ↔ cursorKey cursor < orderKey r := by
  unfold BackfillCursor.before cursorKey orderKey
  rw [Prod.Lex.toLex_lt_toLex]
  simp only [Bool.or_eq_true, Bool.and_eq_true, decide_eq_true_eq, Bool.not_eq_true',
    decide_eq_false_iff_not, Text.le_iff, not_le]
  rw [@eq_comm _ r.createdAt]

theorem orderKey_nodup (t : RecordTable) : (t.rows.map orderKey).Nodup := by
  apply List.Nodup.map_on _ (List.Nodup.of_map (·.id) t.id_unique)
  intro a ha b hb heq
  have htext : a.id.text = b.id.text := congrArg (fun k => (ofLex k).2) heq
  have hid : a.id = b.id := by
    cases hia : a.id
    cases hib : b.id
    rw [hia, hib] at htext
    simpa using htext
  exact RecordTable.eq_of_id ha hb hid

/-- The records that a backfill is to examine, in the order of the pages. -/
def inOrder (after : Option BackfillCursor) (d : Db) : List FileRecord :=
  (LinkRepo.backfillSelect after d).insertionSort recordsOldestFirst

theorem inOrder_ascending (after : Option BackfillCursor) (d : Db) :
    Keyset.Ascending orderKey (inOrder after d) := by
  apply Keyset.ascending_insertionSort recordsOldestFirst_iff
  exact (orderKey_nodup d.records).sublist (List.filter_sublist.map orderKey)

theorem mem_inOrder {after : Option BackfillCursor} {d : Db} {r : FileRecord} :
    r ∈ inOrder after d ↔ r ∈ LinkRepo.backfillSelect after d :=
  List.mem_insertionSort _

/-- No queue row stands for the record. -/
def Unlinked (d : Db) (r : FileRecord) : Prop :=
  ∀ link ∈ d.links.rows, link.fileRecordId ≠ some r.id

theorem select_spec {after : Option BackfillCursor} {d : Db} {r : FileRecord}
    (h : r ∈ LinkRepo.backfillSelect after d) : r ∈ d.records.rows ∧ Unlinked d r ∧
      (r.fileSection = .files ∨ r.fileSection = .photos) := by
  obtain ⟨hmem, hkept⟩ := List.mem_filter.1 h
  simp only [Bool.and_eq_true, Bool.not_eq_true', List.any_eq_false, decide_eq_true_eq,
    Bool.or_eq_true] at hkept
  exact ⟨hmem, hkept.1.1.1, hkept.1.2⟩

/-! ### One record -/

/-- No other session writes: the repositories answer exactly, and a fresh id is new. -/
def Alone : Handler FileCmd.Resp Exc Db
  | .uuid4, d, x, d' => d' = d ∧ ∃ id, x = .ok id ∧ d.links.get id = none
  | .db f, d, x, d' => f d = (x, d')
  | .store .., d, _, d' => d' = d

/-- `decide_registration_target` raises: there is nothing to enqueue. -/
def Refused (maxImageBytes : Int) (r : FileRecord) : Prop :=
  (decideRegistrationTarget r maxImageBytes).isOk = false

instance (maxImageBytes : Int) (r : FileRecord) : Decidable (Refused maxImageBytes r) :=
  inferInstanceAs (Decidable (_ = false))

/-- The record is to be sent to the index. -/
def sends (maxImageBytes : Int) (r : FileRecord) : Bool :=
  (decideRegistrationTarget r maxImageBytes).toOption.any fun decision => decide (decision.kind ≠ .skip)

/-- What is refused among the records of the indexed sections: encrypted records, and those
without a path. -/
theorem refused_encrypted {maxImageBytes : Int} {r : FileRecord}
    (hsection : r.fileSection = .files ∨ r.fileSection = .photos) (h : Refused maxImageBytes r) :
    r.isEncrypted = true ∨ r.relativePath = [] := by
  by_contra hnot
  push Not at hnot
  obtain ⟨hplain, hpath⟩ := hnot
  have hindexed : ¬ (r.fileSection = .private ∨ r.isEncrypted = true) := by
    rcases hsection with hs | hs <;> simp [hs, hplain]
  rw [Refused, decide_isOk hindexed hpath] at h
  cases h

theorem decision_allowed {maxImageBytes : Int} {r : FileRecord} {decision : RegistrationDecision}
    (hsection : r.fileSection = .files ∨ r.fileSection = .photos)
    (h : decideRegistrationTarget r maxImageBytes = .ok decision) :
    ¬ (r.fileSection = .private ∨ r.isEncrypted = true) ∧
      decision.skipCode ≠ some .excludedSection := by
  have hincluded : ¬ (r.fileSection ≠ .files ∧ r.fileSection ≠ .photos) :=
    fun hs => hsection.elim hs.1 hs.2
  simp only [decideRegistrationTarget, if_neg hincluded] at h
  split at h
  · cases h
  rename_i hindexed
  refine ⟨hindexed, ?_⟩
  split_ifs at h
  all_goals
    rw [(RegistrationDecision.make_ok h).2.2.2.2]
    decide

/-- A new row for a record without one goes through. -/
theorem upsertPending_fresh {t : LinkTable} {id : Uuid} {record : FileRecord}
    {decision : RegistrationDecision} (now : Time)
    (hplain : ¬ (record.fileSection = .private ∨ record.isEncrypted = true))
    (hsection : record.fileSection = .files ∨ record.fileSection = .photos)
    (hskip : decision.skipCode ≠ some .excludedSection)
    (hnew : ∀ link ∈ t.rows, link.fileRecordId ≠ some record.id) (hid : t.get id = none) :
    ∃ t', t.upsertPending id record decision now =
        .ok (some (LinkTable.insertedLink id record decision now), t') ∧
      t'.rows = t.rows ++ [LinkTable.insertedLink id record decision now] := by
  have hnone : t.byFileRecordId record.id = none := by
    rw [LinkTable.byFileRecordId, List.find?_eq_none]
    intro link hlink hsame
    exact hnew link hlink (of_decide_eq_true hsame)
  have hincluded : ¬ ((record.fileSection ≠ .files ∧ record.fileSection ≠ .photos) ∨
      decision.skipCode = some .excludedSection) := by
    rintro (hs | hs)
    · exact hsection.elim hs.1 hs.2
    · exact hskip hs
  have hfresh : ∀ link ∈ t.rows, link.id ≠ id := by
    intro link hlink heq
    have hget := LinkTable.get_of_mem hlink
    rw [heq, hid] at hget
    cases hget
  have hids : ((t.rows ++ [LinkTable.insertedLink id record decision now]).map (·.id)).Nodup := by
    rw [List.map_append, List.nodup_append]
    refine ⟨t.id_unique, List.nodup_singleton _, ?_⟩
    intro a ha b hb heq
    obtain ⟨link, hlink, rfl⟩ := List.mem_map.1 ha
    rw [List.map_singleton, List.mem_singleton] at hb
    exact hfresh link hlink (heq.trans hb)
  have hrecords : UniqueColumn (·.fileRecordId)
      (t.rows ++ [LinkTable.insertedLink id record decision now]) := by
    intro a ha b hb hne heq
    dsimp only at hne heq
    rcases List.mem_append.1 ha with ha | ha <;> rcases List.mem_append.1 hb with hb | hb
    · exact t.file_record_unique a ha b hb hne heq
    · rw [List.mem_singleton.1 hb] at heq
      exact absurd heq (hnew a ha)
    · rw [List.mem_singleton.1 ha] at heq
      exact absurd heq.symm (hnew b hb)
    · rw [List.mem_singleton.1 ha, List.mem_singleton.1 hb]
  have hrag : UniqueColumn (·.ragFileId)
      (t.rows ++ [LinkTable.insertedLink id record decision now]) := by
    intro a ha b hb hne heq
    dsimp only at hne heq
    rcases List.mem_append.1 ha with ha | ha <;> rcases List.mem_append.1 hb with hb | hb
    · exact t.rag_unique a ha b hb hne heq
    · rw [List.mem_singleton.1 hb] at heq
      exact absurd heq hne
    · rw [List.mem_singleton.1 ha] at hne
      exact absurd rfl hne
    · rw [List.mem_singleton.1 ha, List.mem_singleton.1 hb]
  refine ⟨⟨_, hids, hrecords, hrag⟩, ?_, rfl⟩
  unfold LinkTable.upsertPending
  rw [if_neg hplain, if_neg hincluded, hnone]
  dsimp only
  rw [LinkTable.insert, LinkTable.flush, dif_pos ⟨hids, hrecords, hrag⟩]
  rfl

/-- The tables after some records were enqueued: a new row for each that is not refused. -/
structure Grown (maxImageBytes : Int) (records : List FileRecord) (d t : Db) : Prop where
  sameRecords : t.records = d.records
  sameQuotas : t.quotas = d.quotas
  added : ∃ rows, t.links.rows = d.links.rows ++ rows ∧ rows.map (·.fileRecordId) =
    (records.filter fun r => !decide (Refused maxImageBytes r)).map fun r => some r.id

section
variable {maxImageBytes : Int} {now : Time} {d t u : Db} {r : FileRecord} {records : List FileRecord}

theorem Grown.refl (d : Db) : Grown maxImageBytes [] d d :=
  ⟨rfl, rfl, [], (List.append_nil _).symm, rfl⟩

theorem Grown.trans {records' : List FileRecord} (h : Grown maxImageBytes records d t)
    (h' : Grown maxImageBytes records' t u) : Grown maxImageBytes (records ++ records') d u := by
  obtain ⟨rows, hrows, hids⟩ := h.added
  obtain ⟨rows', hrows', hids'⟩ := h'.added
  refine ⟨h'.sameRecords.trans h.sameRecords, h'.sameQuotas.trans h.sameQuotas, rows ++ rows', ?_, ?_⟩
  · rw [hrows', hrows, List.append_assoc]
  · rw [List.map_append, hids, hids', List.filter_append, List.map_append]

theorem enqueueRecord_refused (now : Time) (h : Refused maxImageBytes r) :
    Backfill.enqueueRecord r maxImageBytes now = done (.ok false) ∧ sends maxImageBytes r = false := by
  unfold Refused at h
  cases hdecision : decideRegistrationTarget r maxImageBytes with
  | ok decision =>
    rw [hdecision] at h
    cases h
  | error e =>
    constructor
    · unfold Backfill.enqueueRecord
      rw [hdecision]
      rfl
    · unfold sends
      rw [hdecision]
      rfl

theorem enqueueRecord_spec (hnew : Unlinked d r)
    (hsection : r.fileSection = .files ∨ r.fileSection = .photos) :
    wp Alone (fun _ => True) (Backfill.enqueueRecord r maxImageBytes now)
      (fun x t => x = .ok (sends maxImageBytes r) ∧ Grown maxImageBytes [r] d t) d := by
  by_cases hrefused : Refused maxImageBytes r
  · obtain ⟨hprogram, hsends⟩ := enqueueRecord_refused now hrefused
    rw [hprogram, hsends]
    exact ⟨trivial, rfl, rfl, rfl, [], (List.append_nil _).symm, by simp [hrefused]⟩
  cases hdecision : decideRegistrationTarget r maxImageBytes with
  | error e =>
    rw [Refused, hdecision] at hrefused
    exact absurd rfl hrefused
  | ok decision =>
    obtain ⟨hplain, hskip⟩ := decision_allowed hsection hdecision
    unfold Backfill.enqueueRecord
    rw [hdecision]
    refine wp_catchWith ⟨trivial, fun x t hx => ?_⟩
    obtain ⟨rfl, id, rfl, hid⟩ := hx
    refine ⟨trivial, fun x t hx => ?_⟩
    obtain ⟨links, hlinks, hrows⟩ := upsertPending_fresh now hplain hsection hskip hnew hid
    have hcall : onLinks (fun table => table.upsertPending id r decision now) _ = (x, t) := hx
    rw [onLinks_ok hlinks] at hcall
    cases hcall
    have hstate : (LinkTable.insertedLink id r decision now).state = .pending ↔
        decision.kind ≠ .skip := by
      unfold LinkTable.insertedLink
      by_cases hkind : decision.kind = .skip <;> simp [hkind]
    have hsends : sends maxImageBytes r = decide (decision.kind ≠ .skip) := by
      unfold sends
      rw [hdecision]
      rfl
    refine ⟨trivial, ?_, rfl, rfl, _, hrows, by simp [hrefused, LinkTable.insertedLink]⟩
    rw [hsends]
    exact congrArg Except.ok (decide_eq_decide.2 hstate)

/-- A record that is none of those enqueued has as few rows as before. -/
theorem Grown.unlinked (h : Grown maxImageBytes records d t) (hr : Unlinked d r)
    (hother : r.id ∉ records.map (·.id)) : Unlinked t r := by
  obtain ⟨rows, hrows, hids⟩ := h.added
  intro link hlink heq
  rw [hrows] at hlink
  rcases List.mem_append.1 hlink with hold | hnew
  · exact hr link hold heq
  · have hmem : link.fileRecordId ∈ rows.map (·.fileRecordId) := List.mem_map_of_mem hnew
    rw [hids] at hmem
    obtain ⟨r', hr', hid⟩ := List.mem_map.1 hmem
    rw [heq] at hid
    apply hother
    rw [← Option.some.inj hid]
    exact List.mem_map_of_mem (List.mem_filter.1 hr').1

/-- What `_enqueue_page` counts. -/
def counted (maxImageBytes : Int) (counts : Nat × Nat) (records : List FileRecord) : Nat × Nat :=
  (counts.1 + records.countP (sends maxImageBytes),
    counts.2 + records.countP fun r => !sends maxImageBytes r)

theorem counted_cons (counts : Nat × Nat) : counted maxImageBytes counts (r :: records) =
    counted maxImageBytes (if sends maxImageBytes r then (counts.1 + 1, counts.2)
      else (counts.1, counts.2 + 1)) records := by
  unfold counted
  rw [List.countP_cons, List.countP_cons]
  cases sends maxImageBytes r <;> simp <;> omega

theorem enqueuePage_spec (counts : Nat × Nat) (hids : (records.map (·.id)).Nodup)
    (hrecords : ∀ r ∈ records, Unlinked d r ∧ (r.fileSection = .files ∨ r.fileSection = .photos)) :
    wp Alone (fun _ => True) (Backfill.enqueuePage maxImageBytes now records counts)
      (fun x t => x = .ok (counted maxImageBytes counts records) ∧ Grown maxImageBytes records d t)
      d := by
  induction records generalizing counts d with
  | nil => exact ⟨trivial, rfl, .refl d⟩
  | cons r records ih =>
    obtain ⟨enqueued, skipped⟩ := counts
    obtain ⟨hother, hids⟩ := List.nodup_cons.1 hids
    obtain ⟨hnew, hsection⟩ := hrecords r List.mem_cons_self
    unfold Backfill.enqueuePage
    rw [bind_eq, wp_bind]
    refine wp_mono (enqueueRecord_spec hnew hsection) ?_
    rintro x t - ⟨rfl, hgrown⟩
    -- the others have no row yet
    have hrest : ∀ r' ∈ records, Unlinked t r' ∧
        (r'.fileSection = .files ∨ r'.fileSection = .photos) := by
      intro r' hr'
      obtain ⟨hnew', hsection'⟩ := hrecords r' (List.mem_cons_of_mem r hr')
      refine ⟨hgrown.unlinked hnew' ?_, hsection'⟩
      rw [List.map_singleton, List.mem_singleton]
      intro heq
      have hmem : r'.id ∈ records.map (·.id) := List.mem_map_of_mem hr'
      rw [heq] at hmem
      exact hother hmem
    dsimp only
    rw [counted_cons]
    split
    · exact wp_mono (ih _ hids hrest) fun y u _ hu => ⟨hu.1, hgrown.trans hu.2⟩
    · exact wp_mono (ih _ hids hrest) fun y u _ hu => ⟨hu.1, hgrown.trans hu.2⟩

end

/-! ### One page -/

/-- The candidates of a page. -/
def page (size : Int) (after : Option BackfillCursor) (d : Db) : List FileRecord :=
  (inOrder after d).take size.toNat

/-- What one call does to the tables, and what it returns. -/
structure PageDone (size maxImageBytes : Int) (after : Option BackfillCursor) (d : Db)
    (result : BackfillResult) (t : Db) : Prop where
  grown : Grown maxImageBytes (page size after d) d t
  examined : result.examined = (page size after d).length
  enqueued : result.enqueued = (page size after d).countP (sends maxImageBytes)
  skipped : result.skipped = (page size after d).countP fun r => !sends maxImageBytes r
  nextCursor : result.nextCursor = Backfill.cursorAfter (page size after d)
  remaining : result.remaining =
    (LinkRepo.backfillSelect (result.nextCursor <|> after) t).length

section
variable {size maxImageBytes indexBatchSize : Int} {limit : Option Int} {now : Time} {d t : Db}
variable {after : Option BackfillCursor} {r : FileRecord} {result : BackfillResult}

theorem mem_page (h : r ∈ page size after d) : r ∈ d.records.rows ∧ Unlinked d r ∧
    (r.fileSection = .files ∨ r.fileSection = .photos) :=
  select_spec (mem_inOrder.1 (List.mem_of_mem_take h))

theorem page_ids (size : Int) (after : Option BackfillCursor) (d : Db) :
    ((page size after d).map (·.id)).Nodup := by
  have hselected : ((LinkRepo.backfillSelect after d).map (·.id)).Nodup :=
    d.records.id_unique.sublist (List.filter_sublist.map _)
  have hsorted : ((inOrder after d).map (·.id)).Nodup :=
    ((List.perm_insertionSort _ _).map _).nodup_iff.2 hselected
  exact hsorted.sublist ((List.take_sublist _ _).map _)

theorem pageLimit_pos (h : Backfill.pageLimit limit indexBatchSize = .ok size) : 1 ≤ size := by
  unfold Backfill.pageLimit at h
  split_ifs at h
  cases h
  omega

theorem backfill_spec (hsize : Backfill.pageLimit limit indexBatchSize = .ok size) :
    wp Alone (fun _ => True) (Backfill.backfill true limit after indexBatchSize maxImageBytes now)
      (fun x t => ∃ result, x = .ok result ∧ PageDone size maxImageBytes after d result t) d := by
  have hpos := pageLimit_pos hsize
  have hcandidates : LinkRepo.backfillCandidates size after d = (.ok (page size after d), d) := by
    unfold LinkRepo.backfillCandidates
    rw [if_neg (by omega)]
    rfl
  unfold Backfill.backfill
  rw [if_neg (by decide), hsize, bind_eq, wp_bind]
  refine ⟨trivial, ?_⟩
  dsimp only
  rw [bind_eq, wp_bind]
  refine ⟨trivial, fun x t hx => ⟨trivial, ?_⟩⟩
  have hcall : LinkRepo.backfillCandidates size after d = (x, t) := hx
  rw [hcandidates] at hcall
  cases hcall
  dsimp only
  rw [bind_eq, wp_bind]
  have hrecords : ∀ r ∈ page size after d, Unlinked d r ∧
      (r.fileSection = .files ∨ r.fileSection = .photos) := fun r hr => (mem_page hr).2
  refine wp_mono (enqueuePage_spec (0, 0) (page_ids size after d) hrecords) ?_
  rintro x t - ⟨rfl, hgrown⟩
  dsimp only [counted]
  refine ⟨trivial, fun x u hx => ?_⟩
  have hcount : LinkRepo.countRemaining (Backfill.cursorAfter (page size after d) <|> after) t =
    (x, u) := hx
  cases hcount
  exact ⟨trivial, _, rfl, hgrown, rfl, Nat.zero_add _, Nat.zero_add _, rfl, rfl⟩

end

/-! ### From page to page -/

/-- A call that returned. -/
def Call (limit : Option Int) (indexBatchSize maxImageBytes : Int) (after : Option BackfillCursor)
    (d : Db) (result : BackfillResult) (t : Db) : Prop :=
  ∃ now, Exec Alone (Backfill.backfill true limit after indexBatchSize maxImageBytes now) d
    (.ok result) t

/-- A call returns a cursor, and the next one is made with it. -/
def NextCall (limit : Option Int) (indexBatchSize maxImageBytes : Int)
    (next last : Option BackfillCursor × Db) : Prop :=
  ∃ result, Call limit indexBatchSize maxImageBytes last.1 last.2 result next.2 ∧
    result.nextCursor = next.1 ∧ next.1 ≠ none

/-- A call: its cursor, the records it read, what it returned, and the tables it left. -/
structure Page where
  after : Option BackfillCursor
  records : List FileRecord
  result : BackfillResult
  left : Db

/-- The cursor that the page ended with. -/
def Page.cursor (p : Page) : Option BackfillCursor := p.result.nextCursor <|> p.after

/-- Calls with the returned cursors, up to the one that returns none. -/
inductive Iteration (limit : Option Int) (indexBatchSize maxImageBytes size : Int) :
    Option BackfillCursor → Db → List Page → Db → Prop
  | last {after d result t} : Call limit indexBatchSize maxImageBytes after d result t →
      result.nextCursor = none →
      Iteration limit indexBatchSize maxImageBytes size after d [⟨after, page size after d, result, t⟩] t
  | next {after d result t cursor pages u} : Call limit indexBatchSize maxImageBytes after d result t →
      result.nextCursor = some cursor →
      Iteration limit indexBatchSize maxImageBytes size (some cursor) t pages u →
      Iteration limit indexBatchSize maxImageBytes size after d
        (⟨after, page size after d, result, t⟩ :: pages) u

section
variable {size maxImageBytes indexBatchSize : Int} {limit : Option Int} {d t u : Db}
variable {after : Option BackfillCursor} {r : FileRecord} {result : BackfillResult}
variable {pages : List Page}

theorem call_spec (hsize : Backfill.pageLimit limit indexBatchSize = .ok size)
    (h : Call limit indexBatchSize maxImageBytes after d result t) :
    PageDone size maxImageBytes after d result t := by
  obtain ⟨now, hexec⟩ := h
  obtain ⟨result', hresult, hdone⟩ := (wp_sound (backfill_spec hsize) hexec).2
  cases hresult
  exact hdone

/-- A page that returns no cursor read nothing, as nothing was left. -/
theorem page_empty (hpos : 1 ≤ size) (h : Backfill.cursorAfter (page size after d) = none) :
    page size after d = [] ∧ inOrder after d = [] := by
  have hpage : page size after d = [] := by
    unfold Backfill.cursorAfter at h
    rw [Option.map_eq_none_iff, List.getLast?_eq_none_iff] at h
    exact h
  refine ⟨hpage, ?_⟩
  unfold page at hpage
  rcases List.take_eq_nil_iff.1 hpage with hzero | hnil
  · omega
  · exact hnil

/-- The records after the cursor are what the page left over. -/
theorem inOrder_next {cursor : BackfillCursor} (h : PageDone size maxImageBytes after d result t)
    (hcursor : result.nextCursor = some cursor) :
    inOrder (some cursor) t = (inOrder after d).drop size.toNat := by
  rw [h.nextCursor, Backfill.cursorAfter, Option.map_eq_some_iff] at hcursor
  obtain ⟨last, hlast, rfl⟩ := hcursor
  have hmem : last ∈ page size after d := List.mem_of_getLast? hlast
  have hafter : after.all (·.before last) = true := by
    have hselected := (List.mem_filter.1 (mem_inOrder.1 (List.mem_of_mem_take hmem))).2
    simp only [Bool.and_eq_true] at hselected
    exact hselected.2
  have hkey : cursorKey ⟨last.createdAt, last.id⟩ = orderKey last := rfl
  have hbefore : ∀ r : FileRecord, BackfillCursor.before ⟨last.createdAt, last.id⟩ r =
      decide (orderKey last < orderKey r) := by
    intro r
    rw [Bool.eq_iff_iff, before_iff, hkey, decide_eq_true_eq]
  -- the records of the page are not after it
  have hpage : ∀ r ∈ page size after d, ¬ orderKey last < orderKey r := by
    intro r hr hlt
    have hrest := Keyset.rest_page (inOrder_ascending after d) size.toNat hlast
    have hin : r ∈ (inOrder after d).drop size.toNat := by
      rw [← hrest]
      exact List.mem_filter.2 ⟨List.mem_of_mem_take hr, decide_eq_true hlt⟩
    have hnodup : (inOrder after d).Nodup := by
      apply List.Pairwise.imp _ (inOrder_ascending after d)
      intro a b hab heq
      rw [heq] at hab
      exact lt_irrefl _ hab
    rw [← List.take_append_drop size.toNat (inOrder after d)] at hnodup
    exact (List.nodup_append.1 hnodup).2.2 r hr r hin rfl
  have hselect : LinkRepo.backfillSelect (some ⟨last.createdAt, last.id⟩) t =
      (LinkRepo.backfillSelect after d).filter fun r => decide (orderKey last < orderKey r) := by
    unfold LinkRepo.backfillSelect
    rw [h.grown.sameRecords, List.filter_filter]
    apply List.filter_congr
    intro r hr
    rw [Option.all_some, hbefore]
    by_cases hlt : orderKey last < orderKey r
    · have hother : r.id ∉ (page size after d).map (·.id) := by
        intro hin
        obtain ⟨r', hr', hid⟩ := List.mem_map.1 hin
        rw [RecordTable.eq_of_id (mem_page hr').1 hr hid] at hr'
        exact hpage r hr' hlt
      have hlinked : (t.links.rows.any fun link => decide (link.fileRecordId = some r.id)) =
          d.links.rows.any fun link => decide (link.fileRecordId = some r.id) := by
        obtain ⟨rows, hrows, hids⟩ := h.grown.added
        have hnone : (rows.any fun link => decide (link.fileRecordId = some r.id)) = false := by
          rw [List.any_eq_false]
          intro link hlink heq
          have hmem' : link.fileRecordId ∈ rows.map (·.fileRecordId) := List.mem_map_of_mem hlink
          rw [hids] at hmem'
          obtain ⟨r', hr', hid⟩ := List.mem_map.1 hmem'
          rw [of_decide_eq_true heq] at hid
          apply hother
          rw [← Option.some.inj hid]
          exact List.mem_map_of_mem (List.mem_filter.1 hr').1
        rw [hrows, List.any_append, hnone, Bool.or_false]
      have hall : after.all (·.before r) = true := by
        cases after with
        | none => rfl
        | some c =>
          rw [Option.all_some, before_iff] at hafter ⊢
          exact hafter.trans hlt
      rw [hlinked, hall, decide_eq_true hlt]
      simp
    · rw [decide_eq_false hlt]
      simp
  unfold inOrder
  rw [hselect, Keyset.insertionSort_filter recordsOldestFirst_iff]
  · exact Keyset.rest_page (inOrder_ascending after d) size.toNat hlast
  · exact (orderKey_nodup d.records).sublist (List.filter_sublist.map orderKey)

/-- The calls come to an end. -/
theorem nextCall_wellFounded (hsize : Backfill.pageLimit limit indexBatchSize = .ok size) :
    WellFounded (NextCall limit indexBatchSize maxImageBytes) := by
  have hmeasure : WellFounded fun a b : Option BackfillCursor × Db =>
      (inOrder a.1 a.2).length < (inOrder b.1 b.2).length := (measure _).wf
  apply Subrelation.wf _ hmeasure
  rintro ⟨next, t⟩ ⟨after, d⟩ ⟨result, hcall, hnext, hsome⟩
  have hpos := pageLimit_pos hsize
  have hdone := call_spec hsize hcall
  obtain ⟨cursor, hcursor⟩ := Option.ne_none_iff_exists'.1 hsome
  dsimp only at hnext hcursor hdone ⊢
  rw [hcursor] at hnext ⊢
  have hleft : (inOrder (some cursor) t).length = (inOrder after d).length - size.toNat := by
    rw [inOrder_next hdone hnext, List.length_drop]
  have hne : (inOrder after d).length ≠ 0 := by
    intro hzero
    have hnil := List.length_eq_zero_iff.1 hzero
    have hnone : result.nextCursor = none := by
      rw [hdone.nextCursor, page, hnil, List.take_nil]
      rfl
    rw [hnext] at hnone
    cases hnone
  omega

/-- A complete iteration reads the records in order, and enqueues each of them. -/
theorem iteration_spec (hsize : Backfill.pageLimit limit indexBatchSize = .ok size)
    (h : Iteration limit indexBatchSize maxImageBytes size after d pages u) :
    pages.flatMap (·.records) = inOrder after d ∧ Grown maxImageBytes (inOrder after d) d u := by
  induction h with
  | last hcall hnone =>
    have hdone := call_spec hsize hcall
    rw [hdone.nextCursor] at hnone
    obtain ⟨hpage, hnil⟩ := page_empty (pageLimit_pos hsize) hnone
    have hgrown := hdone.grown
    rw [hpage] at hgrown
    rw [hnil, hpage]
    exact ⟨rfl, hgrown⟩
  | next hcall hcursor _ ih =>
    have hdone := call_spec hsize hcall
    rw [inOrder_next hdone hcursor] at ih
    constructor
    · rw [List.flatMap_cons, ih.1]
      exact List.take_append_drop _ _
    · have hboth := hdone.grown.trans ih.2
      unfold page at hboth
      rwa [List.take_append_drop] at hboth

/-- What holds of every call holds of every page. -/
theorem iteration_pages {P : Page → Prop} (h : Iteration limit indexBatchSize maxImageBytes size after d pages u)
    (hcall : ∀ after d result t, Call limit indexBatchSize maxImageBytes after d result t →
      P ⟨after, page size after d, result, t⟩) : ∀ p ∈ pages, P p := by
  induction h with
  | last h _ =>
    intro p hp
    rw [List.mem_singleton.1 hp]
    exact hcall _ _ _ _ h
  | next h _ _ ih =>
    intro p hp
    rcases List.mem_cons.1 hp with heq | hp
    · rw [heq]
      exact hcall _ _ _ _ h
    · exact ih p hp

theorem length_sends (records : List FileRecord) : records.length =
    records.countP (sends maxImageBytes) + records.countP fun r => !sends maxImageBytes r := by
  induction records with
  | nil => rfl
  | cons r records ih =>
    rw [List.length_cons, List.countP_cons, List.countP_cons, ih]
    cases sends maxImageBytes r <;> simp <;> omega

end

/-! ### A complete iteration -/

/-- A stored record of the indexed sections without a queue row. -/
def Due (d : Db) (r : FileRecord) : Prop :=
  r ∈ d.records.rows ∧ isDownloadable r = true ∧
    (r.fileSection = .files ∨ r.fileSection = .photos) ∧ Unlinked d r

def AfterCursor (cursor : Option BackfillCursor) (r : FileRecord) : Prop :=
  ∀ c, cursor = some c → cursorKey c < orderKey r

def HasOneLink (d : Db) (r : FileRecord) : Prop :=
  ∃! link, link ∈ d.links.rows ∧ link.fileRecordId = some r.id

/-- `n` is the number of records with the property. -/
def Counts (P : FileRecord → Prop) (n : ℕ) : Prop :=
  ∃ records : List FileRecord, records.Nodup ∧ (∀ r, r ∈ records ↔ P r) ∧ n = records.length

/-- What the pages of a complete iteration did to the tables. -/
structure VisitsOnce (maxImageBytes : Int) (d : Db) (pages : List Page) (u : Db) : Prop where
  ordered : (pages.flatMap (·.records)).Pairwise fun a b => orderKey a < orderKey b
  examined : ∀ r, r ∈ pages.flatMap (·.records) ↔ Due d r
  counted : ∀ p ∈ pages, p.result.examined = p.records.length ∧
    p.result.examined = p.result.enqueued + p.result.skipped
  remaining : ∀ p ∈ pages, Counts (fun r => Due p.left r ∧ AfterCursor p.cursor r) p.result.remaining
  linked : ∀ r, Due d r → ¬ Refused maxImageBytes r → HasOneLink u r
  refused : ∀ r, Due d r → Refused maxImageBytes r →
    (r.isEncrypted = true ∨ r.relativePath = []) ∧ Unlinked u r

section
variable {size maxImageBytes indexBatchSize : Int} {limit : Option Int} {d t u : Db}
variable {after : Option BackfillCursor} {r : FileRecord} {pages : List Page}

theorem mem_select : r ∈ LinkRepo.backfillSelect after d ↔ Due d r ∧ AfterCursor after r := by
  have hlinks : (!d.links.rows.any fun link => decide (link.fileRecordId = some r.id)) = true ↔
      Unlinked d r := by
    rw [Bool.not_eq_true', List.any_eq_false]
    simp only [decide_eq_true_eq]
    rfl
  have hafter : after.all (·.before r) = true ↔ AfterCursor after r := by
    unfold AfterCursor
    cases after with
    | none => simp
    | some c =>
      rw [Option.all_some, before_iff]
      simp
  unfold LinkRepo.backfillSelect Due
  rw [List.mem_filter, Bool.and_eq_true, Bool.and_eq_true, Bool.and_eq_true, hlinks, hafter,
    Bool.or_eq_true, decide_eq_true_eq, decide_eq_true_eq]
  tauto

theorem mem_inOrder_none : r ∈ inOrder none d ↔ Due d r := by
  rw [mem_inOrder, mem_select]
  exact and_iff_left fun c hc => nomatch hc

theorem select_nodup (after : Option BackfillCursor) (d : Db) :
    (LinkRepo.backfillSelect after d).Nodup :=
  (List.Nodup.of_map _ d.records.id_unique).filter _

/-- A record that was enqueued has the one row that was added for it. -/
theorem Grown.hasOneLink {records : List FileRecord} (h : Grown maxImageBytes records d u)
    (hr : r ∈ records) (hsent : ¬ Refused maxImageBytes r) : HasOneLink u r := by
  obtain ⟨rows, hrows, hids⟩ := h.added
  have hkept : r ∈ records.filter fun r => !decide (Refused maxImageBytes r) := by
    apply List.mem_filter.2
    simp [hr, hsent]
  have hmem : some r.id ∈ rows.map (·.fileRecordId) := by
    rw [hids]
    exact List.mem_map_of_mem hkept
  obtain ⟨link, hlink, hid⟩ := List.mem_map.1 hmem
  have hin : link ∈ u.links.rows := by
    rw [hrows]
    exact List.mem_append_right _ hlink
  refine ⟨link, ⟨hin, hid⟩, ?_⟩
  intro other hboth
  obtain ⟨hother, hsame⟩ := hboth
  have hne : other.fileRecordId ≠ none := by
    rw [hsame]
    exact Option.some_ne_none _
  have hids := u.links.file_record_unique other hother link hin hne (hsame.trans hid.symm)
  exact List.inj_on_of_nodup_map u.links.id_unique hother hin hids

/-- A refused record gets no row. -/
theorem Grown.unlinked_refused {records : List FileRecord} (h : Grown maxImageBytes records d u)
    (hrecords : ∀ r ∈ records, r ∈ d.records.rows) (hr : r ∈ d.records.rows) (hnew : Unlinked d r)
    (hrefused : Refused maxImageBytes r) : Unlinked u r := by
  obtain ⟨rows, hrows, hids⟩ := h.added
  intro link hlink heq
  rw [hrows] at hlink
  rcases List.mem_append.1 hlink with hold | hadded
  · exact hnew link hold heq
  · have hmem : link.fileRecordId ∈ rows.map (·.fileRecordId) := List.mem_map_of_mem hadded
    rw [hids] at hmem
    obtain ⟨r', hr', hid⟩ := List.mem_map.1 hmem
    obtain ⟨hin, hsent⟩ := List.mem_filter.1 hr'
    rw [heq] at hid
    have hsame := RecordTable.eq_of_id (hrecords r' hin) hr (Option.some.inj hid)
    rw [hsame] at hsent
    simp [hrefused] at hsent

theorem iteration_visits (hsize : Backfill.pageLimit limit indexBatchSize = .ok size)
    (h : Iteration limit indexBatchSize maxImageBytes size none d pages u) :
    VisitsOnce maxImageBytes d pages u := by
  obtain ⟨hpages, hgrown⟩ := iteration_spec hsize h
  have hrecords : ∀ r ∈ inOrder none d, r ∈ d.records.rows :=
    fun r hr => (mem_inOrder_none.1 hr).1
  constructor
  case ordered =>
    rw [hpages]
    exact inOrder_ascending none d
  case examined =>
    intro r
    rw [hpages]
    exact mem_inOrder_none
  case counted =>
    apply iteration_pages (P := fun p => p.result.examined = p.records.length ∧
      p.result.examined = p.result.enqueued + p.result.skipped) h
    intro after d result t hcall
    have hdone := call_spec hsize hcall
    refine ⟨hdone.examined, ?_⟩
    dsimp only
    rw [hdone.examined, hdone.enqueued, hdone.skipped]
    exact length_sends _
  case remaining =>
    apply iteration_pages (P := fun p => Counts (fun r => Due p.left r ∧ AfterCursor p.cursor r)
      p.result.remaining) h
    intro after d result t hcall
    have hdone := call_spec hsize hcall
    exact ⟨_, select_nodup _ t, fun r => mem_select, hdone.remaining⟩
  case linked =>
    intro r hdue hsent
    exact hgrown.hasOneLink (mem_inOrder_none.2 hdue) hsent
  case refused =>
    intro r hdue hrefused
    refine ⟨refused_encrypted hdue.2.2.1 hrefused, ?_⟩
    exact hgrown.unlinked_refused hrecords hdue.1 hdue.2.2.2 hrefused

/-- After a complete iteration only refused records are left without a row. -/
theorem refused_of_due (hsize : Backfill.pageLimit limit indexBatchSize = .ok size)
    (h : Iteration limit indexBatchSize maxImageBytes size none d pages u) (hdue : Due u r) :
    Refused maxImageBytes r := by
  by_contra hsent
  obtain ⟨-, hgrown⟩ := iteration_spec hsize h
  obtain ⟨hmem, hstored, hsection, hnew⟩ := hdue
  rw [hgrown.sameRecords] at hmem
  -- rows are only added, so the record had none before either
  have hbefore : Unlinked d r := by
    obtain ⟨rows, hrows, -⟩ := hgrown.added
    intro link hlink
    apply hnew link
    rw [hrows]
    exact List.mem_append_left _ hlink
  have hone := hgrown.hasOneLink (mem_inOrder_none.2 ⟨hmem, hstored, hsection, hbefore⟩) hsent
  obtain ⟨link, ⟨hlink, hid⟩, -⟩ := hone
  exact hnew link hlink hid

theorem sends_refused (h : Refused maxImageBytes r) : sends maxImageBytes r = false :=
  (enqueueRecord_refused 0 h).2

/-- Another iteration finds nothing to enqueue. -/
theorem iteration_again {limit' : Option Int} {indexBatchSize' size' : Int} {pages' : List Page}
    {v : Db} (hsize : Backfill.pageLimit limit indexBatchSize = .ok size)
    (hsize' : Backfill.pageLimit limit' indexBatchSize' = .ok size')
    (h : Iteration limit indexBatchSize maxImageBytes size none d pages u)
    (h' : Iteration limit' indexBatchSize' maxImageBytes size' none u pages' v) :
    (∀ p ∈ pages', p.result.enqueued = 0) ∧ v.links.rows = u.links.rows := by
  obtain ⟨hpages, hgrown⟩ := iteration_spec hsize' h'
  have hrefused : ∀ r ∈ inOrder none u, Refused maxImageBytes r :=
    fun r hr => refused_of_due hsize h (mem_inOrder_none.1 hr)
  have hcounts : ∀ p ∈ pages', p.result.enqueued = p.records.countP (sends maxImageBytes) :=
    iteration_pages h' fun _ _ _ _ hcall => (call_spec hsize' hcall).enqueued
  constructor
  · intro p hp
    rw [hcounts p hp, List.countP_eq_zero]
    intro r hr hsends
    have hin : r ∈ pages'.flatMap (·.records) := List.mem_flatMap.2 ⟨p, hp, hr⟩
    rw [hpages] at hin
    rw [sends_refused (hrefused r hin)] at hsends
    cases hsends
  · obtain ⟨rows, hrows, hids⟩ := hgrown.added
    have hnone : (inOrder none u).filter (fun r => !decide (Refused maxImageBytes r)) = [] := by
      rw [List.filter_eq_nil_iff]
      intro r hr hsent
      simp [hrefused r hr] at hsent
    rw [hnone, List.map_nil, List.map_eq_nil_iff] at hids
    rw [hrows, hids, List.append_nil]

/-- Backfill with the returned cursors comes to an end, visits every record that is due once and
in order, and leaves nothing to enqueue. -/
theorem backfill_visits_once (limit : Option Int) (indexBatchSize maxImageBytes size : Int)
    (hsize : Backfill.pageLimit limit indexBatchSize = .ok size) :
    WellFounded (NextCall limit indexBatchSize maxImageBytes) ∧
    (∀ after now d x t,
      Exec Alone (Backfill.backfill true limit after indexBatchSize maxImageBytes now) d x t →
        ∃ result, x = .ok result) ∧
    ∀ d pages u, Iteration limit indexBatchSize maxImageBytes size none d pages u →
      VisitsOnce maxImageBytes d pages u ∧
      ∀ limit' indexBatchSize' size', Backfill.pageLimit limit' indexBatchSize' = .ok size' →
        ∀ pages' v, Iteration limit' indexBatchSize' maxImageBytes size' none u pages' v →
        (∀ p ∈ pages', p.result.enqueued = 0) ∧ v.links.rows = u.links.rows := by
  refine ⟨nextCall_wellFounded hsize, ?_, ?_⟩
  · intro after now d x t hexec
    obtain ⟨result, hresult, -⟩ := (wp_sound (backfill_spec hsize) hexec).2
    exact ⟨result, hresult⟩
  · intro d pages u h
    refine ⟨iteration_visits hsize h, ?_⟩
    intro limit' indexBatchSize' size' hsize' pages' v h'
    exact iteration_again hsize hsize' h h'

end

/-- Two records of one moment, the second of them encrypted. -/
def sampleRecord (digit : Nat) (isEncrypted : Bool) : FileRecord :=
  { id := Uuid.ofDigit digit
    userId := Uuid.ofDigit 0
    relativePath := "users/0/files/a.pdf".toList
    originalName := "a.pdf".toList
    sizeBytes := 3
    isEncrypted := isEncrypted
    fileSection := .files
    status := .committed
    checksumSha256 := none
    createdAt := 5
    lastAccessedAt := 5
    isArchived := false
    archivePath := none }

def sampleDb : Db :=
  ⟨⟨[sampleRecord 2 true, sampleRecord 1 false], by decide⟩, ∅, LinkTable.empty⟩

theorem document_not_skip :
    RegistrationKind.document = .skip ↔ (none : Option IndexSkipCode).isSome = true := by
  decide

def sampleDecision : RegistrationDecision :=
  ⟨.document, "users/0/files/a.pdf".toList, "application/pdf", none, none, document_not_skip, nofun,
    by decide, by decide⟩

/-- The tables once the plain record is queued. -/
def sampleLeft : Db :=
  (onLinks (fun t => t.upsertPending (Uuid.ofDigit 9) (sampleRecord 1 false) sampleDecision 0)
    sampleDb).2

def samplePages : List Page :=
  [⟨none, [sampleRecord 1 false], ⟨1, 1, 0, some ⟨5, Uuid.ofDigit 1⟩, 1, .completed⟩, sampleLeft⟩,
    ⟨some ⟨5, Uuid.ofDigit 1⟩, [sampleRecord 2 true],
      ⟨1, 0, 1, some ⟨5, Uuid.ofDigit 2⟩, 0, .completed⟩, sampleLeft⟩,
    ⟨some ⟨5, Uuid.ofDigit 2⟩, [], ⟨0, 0, 0, none, 0, .completed⟩, sampleLeft⟩]

theorem samplePages_iteration : Iteration (some 1) 1 10 1 none sampleDb samplePages sampleLeft := by
  have hfirst : Call (some 1) 1 10 none sampleDb
      ⟨1, 1, 0, some ⟨5, Uuid.ofDigit 1⟩, 1, .completed⟩ sampleLeft := by
    refine ⟨0, .call rfl ?_⟩
    refine .call ⟨rfl, Uuid.ofDigit 9, rfl, rfl⟩ ?_
    exact .call rfl (.call rfl (.done _ _))
  have hsecond : Call (some 1) 1 10 (some ⟨5, Uuid.ofDigit 1⟩) sampleLeft
      ⟨1, 0, 1, some ⟨5, Uuid.ofDigit 2⟩, 0, .completed⟩ sampleLeft :=
    ⟨0, .call rfl (.call rfl (.done _ _))⟩
  have hthird : Call (some 1) 1 10 (some ⟨5, Uuid.ofDigit 2⟩) sampleLeft
      ⟨0, 0, 0, none, 0, .completed⟩ sampleLeft :=
    ⟨0, .call rfl (.call rfl (.done _ _))⟩
  exact .next hfirst rfl (.next hsecond rfl (.last hthird rfl))

theorem backfill_visits_sample : WellFounded (NextCall (some 1) 1 10) ∧
    VisitsOnce 10 sampleDb samplePages sampleLeft := by
  have h := backfill_visits_once (some 1) 1 10 1 rfl
  exact ⟨h.1, (h.2.2 sampleDb samplePages sampleLeft samplePages_iteration).1⟩

end WebStorage.BackfillPages
