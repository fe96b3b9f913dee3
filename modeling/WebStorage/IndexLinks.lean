import WebStorage.IndexDecision

set_option autoImplicit false

/-! The queue table `file_index_links` and its repository. A table satisfies the unique
constraints of the schema by construction; a flush that would break one of them is an
`IntegrityError`. -/
namespace WebStorage

/-- One `file_index_links` row. -/
structure IndexLink where
  id : Uuid
  fileRecordId : Option Uuid
  userId : Uuid
  fileSection : FileSection
  s3Key : Str
  contentSha256 : Option Digest
  contentType : String
  ragFileId : Option Uuid
  state : IndexLinkState
  attempts : Nat
  nextAttemptAt : Option Time
  lastErrorCode : Option String
  createdAt : Time
  updatedAt : Time
deriving DecidableEq

/-- The columns that `apply_transition` assigns; `none` is `UNSET`. -/
structure Transition where
  state : Option IndexLinkState := none
  attempts : Option Nat := none
  nextAttemptAt : Option (Option Time) := none
  ragFileId : Option (Option Uuid) := none
  lastErrorCode : Option (Option String) := none
  s3Key : Option Str := none
  contentSha256 : Option (Option Digest) := none
  contentType : Option String := none
deriving DecidableEq

/-- The row after `_assign_transition`. -/
def Transition.assign (tr : Transition) (model : IndexLink) : IndexLink :=
  { model with
    state := tr.state.getD model.state
    attempts := tr.attempts.getD model.attempts
    nextAttemptAt := tr.nextAttemptAt.getD model.nextAttemptAt
    ragFileId := tr.ragFileId.getD model.ragFileId
    lastErrorCode := tr.lastErrorCode.getD model.lastErrorCode
    s3Key := tr.s3Key.getD model.s3Key
    contentSha256 := tr.contentSha256.getD model.contentSha256
    contentType := tr.contentType.getD model.contentType }

/-- `state_changed or payload_changed`: the schedule and the attempt counter do not count. -/
def Transition.changes (tr : Transition) (model : IndexLink) : Bool :=
  tr.state.getD model.state != model.state ||
  tr.ragFileId.getD model.ragFileId != model.ragFileId ||
  tr.lastErrorCode.getD model.lastErrorCode != model.lastErrorCode ||
  tr.s3Key.getD model.s3Key != model.s3Key ||
  tr.contentSha256.getD model.contentSha256 != model.contentSha256 ||
  tr.contentType.getD model.contentType != model.contentType

/-- The row that `apply_transition` flushes. -/
def Transition.apply (tr : Transition) (now : Time) (model : IndexLink) : IndexLink :=
  { tr.assign model with
    updatedAt := if tr.changes model then now else model.updatedAt }

/-- A unique constraint on a nullable column: two rows may share only `NULL`. -/
def UniqueColumn (column : IndexLink → Option Uuid) (rows : List IndexLink) : Prop :=
  ∀ a ∈ rows, ∀ b ∈ rows, column a ≠ none → column a = column b → a.id = b.id

instance (column : IndexLink → Option Uuid) (rows : List IndexLink) :
    Decidable (UniqueColumn column rows) :=
  inferInstanceAs (Decidable (∀ a ∈ rows, ∀ b ∈ rows, _))

structure LinkTable where
  rows : List IndexLink
  id_unique : (rows.map (·.id)).Nodup
  file_record_unique : UniqueColumn (·.fileRecordId) rows
  rag_unique : UniqueColumn (·.ragFileId) rows

namespace LinkTable

/-- The flush of a whole table: it goes through exactly if the constraints hold. -/
def flush (rows : List IndexLink) : Except Exc LinkTable :=
  if h : (rows.map (·.id)).Nodup ∧ UniqueColumn (·.fileRecordId) rows ∧
      UniqueColumn (·.ragFileId) rows then
    .ok ⟨rows, h.1, h.2.1, h.2.2⟩
  else .error .integrityError

def get (t : LinkTable) (id : Uuid) : Option IndexLink := t.rows.find? (·.id = id)

/-- `_model_by_file_record_id`. -/
def byFileRecordId (t : LinkTable) (fileRecordId : Uuid) : Option IndexLink :=
  t.rows.find? (·.fileRecordId = some fileRecordId)

def replace (rows : List IndexLink) (row : IndexLink) : List IndexLink :=
  rows.map fun r => if r.id = row.id then row else r

def set (t : LinkTable) (row : IndexLink) : Except Exc LinkTable := flush (replace t.rows row)

def insert (t : LinkTable) (row : IndexLink) : Except Exc LinkTable := flush (t.rows ++ [row])

/-- `ORDER BY created_at, id`. -/
def oldestFirst (a b : IndexLink) : Prop :=
  a.createdAt < b.createdAt ∨ (a.createdAt = b.createdAt ∧ Text.le a.id.text b.id.text)

instance : DecidableRel oldestFirst := fun _ _ => inferInstanceAs (Decidable (_ ∨ _))

def applyTransition (t : LinkTable) (linkId : Uuid) (tr : Transition) (now : Time) :
    Except Exc (Option IndexLink × LinkTable) :=
  match t.get linkId with
  | none => .ok (none, t)
  | some model =>
    if model.fileSection = .private then .error .privateIndexRefused
    else do
      let row := tr.apply now model
      let t' ← t.set row
      .ok (some row, t')

/-- The row that `upsert_pending` adds; `id` is the default `uuid4()`. -/
def insertedLink (id : Uuid) (record : FileRecord) (decision : RegistrationDecision)
    (now : Time) : IndexLink where
  id := id
  fileRecordId := some record.id
  userId := record.userId
  fileSection := record.fileSection
  s3Key := decision.s3Key
  contentSha256 := decision.contentSha256
  contentType := decision.contentType
  ragFileId := none
  state := if decision.kind = .skip then .skipped else .pending
  attempts := 0
  nextAttemptAt := none
  lastErrorCode := if decision.kind = .skip then decision.skipCode.map (·.value) else none
  createdAt := now
  updatedAt := now

def upsertPending (t : LinkTable) (id : Uuid) (record : FileRecord)
    (decision : RegistrationDecision) (now : Time) : Except Exc (Option IndexLink × LinkTable) :=
  if record.fileSection = .private ∨ record.isEncrypted then .error .privateIndexRefused
  else if (record.fileSection ≠ .files ∧ record.fileSection ≠ .photos) ∨
      decision.skipCode = some .excludedSection then .ok (none, t)
  else match t.byFileRecordId record.id with
    | some existing =>
      if existing.fileSection = .private then .error .privateIndexRefused
      else .ok (some existing, t)
    | none => do
      let row := insertedLink id record decision now
      let t' ← t.insert row
      .ok (some row, t')

/-- The columns `mark_content_changed` assigns to a row with this RAG id. -/
def contentChangedTransition (ragFileId : Option Uuid) (decision : RegistrationDecision) :
    Transition where
  state := some (if ragFileId.isSome then .reindexPending else .pending)
  attempts := some 0
  s3Key := some decision.s3Key
  contentSha256 := some decision.contentSha256
  contentType := some decision.contentType
  lastErrorCode := some none
  nextAttemptAt := some none

def markContentChanged (t : LinkTable) (fileRecordId : Uuid) (decision : RegistrationDecision)
    (now : Time) : Except Exc (Option IndexLink × LinkTable) :=
  match t.byFileRecordId fileRecordId with
  | none => .ok (none, t)
  | some model =>
    if model.fileSection = .private then .error .privateIndexRefused
    else t.applyTransition model.id (contentChangedTransition model.ragFileId decision) now

def rekeyTransition (s3Key : Str) (now : Time) : Transition where
  state := some .pending
  s3Key := some s3Key
  nextAttemptAt := some (some now)

def markRekey (t : LinkTable) (fileRecordId : Uuid) (s3Key : Str) (now : Time) :
    Except Exc (Option IndexLink × LinkTable) :=
  match t.byFileRecordId fileRecordId with
  | none => .ok (none, t)
  | some model =>
    if model.fileSection = .private then .error .privateIndexRefused
    else if model.ragFileId = none then
      if model.s3Key = s3Key then .ok (some model, t)
      else do
        let row := { model with s3Key := s3Key, updatedAt := now }
        let t' ← t.set row
        .ok (some row, t')
    else t.applyTransition model.id (rekeyTransition s3Key now) now

def removedTransition : Transition where
  state := some .removed
  nextAttemptAt := some none

/-- The loop of `mark_removed` over the models it selected before the loop. -/
def removeAll (models : List IndexLink) (now : Time) (t : LinkTable) :
    Except Exc (List IndexLink × LinkTable) :=
  match models with
  | [] => .ok ([], t)
  | model :: rest => do
    let (link, t') ← t.applyTransition model.id removedTransition now
    let (links, t'') ← removeAll rest now t'
    .ok (link.toList ++ links, t'')

def markRemoved (t : LinkTable) (fileRecordIds : List Uuid) (now : Time) :
    Except Exc (List IndexLink × LinkTable) :=
  removeAll ((dictFromKeys fileRecordIds).filterMap t.byFileRecordId) now t

def markArchived (t : LinkTable) (fileRecordId : Uuid) (now : Time) :
    Except Exc (Option IndexLink × LinkTable) :=
  match t.byFileRecordId fileRecordId with
  | none => .ok (none, t)
  | some model =>
    t.applyTransition model.id { state := some .archived, nextAttemptAt := some none } now

def isDue (now : Time) (link : IndexLink) : Bool :=
  link.state.due && link.fileSection != .private &&
    link.nextAttemptAt.all fun at_ => decide (at_ ≤ now)

def claimDue (t : LinkTable) (limit : Int) (now : Time) : Except Exc (List IndexLink) :=
  if limit < 1 then .error .valueError
  else .ok (((t.rows.filter (isDue now)).insertionSort oldestFirst).take limit.toNat)

def retryTransition (ragFileId : Option Uuid) : Transition where
  state := some (if ragFileId.isSome then .submitted else .pending)
  attempts := some 0
  nextAttemptAt := some none
  lastErrorCode := some none

def retryAll (models : List IndexLink) (now : Time) (t : LinkTable) :
    Except Exc (Nat × LinkTable) :=
  match models with
  | [] => .ok (0, t)
  | model :: rest => do
    let (link, t') ← t.applyTransition model.id (retryTransition model.ragFileId) now
    let (requeued, t'') ← retryAll rest now t'
    .ok (link.toList.length + requeued, t'')

/-- The `FAILED` rows that one `retry_failed` call picks. -/
def failedRows (t : LinkTable) (limit : Int) : List IndexLink :=
  ((t.rows.filter (·.state = .failed)).insertionSort oldestFirst).take limit.toNat

def retryFailed (t : LinkTable) (limit : Int) (now : Time) : Except Exc (Nat × LinkTable) :=
  if limit < 1 then .error .valueError else retryAll (t.failedRows limit) now t

def empty : LinkTable := ⟨[], by simp, by simp [UniqueColumn], by simp [UniqueColumn]⟩

/-- A link to a deleted record loses its reference. -/
def forgotten (gone : Uuid → Bool) (row : IndexLink) : IndexLink :=
  { row with fileRecordId := row.fileRecordId.filter fun id => !gone id }

theorem forgotten_record (gone : Uuid → Bool) (row : IndexLink) :
    (forgotten gone row).fileRecordId = row.fileRecordId ∨
      ((forgotten gone row).fileRecordId = none ∧ ∃ id, row.fileRecordId = some id ∧ gone id) := by
  cases hf : row.fileRecordId with
  | none => simp [forgotten, hf]
  | some id => by_cases h : gone id <;> simp [forgotten, hf, h, Option.filter]

/-- `ON DELETE SET NULL` of the reference to a record. -/
def forget (gone : Uuid → Bool) (t : LinkTable) : LinkTable where
  rows := t.rows.map (forgotten gone)
  id_unique := by
    rw [List.map_map]
    exact t.id_unique
  file_record_unique := by
    intro a ha b hb hne heq
    obtain ⟨x, hx, rfl⟩ := List.mem_map.1 ha
    obtain ⟨y, hy, rfl⟩ := List.mem_map.1 hb
    have hkept : ∀ row : IndexLink, (forgotten gone row).fileRecordId ≠ none →
        (forgotten gone row).fileRecordId = row.fileRecordId :=
      fun row hrow => (forgotten_record gone row).resolve_right fun hnone => hrow hnone.1
    have hx' := hkept x hne
    have hy' := hkept y fun hnone => hne (heq.trans hnone)
    have hne' : x.fileRecordId ≠ none := fun hnone => hne (hx'.trans hnone)
    have heq' : x.fileRecordId = y.fileRecordId := hx'.symm.trans (heq.trans hy')
    exact t.file_record_unique x hx y hy hne' heq'
  rag_unique := by
    intro a ha b hb hne heq
    obtain ⟨x, hx, rfl⟩ := List.mem_map.1 ha
    obtain ⟨y, hy, rfl⟩ := List.mem_map.1 hb
    exact t.rag_unique x hx y hy hne heq

theorem flush_rows {rows : List IndexLink} {t : LinkTable} (h : flush rows = .ok t) :
    t.rows = rows := by
  unfold flush at h
  split at h
  · cases h
    rfl
  · cases h

theorem get_some {t : LinkTable} {id : Uuid} {row : IndexLink} (h : t.get id = some row) :
    row ∈ t.rows ∧ row.id = id :=
  ⟨List.mem_of_find?_eq_some h, by simpa using List.find?_some h⟩

theorem eq_of_id {t : LinkTable} {a b : IndexLink} (ha : a ∈ t.rows) (hb : b ∈ t.rows)
    (h : a.id = b.id) : a = b :=
  List.inj_on_of_nodup_map t.id_unique ha hb h

theorem get_of_mem {t : LinkTable} {row : IndexLink} (h : row ∈ t.rows) :
    t.get row.id = some row := by
  cases hg : t.get row.id with
  | none => exact absurd (List.find?_eq_none.1 hg row h) (by simp)
  | some r => rw [eq_of_id (get_some hg).1 h (get_some hg).2]

theorem mem_replace {rows : List IndexLink} {row r : IndexLink}
    (h : r ∈ replace rows row) : r = row ∨ (r ∈ rows ∧ r.id ≠ row.id) := by
  obtain ⟨r', hr', rfl⟩ := List.mem_map.1 h
  split
  · exact .inl rfl
  · rename_i hne
    exact .inr ⟨hr', hne⟩

theorem replace_of_mem {rows : List IndexLink} {row r : IndexLink} (h : r ∈ rows)
    (hne : r.id ≠ row.id) : r ∈ replace rows row :=
  List.mem_map.2 ⟨r, h, if_neg hne⟩

theorem self_mem_replace {rows : List IndexLink} {row r : IndexLink} (h : r ∈ rows)
    (hid : r.id = row.id) : row ∈ replace rows row :=
  List.mem_map.2 ⟨r, h, if_pos hid⟩

theorem replace_ids (rows : List IndexLink) (row : IndexLink) :
    (replace rows row).map (·.id) = rows.map (·.id) := by
  rw [replace, List.map_map]
  refine List.map_congr_left fun r _ => ?_
  simp only [Function.comp_apply]
  split <;> simp_all

theorem replace_self {t : LinkTable} {row : IndexLink} (h : t.get row.id = some row) :
    replace t.rows row = t.rows := by
  refine (List.map_congr_left fun r hr => ?_).trans (List.map_id _)
  split
  · rename_i hid
    exact (eq_of_id hr (get_some h).1 hid).symm
  · rfl

theorem replace_replace (rows : List IndexLink) {row row' : IndexLink} (h : row.id = row'.id) :
    replace (replace rows row) row' = replace rows row' := by
  rw [replace, replace, replace, List.map_map]
  refine List.map_congr_left fun r _ => ?_
  by_cases hr : r.id = row.id
  · simp [hr, h]
  · simp [hr, ← h]

theorem get_replace {t t' : LinkTable} {row : IndexLink} (hrows : t'.rows = replace t.rows row)
    (hm : row.id ∈ t.rows.map (·.id)) (id : Uuid) :
    t'.get id = if id = row.id then some row else t.get id := by
  obtain ⟨r, hr, hid⟩ := List.mem_map.1 hm
  split
  · rename_i heq
    rw [heq]
    exact get_of_mem (hrows ▸ self_mem_replace hr hid)
  · rename_i hne
    cases hg : t.get id with
    | some r' =>
      obtain ⟨hr', rfl⟩ := get_some hg
      exact get_of_mem (hrows ▸ replace_of_mem hr' hne)
    | none =>
      refine List.find?_eq_none.2 fun r' hr' => ?_
      rw [hrows] at hr'
      rcases mem_replace hr' with rfl | ⟨hmem, -⟩
      · simpa using Ne.symm hne
      · exact List.find?_eq_none.1 hg r' hmem

theorem get_set {t t' : LinkTable} {row : IndexLink} (h : t.set row = .ok t')
    (hm : row.id ∈ t.rows.map (·.id)) (id : Uuid) :
    t'.get id = if id = row.id then some row else t.get id :=
  get_replace (flush_rows h) hm id

/-- A batch holds rows of the table, no row twice, and each of them is due. -/
theorem claimDue_spec {t : LinkTable} {limit : Int} {now : Time} {links : List IndexLink}
    (h : t.claimDue limit now = .ok links) :
    (links.map (·.id)).Nodup ∧ ∀ link ∈ links, link ∈ t.rows ∧ isDue now link := by
  unfold claimDue at h
  split at h
  · cases h
  · cases h
    have hperm := List.perm_insertionSort oldestFirst (t.rows.filter (isDue now))
    constructor
    · refine List.Nodup.sublist ((List.take_sublist _ _).map _) ?_
      rw [(hperm.map (·.id)).nodup_iff]
      exact t.id_unique.sublist (List.filter_sublist.map _)
    · intro link hlink
      exact List.mem_filter.1 (hperm.subset (List.mem_of_mem_take hlink))

/-- A new version of a row keeps the constraints exactly if no other row has its RAG id. -/
theorem set_ok_iff {t : LinkTable} {old row : IndexLink} (hg : t.get row.id = some old)
    (hf : row.fileRecordId = old.fileRecordId) : (∃ t', t.set row = .ok t') ↔
      ∀ r ∈ t.rows, r.id ≠ row.id → row.ragFileId ≠ none → r.ragFileId ≠ row.ragFileId := by
  obtain ⟨hold, hid⟩ := get_some hg
  unfold set flush
  constructor
  · rintro ⟨t', h⟩ r hr hne hsome heq
    split at h
    · rename_i hc
      refine hne (hc.2.2 r (replace_of_mem hr hne) row (self_mem_replace hold hid) ?_ heq)
      simpa only [heq] using hsome
    · cases h
  · intro h
    refine ⟨_, dif_pos ⟨replace_ids t.rows row ▸ t.id_unique, ?_, ?_⟩⟩
    · intro a ha b hb hsome heq
      dsimp only at hsome heq
      rcases mem_replace ha with ha | ⟨ha, hane⟩ <;> rcases mem_replace hb with hb | ⟨hb, hbne⟩
      · rw [ha, hb]
      · rw [ha, ← hid]
        rw [ha, hf] at hsome heq
        exact t.file_record_unique old hold b hb hsome heq
      · rw [hb, ← hid]
        rw [hb, hf] at heq
        exact t.file_record_unique a ha old hold hsome heq
      · exact t.file_record_unique a ha b hb hsome heq
    · intro a ha b hb hsome heq
      dsimp only at hsome heq
      rcases mem_replace ha with ha | ⟨ha, hane⟩ <;> rcases mem_replace hb with hb | ⟨hb, hbne⟩
      · rw [ha, hb]
      · rw [ha] at hsome heq
        exact absurd heq.symm (h b hb hbne hsome)
      · rw [hb] at heq
        exact absurd heq (h a ha hane (heq ▸ hsome))
      · exact t.rag_unique a ha b hb hsome heq

theorem byFileRecordId_eq {t : LinkTable} {row : IndexLink} {fileRecordId : Uuid}
    (h : row ∈ t.rows) (hf : row.fileRecordId = some fileRecordId) :
    t.byFileRecordId fileRecordId = some row := by
  cases hb : t.byFileRecordId fileRecordId with
  | none => exact absurd (List.find?_eq_none.1 hb row h) (by simp [hf])
  | some r =>
    have hr : r.fileRecordId = some fileRecordId := by simpa using List.find?_some hb
    have hmem := List.mem_of_find?_eq_some hb
    have hid := t.file_record_unique r hmem row h (by simp [hr]) (hr.trans hf.symm)
    rw [eq_of_id hmem h hid]

theorem byFileRecordId_some {t : LinkTable} {row : IndexLink} {fileRecordId : Uuid}
    (h : t.byFileRecordId fileRecordId = some row) :
    row ∈ t.rows ∧ row.fileRecordId = some fileRecordId :=
  ⟨List.mem_of_find?_eq_some h, by simpa using List.find?_some h⟩

/-- What a transition does to the row of any link. -/
theorem applyTransition_get {t t' : LinkTable} {linkId : Uuid} {tr : Transition} {now : Time}
    {found : Option IndexLink} (h : t.applyTransition linkId tr now = .ok (found, t'))
    (id : Uuid) :
    t'.get id = if id = linkId then (t.get id).map (tr.apply now) else t.get id := by
  unfold applyTransition at h
  cases hg : t.get linkId with
  | none =>
    simp only [hg] at h
    cases h
    split
    · rename_i he
      rw [he, hg]
      rfl
    · rfl
  | some model =>
    simp only [hg] at h
    split at h
    · cases h
    · cases hs : t.set (tr.apply now model) with
      | error e =>
        simp only [hs, bind, Except.bind] at h
        cases h
      | ok t₁ =>
        simp only [hs, bind, Except.bind] at h
        cases h
        obtain ⟨hmem, hid⟩ := get_some hg
        have hid' : (tr.apply now model).id = linkId := hid
        rw [get_set hs (List.mem_map.2 ⟨model, hmem, rfl⟩), hid']
        split
        · rename_i he
          rw [he, hg]
          rfl
        · rfl

theorem applyTransition_own {t t' : LinkTable} {linkId : Uuid} {tr : Transition} {now : Time}
    {row : IndexLink} (h : t.applyTransition linkId tr now = .ok (some row, t')) :
    ∃ model, t.get linkId = some model ∧ row = tr.apply now model := by
  unfold applyTransition at h
  cases hg : t.get linkId with
  | none =>
    simp only [hg] at h
    cases h
  | some model =>
    simp only [hg] at h
    split at h
    · cases h
    · cases hs : t.set (tr.apply now model) with
      | error e =>
        simp only [hs, bind, Except.bind] at h
        cases h
      | ok t₁ =>
        simp only [hs, bind, Except.bind] at h
        cases h
        exact ⟨model, rfl, rfl⟩

theorem set_error {t : LinkTable} {row : IndexLink} {e : Exc} (h : t.set row = .error e) :
    e = .integrityError := by
  unfold set flush at h
  split at h
  · cases h
  · cases h
    rfl

theorem applyTransition_error {t : LinkTable} {linkId : Uuid} {tr : Transition} {now : Time}
    {e : Exc} (h : t.applyTransition linkId tr now = .error e) :
    e = .privateIndexRefused ∨ e = .integrityError := by
  unfold applyTransition at h
  split at h
  · cases h
  · split at h
    · cases h
      exact .inl rfl
    · rename_i model _ _
      cases hs : t.set (tr.apply now model) with
      | ok t' =>
        simp only [hs, bind, Except.bind] at h
        cases h
      | error e' =>
        simp only [hs, bind, Except.bind] at h
        cases h
        exact .inr (set_error hs)

theorem markContentChanged_get {t t' : LinkTable} {row : IndexLink} {fileRecordId : Uuid}
    {decision : RegistrationDecision} {now : Time} {found : Option IndexLink}
    (hrow : t.byFileRecordId fileRecordId = some row)
    (h : t.markContentChanged fileRecordId decision now = .ok (found, t')) (id : Uuid) :
    t'.get id = if id = row.id then
      some ((contentChangedTransition row.ragFileId decision).apply now row) else t.get id := by
  simp only [markContentChanged, hrow] at h
  split at h
  · cases h
  · rw [applyTransition_get h id]
    split
    · rename_i he
      rw [he, get_of_mem (byFileRecordId_some hrow).1]
      rfl
    · rfl

theorem markRekey_get {t t' : LinkTable} {row : IndexLink} {fileRecordId : Uuid} {s3Key : Str}
    {now : Time} {found : Option IndexLink} (hrow : t.byFileRecordId fileRecordId = some row)
    (h : t.markRekey fileRecordId s3Key now = .ok (found, t')) :
    ∃ row', (∀ id, t'.get id = if id = row.id then some row' else t.get id) ∧
      ((row.ragFileId = none ∧ (row' = { row with s3Key := s3Key } ∨
        row' = { row with s3Key := s3Key, updatedAt := now })) ∨
      (row.ragFileId ≠ none ∧ row' = (rekeyTransition s3Key now).apply now row)) := by
  have hget : t.get row.id = some row := get_of_mem (byFileRecordId_some hrow).1
  simp only [markRekey, hrow] at h
  split_ifs at h with hp hr hk
  · cases h
    refine ⟨row, fun id => ?_, .inl ⟨hr, .inl ?_⟩⟩
    · split
      · rename_i he
        rw [he, hget]
      · rfl
    · cases row
      simp_all
  · cases hs : t.set { row with s3Key := s3Key, updatedAt := now } with
    | error e =>
      simp only [hs, bind, Except.bind] at h
      cases h
    | ok t₁ =>
      simp only [hs, bind, Except.bind] at h
      cases h
      exact ⟨{ row with s3Key := s3Key, updatedAt := now }, get_set hs (List.mem_map.2 ⟨row, (byFileRecordId_some hrow).1, rfl⟩),
        .inl ⟨hr, .inr rfl⟩⟩
  · refine ⟨_, fun id => ?_, .inr ⟨hr, rfl⟩⟩
    rw [applyTransition_get h id]
    split
    · rename_i he
      rw [he, hget]
      rfl
    · rfl

/-- Marking a removed row once more changes nothing. -/
theorem removed_idem (now : Time) (row : IndexLink) :
    removedTransition.apply now (removedTransition.apply now row) =
      removedTransition.apply now row := by
  simp [Transition.apply, Transition.assign, Transition.changes, removedTransition]

theorem removeAll_get {models links : List IndexLink} {now : Time} {t t' : LinkTable}
    (h : removeAll models now t = .ok (links, t')) (id : Uuid) :
    t'.get id = if id ∈ models.map (·.id) then (t.get id).map (removedTransition.apply now)
      else t.get id := by
  induction models generalizing t links with
  | nil =>
    cases h
    simp
  | cons m models ih =>
    unfold removeAll at h
    cases ha : t.applyTransition m.id removedTransition now with
    | error e =>
      simp only [ha, bind, Except.bind] at h
      cases h
    | ok res =>
      cases hr : removeAll models now res.2 with
      | error e =>
        simp only [ha, hr, bind, Except.bind] at h
        cases h
      | ok res' =>
        simp only [ha, hr, bind, Except.bind] at h
        cases h
        have hfirst : t.applyTransition m.id removedTransition now = .ok (res.1, res.2) := ha
        have hstep := applyTransition_get hfirst id
        rw [ih hr, hstep]
        by_cases he : id = m.id
        · subst he
          cases hg : t.get m.id <;> simp [removed_idem]
        · simp [he]

theorem markRemoved_get {t t' : LinkTable} {fileRecordIds : List Uuid} {now : Time}
    {links : List IndexLink} (h : t.markRemoved fileRecordIds now = .ok (links, t'))
    {row : IndexLink} {fileRecordId : Uuid} (hrow : t.byFileRecordId fileRecordId = some row) :
    t'.get row.id = some (if fileRecordId ∈ fileRecordIds then removedTransition.apply now row
      else row) := by
  obtain ⟨hmem, hf⟩ := byFileRecordId_some hrow
  have hiff : row.id ∈ ((dictFromKeys fileRecordIds).filterMap t.byFileRecordId).map (·.id) ↔
      fileRecordId ∈ fileRecordIds := by
    rw [List.mem_map]
    constructor
    · rintro ⟨r, hr, hid⟩
      obtain ⟨f, hfm, hfr⟩ := List.mem_filterMap.1 hr
      obtain ⟨hrmem, hrf⟩ := byFileRecordId_some hfr
      have := eq_of_id hrmem hmem hid
      rw [this, hf, Option.some.injEq] at hrf
      exact hrf ▸ mem_dictFromKeys.1 hfm
    · exact fun hfm =>
        ⟨row, List.mem_filterMap.2 ⟨fileRecordId, mem_dictFromKeys.2 hfm, hrow⟩, rfl⟩
  rw [removeAll_get h row.id, get_of_mem hmem]
  by_cases hin : fileRecordId ∈ fileRecordIds
  · rw [if_pos (hiff.2 hin), if_pos hin]
    rfl
  · rw [if_neg (fun hc => hin (hiff.1 hc)), if_neg hin]

/-- No row is of the private section. -/
def Public (t : LinkTable) : Prop := ∀ link ∈ t.rows, link.fileSection ≠ .private

theorem public_applyTransition {t t' : LinkTable} {linkId : Uuid} {tr : Transition} {now : Time}
    {found : Option IndexLink} (hpublic : t.Public)
    (h : t.applyTransition linkId tr now = .ok (found, t')) : t'.Public := by
  intro link hlink
  have hget := applyTransition_get h link.id
  rw [get_of_mem hlink] at hget
  cases hg : t.get link.id with
  | none =>
    rw [hg] at hget
    split at hget <;> cases hget
  | some old =>
    have hold := hpublic old (get_some hg).1
    rw [hg] at hget
    split at hget
    · have hlast : link = tr.apply now old := Option.some.inj hget
      rw [hlast]
      exact hold
    · rw [Option.some.inj hget]
      exact hold

/-- Only a private row is refused. -/
theorem removeAll_public {models : List IndexLink} {now : Time} {t : LinkTable} {e : Exc}
    (hpublic : t.Public) (h : removeAll models now t = .error e) : e ≠ .privateIndexRefused := by
  induction models generalizing t with
  | nil => cases h
  | cons model models ih =>
    unfold removeAll at h
    cases ha : t.applyTransition model.id removedTransition now with
    | error e' =>
      simp only [ha, bind, Except.bind] at h
      cases h
      rintro rfl
      unfold applyTransition at ha
      split at ha
      · cases ha
      rename_i row hrow
      rw [if_neg (hpublic row (get_some hrow).1)] at ha
      cases hset : t.set (removedTransition.apply now row) with
      | error e =>
        simp only [hset, bind, Except.bind] at ha
        cases ha
        cases set_error hset
      | ok table' =>
        simp only [hset, bind, Except.bind] at ha
        cases ha
    | ok res =>
      have hfirst : t.applyTransition model.id removedTransition now = .ok (res.1, res.2) := ha
      cases hrest : removeAll models now res.2 with
      | ok res' =>
        simp only [ha, hrest, bind, Except.bind] at h
        cases h
      | error e' =>
        simp only [ha, hrest, bind, Except.bind] at h
        cases h
        exact ih (public_applyTransition hpublic hfirst) hrest

/-- The table that holds a single row. -/
def one (row : IndexLink) : LinkTable where
  rows := [row]
  id_unique := by simp
  file_record_unique := by simp [UniqueColumn]
  rag_unique := by simp [UniqueColumn]

@[simp] theorem one_rows (row : IndexLink) : (one row).rows = [row] := rfl

@[simp] theorem flush_singleton (row : IndexLink) : flush [row] = .ok (one row) := by
  rw [flush, dif_pos ⟨(one row).id_unique, (one row).file_record_unique, (one row).rag_unique⟩]
  rfl

@[simp] theorem get_one (row : IndexLink) : (one row).get row.id = some row := by
  simp [get]

theorem applyTransition_one (row : IndexLink) (tr : Transition) (now : Time)
    (h : row.fileSection ≠ .private) : (one row).applyTransition row.id tr now =
      .ok (some (tr.apply now row), one (tr.apply now row)) := by
  have hid : (tr.apply now row).id = row.id := rfl
  simp only [applyTransition, get_one, if_neg h, set, replace, one_rows, List.map_cons, List.map_nil, hid,
    if_true, flush_singleton]
  rfl

theorem claimDue_one (row : IndexLink) {limit : Int} {now : Time} {links : List IndexLink}
    (h : (one row).claimDue limit now = .ok links) : links = [] ∨ links = [row] := by
  unfold claimDue at h
  split at h
  · cases h
  · obtain ⟨n, hn⟩ : ∃ n, limit.toNat = n + 1 := ⟨limit.toNat - 1, by omega⟩
    rw [hn] at h
    by_cases hd : isDue now row
    · exact .inr (by simpa [hd] using h.symm)
    · exact .inl (by simpa [hd] using h.symm)

theorem byFileRecordId_one (row : IndexLink) (fileRecordId : Uuid) :
    (one row).byFileRecordId fileRecordId =
      if row.fileRecordId = some fileRecordId then some row else none := by
  by_cases h : row.fileRecordId = some fileRecordId <;> simp [byFileRecordId, h]

theorem markContentChanged_one {row link : IndexLink} {fileRecordId : Uuid}
    {decision : RegistrationDecision} {now : Time} {t : LinkTable}
    (hs : row.fileSection ≠ .private)
    (h : (one row).markContentChanged fileRecordId decision now = .ok (some link, t)) :
    t = one ((contentChangedTransition row.ragFileId decision).apply now row) := by
  simp only [markContentChanged, byFileRecordId_one] at h
  split at h
  · cases h
  · rename_i heq
    split at heq
    · cases heq
      rw [if_neg hs, applyTransition_one _ _ _ hs] at h
      cases h
      rfl
    · cases heq

theorem markRekey_one {row : IndexLink} {link : Option IndexLink} {fileRecordId : Uuid}
    {s3Key : Str} {now : Time} {t : LinkTable} (hs : row.fileSection ≠ .private)
    (h : (one row).markRekey fileRecordId s3Key now = .ok (link, t)) :
    t = one row ∨ (row.ragFileId = none ∧
      t = one { row with s3Key := s3Key, updatedAt := now }) ∨
    (row.ragFileId ≠ none ∧ t = one ((rekeyTransition s3Key now).apply now row)) := by
  simp only [markRekey, byFileRecordId_one] at h
  split at h
  · cases h
    exact .inl rfl
  · rename_i heq
    split at heq
    · cases heq
      rw [if_neg hs] at h
      split at h
      · rename_i hr
        split at h
        · cases h
          exact .inl rfl
        · simp only [set, replace, one_rows, List.map_cons, List.map_nil, if_true, flush_singleton] at h
          cases h
          exact .inr (.inl ⟨hr, rfl⟩)
      · rename_i hr
        rw [applyTransition_one _ _ _ hs] at h
        cases h
        exact .inr (.inr ⟨hr, rfl⟩)
    · cases heq

/-- What one removal keeps, the loop of `mark_removed` keeps. -/
theorem removeAll_one {P : IndexLink → Prop} {now : Time}
    (hP : ∀ r, P r → P (removedTransition.apply now r))
    (hs : ∀ r, P r → r.fileSection ≠ .private) {models links : List IndexLink}
    {row : IndexLink} {t : LinkTable} (hm : ∀ m ∈ models, m.id = row.id) (hrow : P row)
    (h : removeAll models now (one row) = .ok (links, t)) : ∃ row', t = one row' ∧ P row' := by
  induction models generalizing row links with
  | nil =>
    cases h
    exact ⟨row, rfl, hrow⟩
  | cons m models ih =>
    have hm' := hm m List.mem_cons_self
    simp only [removeAll, hm', applyTransition_one _ _ _ (hs row hrow)] at h
    cases hr : removeAll models now (one (removedTransition.apply now row)) with
    | error e =>
      simp only [bind, Except.bind, hr] at h
      cases h
    | ok res =>
      simp only [bind, Except.bind, hr] at h
      cases h
      refine ih ?_ (hP row hrow) hr
      exact fun m hmem => hm m (List.mem_cons_of_mem _ hmem)

theorem markRemoved_one {P : IndexLink → Prop} {now : Time}
    (hP : ∀ r, P r → P (removedTransition.apply now r))
    (hs : ∀ r, P r → r.fileSection ≠ .private) {fileRecordIds : List Uuid}
    {links : List IndexLink} {row : IndexLink} {t : LinkTable} (hrow : P row)
    (h : (one row).markRemoved fileRecordIds now = .ok (links, t)) :
    ∃ row', t = one row' ∧ P row' := by
  refine removeAll_one hP hs ?_ hrow h
  intro m hm
  obtain ⟨id, -, hid⟩ := List.mem_filterMap.1 hm
  rw [byFileRecordId_one] at hid
  split at hid
  · cases hid
    rfl
  · cases hid

theorem retryFailed_one {row : IndexLink} {limit : Int} {now : Time} {n : Nat} {t : LinkTable}
    (hs : row.fileSection ≠ .private)
    (h : (one row).retryFailed limit now = .ok (n, t)) :
    t = one row ∨ (row.state = .failed ∧
      t = one ((retryTransition row.ragFileId).apply now row)) := by
  unfold retryFailed at h
  split at h
  · cases h
  · obtain ⟨k, hk⟩ : ∃ k, limit.toNat = k + 1 := ⟨limit.toNat - 1, by omega⟩
    by_cases hf : row.state = .failed
    · simp only [failedRows, one_rows, hf, decide_true, List.filter_cons_of_pos, List.filter_nil,
        List.insertionSort_cons, List.insertionSort_nil, List.orderedInsert_nil, hk,
        List.take_succ_cons, List.take_nil, retryAll, applyTransition_one _ _ _ hs] at h
      cases h
      exact .inr ⟨hf, rfl⟩
    · simp only [failedRows, one_rows, hf, decide_false, Bool.false_eq_true, not_false_eq_true,
        List.filter_cons_of_neg, List.filter_nil, List.insertionSort_nil, List.take_nil,
        retryAll] at h
      cases h
      exact .inl rfl

end LinkTable
end WebStorage
