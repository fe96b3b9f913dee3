import WebStorage.WaitClock
import WebStorage.NoOrphans

set_option autoImplicit false

/-! How many attempts a link has for the work that was queued last. The counter of the row is to
count the failures since then; not every request sets it back. -/
namespace WebStorage.RetryBudget
open Effect Effect.Prog IndexSyncJob TickIsolation WorkerWrites ClaimedRows WaitClock

/-! ### Runs of the queue -/

/-- The endings with which the work is tried again, or given up because it has been tried often. -/
def counts : Ending → Bool
  | .retried => true
  | .exhausted => true
  | .missed => true
  | .lost => true
  | _ => false

def FailedAttempt (job : IndexSyncJob) (now : Time) (link row : IndexLink) : Prop :=
  ∃ e, counts e = true ∧ Turn job now link (some e) row

/-- The queue, and for each link the failed attempts since work was queued for it last. -/
structure World where
  table : LinkTable
  failures : Uuid → Nat

/-- New work for some links. -/
def World.restarted (w : World) (table : LinkTable) (hit : Uuid → Bool) : World :=
  ⟨table, fun id => if hit id then 0 else w.failures id⟩

/-- The failed attempts are counted, those of these links and no others. -/
structure Counted (job : IndexSyncJob) (env : Uuid → Outcomes) (now : Time) (links : List IndexLink)
    (n n' : Uuid → Nat) : Prop where
  failed : ∀ link ∈ links, FailedAttempt job now link (draft job env now link).row →
    n' link.id = n link.id + 1
  other : ∀ link ∈ links, ¬ FailedAttempt job now link (draft job env now link).row →
    n' link.id = n link.id
  absent : ∀ id, id ∉ links.map (·.id) → n' id = n id

inductive Event
  | upload (id : Uuid) (record : FileRecord) (decision : RegistrationDecision) (now : Time)
  | contentChanged (fileRecordId : Uuid) (decision : RegistrationDecision) (now : Time)
  | rekey (fileRecordId : Uuid) (s3Key : Str) (now : Time)
  | removed (fileRecordIds : List Uuid) (now : Time)
  | archived (fileRecordId : Uuid) (now : Time)
  | retryFailed (limit : Int) (now : Time)
  | tick (env : Uuid → Outcomes) (now : Time)
  | notified (fileRecordId : Uuid) (env : Uuid → Outcomes) (now : Time)
  | elsewhere

/-- A rekey queues work for a link that RAG knows; the work of any other link is queued already. -/
def rekeyed (t : LinkTable) (fileRecordId id : Uuid) : Bool :=
  t.hits fileRecordId id && (t.get id).any fun row => row.ragFileId ≠ none

inductive Step (job : IndexSyncJob) (w : World) : Event → World → Prop
  | upload {id record decision now found table} :
      w.table.upsertPending id record decision now = .ok (found, table) →
      Step job w (.upload id record decision now)
        (w.restarted table fun id => (w.table.get id).isNone)
  | contentChanged {fileRecordId decision now found table} :
      w.table.markContentChanged fileRecordId decision now = .ok (found, table) →
      Step job w (.contentChanged fileRecordId decision now)
        (w.restarted table (w.table.hits fileRecordId))
  | rekey {fileRecordId s3Key now found table} :
      w.table.markRekey fileRecordId s3Key now = .ok (found, table) →
      Step job w (.rekey fileRecordId s3Key now)
        (w.restarted table (rekeyed w.table fileRecordId))
  | removed {fileRecordIds now links table} :
      w.table.markRemoved fileRecordIds now = .ok (links, table) →
      Step job w (.removed fileRecordIds now)
        (w.restarted table fun id => fileRecordIds.any fun f => w.table.hits f id)
  | archived {fileRecordId now found table} :
      w.table.markArchived fileRecordId now = .ok (found, table) →
      Step job w (.archived fileRecordId now) (w.restarted table (w.table.hits fileRecordId))
  | retryFailed {limit now n table} : w.table.retryFailed limit now = .ok (n, table) →
      Step job w (.retryFailed limit now)
        (w.restarted table fun id => (w.table.failedRows limit).any (·.id = id))
  | tick {env now failures} : Commits job env now w.table →
      Counted job env now (claimed job now w.table) w.failures failures →
      Step job w (.tick env now) ⟨tick job env now w.table, failures⟩
  | notified {fileRecordId env now link failures} : w.table.byFileRecordId fileRecordId = some link →
      shouldNotify link = true → (processIn job env now link ⟨w.table, false⟩).failed = false →
      Counted job env now [link] w.failures failures →
      Step job w (.notified fileRecordId env now)
        ⟨(processIn job env now link ⟨w.table, false⟩).table, failures⟩
  /-- Records and users go, and with them rows or the references of rows. -/
  | elsewhere {table} : (∀ id row, table.get id = some row →
        ∃ old, w.table.get id = some old ∧ row.state = old.state ∧ row.attempts = old.attempts) →
      Step job w .elsewhere ⟨table, w.failures⟩
  /-- Whatever raises is rolled back. -/
  | rolledBack {e} : Step job w e w

/-- The runs of the queue in which each step meets a condition. -/
inductive Run (job : IndexSyncJob) (fair : World → Event → Prop) (w : World) : World → Prop
  | start : Run job fair w w
  | step {v v' e} : Run job fair w v → fair v e → Step job v e v' → Run job fair w v'

def emptyWorld : World := ⟨LinkTable.empty, fun _ => 0⟩

/-- The worker picks the row up, in a tick or behind a request. -/
def PickedUp (job : IndexSyncJob) (now : Time) (t : LinkTable) (link : IndexLink) : Prop :=
  link ∈ claimed job now t ∨ ∃ f, t.byFileRecordId f = some link ∧ shouldNotify link = true

/-- Retryable failures end in `FAILED` only with as many failed attempts as are allowed, the one
that ends so included, and no row is handed out that has used them up. -/
structure Budget (job : IndexSyncJob) (w : World) : Prop where
  exhausted : ∀ env now link, PickedUp job now w.table link →
    Turn job now link (some .exhausted) (draft job env now link).row →
    job.maxAttempts ≤ ((w.failures link.id + 1 : Nat) : Int)
  handedOut : ∀ limit now links, w.table.claimDue limit now = .ok links →
    ∀ link ∈ links, (link.attempts : Int) < job.maxAttempts

/-- A rekey, a removal and an archiving find no failed attempts in the rows that they queue. -/
def Fair (w : World) : Event → Prop
  | .rekey fileRecordId _ _ => ∀ id row, rekeyed w.table fileRecordId id = true →
    w.table.get id = some row → row.attempts = 0
  | .removed fileRecordIds _ => ∀ id row, (fileRecordIds.any fun f => w.table.hits f id) = true →
    w.table.get id = some row → row.attempts = 0
  | .archived fileRecordId _ => ∀ id row, w.table.hits fileRecordId id = true →
    w.table.get id = some row → row.attempts = 0
  | _ => True

/-! ### The counter of a row -/

/-- The row has counted no more than the failed attempts, and fewer than are allowed when it is
queued. -/
def Counter (job : IndexSyncJob) (n : Nat) (row : IndexLink) : Prop :=
  row.attempts ≤ n ∧ (row.state.due = true → (row.attempts : Int) < job.maxAttempts)

section
variable {job : IndexSyncJob} {env : Uuid → Outcomes} {now : Time} {link row old : IndexLink} {n : Nat}

theorem counter_zero (hmax : 1 ≤ job.maxAttempts) (h : row.attempts = 0) : Counter job n row := by
  unfold Counter
  rw [h]
  exact ⟨Nat.zero_le n, fun _ => by omega⟩

theorem Counter.congr (h : Counter job n old) (hstate : row.state = old.state)
    (hattempts : row.attempts = old.attempts) : Counter job n row := by
  unfold Counter
  rw [hstate, hattempts]
  exact h

/-- What a processing makes of the counter. -/
theorem turn_counts {e : Option Ending} (h : Turn job now link e row) :
    (FailedAttempt job now link row ∧ row.attempts = link.attempts + 1 ∧
        (row.state.due = true → (row.attempts : Int) < job.maxAttempts)) ∨
      (row.attempts = link.attempts ∨ row.attempts = 0) := by
  have hturn := h
  cases h with
  | broken hpasses => exact .inr (.inl hpasses.attempts)
  | @ended m w e tr hpasses hends =>
    have hattempts : m.attempts = link.attempts := hpasses.attempts
    cases hends with
    | submitted => exact .inr (.inr rfl)
    | indexed => exact .inr (.inr rfl)
    | settled => exact .inr (.inr rfl)
    | skipped => exact .inr (.inl hattempts)
    | failed => exact .inr (.inl hattempts)
    | polled => exact .inr (.inl hattempts)
    | retried code hleft =>
      refine .inl ⟨⟨.retried, rfl, hturn⟩, congrArg (· + 1) hattempts, fun _ => ?_⟩
      exact Int.not_le.1 hleft
    | missed hleft =>
      refine .inl ⟨⟨.missed, rfl, hturn⟩, congrArg (· + 1) hattempts, fun _ => ?_⟩
      exact Int.not_le.1 hleft
    | exhausted code hmax =>
      refine .inl ⟨⟨.exhausted, rfl, hturn⟩, congrArg (· + 1) hattempts, ?_⟩
      exact fun hdue => by cases hdue
    | lost hmax =>
      refine .inl ⟨⟨.lost, rfl, hturn⟩, congrArg (· + 1) hattempts, ?_⟩
      exact fun hdue => by cases hdue

/-- A failed attempt is what the counter counts. -/
theorem FailedAttempt.attempts (h : FailedAttempt job now link row) : row.attempts = link.attempts + 1 := by
  obtain ⟨e, hcounts, hturn⟩ := h
  cases hturn with
  | @ended m w e tr hpasses hends =>
    have hattempts : m.attempts + 1 = link.attempts + 1 := congrArg (· + 1) hpasses.attempts
    cases hends with
    | retried => exact hattempts
    | missed => exact hattempts
    | exhausted => exact hattempts
    | lost => exact hattempts
    | _ => cases hcounts

/-- The counter behind the processing of a queued row. -/
theorem draft_counter (env : Uuid → Outcomes) (now : Time) (hmax : 1 ≤ job.maxAttempts)
    (hpublic : link.fileSection ≠ .private)
    (hdue : link.state.due = true) (h : Counter job n link) :
    (FailedAttempt job now link (draft job env now link).row →
      Counter job (n + 1) (draft job env now link).row) ∧
    (¬ FailedAttempt job now link (draft job env now link).row →
      Counter job n (draft job env now link).row) := by
  obtain ⟨hle, hallowed⟩ := h
  rcases draft_turn job env now hpublic hdue with hturned | hstruck
  · obtain ⟨-, e, hturn⟩ := hturned
    rcases turn_counts hturn with hfailed | hother
    · obtain ⟨hfailed, hattempts, hlimit⟩ := hfailed
      refine ⟨fun _ => ⟨by omega, hlimit⟩, fun hnot => absurd hfailed hnot⟩
    · have hcounter : Counter job n (draft job env now link).row := by
        rcases hother with hsame | hzero
        · refine ⟨by omega, fun _ => ?_⟩
          rw [hsame]
          exact hallowed hdue
        · exact counter_zero hmax hzero
      exact ⟨fun _ => ⟨Nat.le_succ_of_le hcounter.1, hcounter.2⟩, fun _ => hcounter⟩
  · rw [hstruck.2]
    exact ⟨fun _ => ⟨Nat.le_succ_of_le hle, hallowed⟩, fun _ => ⟨hle, hallowed⟩⟩

end

/-! ### The invariant -/

def Kept (job : IndexSyncJob) (w : World) : Prop :=
  ∀ id row, w.table.get id = some row → Counter job (w.failures id) row

section
variable {job : IndexSyncJob} {env : Uuid → Outcomes} {now : Time} {w w' : World}

theorem kept_restarted (hmax : 1 ≤ job.maxAttempts) (hkept : Kept job w) {table : LinkTable}
    {hit : Uuid → Bool}
    (hrows : ∀ id row, table.get id = some row → row.attempts = 0 ∨ (hit id = false ∧
      ∃ old, w.table.get id = some old ∧ row.state = old.state ∧ row.attempts = old.attempts)) :
    Kept job (w.restarted table hit) := by
  intro id row hrow
  rcases hrows id row hrow with hzero | hsame
  · exact counter_zero hmax hzero
  · obtain ⟨hmiss, old, hold, hstate, hattempts⟩ := hsame
    unfold World.restarted
    dsimp only
    rw [if_neg (by rw [hmiss]; exact Bool.false_ne_true)]
    exact (hkept id old hold).congr hstate hattempts

/-- A row outside the batch stays. -/
theorem tick_other {t : LinkTable} (hcommit : Commits job env now t) {id : Uuid}
    (hid : id ∉ (claimed job now t).map (·.id)) : (tick job env now t).get id = t.get id := by
  obtain ⟨hnodup, hget⟩ := claimed_spec job now t
  obtain ⟨t', hbatch, -, hother⟩ :=
    (batch_spec job env now _ hnodup t hget).1 (noClash_of_commit hcommit)
  unfold tick persisted
  rw [hbatch]
  exact hother id hid

theorem kept_tick (hmax : 1 ≤ job.maxAttempts) (hkept : Kept job w) {failures : Uuid → Nat}
    (hcommit : Commits job env now w.table)
    (hcounted : Counted job env now (claimed job now w.table) w.failures failures) :
    Kept job ⟨tick job env now w.table, failures⟩ := by
  intro id row hrow
  by_cases hid : id ∈ (claimed job now w.table).map (·.id)
  · obtain ⟨link, hl, heq⟩ := List.mem_map.1 hid
    subst heq
    obtain ⟨hdue, hpublic, -⟩ := due_facts (claimed_due hl)
    have hown : w.table.get link.id = some link := (claimed_spec job now w.table).2 link hl
    obtain ⟨hfailed, hother⟩ := draft_counter env now hmax hpublic hdue (hkept link.id link hown)
    rw [ticked_row hl hcommit] at hrow
    cases hrow
    by_cases h : FailedAttempt job now link (draft job env now link).row
    · dsimp only
      rw [hcounted.failed link hl h]
      exact hfailed h
    · dsimp only
      rw [hcounted.other link hl h]
      exact hother h
  · dsimp only at hrow
    rw [tick_other hcommit hid] at hrow
    dsimp only
    rw [hcounted.absent id hid]
    exact hkept id row hrow

theorem kept_notified (hmax : 1 ≤ job.maxAttempts) (hkept : Kept job w) {failures : Uuid → Nat}
    {fileRecordId : Uuid} {link : IndexLink} (hlink : w.table.byFileRecordId fileRecordId = some link)
    (hnotify : shouldNotify link = true)
    (hcommit : (processIn job env now link ⟨w.table, false⟩).failed = false)
    (hcounted : Counted job env now [link] w.failures failures) :
    Kept job ⟨(processIn job env now link ⟨w.table, false⟩).table, failures⟩ := by
  intro id row hrow
  obtain ⟨hpublic, hdue⟩ := shouldNotify_facts hnotify
  have hown : w.table.get link.id = some link :=
    LinkTable.get_of_mem (LinkTable.byFileRecordId_some hlink).1
  have hget : (processIn job env now link ⟨w.table, false⟩).table.get id =
      if id = link.id then some (draft job env now link).row else w.table.get id :=
    notified_get hown hcommit id
  dsimp only at hrow
  rw [hget] at hrow
  split at hrow
  next hid =>
    cases hrow
    rw [hid]
    obtain ⟨hfailed, hother⟩ := draft_counter env now hmax hpublic hdue (hkept link.id link hown)
    by_cases h : FailedAttempt job now link (draft job env now link).row
    · have hfailures : failures link.id = w.failures link.id + 1 :=
        hcounted.failed link (List.mem_singleton_self link) h
      dsimp only
      rw [hfailures]
      exact hfailed h
    · have hfailures : failures link.id = w.failures link.id :=
        hcounted.other link (List.mem_singleton_self link) h
      dsimp only
      rw [hfailures]
      exact hother h
  next hid =>
    have hfailures : failures id = w.failures id := hcounted.absent id (by simpa using hid)
    dsimp only
    rw [hfailures]
    exact hkept id row hrow

/-- What one step keeps: the counters of the rows do not run ahead of the failed attempts. -/
theorem kept_step (hmax : 1 ≤ job.maxAttempts) (hkept : Kept job w) {e : Event} (hfair : Fair w e)
    (hstep : Step job w e w') : Kept job w' := by
  cases hstep with
  | upload h =>
    apply kept_restarted hmax hkept
    intro id row hrow
    rcases LinkTable.upsertPending_row h hrow with hold | hnew
    · refine .inr ⟨?_, row, hold, rfl, rfl⟩
      rw [hold, Option.isNone_some]
    · rw [hnew.2]
      exact .inl rfl
  | contentChanged h =>
    apply kept_restarted hmax hkept
    intro id row hrow
    obtain ⟨old, hold, hor⟩ := LinkTable.markContentChanged_row h hrow
    rcases hor with hmiss | hhit
    · exact .inr ⟨hmiss.1, old, hold, by rw [hmiss.2], by rw [hmiss.2]⟩
    · rw [hhit.2]
      exact .inl rfl
  | @rekey fileRecordId s3Key now found table h =>
    apply kept_restarted hmax hkept
    intro id row hrow
    obtain ⟨old, hold, hor⟩ := LinkTable.markRekey_row h hrow
    rcases hor with hmiss | hhit
    · refine .inr ⟨?_, old, hold, hmiss.2.2, hmiss.2.1⟩
      unfold rekeyed
      rw [hold, Option.any_some, Bool.and_eq_false_iff]
      by_contra hboth
      rw [not_or, Bool.not_eq_false, Bool.not_eq_false, decide_eq_true_eq] at hboth
      exact hmiss.1 hboth
    · obtain ⟨hhits, hrag, happly⟩ := hhit
      have hrekeyed : rekeyed w.table fileRecordId id = true := by
        unfold rekeyed
        rw [hhits, hold, Option.any_some, Bool.true_and, decide_eq_true_eq]
        exact hrag
      rw [happly]
      exact .inl (hfair id old hrekeyed hold)
  | removed h =>
    apply kept_restarted hmax hkept
    intro id row hrow
    obtain ⟨old, hold, hor⟩ := LinkTable.markRemoved_row h hrow
    rcases hor with hmiss | hhit
    · exact .inr ⟨hmiss.1, old, hold, by rw [hmiss.2], by rw [hmiss.2]⟩
    · rw [hhit.2]
      exact .inl (hfair id old hhit.1 hold)
  | archived h =>
    apply kept_restarted hmax hkept
    intro id row hrow
    obtain ⟨old, hold, hor⟩ := LinkTable.markArchived_row h hrow
    rcases hor with hmiss | hhit
    · exact .inr ⟨hmiss.1, old, hold, by rw [hmiss.2], by rw [hmiss.2]⟩
    · rw [hhit.2]
      exact .inl (hfair id old hhit.1 hold)
  | @retryFailed limit now n table h =>
    apply kept_restarted hmax hkept
    intro id row hrow
    obtain ⟨old, hold, hor⟩ := LinkTable.retryFailed_row h hrow
    rcases hor with hmiss | hhit
    · refine .inr ⟨?_, old, hold, by rw [hmiss.2], by rw [hmiss.2]⟩
      rw [Bool.eq_false_iff]
      intro hany
      obtain ⟨model, hmodel, hid⟩ := List.any_eq_true.1 hany
      have hrows : model ∈ w.table.rows :=
        (List.mem_filter.1 ((List.perm_insertionSort _ _).subset (List.mem_of_mem_take hmodel))).1
      have hsame : model = old := by
        have hget := LinkTable.get_of_mem hrows
        rw [of_decide_eq_true hid, hold] at hget
        exact (Option.some.inj hget).symm
      exact hmiss.1 (hsame ▸ hmodel)
    · rw [hhit.2.2]
      exact .inl rfl
  | tick hcommit hcounted => exact kept_tick hmax hkept hcommit hcounted
  | notified hlink hnotify hcommit hcounted =>
    exact kept_notified hmax hkept hlink hnotify hcommit hcounted
  | elsewhere hrows =>
    intro id row hrow
    obtain ⟨old, hold, hstate, hattempts⟩ := hrows id row hrow
    exact (hkept id old hold).congr hstate hattempts
  | rolledBack => exact hkept

theorem budget_of_kept (hkept : Kept job w) : Budget job w where
  exhausted := by
    intro env now link hpicked hturn
    have hown : w.table.get link.id = some link := by
      rcases hpicked with hclaimed | hnotified
      · exact (claimed_spec job now w.table).2 link hclaimed
      · obtain ⟨f, hlink, -⟩ := hnotified
        exact LinkTable.get_of_mem (LinkTable.byFileRecordId_some hlink).1
    have hle : link.attempts ≤ w.failures link.id := (hkept link.id link hown).1
    generalize (draft job env now link).row = row at hturn
    cases hturn with
    | @ended m w e tr hpasses hends =>
      have hattempts := hpasses.attempts
      cases hends with
      | exhausted code hmax => omega
  handedOut := by
    intro limit now links hclaim link hl
    obtain ⟨hmem, hdue⟩ := (LinkTable.claimDue_spec hclaim).2 link hl
    have hcounter := hkept link.id link (LinkTable.get_of_mem hmem)
    exact hcounter.2 (due_facts hdue).1

/-- In every run in which each rekey, removal and archiving finds the counter at zero, each piece
of work has the whole budget. -/
theorem budget_of_run (hmax : 1 ≤ job.maxAttempts) (hrun : Run job Fair emptyWorld w) :
    Budget job w := by
  apply budget_of_kept
  induction hrun with
  | start =>
    intro id row hrow
    cases hrow
  | step hrun hfair hstep ih => exact kept_step hmax ih hfair hstep

end

/-! ### A removal with failed attempts -/

open RagEntries (sampleRecord sampleDecision uploadedLink)

/-- A job that allows two attempts. -/
def twoTriesJob : IndexSyncJob := ⟨50, 2, 3600, fun _ => ""⟩

/-- The row behind its registration. -/
def registeredLink : IndexLink :=
  { uploadedLink with state := .submitted, ragFileId := some (.ofDigit 5) }

/-- The row behind a poll that found RAG out of reach. -/
def failedLink : IndexLink := { registeredLink with attempts := 1, nextAttemptAt := some 60000000 }

/-- RAG takes the object and cannot be reached afterwards. -/
def lostOutcomes : Outcomes where
  originalName := .ok none
  objectExists _ := .error .other
  objectRead _ := .error .other
  objectSize _ := .ok 0
  register := .ok ⟨.ofDigit 5, "uploaded".toList, none⟩
  rekey := .error (.ragUnavailable none)
  deleteVectors := .error (.ragUnavailable none)
  getFile := .error (.ragUnavailable none)

def lostTick (t : LinkTable) : LinkTable := tick twoTriesJob (fun _ => lostOutcomes) 0 t

def failedWorld : World :=
  ⟨lostTick (lostTick (LinkTable.one uploadedLink)), fun id => if id = uploadedLink.id then 1 else 0⟩

theorem uploaded : LinkTable.empty.upsertPending (.ofDigit 3) sampleRecord
    (sampleDecision []) 0 = .ok (some uploadedLink, LinkTable.one uploadedLink) := by
  have hinsert : LinkTable.empty.insert uploadedLink = .ok (LinkTable.one uploadedLink) :=
    LinkTable.flush_singleton uploadedLink
  have hempty : LinkTable.empty.byFileRecordId sampleRecord.id = none := rfl
  unfold LinkTable.upsertPending
  rw [if_neg (by decide), if_neg (by decide), hempty]
  dsimp only
  change (LinkTable.empty.insert uploadedLink).bind _ = _
  rw [hinsert]
  rfl

/-- An attempt that raises the counter has failed. -/
theorem failedAttempt_of_draft {job : IndexSyncJob} {env : Uuid → Outcomes} {now : Time}
    {link : IndexLink} (hpublic : link.fileSection ≠ .private) (hdue : link.state.due = true)
    (h : (draft job env now link).row.attempts = link.attempts + 1) :
    FailedAttempt job now link (draft job env now link).row := by
  rcases draft_turn job env now hpublic hdue with hturned | hstruck
  · obtain ⟨-, e, hturn⟩ := hturned
    rcases turn_counts hturn with hfailed | hother
    · exact hfailed.1
    · omega
  · rw [hstruck.2] at h
    omega

/-- The upload, the registration and a poll that fails. -/
theorem run_failedWorld {fair : World → Event → Prop} (hfair : ∀ w e, Fair w e → fair w e) :
    Run twoTriesJob fair emptyWorld failedWorld := by
  have hupload : Run twoTriesJob fair emptyWorld ⟨LinkTable.one uploadedLink, fun _ => 0⟩ := by
    have hstep : Step twoTriesJob emptyWorld (.upload (.ofDigit 3) sampleRecord (sampleDecision []) 0)
        (emptyWorld.restarted (LinkTable.one uploadedLink)
          fun id => (emptyWorld.table.get id).isNone) := .upload uploaded
    have hfailures : emptyWorld.restarted (LinkTable.one uploadedLink)
        (fun id => (emptyWorld.table.get id).isNone) = ⟨LinkTable.one uploadedLink, fun _ => 0⟩ := by
      unfold World.restarted emptyWorld
      dsimp only
      congr 1
    rw [hfailures] at hstep
    exact .step .start (hfair _ (.upload _ _ _ _) trivial) hstep
  have hregister : Run twoTriesJob fair emptyWorld
      ⟨lostTick (LinkTable.one uploadedLink), fun _ => 0⟩ := by
    have hcommit : Commits twoTriesJob (fun _ => lostOutcomes) 0 (LinkTable.one uploadedLink) := by
      unfold Commits
      decide +kernel
    have hclaimed : claimed twoTriesJob 0 (LinkTable.one uploadedLink) = [uploadedLink] := by
      decide +kernel
    refine .step hupload (hfair _ (.tick (fun _ => lostOutcomes) 0) trivial)
      (.tick hcommit ⟨?_, fun _ _ _ => rfl, fun _ _ => rfl⟩)
    intro link hl hfailed
    rw [hclaimed, List.mem_singleton] at hl
    subst hl
    have hattempts : (draft twoTriesJob (fun _ => lostOutcomes) 0 uploadedLink).row.attempts = 0 := by
      decide +kernel
    have hcounted := hfailed.attempts
    rw [hattempts] at hcounted
    cases hcounted
  have hcommit : Commits twoTriesJob (fun _ => lostOutcomes) 0
      (lostTick (LinkTable.one uploadedLink)) := by
    unfold Commits
    decide +kernel
  have hclaimed : claimed twoTriesJob 0 (lostTick (LinkTable.one uploadedLink)) = [registeredLink] := by
    decide +kernel
  refine .step hregister (hfair _ (.tick (fun _ => lostOutcomes) 0) trivial)
    (.tick hcommit ⟨?_, ?_, ?_⟩)
  · intro link hl _
    rw [hclaimed, List.mem_singleton] at hl
    subst hl
    rfl
  · intro link hl hfine
    rw [hclaimed, List.mem_singleton] at hl
    subst hl
    apply absurd (failedAttempt_of_draft (by decide) (by decide) _) hfine
    decide +kernel
  · intro id hid
    rw [hclaimed] at hid
    exact if_neg (fun heq => hid (List.mem_singleton.2 heq))

theorem failedWorld_budget : Budget twoTriesJob failedWorld :=
  budget_of_run (by decide) (run_failedWorld fun _ _ h => h)

/-- The record of the link is deleted after the first failed attempt. The row keeps its counter, so
that a single failure of the deletion ends in `FAILED`. -/
theorem removal_spends_budget : ∃ w, Run twoTriesJob (fun _ _ => True) emptyWorld w ∧
    ¬ Budget twoTriesJob w := by
  have hrun : Run twoTriesJob (fun _ _ => True) emptyWorld failedWorld :=
    run_failedWorld fun _ _ _ => trivial
  have hrow : failedWorld.table.byFileRecordId sampleRecord.id = some failedLink := by decide +kernel
  have hremoved : ∃ links table, failedWorld.table.markRemoved [sampleRecord.id] 0 = .ok (links, table) := by
    cases hcall : failedWorld.table.markRemoved [sampleRecord.id] 0 with
    | ok res => exact ⟨res.1, res.2, rfl⟩
    | error e =>
      have hok : (failedWorld.table.markRemoved [sampleRecord.id] 0).isOk = true := by decide +kernel
      rw [hcall] at hok
      cases hok
  obtain ⟨links, table, hcall⟩ := hremoved
  refine ⟨_, .step hrun trivial (.removed hcall), ?_⟩
  intro hbudget
  let link := LinkTable.removedTransition.apply 0 failedLink
  have hget : table.get failedLink.id = some link := LinkTable.markRemoved_get hcall hrow
  have hlink : table.byFileRecordId sampleRecord.id = some link :=
    LinkTable.byFileRecordId_eq (LinkTable.get_some hget).1 rfl
  have hturn : Turn twoTriesJob 0 link (some .exhausted)
      (draft twoTriesJob (fun _ => lostOutcomes) 0 link).row := by
    have hdraft : (draft twoTriesJob (fun _ => lostOutcomes) 0 link).row =
        ({ state := some .failed, attempts := some 2, nextAttemptAt := some none,
           lastErrorCode := some (some errorDependencyUnavailable) } : Transition).apply 0 link := by
      decide +kernel
    rw [hdraft]
    exact .ended (.stays link false) (.exhausted _ (by decide))
  have hfew := hbudget.exhausted (fun _ => lostOutcomes) 0 link (.inr ⟨_, hlink, by decide⟩) hturn
  have hnone : (failedWorld.restarted table fun id =>
      [sampleRecord.id].any fun f => failedWorld.table.hits f id).failures link.id = 0 := by
    have hhit : ([sampleRecord.id].any fun f => failedWorld.table.hits f link.id) = true := by
      decide +kernel
    unfold World.restarted
    dsimp only
    rw [if_pos hhit]
  rw [hnone] at hfew
  exact absurd hfew (by decide)

end WebStorage.RetryBudget
