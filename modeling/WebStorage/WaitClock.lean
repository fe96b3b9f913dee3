import WebStorage.ClaimedRows
import WebStorage.QueueRows

set_option autoImplicit false

/-! A submitted row waits until RAG has indexed its object. The wait is measured from `updated_at`,
which the polls must leave alone. -/
namespace WebStorage.WaitClock
open Effect Effect.Prog IndexSyncJob TickIsolation WorkerWrites ClaimedRows

/-- The row is `SUBMITTED` under a RAG id. -/
def Waiting (link : IndexLink) : Prop := link.state = .submitted ∧ link.ragFileId ≠ none

instance (link : IndexLink) : Decidable (Waiting link) := inferInstanceAs (Decidable (_ ∧ _))

/-! ### The start of the wait -/

section
variable {job : IndexSyncJob} {env : Uuid → Outcomes} {now s : Time} {link row l m : IndexLink}

/-- A row that has begun to wait at this time, without an error so far. -/
structure Begun (s : Time) (row : IndexLink) : Prop where
  state : row.state = .submitted
  rag : row.ragFileId ≠ none
  since : row.updatedAt = s
  errors : row.attempts = 0

theorem passes_idle {w w' : Bool} (h : Passes now l w m w') (hidle : ¬ Waiting l) : ¬ Waiting m := by
  intro hm
  rcases passes_moved h with hsame | hother
  · rw [hsame.1] at hm
    exact hidle hm
  · have hstate : m.state = .reindexPending := hother.2.1
    rw [hm.1] at hstate
    cases hstate

/-- Only the write behind an accepted registration makes a row wait. -/
theorem begun_of_turn {e : Option Ending} (h : Turn job now l e row) (hidle : ¬ Waiting l)
    (hrow : Waiting row) : Begun now row := by
  cases h with
  | broken hpasses => exact absurd hrow (passes_idle hpasses hidle)
  | @ended m w e tr hpasses hends =>
    have hm : ¬ Waiting m := passes_idle hpasses hidle
    obtain ⟨hstate, hrag⟩ := hrow
    cases hends with
    | submitted id hash hnone =>
      refine ⟨rfl, hrag, ?_, rfl⟩
      -- the row had no RAG id, so that this write sets the clock
      have hchanged : (some id != m.ragFileId) = true := by
        rw [hnone]
        rfl
      unfold Transition.apply
      dsimp only
      rw [if_pos]
      unfold Transition.changes
      dsimp only [Option.getD_some]
      simp only [hchanged, Bool.or_true, Bool.true_or]
    | indexed => cases hstate
    | settled terminal hterminal =>
      rcases hterminal with hremoved | harchived
      · rw [hremoved.1] at hstate
        cases hstate
      · rw [harchived.1] at hstate
        cases hstate
    | skipped => cases hstate
    | failed => cases hstate
    | exhausted => cases hstate
    | lost => cases hstate
    | retried => exact absurd ⟨hstate, hrag⟩ hm
    | missed => exact absurd ⟨hstate, hrag⟩ hm
    | polled => exact absurd ⟨hstate, hrag⟩ hm

theorem begun_of_draft (hpublic : l.fileSection ≠ .private) (hdue : l.state.due = true)
    (hidle : ¬ Waiting l) (hrow : Waiting (draft job env now l).row) :
    Begun now (draft job env now l).row := by
  rcases draft_turn job env now hpublic hdue with hturned | hstruck
  · obtain ⟨-, e, hturn⟩ := hturned
    exact begun_of_turn hturn hidle hrow
  · rw [hstruck.2] at hrow
    exact absurd hrow hidle

theorem begun_of_retry {limit : Int} {n : Nat} {t t' : LinkTable} {id : Uuid}
    (h : t.retryFailed limit s = .ok (n, t')) (hlink : t.get id = some link) (hidle : ¬ Waiting link)
    (hget : t'.get id = some row) (hrow : Waiting row) : Begun s row := by
  obtain ⟨old, hold, hor⟩ := LinkTable.retryFailed_row h hget
  rw [hlink] at hold
  cases hold
  rcases hor with hstays | hretried
  · rw [hstays.2] at hrow
    exact absurd hrow hidle
  · obtain ⟨-, hfailed, happly⟩ := hretried
    subst happly
    refine ⟨hrow.1, hrow.2, ?_, rfl⟩
    have hchanged : (IndexLinkState.submitted != link.state) = true := by
      rw [hfailed]
      rfl
    have hrag : link.ragFileId.isSome = true := Option.isSome_iff_ne_none.2 hrow.2
    unfold Transition.apply LinkTable.retryTransition
    dsimp only
    rw [if_pos]
    unfold Transition.changes
    dsimp only [Option.getD_some]
    rw [if_pos hrag]
    simp only [hchanged, Bool.true_or]

end

/-- The session behind the tick can be committed. -/
def Commits (job : IndexSyncJob) (env : Uuid → Outcomes) (now : Time) (t : LinkTable) : Prop :=
  (batch job env now (claimed job now t) ⟨t, false⟩).failed = false

/-- The link begins to wait: it is registered or adopted by a tick or behind a request, or the
administrator takes it up again. -/
inductive Submits (job : IndexSyncJob) (s : Time) (id : Uuid) : LinkTable → LinkTable → Prop
  | ticked {t link row} (env) : link ∈ claimed job s t → link.id = id → Commits job env s t →
      ¬ Waiting link → (tick job env s t).get id = some row → Waiting row →
      Submits job s id t (tick job env s t)
  | notified {t fileRecordId link row} (env) : t.byFileRecordId fileRecordId = some link →
      shouldNotify link = true → link.id = id →
      (processIn job env s link ⟨t, false⟩).failed = false → ¬ Waiting link →
      (processIn job env s link ⟨t, false⟩).table.get id = some row → Waiting row →
      Submits job s id t (processIn job env s link ⟨t, false⟩).table
  | retried {t t' limit n link row} : t.retryFailed limit s = .ok (n, t') → t.get id = some link →
      ¬ Waiting link → t'.get id = some row → Waiting row → Submits job s id t t'

section
variable {job : IndexSyncJob} {env : Uuid → Outcomes} {now s : Time} {link row : IndexLink}
  {t t' start : LinkTable} {id : Uuid}

theorem ticked_row (hl : link ∈ claimed job now t) (hcommit : Commits job env now t) :
    (tick job env now t).get link.id = some (draft job env now link).row :=
  (tick_get hl).1 (noClash_of_commit hcommit)

/-- A processing on its own writes the row that it would write in a tick, and no other. -/
theorem notified_get (hlink : t.get link.id = some link)
    (hcommit : (processIn job env now link ⟨t, false⟩).failed = false) (i : Uuid) :
    (processIn job env now link ⟨t, false⟩).table.get i =
      if i = link.id then some (draft job env now link).row else t.get i := by
  obtain ⟨hgood, hbad⟩ := processIn_spec job env now hlink
  have hfree : ∀ v ∈ (draft job env now link).versions, ¬ Clash link.id t.rows v := by
    intro v hv hclash
    rw [hbad ⟨v, hv, hclash⟩] at hcommit
    cases hcommit
  obtain ⟨t', hsession, hrows⟩ := hgood hfree
  have hid : (draft job env now link).row.id = link.id := draft_id job env now link
  have hmem : (draft job env now link).row.id ∈ t.rows.map (·.id) := by
    rw [hid]
    exact List.mem_map_of_mem (LinkTable.get_some hlink).1
  rw [hsession, LinkTable.get_replace hrows hmem, hid]

theorem shouldNotify_facts (h : shouldNotify link = true) :
    link.fileSection ≠ .private ∧ link.state.due = true := by
  unfold shouldNotify at h
  rw [Bool.and_eq_true, Bool.or_eq_true, Bool.or_eq_true, Bool.and_eq_true, decide_eq_true_eq,
    decide_eq_true_eq, decide_eq_true_eq, decide_eq_true_eq, decide_eq_true_eq] at h
  obtain ⟨hsection, hstate⟩ := h
  constructor
  · rcases hsection with hfiles | hphotos
    · rw [hfiles]
      decide
    · rw [hphotos]
      decide
  · rcases hstate with hremoved | hpending
    · rw [hremoved]
      rfl
    · rw [hpending.1]
      rfl

theorem Submits.begun (h : Submits job s id start t) : ∃ row, t.get id = some row ∧ Begun s row := by
  cases h with
  | @ticked link row env hl hid hcommit hidle hget hrow =>
    refine ⟨row, hget, ?_⟩
    have hdue := due_facts (claimed_due hl)
    have hdraft := ticked_row hl hcommit
    rw [hid, hget] at hdraft
    cases hdraft
    exact begun_of_draft hdue.2.1 hdue.1 hidle hrow
  | @notified fileRecordId link row env hlink hnotify hid hcommit hidle hget hrow =>
    refine ⟨row, hget, ?_⟩
    obtain ⟨hpublic, hdue⟩ := shouldNotify_facts hnotify
    have hown := LinkTable.get_of_mem (LinkTable.byFileRecordId_some hlink).1
    have hdraft := notified_get hown hcommit id
    rw [if_pos hid.symm, hget] at hdraft
    cases hdraft
    exact begun_of_draft hpublic hdue hidle hrow
  | @retried _ limit n link row hretry hlink hidle hget hrow =>
    exact ⟨row, hget, begun_of_retry hretry hlink hidle hget hrow⟩

end

/-! ### The polls -/

/-- RAG has finished with the object or lost it. -/
def finished (card : RagFileCard) : Bool :=
  let status := Text.lower (Text.strip card.status)
  status = "ready".toList || status = "error".toList || status = "deleting".toList ||
    status = "deleted".toList

/-- RAG cannot be reached. -/
def unavailable : Except Exc RagFileCard → Bool
  | .error (.ragUnavailable _) => true
  | _ => false

/-- A card that is not terminal. -/
def indexing : Except Exc RagFileCard → Bool
  | .ok card => !finished card
  | .error _ => false

/-- A terminal card, or a refusal of RAG. -/
def terminal : Except Exc RagFileCard → Bool
  | .ok card => finished card
  | .error (.ragHttp ..) => true
  | .error _ => false

/-- A poll and what RAG answered to it. -/
structure Poll where
  polledAt : Time
  answer : Except Exc RagFileCard

def errors (polls : List Poll) : Nat := polls.countP fun poll => unavailable poll.answer

/-- What a poll makes of a row that has waited since `s` and seen `n` errors. -/
structure Polled (job : IndexSyncJob) (s : Time) (n : Nat) (now : Time) (answer : Except Exc RagFileCard)
    (row : IndexLink) : Prop where
  /-- As long as the row waits, the clock stands. -/
  since : Waiting row → row.updatedAt = s
  counts : Waiting row → row.attempts = n + if unavailable answer then 1 else 0
  /-- A card that is not terminal ends the wait exactly when it has lasted too long. -/
  timeout : indexing answer = true →
    (row.state = .failed ∧ row.lastErrorCode = some errorTimeout ↔
      job.maxWaitSeconds * 1000000 ≤ now - s)
  /-- Nothing else ends it but a terminal answer, or the last error that is allowed. -/
  left : ¬ Waiting row → terminal answer = true ∨
    (indexing answer = true ∧ job.maxWaitSeconds * 1000000 ≤ now - s) ∨
      (unavailable answer = true ∧ ((n + 1 : Nat) : Int) = job.maxAttempts)
  exhausted : unavailable answer = true →
    (row.state = .failed ↔ ((n + 1 : Nat) : Int) = job.maxAttempts)

/-- A row that waits since `s` and has seen `n` errors, fewer than are allowed. -/
structure Waits (job : IndexSyncJob) (s : Time) (n : Nat) (row : IndexLink) : Prop where
  state : row.state = .submitted
  rag : row.ragFileId ≠ none
  since : row.updatedAt = s
  errors : row.attempts = n
  allowed : (n : Int) < job.maxAttempts

section
variable {job : IndexSyncJob} {env : Uuid → Outcomes} {outcomes : Outcomes} {now s : Time} {n : Nat} {i : Bool}
  {link row : IndexLink} {tr : Transition} {o : Outcome} {f g : Exc → Sync Outcome}

/-- The row behind the last write of a program. -/
theorem run_last {k : Except Exc (Option IndexLink) → Sync Outcome} {r : Except Exc Outcome}
    (hpublic : link.fileSection ≠ .private) (hk : k (.ok (some (tr.apply now link))) = done r) :
    (run (draftAnswer outcomes) (call (.applyTransition link.id tr now) k)
      (⟨link, []⟩, i)).2.1.row = tr.apply now link := by
  have hanswer : draftAnswer outcomes (.applyTransition link.id tr now) (⟨link, []⟩, i) =
      (.ok (some (tr.apply now link)), ⟨tr.apply now link, [tr.apply now link]⟩, i) := by
    simp only [draftAnswer, ne_eq, not_true_eq_false, if_false, if_neg hpublic]
  rw [run_call, hanswer]
  dsimp only
  rw [hk, run_done]

/-- The poll of a waiting row, behind the answer of RAG. -/
theorem draft_polled {ragFileId : Uuid} (hstate : link.state = .submitted)
    (hrag : link.ragFileId = some ragFileId) : (draft job env now link).row =
      (run (draftAnswer (env link.id))
        (((onPollAnswer job link now (env link.id).getFile).catchWith
          (onProcessError job link now)).catchWith fun _ => done (.ok .failed))
        (⟨link, []⟩, false)).2.1.row := by
  unfold draft process dispatch
  rw [hstate]
  dsimp only
  unfold poll
  rw [hrag]
  rfl

/-- A write of the schedule alone leaves the wait as it is. -/
theorem waiting_kept (tr : Transition) (now : Time) (hlink : Waiting link)
    (hstate : tr.state = none) (hrag : tr.ragFileId = none)
    (hcode : tr.lastErrorCode = none) (hkey : tr.s3Key = none) (hhash : tr.contentSha256 = none)
    (htype : tr.contentType = none) :
    Waiting (tr.apply now link) ∧ (tr.apply now link).updatedAt = link.updatedAt := by
  have hchanges : tr.changes link = false := by
    unfold Transition.changes
    simp only [hstate, hrag, hcode, hkey, hhash, htype, Option.getD_none, bne_self_eq_false, Bool.or_self]
  have hkeeps : (tr.apply now link).state = link.state ∧
      (tr.apply now link).ragFileId = link.ragFileId := by
    unfold Transition.apply Transition.assign
    rw [hstate, hrag]
    exact ⟨rfl, rfl⟩
  constructor
  · unfold Waiting
    rw [hkeeps.1, hkeeps.2]
    exact hlink
  · unfold Transition.apply
    dsimp only
    rw [if_neg (by rw [hchanges]; exact Bool.false_ne_true)]

/-- A write of another state ends the wait. -/
theorem not_waiting {state : IndexLinkState} (hwrite : tr.state = some state)
    (hstate : state ≠ .submitted) : ¬ Waiting (tr.apply now link) := by
  intro hwaits
  have hget : (tr.apply now link).state = state := by
    unfold Transition.apply Transition.assign
    rw [hwrite]
    rfl
  rw [← hget] at hstate
  exact hstate hwaits.1

theorem finished_of_not {card : RagFileCard}
    (hready : ¬ Text.lower (Text.strip card.status) = "ready".toList)
    (herror : ¬ Text.lower (Text.strip card.status) = "error".toList)
    (hgone : ¬ (Text.lower (Text.strip card.status) = "deleting".toList ∨
      Text.lower (Text.strip card.status) = "deleted".toList)) : finished card = false := by
  rw [not_or] at hgone
  unfold finished
  simp only [hready, herror, hgone.1, hgone.2, decide_false, Bool.or_self]

/-- An answer that ends the wait, and no others. -/
theorem polled_terminal {answer : Except Exc RagFileCard} (hterminal : terminal answer = true)
    (hrow : ¬ Waiting row) : Polled job s n now answer row := by
  have hindexing : indexing answer = false := by
    cases answer with
    | ok card =>
      have hfinished : finished card = true := hterminal
      unfold indexing
      dsimp only
      rw [hfinished, Bool.not_true]
    | error e => rfl
  have hunavailable : unavailable answer = false := by
    cases answer with
    | ok card => rfl
    | error e => cases e <;> first | rfl | cases hterminal
  refine ⟨fun hwaits => absurd hwaits hrow, fun hwaits => absurd hwaits hrow, ?_,
    fun _ => .inl hterminal, ?_⟩
  · rw [hindexing]
    exact fun h => by cases h
  · rw [hunavailable]
    exact fun h => by cases h

/-- A last write decides about the poll. -/
theorem polled_last {answer : Except Exc RagFileCard}
    {k : Except Exc (Option IndexLink) → Sync Outcome} {r : Except Exc Outcome}
    (hpublic : link.fileSection ≠ .private) (hk : k (.ok (some (tr.apply now link))) = done r)
    (h : Polled job s n now answer (tr.apply now link)) :
    Polled job s n now answer (run (draftAnswer outcomes)
      (call (.applyTransition link.id tr now) k) (⟨link, []⟩, i)).2.1.row := by
  rw [run_last hpublic hk]
  exact h

theorem finished_of {card : RagFileCard} {status : Str}
    (hcard : Text.lower (Text.strip card.status) = status)
    (hstatus : status = "ready".toList ∨ status = "error".toList ∨ status = "deleting".toList ∨
      status = "deleted".toList) : finished card = true := by
  unfold finished
  dsimp only
  rw [hcard]
  rcases hstatus with h | h | h | h <;> rw [h] <;> decide

theorem Waits.waiting (h : Waits job s n link) : Waiting link := ⟨h.state, h.rag⟩

theorem polled_card (h : Waits job s n link) (hpublic : link.fileSection ≠ .private)
    (card : RagFileCard) : Polled job s n now (.ok card) (run (draftAnswer outcomes)
      (((onPolledCard job link now card).catchWith (onProcessError job link now)).catchWith
        fun _ => done (.ok .failed)) (⟨link, []⟩, i)).2.1.row := by
  unfold onPolledCard
  dsimp only
  split_ifs with hready herror hgone hlate
  · apply polled_last hpublic rfl
    exact polled_terminal (finished_of hready (.inl rfl)) (not_waiting rfl (by decide))
  · apply polled_last hpublic rfl
    exact polled_terminal (finished_of herror (.inr (.inl rfl))) (not_waiting rfl (by decide))
  · apply polled_last hpublic rfl
    apply polled_terminal ?_ (not_waiting rfl (by decide))
    rcases hgone with hdeleting | hdeleted
    · exact finished_of hdeleting (.inr (.inr (.inl rfl)))
    · exact finished_of hdeleted (.inr (.inr (.inr rfl)))
  · have hcard := finished_of_not hready herror hgone
    rw [h.since] at hlate
    apply polled_last hpublic rfl
    refine ⟨fun hwaits => absurd hwaits (not_waiting rfl (by decide)),
      fun hwaits => absurd hwaits (not_waiting rfl (by decide)),
      fun _ => ⟨fun _ => hlate, fun _ => ⟨rfl, rfl⟩⟩, ?_, fun hnot => by cases hnot⟩
    · intro _
      refine .inr (.inl ⟨?_, hlate⟩)
      unfold indexing
      dsimp only
      rw [hcard, Bool.not_false]
  · rw [h.since] at hlate
    have hkept := waiting_kept { nextAttemptAt := some (some (now + backoff link.attempts)) } now
      h.waiting rfl rfl rfl rfl rfl rfl
    apply polled_last hpublic rfl
    refine ⟨fun _ => hkept.2.trans h.since, fun _ => h.errors, ?_, fun hnot => absurd hkept.1 hnot,
      fun hnot => by cases hnot⟩
    intro _
    constructor
    · intro hfailed
      have hstate : IndexLinkState.failed = .submitted := hfailed.1.symm.trans hkept.1.1
      cases hstate
    · exact fun hover => absurd hover hlate

/-- The retry behind an error of RAG keeps the clock. -/
theorem polled_retry (h : Waits job s n link) (hpublic : link.fileSection ≠ .private)
    {answer : Except Exc RagFileCard} (hanswer : unavailable answer = true) (code : String) :
    Polled job s n now answer (run (draftAnswer outcomes)
      ((scheduleRetry job link now code).catchWith fun _ => done (.ok .failed))
      (⟨link, []⟩, i)).2.1.row := by
  have hindexing : indexing answer = false := by
    cases answer with
    | ok card => cases hanswer
    | error e => rfl
  have hallowed := h.allowed
  unfold scheduleRetry
  dsimp only
  rw [h.errors, if_pos h.state]
  split_ifs with hmax
  · have hlast : ((n + 1 : Nat) : Int) = job.maxAttempts := by omega
    apply polled_last hpublic rfl
    refine ⟨fun hwaits => absurd hwaits (not_waiting rfl (by decide)),
      fun hwaits => absurd hwaits (not_waiting rfl (by decide)), ?_,
      fun _ => .inr (.inr ⟨hanswer, hlast⟩), fun _ => ⟨fun _ => hlast, fun _ => rfl⟩⟩
    rw [hindexing]
    exact fun hnot => by cases hnot
  · have hnext : ((n + 1 : Nat) : Int) ≠ job.maxAttempts := by omega
    have hkept := waiting_kept
      { attempts := some (n + 1), nextAttemptAt := some (some (now + backoff (n + 1))) } now
      h.waiting rfl rfl rfl rfl rfl rfl
    apply polled_last hpublic rfl
    have hcounted : n + 1 = n + if unavailable answer then 1 else 0 := by rw [if_pos hanswer]
    refine ⟨fun _ => hkept.2.trans h.since, fun _ => hcounted, ?_,
      fun hnot => absurd hkept.1 hnot, fun _ => ?_⟩
    · rw [hindexing]
      exact fun hnot => by cases hnot
    · constructor
      · intro hfailed
        have hstate : IndexLinkState.failed = .submitted := hfailed.symm.trans hkept.1.1
        cases hstate
      · exact fun heq => absurd heq hnext

/-- An exception that only the outermost handler sees leaves the row. -/
theorem polled_stray (h : Waits job s n link) {answer : Except Exc RagFileCard}
    (hindexing : indexing answer = false) (hunavailable : unavailable answer = false) :
    Polled job s n now answer link := by
  refine ⟨fun _ => h.since, fun _ => ?_, ?_, fun hnot => absurd h.waiting hnot, ?_⟩
  · rw [hunavailable]
    exact h.errors
  · rw [hindexing]
    exact fun hnot => by cases hnot
  · rw [hunavailable]
    exact fun hnot => by cases hnot

theorem polled_answer (h : Waits job s n link) (hpublic : link.fileSection ≠ .private)
    (answer : Except Exc RagFileCard) : Polled job s n now answer (run (draftAnswer outcomes)
      (((onPollAnswer job link now answer).catchWith (onProcessError job link now)).catchWith
        fun _ => done (.ok .failed)) (⟨link, []⟩, i)).2.1.row := by
  cases answer with
  | ok card => exact polled_card h hpublic card
  | error e =>
    cases e
    case ragHttp statusCode errorCode detail =>
      unfold onPollAnswer
      dsimp only
      split
      · apply polled_last hpublic rfl
        exact polled_terminal rfl (not_waiting rfl (by decide))
      · apply polled_last hpublic rfl
        exact polled_terminal rfl (not_waiting rfl (by decide))
    case ragUnavailable code => exact polled_retry h hpublic rfl _
    all_goals exact polled_stray h rfl rfl

/-- What one poll of a waiting row does, in a tick or on its own. -/
theorem draft_polls (h : Waits job s n link) (hpublic : link.fileSection ≠ .private) {ragFileId : Uuid}
    (hrag : link.ragFileId = some ragFileId) :
    Polled job s n now (env link.id).getFile (draft job env now link).row := by
  rw [draft_polled h.state hrag]
  exact polled_answer h hpublic _

end

/-- Ticks that poll the link while it waits, one after another, and anything in between that leaves
its row alone: the ticks that do not claim it or are rolled back, and what happens to other rows. -/
inductive Polls (job : IndexSyncJob) (id : Uuid) (t : LinkTable) : List Poll → LinkTable → Prop
  | start : Polls job id t [] t
  | other {polls t' t''} : Polls job id t polls t' → t''.get id = t'.get id → Polls job id t polls t''
  | poll {polls t' link ragFileId} (env now) : Polls job id t polls t' → link ∈ claimed job now t' →
      link.id = id → link.state = .submitted → link.ragFileId = some ragFileId →
      Commits job env now t' →
      Polls job id t (polls ++ [⟨now, (env id).getFile⟩]) (tick job env now t')

section
variable {job : IndexSyncJob} {env : Uuid → Outcomes} {now s : Time} {n : Nat} {link row : IndexLink}
  {t t' start : LinkTable} {id : Uuid} {polls : List Poll}

/-- A tick that polls a waiting row. -/
theorem tick_polls (h : Waits job s n link) (hl : link ∈ claimed job now t)
    (hcommit : Commits job env now t) {ragFileId : Uuid} (hrag : link.ragFileId = some ragFileId) :
    ∃ row, (tick job env now t).get link.id = some row ∧
      Polled job s n now (env link.id).getFile row := by
  have hpublic := (due_facts (claimed_due hl)).2.1
  exact ⟨_, ticked_row hl hcommit, draft_polls h hpublic hrag⟩

/-- As long as the row waits, its columns tell how long and after how many errors. -/
theorem Polls.waits (hpolls : Polls job id t polls t') (hbegun : ∃ row, t.get id = some row ∧ Begun s row)
    (hmax : 1 ≤ job.maxAttempts) (hlink : t'.get id = some link) (hwaiting : Waiting link) :
    Waits job s (errors polls) link := by
  induction hpolls generalizing link with
  | start =>
    obtain ⟨row, hrow, hbegun⟩ := hbegun
    rw [hlink] at hrow
    cases hrow
    have hnone : errors [] = 0 := rfl
    exact ⟨hbegun.state, hbegun.rag, hbegun.since, hbegun.errors, by omega⟩
  | other hpolls hsame ih =>
    rw [hsame] at hlink
    exact ih hlink hwaiting
  | @poll polls t' before ragFileId env now hpolls hl hid hstate hrag hcommit ih =>
    have hbefore : t'.get id = some before := by
      rw [← hid]
      exact (claimed_spec job now t').2 before hl
    have hwaits : Waits job s (errors polls) before := by
      apply ih hbefore
      refine ⟨hstate, ?_⟩
      rw [hrag]
      exact Option.some_ne_none ragFileId
    obtain ⟨row, hrow, hpolled⟩ := tick_polls hwaits hl hcommit hrag
    rw [hid, hlink] at hrow
    cases hrow
    have hcounts := hpolled.counts hwaiting
    have herrors : errors (polls ++ [⟨now, (env id).getFile⟩]) =
        errors polls + if unavailable (env id).getFile then 1 else 0 := by
      unfold errors
      rw [List.countP_append, List.countP_singleton]
    rw [herrors]
    rw [hid] at hcounts
    refine ⟨hwaiting.1, hwaiting.2, hpolled.since hwaiting, hcounts, ?_⟩
    have hallowed := hwaits.allowed
    rw [hid] at hpolled
    split
    next herror =>
      have hlast : ¬ ((errors polls + 1 : Nat) : Int) = job.maxAttempts := by
        intro heq
        have hfailed := (hpolled.exhausted herror).2 heq
        rw [hwaiting.1] at hfailed
        cases hfailed
      omega
    next => exact hallowed

/-- The clock of the wait, over every run of polls. -/
theorem wait_clock (hmax : 1 ≤ job.maxAttempts) (hsubmits : Submits job s id start t)
    (hpolls : Polls job id t polls t') (hlink : t'.get id = some link) (hwaiting : Waiting link) :
    link.updatedAt = s ∧ ∀ env now, link ∈ claimed job now t' → Commits job env now t' →
      ∃ ragFileId row, link.ragFileId = some ragFileId ∧ (tick job env now t').get id = some row ∧
        Polled job s (errors polls) now (env id).getFile row := by
  have hwaits := hpolls.waits hsubmits.begun hmax hlink hwaiting
  refine ⟨hwaits.since, ?_⟩
  intro env now hl hcommit
  obtain ⟨ragFileId, hrag⟩ := Option.ne_none_iff_exists'.1 hwaiting.2
  obtain ⟨row, hrow, hpolled⟩ := tick_polls hwaits hl hcommit hrag
  have hid : link.id = id := (LinkTable.get_some hlink).2
  rw [hid] at hrow hpolled
  exact ⟨ragFileId, row, hrag, hrow, hpolled⟩

end

/-- RAG takes the object and never comes to an end with it. -/
def slowOutcomes : Outcomes :=
  { Outcomes.unanswered with
    objectSize := fun _ => .ok 0
    originalName := .ok none
    register := .ok ⟨.ofDigit 5, "uploaded".toList, none⟩
    getFile := .ok ⟨.ofDigit 5, " Processing".toList, none⟩ }

def slowTick (now : Time) (t : LinkTable) : LinkTable := tick narrowJob (fun _ => slowOutcomes) now t

def submittedLink : IndexLink :=
  { firstLink with state := .submitted, ragFileId := some (.ofDigit 5), updatedAt := 0 }

def polledLink : IndexLink := { submittedLink with nextAttemptAt := some 31000000 }

/-- A row is submitted at the epoch, polled after a second and again after an hour. -/
theorem slow_row_times_out : ∃ ragFileId row, polledLink.ragFileId = some ragFileId ∧
    (slowTick 3600000000 (slowTick 1000000 (slowTick 0 twoLinks))).get firstLink.id = some row ∧
    Polled narrowJob 0 0 3600000000 (.ok ⟨.ofDigit 5, " Processing".toList, none⟩) row := by
  have hclaimed : firstLink ∈ claimed narrowJob 0 twoLinks := by decide +kernel
  have hrow : (slowTick 0 twoLinks).get firstLink.id = some submittedLink := by decide +kernel
  have hcommit : Commits narrowJob (fun _ => slowOutcomes) 0 twoLinks := by
    unfold Commits
    decide +kernel
  have hsubmits : Submits narrowJob 0 firstLink.id twoLinks (slowTick 0 twoLinks) :=
    .ticked _ hclaimed rfl hcommit (by decide) hrow (by decide)
  have hclaimed' : submittedLink ∈ claimed narrowJob 1000000 (slowTick 0 twoLinks) := by decide +kernel
  have hcommit' : Commits narrowJob (fun _ => slowOutcomes) 1000000 (slowTick 0 twoLinks) := by
    unfold Commits
    decide +kernel
  have hpolls := Polls.poll _ 1000000 .start hclaimed' rfl rfl rfl hcommit'
  have hrow' : (slowTick 1000000 (slowTick 0 twoLinks)).get firstLink.id = some polledLink := by
    decide +kernel
  have hclaimed'' : polledLink ∈ claimed narrowJob 3600000000 (slowTick 1000000 (slowTick 0 twoLinks)) := by
    decide +kernel
  have hcommit'' : Commits narrowJob (fun _ => slowOutcomes) 3600000000
      (slowTick 1000000 (slowTick 0 twoLinks)) := by
    unfold Commits
    decide +kernel
  exact (wait_clock (by decide) hsubmits hpolls hrow' (by decide)).2 _ _ hclaimed'' hcommit''

end WebStorage.WaitClock
