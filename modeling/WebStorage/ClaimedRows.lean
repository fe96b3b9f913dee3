import WebStorage.WorkerWrites

set_option autoImplicit false

/-! What a tick that commits does to the rows it has claimed: each one changes or is put off, unless
an exception without a handler strikes it. Such a row stays where it was, at the head of the queue. -/
namespace WebStorage.ClaimedRows
open TickIsolation WorkerWrites

/-- The row has another state or RAG id than the claimed one, or it is due later only. -/
def Moved (now : Time) (link : IndexLink) (row : IndexLink) : Prop :=
  row.state ≠ link.state ∨ row.ragFileId ≠ link.ragFileId ∨
    ∃ later, row.nextAttemptAt = some later ∧ now < later

section
variable {job : IndexSyncJob} {env : Uuid → Outcomes} {now : Time} {l m : IndexLink} {w w' : Bool}

theorem backoff_pos (attempts : Nat) : 0 < backoff attempts := by
  have hpow : (0 : Int) < 2 ^ attempts := by positivity
  have hstep : (0 : Int) < 30 * 2 ^ attempts := by omega
  unfold backoff
  omega

/-- A row that has been passed on is no longer the claimed one. -/
theorem passes_moved (h : Passes now l w m w') :
    (m = l ∧ w' = w) ∨ (w' = true ∧ m.state = .reindexPending ∧
      (l.state = .pending ∨ (l.state = .reindexPending ∧ l.ragFileId ≠ none ∧ m.ragFileId = none))) := by
  induction h with
  | stays => exact .inl ⟨rfl, rfl⟩
  | clears w hstate hrag => exact .inr ⟨rfl, hstate, .inr ⟨hstate, hrag, rfl⟩⟩
  | changes hstate hrag hlater ih =>
    refine .inr ?_
    rcases ih with hsame | hother
    · obtain ⟨hm, hw⟩ := hsame
      refine ⟨hw, ?_, .inl hstate⟩
      rw [hm]
      rfl
    · exact ⟨hother.1, hother.2.1, .inl hstate⟩

theorem due_open (hdue : l.state.due = true) :
    l.state ≠ .indexed ∧ l.state ≠ .failed ∧ l.state ≠ .skipped := by
  refine ⟨?_, ?_, ?_⟩
  all_goals
    intro heq
    rw [heq] at hdue
    cases hdue

/-- Whatever the processing does to a row, the row moves. -/
theorem turn_moved {e : Option Ending} {row : IndexLink} (hnow : now < confirmedRemovalAt)
    (hdue : l.state.due = true) (h : Turn job now l e row) : Moved now l row := by
  have hlater : ∀ attempts, now < now + backoff attempts := by
    intro attempts
    exact lt_add_of_pos_right now (backoff_pos attempts)
  cases h with
  | broken hpasses =>
    rcases passes_moved hpasses with hsame | hother
    · cases hsame.2
    · obtain ⟨-, hstate, hor⟩ := hother
      rcases hor with hpending | hcleared
      · left
        rw [hstate, hpending]
        decide
      · obtain ⟨-, hrag, hnone⟩ := hcleared
        right
        left
        rw [hnone]
        exact hrag.symm
  | ended hpasses hends =>
    obtain ⟨hindexed, hfailed, hskipped⟩ := due_open hdue
    cases hends with
    | submitted id hash hrag =>
      rcases passes_moved hpasses with hsame | hother
      · right
        left
        rw [← hsame.1, hrag]
        exact Option.some_ne_none id
      · left
        show IndexLinkState.submitted ≠ _
        rcases hother.2.2 with hpending | hcleared
        · rw [hpending]
          decide
        · rw [hcleared.1]
          decide
    | indexed => exact .inl hindexed.symm
    | settled => exact .inr (.inr ⟨_, rfl, hnow⟩)
    | skipped => exact .inl hskipped.symm
    | failed => exact .inl hfailed.symm
    | retried => exact .inr (.inr ⟨_, rfl, hlater _⟩)
    | exhausted => exact .inl hfailed.symm
    | missed => exact .inr (.inr ⟨_, rfl, hlater _⟩)
    | lost => exact .inl hskipped.symm
    | polled => exact .inr (.inr ⟨_, rfl, hlater _⟩)

theorem claimed_due {t : LinkTable} (h : l ∈ claimed job now t) : LinkTable.isDue now l = true := by
  unfold claimed at h
  split at h
  next links hclaim => exact ((LinkTable.claimDue_spec hclaim).2 l h).2
  next => cases h

theorem due_facts (h : LinkTable.isDue now l = true) : l.state.due = true ∧ l.fileSection ≠ .private ∧
    ∀ later, l.nextAttemptAt = some later → ¬ now < later := by
  unfold LinkTable.isDue at h
  rw [Bool.and_eq_true, Bool.and_eq_true] at h
  obtain ⟨⟨hdue, hpublic⟩, hnext⟩ := h
  refine ⟨hdue, by simpa using hpublic, ?_⟩
  intro later hlater hlt
  rw [hlater, Option.all_some, decide_eq_true_eq] at hnext
  exact not_lt_of_ge hnext hlt

theorem unmoved_self (h : LinkTable.isDue now l = true) : ¬ Moved now l l := by
  intro hmoved
  rcases hmoved with hstate | hrag | hnext
  · exact hstate rfl
  · exact hrag rfl
  · obtain ⟨later, hlater, hlt⟩ := hnext
    exact (due_facts h).2.2 later hlater hlt

/-- A tick that commits has taken no RAG id twice. -/
theorem noClash_of_commit {t : LinkTable}
    (hcommit : (batch job env now (claimed job now t) ⟨t, false⟩).failed = false) :
    NoClash job env now (claimed job now t) t.rows := by
  obtain ⟨hnodup, hget⟩ := claimed_spec job now t
  by_contra hclash
  rw [(batch_spec job env now _ hnodup t hget).2 hclash] at hcommit
  cases hcommit

/-- In a tick that commits a claimed row moves, unless an exception without a handler strikes its
processing before the first write; then the row stays as it was. -/
theorem claimed_row_moves (t : LinkTable)
    (hcommit : (batch job env now (claimed job now t) ⟨t, false⟩).failed = false)
    (hl : l ∈ claimed job now t) :
    ∃ row, (tick job env now t).get l.id = some row ∧
      (now < confirmedRemovalAt → struck job env now l = false → Moved now l row) ∧
      (struck job env now l = true → row = l) := by
  have hclash : NoClash job env now (claimed job now t) t.rows := noClash_of_commit hcommit
  have hdue := claimed_due hl
  obtain ⟨hstate, hpublic, -⟩ := due_facts hdue
  refine ⟨(draft job env now l).row, (tick_get hl).1 hclash, ?_, ?_⟩
  · intro hnow hquiet
    rcases draft_turn job env now hpublic hstate with hturn | hstuck
    · obtain ⟨-, e, hturn⟩ := hturn
      exact turn_moved hnow hstate hturn
    · rw [hstuck.1] at hquiet
      cases hquiet
  · intro hstruck
    rcases draft_turn job env now hpublic hstate with hturn | hstuck
    · rw [hturn.1] at hstruck
      cases hstruck
    · exact hstuck.2

end

/-- Every claimed row moves, and none of them is handed out again as it was. -/
def QueueAdvances (job : IndexSyncJob) (env : Uuid → Outcomes) (now : Time) (t : LinkTable) : Prop :=
  (∀ link ∈ claimed job now t,
      ∃ row, (tick job env now t).get link.id = some row ∧ Moved now link row) ∧
    ∀ link ∈ claimed job now t, link ∉ claimed job now (tick job env now t)

section
variable {job : IndexSyncJob} {env : Uuid → Outcomes} {now : Time}

/-- A row that has moved is not claimed as it was. -/
theorem not_claimed_again {t : LinkTable} {link row : IndexLink}
    (hrow : (tick job env now t).get link.id = some row) (hmoved : Moved now link row) :
    link ∉ claimed job now (tick job env now t) := by
  intro hagain
  have hsame := (claimed_spec job now (tick job env now t)).2 link hagain
  rw [hrow] at hsame
  cases hsame
  exact unmoved_self (claimed_due hagain) hmoved

theorem queue_advances_iff (t : LinkTable) (hnow : now < confirmedRemovalAt)
    (hcommit : (batch job env now (claimed job now t) ⟨t, false⟩).failed = false) :
    QueueAdvances job env now t ↔ ∀ link ∈ claimed job now t, struck job env now link = false := by
  constructor
  · intro hadvances link hl
    obtain ⟨row, hrow, hmoved⟩ := hadvances.1 link hl
    obtain ⟨row', hrow', -, hstuck⟩ := claimed_row_moves t hcommit hl
    rw [hrow] at hrow'
    cases hrow'
    by_contra hstruck
    rw [Bool.not_eq_false] at hstruck
    rw [hstuck hstruck] at hmoved
    exact unmoved_self (claimed_due hl) hmoved
  · intro hquiet
    have hmoves : ∀ link ∈ claimed job now t, ∃ row,
        (tick job env now t).get link.id = some row ∧ Moved now link row := by
      intro link hl
      obtain ⟨row, hrow, hmoves, -⟩ := claimed_row_moves t hcommit hl
      exact ⟨row, hrow, hmoves hnow (hquiet link hl)⟩
    refine ⟨hmoves, ?_⟩
    intro link hl
    obtain ⟨row, hrow, hmoved⟩ := hmoves link hl
    exact not_claimed_again hrow hmoved

end

/-! ### Batches -/

/-- The objects are readable and RAG takes them. -/
def plainOutcomes : Outcomes :=
  { Outcomes.unanswered with
    objectSize := fun _ => .ok 0
    originalName := .ok none
    register := .ok ⟨.ofDigit 5, "uploaded".toList, none⟩ }

/-- The object store cannot be reached for the first link. -/
def brokenOutcomes (linkId : Uuid) : Outcomes :=
  { plainOutcomes with
    objectSize := fun _ => if linkId = .ofDigit 1 then .error .storageUnavailable else .ok 0 }

/-- One link at a time. -/
def narrowJob : IndexSyncJob := ⟨1, 8, 3600, fun _ => ""⟩

theorem plain_queue_advances : QueueAdvances narrowJob (fun _ => plainOutcomes) 0 twoLinks := by
  apply (queue_advances_iff twoLinks (by decide) (by decide +kernel)).2
  decide +kernel

/-- The first link is claimed by every tick and stays as it was; the second is due and never
claimed. -/
theorem broken_link_hides_queue :
    ¬ QueueAdvances narrowJob brokenOutcomes 0 twoLinks ∧
      (batch narrowJob brokenOutcomes 0 (claimed narrowJob 0 twoLinks) ⟨twoLinks, false⟩).failed = false ∧
      claimed narrowJob 0 twoLinks = [firstLink] ∧ LinkTable.isDue 0 secondLink = true ∧
      (tick narrowJob brokenOutcomes 0 twoLinks).rows = twoLinks.rows := by
  refine ⟨?_, by decide +kernel, by decide +kernel, by decide +kernel, by decide +kernel⟩
  intro hadvances
  have hclaimed : firstLink ∈ claimed narrowJob 0 twoLinks := by decide +kernel
  have hagain : firstLink ∈ claimed narrowJob 0 (tick narrowJob brokenOutcomes 0 twoLinks) := by
    decide +kernel
  exact hadvances.2 firstLink hclaimed hagain

end WebStorage.ClaimedRows
