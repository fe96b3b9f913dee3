import WebStorage.DeletedUnindexed
import WebStorage.RetryBudget

set_option autoImplicit false

/-! What the rows of the queue look like in every run of the requests, the worker and the administrator,
and which calls bring back a link that was taken out of the index. -/
namespace WebStorage.LinkStates
open Effect Effect.Prog IndexSyncJob TickIsolation WorkerWrites ClaimedRows WaitClock
open RetryBudget (Event)

/-- What the state of a row says about its other columns. -/
structure Sound (row : IndexLink) : Prop where
  known : row.state = .submitted ∨ row.state = .indexed → row.ragFileId ≠ none
  indexed : row.state = .indexed →
    row.attempts = 0 ∧ row.nextAttemptAt = none ∧ row.lastErrorCode = none
  stopped : row.state = .failed ∨ row.state = .skipped →
    row.nextAttemptAt = none ∧ row.lastErrorCode ≠ none

/-- What the requests, the worker and the administrator write, each in one transaction. -/
inductive Writes (job : IndexSyncJob) (t : LinkTable) : Event → LinkTable → Prop
  | upload {id record decision now found t'} : t.upsertPending id record decision now = .ok (found, t') →
      Writes job t (.upload id record decision now) t'
  | contentChanged {fileRecordId decision now found t'} :
      t.markContentChanged fileRecordId decision now = .ok (found, t') →
      Writes job t (.contentChanged fileRecordId decision now) t'
  | rekey {fileRecordId s3Key now found t'} : t.markRekey fileRecordId s3Key now = .ok (found, t') →
      Writes job t (.rekey fileRecordId s3Key now) t'
  | removed {fileRecordIds now links t'} : t.markRemoved fileRecordIds now = .ok (links, t') →
      Writes job t (.removed fileRecordIds now) t'
  | archived {fileRecordId now found t'} : t.markArchived fileRecordId now = .ok (found, t') →
      Writes job t (.archived fileRecordId now) t'
  | retryFailed {limit now n t'} : t.retryFailed limit now = .ok (n, t') →
      Writes job t (.retryFailed limit now) t'
  | tick {env now} : Commits job env now t → Writes job t (.tick env now) (tick job env now t)
  /-- Records and users are deleted, and with them the references of rows. -/
  | forgotten {gone} : Writes job t .elsewhere (t.forget gone)
  /-- Whatever raises is rolled back. -/
  | rolledBack {e} : Writes job t e t

/-- A link as a notification has loaded it. -/
def Loaded := {link : IndexLink // shouldNotify link = true}

/-- The queue, and the notifications that have loaded their link and not yet committed. -/
structure Board where
  table : LinkTable
  loaded : List Loaded

inductive Call
  | write (e : Event)
  | load (fileRecordId : Uuid)
  | finish (link : Loaded) (env : Uuid → Outcomes) (now : Time)
  | leave (link : Loaded)

/-- A notification takes no lock: between its load and its commit the others go on. -/
inductive Step (job : IndexSyncJob) (b : Board) : Call → Board → Prop
  | write {e t} : Writes job b.table e t → Step job b (.write e) { b with table := t }
  | load {fileRecordId} {link : Loaded} : b.table.byFileRecordId fileRecordId = some link.val →
      Step job b (.load fileRecordId) { b with loaded := link :: b.loaded }
  | finish {link rest env now} : b.loaded.Perm (link :: rest) →
      (processIn job env now link.val ⟨b.table, false⟩).failed = false →
      Step job b (.finish link env now) ⟨(processIn job env now link.val ⟨b.table, false⟩).table, rest⟩
  | leave {link rest} : b.loaded.Perm (link :: rest) → Step job b (.leave link) { b with loaded := rest }

/-- A notification that commits finds the row as it loaded it. -/
def Undisturbed (b : Board) : Call → Prop
  | .finish link _ _ => b.table.get link.val.id = some link.val
  | _ => True

section
variable {job : IndexSyncJob} {env : Uuid → Outcomes} {now : Time} {t t' : LinkTable}
  {l m row old : IndexLink} {id : Uuid}

/-! ### The columns of a row -/

theorem not_stopped (h : row.state = .submitted ∨ row.state = .indexed) :
    ¬ (row.state = .failed ∨ row.state = .skipped) := by
  rcases h with hstate | hstate
  · rw [hstate]
    decide
  · rw [hstate]
    decide

/-- The states that say nothing about the other columns. -/
theorem sound_elsewhere (h : row.state = .pending ∨ row.state = .reindexPending ∨
    row.state = .removed ∨ row.state = .archived) : Sound row := by
  have hopen : ¬ (row.state = .submitted ∨ row.state = .indexed) ∧
      ¬ (row.state = .failed ∨ row.state = .skipped) := by
    rcases h with hstate | hstate | hstate | hstate
    all_goals
      rw [hstate]
      decide
  constructor
  case known => exact fun hknown => absurd hknown hopen.1
  case indexed => exact fun hindexed => absurd (.inr hindexed) hopen.1
  case stopped => exact fun hstopped => absurd hstopped hopen.2

theorem sound_indexed (hstate : row.state = .indexed) (hrag : row.ragFileId ≠ none)
    (hclean : row.attempts = 0 ∧ row.nextAttemptAt = none ∧ row.lastErrorCode = none) : Sound row where
  known _ := hrag
  indexed _ := hclean
  stopped h := absurd h (not_stopped (.inr hstate))

theorem sound_submitted (hstate : row.state = .submitted) (hrag : row.ragFileId ≠ none) : Sound row where
  known _ := hrag
  indexed h := by
    rw [hstate] at h
    cases h
  stopped h := absurd h (not_stopped (.inl hstate))

theorem sound_stopped (hstate : row.state = .failed ∨ row.state = .skipped)
    (hclean : row.nextAttemptAt = none ∧ row.lastErrorCode ≠ none) : Sound row where
  known h := absurd hstate (not_stopped h)
  indexed h := absurd hstate (not_stopped (.inr h))
  stopped _ := hclean

/-- A row that is still queued may get another schedule, counter or error code. -/
theorem Sound.rescheduled (h : Sound m) (hdue : m.state.due = true) (hstate : row.state = m.state)
    (hrag : row.ragFileId = m.ragFileId) : Sound row := by
  obtain ⟨hindexed, hfailed, hskipped⟩ := due_open hdue
  constructor
  case known =>
    intro hknown
    rw [hstate] at hknown
    rw [hrag]
    exact h.known hknown
  case indexed =>
    intro hin
    exact (hindexed (hstate ▸ hin)).elim
  case stopped =>
    intro hstopped
    rw [hstate] at hstopped
    exact (hstopped.elim hfailed hskipped).elim

/-- What matters are the columns that the state speaks about. -/
theorem Sound.congr (h : Sound old) (hstate : row.state = old.state) (hrag : row.ragFileId = old.ragFileId)
    (hattempts : row.attempts = old.attempts) (hnext : row.nextAttemptAt = old.nextAttemptAt)
    (herror : row.lastErrorCode = old.lastErrorCode) : Sound row := by
  constructor
  case known =>
    rw [hstate, hrag]
    exact h.known
  case indexed =>
    rw [hstate, hattempts, hnext, herror]
    exact h.indexed
  case stopped =>
    rw [hstate, hnext, herror]
    exact h.stopped

/-! ### The worker -/

/-- The rows before the last write of a processing. -/
theorem sound_passes {w w' : Bool} (h : Passes now l w m w') (hl : Sound l) (hdue : l.state.due = true) :
    Sound m ∧ m.state.due = true := by
  induction h with
  | stays => exact ⟨hl, hdue⟩
  | @clears l w hstate hrag =>
    have hsame : (cleared now l).state = l.state := rfl
    rw [hsame]
    exact ⟨sound_elsewhere (.inr (.inl (hsame.trans hstate))), hdue⟩
  | @changes l w m w' hstate hrag hlater ih =>
    have hsame : (changed now l).state = .reindexPending := rfl
    apply ih
    · exact sound_elsewhere (.inr (.inl hsame))
    · rw [hsame]
      rfl

/-- The last write. -/
theorem sound_ends {e : Ending} {tr : Transition} (h : Ends job now m e tr) (hm : Sound m)
    (hdue : m.state.due = true) : Sound (tr.apply now m) := by
  cases h with
  | submitted => exact sound_submitted rfl (Option.some_ne_none _)
  | indexed => exact sound_indexed rfl (Option.some_ne_none _) ⟨rfl, rfl, rfl⟩
  | settled terminal hterminal =>
    rcases hterminal with hremoved | harchived
    · cases hremoved.1
      exact sound_elsewhere (.inr (.inr (.inl rfl)))
    · cases harchived.1
      exact sound_elsewhere (.inr (.inr (.inr rfl)))
  | skipped code => exact sound_stopped (.inr rfl) ⟨rfl, Option.some_ne_none _⟩
  | failed code => exact sound_stopped (.inl rfl) ⟨rfl, Option.some_ne_none _⟩
  | retried code hleft => exact hm.rescheduled hdue rfl rfl
  | exhausted code hmax => exact sound_stopped (.inl rfl) ⟨rfl, Option.some_ne_none _⟩
  | missed hleft => exact hm.rescheduled hdue rfl rfl
  | lost hmax => exact sound_stopped (.inr rfl) ⟨rfl, Option.some_ne_none _⟩
  | polled hstate => exact hm.rescheduled hdue rfl rfl

/-- The processing of a row, whatever RAG and the object store answer. -/
theorem sound_draft (env : Uuid → Outcomes) (now : Time) (hl : Sound l) (hpublic : l.fileSection ≠ .private)
    (hdue : l.state.due = true) : Sound (draft job env now l).row := by
  rcases draft_turn job env now hpublic hdue with hturned | hstruck
  · obtain ⟨-, e, hturn⟩ := hturned
    generalize (draft job env now l).row = row at hturn ⊢
    cases hturn with
    | ended hpasses hends =>
      obtain ⟨hm, hopen⟩ := sound_passes hpasses hl hdue
      exact sound_ends hends hm hopen
    | broken hpasses => exact (sound_passes hpasses hl hdue).1
  · rw [hstruck.2]
    exact hl

/-! ### The run -/

def AllSound (t : LinkTable) : Prop := ∀ id row, t.get id = some row → Sound row

/-- A row behind a tick is the one before it, or what the processing made of it. -/
theorem tick_row (hcommit : Commits job env now t) (hrow : (tick job env now t).get id = some row) :
    t.get id = some row ∨ ∃ link, link ∈ claimed job now t ∧ link.id = id ∧
      row = (draft job env now link).row := by
  -- only the rows that the tick has claimed are written
  by_cases hid : id ∈ (claimed job now t).map (·.id)
  · obtain ⟨link, hl, heq⟩ := List.mem_map.1 hid
    rw [← heq, ticked_row hl hcommit] at hrow
    exact .inr ⟨link, hl, heq, (Option.some.inj hrow).symm⟩
  · rw [RetryBudget.tick_other hcommit hid] at hrow
    exact .inl hrow

theorem sound_retried : Sound ((LinkTable.retryTransition old.ragFileId).apply now old) := by
  have hrag : ((LinkTable.retryTransition old.ragFileId).apply now old).ragFileId = old.ragFileId := rfl
  cases hknown : old.ragFileId with
  | none =>
    rw [hknown] at hrag
    exact sound_elsewhere (.inl rfl)
  | some ragFileId =>
    rw [hknown] at hrag
    exact sound_submitted rfl (by rw [hrag]; exact Option.some_ne_none _)

theorem sound_inserted (record : FileRecord) (decision : RegistrationDecision) :
    Sound (LinkTable.insertedLink id record decision now) := by
  by_cases hskip : decision.kind = .skip
  · have hcode := decision.skip_iff.1 hskip
    obtain ⟨code, hcode⟩ := Option.isSome_iff_exists.1 hcode
    apply sound_stopped
    · right
      unfold LinkTable.insertedLink
      exact if_pos hskip
    · refine ⟨rfl, ?_⟩
      unfold LinkTable.insertedLink
      dsimp only
      rw [if_pos hskip, hcode]
      exact Option.some_ne_none _
  · have hstate : (LinkTable.insertedLink id record decision now).state = .pending := if_neg hskip
    exact sound_elsewhere (.inl hstate)

theorem sound_contentChanged (decision : RegistrationDecision) :
    Sound ((LinkTable.contentChangedTransition old.ragFileId decision).apply now old) := by
  have hstate : ((LinkTable.contentChangedTransition old.ragFileId decision).apply now old).state =
      if old.ragFileId.isSome then .reindexPending else .pending := rfl
  apply sound_elsewhere
  rw [hstate]
  split
  · exact .inr (.inl rfl)
  · exact .inl rfl

/-- A rename leaves the state of a row that RAG does not know. -/
theorem sound_rekeyed {fileRecordId : Uuid} {s3Key : Str} {found : Option IndexLink} (hs : AllSound t)
    (h : t.markRekey fileRecordId s3Key now = .ok (found, t')) (hrow : t'.get id = some row) : Sound row := by
  cases hmodel : t.byFileRecordId fileRecordId with
  | none =>
    simp only [LinkTable.markRekey, hmodel] at h
    cases h
    exact hs id row hrow
  | some model =>
    have hsound := hs model.id model (LinkTable.get_of_mem (LinkTable.byFileRecordId_some hmodel).1)
    obtain ⟨row', hrows, hcases⟩ := LinkTable.markRekey_get hmodel h
    rw [hrows id] at hrow
    split at hrow
    next =>
      rw [← Option.some.inj hrow]
      rcases hcases with hunknown | hknown
      · obtain ⟨-, hkey | hkey⟩ := hunknown
        · rw [hkey]
          exact hsound.congr rfl rfl rfl rfl rfl
        · rw [hkey]
          exact hsound.congr rfl rfl rfl rfl rfl
      · rw [hknown.2]
        exact sound_elsewhere (.inl rfl)
    next => exact hs id row hrow

theorem forget_get {gone : Uuid → Bool} (hrow : (t.forget gone).get id = some row) :
    ∃ old, t.get id = some old ∧ row = LinkTable.forgotten gone old := by
  have hrows : (t.forget gone).rows = t.rows.map (LinkTable.forgotten gone) := rfl
  have hfind : (t.forget gone).get id = (t.get id).map (LinkTable.forgotten gone) := by
    unfold LinkTable.get
    rw [hrows, List.find?_map]
    rfl
  rw [hfind] at hrow
  obtain ⟨old, hold, heq⟩ := Option.map_eq_some_iff.1 hrow
  exact ⟨old, hold, heq.symm⟩

theorem sound_writes (hs : AllSound t) {e : Event} (hstep : Writes job t e t') : AllSound t' := by
  intro id row hrow
  cases hstep with
  | upload h =>
    rcases LinkTable.upsertPending_row h hrow with hold | hnew
    · exact hs id row hold
    · rw [hnew.2]
      exact sound_inserted _ _
  | contentChanged h =>
    obtain ⟨old, hold, hmiss | hhit⟩ := LinkTable.markContentChanged_row h hrow
    · rw [hmiss.2]
      exact hs id old hold
    · rw [hhit.2]
      exact sound_contentChanged _
  | rekey h => exact sound_rekeyed hs h hrow
  | removed h =>
    obtain ⟨old, hold, hmiss | hhit⟩ := LinkTable.markRemoved_row h hrow
    · rw [hmiss.2]
      exact hs id old hold
    · rw [hhit.2]
      exact sound_elsewhere (.inr (.inr (.inl rfl)))
  | archived h =>
    obtain ⟨old, hold, hmiss | hhit⟩ := LinkTable.markArchived_row h hrow
    · rw [hmiss.2]
      exact hs id old hold
    · rw [hhit.2]
      exact sound_elsewhere (.inr (.inr (.inr rfl)))
  | retryFailed h =>
    obtain ⟨old, hold, hmiss | hhit⟩ := LinkTable.retryFailed_row h hrow
    · rw [hmiss.2]
      exact hs id old hold
    · rw [hhit.2.2]
      exact sound_retried
  | tick hcommit =>
    -- a row that was not claimed is the one before the tick
    rcases tick_row hcommit hrow with hsame | hmade
    · exact hs id row hsame
    · obtain ⟨link, hl, -, heq⟩ := hmade
      obtain ⟨hdue, hpublic, -⟩ := due_facts (claimed_due hl)
      rw [heq]
      exact sound_draft _ _ (hs link.id link ((claimed_spec job _ t).2 link hl)) hpublic hdue
  | forgotten =>
    obtain ⟨old, hold, heq⟩ := forget_get hrow
    rw [heq]
    exact (hs id old hold).congr rfl rfl rfl rfl rfl
  | rolledBack => exact hs id row hrow

/-- A notification that found its row as it loaded it has processed that row. -/
theorem sound_finished {link : Loaded} (hs : AllSound t) (hown : t.get link.val.id = some link.val)
    (hcommit : (processIn job env now link.val ⟨t, false⟩).failed = false) :
    AllSound (processIn job env now link.val ⟨t, false⟩).table := by
  intro id row hrow
  obtain ⟨hpublic, hdue⟩ := shouldNotify_facts link.property
  rw [notified_get hown hcommit id] at hrow
  split at hrow
  next =>
    rw [← Option.some.inj hrow]
    exact sound_draft _ _ (hs _ _ hown) hpublic hdue
  next => exact hs id row hrow

theorem sound_step {b b' : Board} {c : Call} (hs : AllSound b.table) (hcalm : Undisturbed b c)
    (hstep : Step job b c b') : AllSound b'.table := by
  cases hstep with
  | write hwrite => exact sound_writes hs hwrite
  | load => exact hs
  | finish hloaded hcommit => exact sound_finished hs hcalm hcommit
  | leave => exact hs

/-! ### What the worker does for a submitted row -/

/-- The commands that ask RAG for a status, and write the row. -/
def Polls (linkId : Uuid) : SyncCmd → Prop
  | .applyTransition id _ _ => id = linkId
  | .getFile .. => True
  | _ => False

section
variable {P : SyncCmd → Prop} (hP : ∀ tr at_, P (.applyTransition l.id tr at_))
include hP

theorem all_write {tr : Transition} {o : Outcome} :
    ((write l now tr).bind fun _ => done (.ok o)).All P fun _ _ => True :=
  all_issue_bind (hP _ _) fun _ _ => all_done _

theorem all_scheduleRetry (code : String) : (scheduleRetry job l now code).All P fun _ _ => True := by
  unfold scheduleRetry
  dsimp only
  split
  · exact all_write hP
  · exact all_write hP

/-- What is raised while a row is processed is written to the row, or left alone. -/
theorem all_onProcessError (e : Exc) : (onProcessError job l now e).All P fun _ _ => True := by
  unfold onProcessError
  split
  · exact all_scheduleRetry hP _
  · exact all_write hP
  · trivial

end

theorem polls_answer (x : Except Exc RagFileCard) :
    (onPollAnswer job l now x).All (Polls l.id) fun _ _ => True := by
  have hwrite : ∀ tr at_, Polls l.id (.applyTransition l.id tr at_) := fun _ _ => rfl
  unfold onPollAnswer
  split
  · unfold onPolledCard
    dsimp only
    split_ifs
    all_goals exact all_write hwrite
  · split
    · exact all_write hwrite
    · exact all_write hwrite
  · trivial

/-- A submitted row that RAG knows is polled, whatever is answered. -/
theorem polls_process (hstate : l.state = .submitted) (hrag : l.ragFileId ≠ none) :
    (job.process l now).All (Polls l.id) fun _ _ => True := by
  obtain ⟨ragFileId, hknown⟩ := Option.ne_none_iff_exists'.1 hrag
  unfold process dispatch
  rw [hstate]
  dsimp only
  unfold poll
  rw [hknown]
  dsimp only
  apply all_catchWith
  · apply all_catchWith
    · have hget : (send (.getFile ragFileId l.userId) : Sync RagFileCard).All (Polls l.id) fun _ _ => True :=
        ⟨trivial, fun _ _ => trivial⟩
      exact all_bind (all_attempt hget) fun x => polls_answer x
    · exact fun e => all_onProcessError (fun _ _ => rfl) e
  · exact fun _ => all_done _

/-! ### Links that were taken out of the index -/

def Retired (row : IndexLink) : Prop :=
  row.state = .removed ∨ row.state = .archived ∨ row.state = .failed

/-- The writes that can bring a link back: its content changes, RAG knows it and it gets another key, the
administrator takes it up again, or a new row gets its id. -/
def Asks (t : LinkTable) (id : Uuid) : Event → Prop
  | .upload newId _ _ _ => newId = id
  | .contentChanged fileRecordId _ _ => t.hits fileRecordId id = true
  | .rekey fileRecordId _ _ => RetryBudget.rekeyed t fileRecordId id = true
  | .retryFailed limit _ => ∃ row ∈ t.failedRows limit, row.id = id
  | _ => False

/-- What a processing keeps of its row, when each of its writes keeps it. -/
theorem draft_keeps {I : IndexLink → Prop} {P : SyncCmd → Prop} {α : Type} {outcomes : Outcomes}
    {p : Sync α} (hp : p.All P fun _ _ => True)
    (hI : ∀ tr at_ row, P (.applyTransition row.id tr at_) → I row → I (tr.apply at_ row)) (d : Draft)
    (n : Bool) (hd : I d.row) : I (run (draftAnswer outcomes) p (d, n)).2.1.row := by
  induction p generalizing d n with
  | done r => exact hd
  | call c k ih =>
    obtain ⟨hc, hk⟩ := hp
    rw [run_call]
    cases c
    case applyTransition linkId tr at_ =>
      -- a write is refused, or it changes the row
      simp only [draftAnswer]
      split_ifs with hid hprivate
      · exact ih _ (hk _ fun _ _ => trivial) d n hd
      · exact ih _ (hk _ fun _ _ => trivial) d n hd
      · apply ih _ (hk _ fun _ _ => trivial)
        apply hI tr at_ d.row _ hd
        rw [not_not.1 hid] at hc
        exact hc
    all_goals exact ih _ (hk _ fun _ _ => trivial) d _ hd

/-- The processing of a row on its way out of the index. -/
theorem retired_draft (env : Uuid → Outcomes) (now : Time) (hretired : Retired l)
    (hdue : l.state.due = true) :
    Retired (draft job env now l).row ∧ (draft job env now l).row.ragFileId = l.ragFileId := by
  have hterminal : l.state = .removed ∨ l.state = .archived := by
    rcases hretired with hstate | hstate | hstate
    · exact .inl hstate
    · exact .inr hstate
    · rw [hstate] at hdue
      cases hdue
  have hall : (job.process l now).All (SyncCmd.Retires l.id l.state) (fun _ _ => True) :=
    retires_process hterminal rfl
  -- every write of the processing leaves the RAG id, and the state or a failure
  have hleaving : DeletedUnindexed.Leaving l l.state (draft job env now l).row := by
    apply draft_keeps hall
    · intro tr at_ row hc hrow
      exact DeletedUnindexed.leaving_apply hc.2.1 hc.2.2 hrow
    · exact ⟨rfl, .inl rfl⟩
  obtain ⟨hrag, hstate | hfailed⟩ := hleaving
  · refine ⟨?_, hrag⟩
    unfold Retired
    rw [hstate]
    exact hretired
  · exact ⟨.inr (.inr hfailed), hrag⟩

/-- The row of the id, if there is one, is retired, with what RAG knows it by. -/
def StaysRetired (id : Uuid) (ragFileId : Option Uuid) (t : LinkTable) : Prop :=
  ∀ row, t.get id = some row → Retired row ∧ row.ragFileId = ragFileId

theorem retired_writes {ragFileId : Option Uuid} (h : StaysRetired id ragFileId t) {e : Event}
    (hnot : ¬ Asks t id e) (hstep : Writes job t e t') : StaysRetired id ragFileId t' := by
  intro row hrow
  cases hstep with
  | upload hcall =>
    rcases LinkTable.upsertPending_row hcall hrow with hold | hnew
    · exact h row hold
    · have hid := (LinkTable.get_some hrow).2
      rw [hnew.2] at hid
      exact absurd hid hnot
  | contentChanged hcall =>
    obtain ⟨old, hold, hmiss | hhit⟩ := LinkTable.markContentChanged_row hcall hrow
    · rw [hmiss.2]
      exact h old hold
    · exact absurd hhit.1 hnot
  | @rekey fileRecordId s3Key now found t' hcall =>
    cases hmodel : t.byFileRecordId fileRecordId with
    | none =>
      simp only [LinkTable.markRekey, hmodel] at hcall
      cases hcall
      exact h row hrow
    | some model =>
      have hget := LinkTable.get_of_mem (LinkTable.byFileRecordId_some hmodel).1
      obtain ⟨row', hrows, hcases⟩ := LinkTable.markRekey_get hmodel hcall
      rw [hrows id] at hrow
      split at hrow
      next heq =>
        rw [← Option.some.inj hrow]
        obtain ⟨hretired, hrag⟩ := h model (heq ▸ hget)
        rcases hcases with hunknown | hknown
        · obtain ⟨-, hkey | hkey⟩ := hunknown
          · rw [hkey]
            exact ⟨hretired, hrag⟩
          · rw [hkey]
            exact ⟨hretired, hrag⟩
        · -- RAG knows the link, so the call asks for it
          have hasked : RetryBudget.rekeyed t fileRecordId id = true := by
            unfold RetryBudget.rekeyed
            rw [(LinkTable.hits_iff hmodel).2 heq, heq, hget, Option.any_some, Bool.true_and,
              decide_eq_true_eq]
            exact hknown.1
          exact absurd hasked hnot
      next => exact h row hrow
  | removed hcall =>
    obtain ⟨old, hold, hmiss | hhit⟩ := LinkTable.markRemoved_row hcall hrow
    · rw [hmiss.2]
      exact h old hold
    · rw [hhit.2]
      exact ⟨.inl rfl, (h old hold).2⟩
  | archived hcall =>
    obtain ⟨old, hold, hmiss | hhit⟩ := LinkTable.markArchived_row hcall hrow
    · rw [hmiss.2]
      exact h old hold
    · rw [hhit.2]
      exact ⟨.inr (.inl rfl), (h old hold).2⟩
  | retryFailed hcall =>
    obtain ⟨old, hold, hmiss | hhit⟩ := LinkTable.retryFailed_row hcall hrow
    · rw [hmiss.2]
      exact h old hold
    · exact absurd ⟨old, hhit.1, (LinkTable.get_some hold).2⟩ hnot
  | tick hcommit =>
    -- the tick writes claimed rows only, and by their drafts
    rcases tick_row hcommit hrow with hsame | hmade
    · exact h row hsame
    · obtain ⟨link, hl, hid, heq⟩ := hmade
      have hown := (claimed_spec job _ t).2 link hl
      rw [hid] at hown
      obtain ⟨hretired, hrag⟩ := h link hown
      have hdue := (due_facts (claimed_due hl)).1
      rw [heq, ← hrag]
      exact retired_draft _ _ hretired hdue
  | forgotten =>
    obtain ⟨old, hold, heq⟩ := forget_get hrow
    rw [heq]
    exact h old hold
  | rolledBack => exact h row hrow

/-- The call asks for the link again. -/
def Calls (id : Uuid) (b : Board) : Call → Prop
  | .write e => Asks b.table id e
  | _ => False

theorem retired_step {ragFileId : Option Uuid} {b b' : Board} {c : Call}
    (h : StaysRetired id ragFileId b.table) (hcalm : Undisturbed b c) (hnot : ¬ Calls id b c)
    (hstep : Step job b c b') : StaysRetired id ragFileId b'.table := by
  cases hstep with
  | write hwrite => exact retired_writes h hnot hwrite
  | load => exact h
  | @finish link rest env now hloaded hcommit =>
    -- the row is the one that was loaded, so a row on its way out was loaded as such
    have hown : b.table.get link.val.id = some link.val := hcalm
    intro row hrow
    rw [notified_get hown hcommit id] at hrow
    split at hrow
    next heq =>
      obtain ⟨hretired, hrag⟩ := h link.val (heq ▸ hown)
      have hdue := (shouldNotify_facts link.property).2
      rw [← Option.some.inj hrow, ← hrag]
      exact retired_draft _ _ hretired hdue
    next => exact h row hrow
  | leave => exact h

/-- The commands that ask RAG for a deletion, and write the row. -/
def Deletes (linkId : Uuid) : SyncCmd → Prop
  | .applyTransition id _ _ => id = linkId
  | .deleteVectors .. => True
  | _ => False

theorem deletes_process (hretired : Retired l) :
    (job.process l now).All (Deletes l.id) fun _ _ => True := by
  have hterminal : l.state = .removed ∨ l.state = .archived →
      (job.process l now).All (Deletes l.id) fun _ _ => True := by
    intro hstate
    have hall : (job.process l now).All (SyncCmd.Retires l.id l.state) (fun _ _ => True) :=
      retires_process hstate rfl
    apply all_mono hall
    intro c hc
    cases c with
    | applyTransition id tr at_ => exact hc.1
    | deleteVectors ragFileId userId => trivial
    | _ => exact hc.elim
  rcases hretired with hstate | hstate | hstate
  · exact hterminal (.inl hstate)
  · exact hterminal (.inr hstate)
  · unfold process dispatch
    rw [hstate]
    have hwrite : ∀ tr at_, Deletes l.id (.applyTransition l.id tr at_) := fun _ _ => rfl
    exact all_catchWith (all_catchWith (all_done _) (all_onProcessError hwrite)) fun _ => all_done _

end

/-! ### Results -/

/-- In every run whose notifications find their rows as they loaded them the rows of the queue are sound,
and a submitted row is only ever polled. -/
theorem rows_sound (job : IndexSyncJob) (b : Board)
    (hrun : Steps (Step job) Undisturbed ⟨.empty, []⟩ b) :
    ∀ row ∈ b.table.rows, Sound row ∧
      (row.state = .submitted → ∀ now, (job.process row now).All (Polls row.id) fun _ _ => True) := by
  have hall : AllSound b.table := by
    apply hrun.invariant
    · intro id row hrow
      cases hrow
    · exact fun _ _ _ hs hcalm hstep => sound_step hs hcalm hstep
  intro row hrow
  have hsound := hall row.id row (LinkTable.get_of_mem hrow)
  exact ⟨hsound, fun hstate now => polls_process hstate (hsound.known (.inl hstate))⟩

/-- A link that is removed, archived or failed stays so, with its RAG id, in every run that does not ask
for it again and whose notifications find their rows as they loaded them; and all that the worker asks
RAG for on its behalf is a deletion. -/
theorem retired_until_asked (job : IndexSyncJob) (b b' : Board) (row : IndexLink)
    (hrow : row ∈ b.table.rows) (hretired : Retired row)
    (hrun : Steps (Step job) (fun u c => Undisturbed u c ∧ ¬ Calls row.id u c) b b') :
    ∀ row' ∈ b'.table.rows, row'.id = row.id → Retired row' ∧ row'.ragFileId = row.ragFileId ∧
      ∀ now, (job.process row' now).All (Deletes row.id) fun _ _ => True := by
  have hstays : StaysRetired row.id row.ragFileId b'.table := by
    apply hrun.invariant
    · intro x hx
      rw [LinkTable.get_of_mem hrow] at hx
      rw [← Option.some.inj hx]
      exact ⟨hretired, rfl⟩
    · exact fun _ _ _ hs hcalm hstep => retired_step hs hcalm.1 hcalm.2 hstep
  intro row' hrow' hid
  have hget := LinkTable.get_of_mem hrow'
  rw [hid] at hget
  obtain ⟨hretired', hrag⟩ := hstays row' hget
  refine ⟨hretired', hrag, ?_⟩
  intro now
  rw [← hid]
  exact deletes_process hretired'

/-! A file is uploaded, its notification registers it, and RAG is out of reach when it is to be forgotten. -/

open RetryBudget (twoTriesJob lostOutcomes lostTick registeredLink uploaded)
open RagEntries (sampleRecord sampleDecision uploadedLink)

def uploadedLoaded : Loaded := ⟨uploadedLink, rfl⟩

def registeredBoard : Board :=
  ⟨(processIn twoTriesJob (fun _ => lostOutcomes) 0 uploadedLink ⟨LinkTable.one uploadedLink, false⟩).table, []⟩

theorem run_registered : Steps (Step twoTriesJob) Undisturbed ⟨.empty, []⟩ registeredBoard := by
  have hcommit : (processIn twoTriesJob (fun _ => lostOutcomes) 0 uploadedLoaded.val
      ⟨LinkTable.one uploadedLink, false⟩).failed = false := by decide +kernel
  have hupload : Step twoTriesJob ⟨.empty, []⟩ _ ⟨LinkTable.one uploadedLink, []⟩ := .write (.upload uploaded)
  have hload : Step twoTriesJob ⟨LinkTable.one uploadedLink, []⟩ (.load sampleRecord.id)
      ⟨LinkTable.one uploadedLink, [uploadedLoaded]⟩ := .load rfl
  have hfinish : Step twoTriesJob ⟨LinkTable.one uploadedLink, [uploadedLoaded]⟩
      (.finish uploadedLoaded (fun _ => lostOutcomes) 0) registeredBoard := .finish (.refl _) hcommit
  have hcalm : Undisturbed ⟨LinkTable.one uploadedLink, [uploadedLoaded]⟩
      (.finish uploadedLoaded (fun _ => lostOutcomes) 0) := by
    unfold Undisturbed
    rfl
  exact ((Steps.tail .refl trivial hupload).tail trivial hload).tail hcalm hfinish

theorem registered_sound : ∃ row ∈ registeredBoard.table.rows, row.state = .submitted ∧ Sound row := by
  have hrow : registeredLink ∈ registeredBoard.table.rows := by decide +kernel
  exact ⟨registeredLink, hrow, rfl, (rows_sound twoTriesJob registeredBoard run_registered _ hrow).1⟩

def removedLink : IndexLink := { registeredLink with state := .removed }

theorem removed_retired : ∃ row ∈ (lostTick (LinkTable.one removedLink)).rows,
    row.attempts = 1 ∧ Retired row ∧ row.ragFileId = removedLink.ragFileId := by
  have hcommit : Commits twoTriesJob (fun _ => lostOutcomes) 0 (LinkTable.one removedLink) := by
    unfold Commits
    decide +kernel
  have hrun : Steps (Step twoTriesJob) (fun u c => Undisturbed u c ∧ ¬ Calls removedLink.id u c)
      ⟨LinkTable.one removedLink, []⟩ ⟨lostTick (LinkTable.one removedLink), []⟩ := by
    apply Steps.tail .refl (e := .write (.tick (fun _ => lostOutcomes) 0))
    · exact ⟨trivial, fun h => h⟩
    · exact .write (.tick hcommit)
  have hrows : ∃ row ∈ (lostTick (LinkTable.one removedLink)).rows,
      row.attempts = 1 ∧ row.id = removedLink.id := by decide +kernel
  obtain ⟨row, hrow, hattempts, hid⟩ := hrows
  obtain ⟨hretired, hrag, -⟩ := retired_until_asked twoTriesJob _ _ removedLink
    (List.mem_singleton_self _) (.inl rfl) hrun row hrow hid
  exact ⟨row, hrow, hattempts, hretired, hrag⟩

end WebStorage.LinkStates
