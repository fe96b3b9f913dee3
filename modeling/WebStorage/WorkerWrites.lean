import WebStorage.TickIsolation

set_option autoImplicit false

/-! What the processing of one link makes of its row: it ends with one of ten writes, or an
exception that it has no handler for strikes first. -/
namespace WebStorage.WorkerWrites
open Effect Effect.Prog IndexSyncJob TickIsolation

/-! ### The writes -/

/-- How the processing of a row ends. -/
inductive Ending
  | submitted | indexed | settled | skipped | failed | retried | exhausted | missed | lost | polled
deriving DecidableEq

/-- The last write of a processing, and the rows it is made on. -/
inductive Ends (job : IndexSyncJob) (now : Time) (l : IndexLink) : Ending → Transition → Prop
  | submitted (id : Uuid) (hash : Option (Option Digest)) : l.ragFileId = none →
      Ends job now l .submitted
        { state := some .submitted, attempts := some 0, nextAttemptAt := some none,
          ragFileId := some (some id), lastErrorCode := some none, contentSha256 := hash }
  | indexed (id : Uuid) (hash : Option (Option Digest)) :
      l.state = .pending ∨ l.state = .submitted → Ends job now l .indexed
        { state := some .indexed, attempts := some 0, nextAttemptAt := some none,
          ragFileId := some (some id), lastErrorCode := some none, contentSha256 := hash }
  | settled (terminal : IndexLinkState) :
      (terminal = .removed ∧ (l.state = .removed ∨ l.state = .submitted)) ∨
        (terminal = .archived ∧ l.state = .archived) → Ends job now l .settled
        { state := some terminal, attempts := some 0,
          nextAttemptAt := some (some confirmedRemovalAt), lastErrorCode := some none }
  | skipped (code : String) : Ends job now l .skipped
        { state := some .skipped, nextAttemptAt := some none, lastErrorCode := some (some code) }
  | failed (code : String) : Ends job now l .failed
        { state := some .failed, nextAttemptAt := some none, lastErrorCode := some (some code) }
  | retried (code : String) : ¬ job.maxAttempts ≤ (l.attempts + 1 : Nat) → Ends job now l .retried
        { attempts := some (l.attempts + 1),
          nextAttemptAt := some (some (now + backoff (l.attempts + 1))),
          lastErrorCode := if l.state = .submitted then none else some (some code) }
  | exhausted (code : String) : job.maxAttempts ≤ (l.attempts + 1 : Nat) → Ends job now l .exhausted
        { state := some .failed, attempts := some (l.attempts + 1), nextAttemptAt := some none,
          lastErrorCode := some (some code) }
  | missed : ¬ job.maxAttempts ≤ (l.attempts + 1 : Nat) → Ends job now l .missed
        { attempts := some (l.attempts + 1),
          nextAttemptAt := some (some (now + backoff (l.attempts + 1))),
          lastErrorCode := some (some IndexSkipCode.previewMissing.value) }
  | lost : job.maxAttempts ≤ (l.attempts + 1 : Nat) → Ends job now l .lost
        { state := some .skipped, attempts := some (l.attempts + 1), nextAttemptAt := some none,
          lastErrorCode := some (some IndexSkipCode.previewMissing.value) }
  | polled : l.state = .submitted → Ends job now l .polled
        { nextAttemptAt := some (some (now + backoff l.attempts)) }

/-- The write of `_reindex` behind the deletion of the vectors. -/
def cleared (now : Time) (l : IndexLink) : IndexLink :=
  ({ ragFileId := some none } : Transition).apply now l

/-- The write of `_on_rekey_http` when the content has changed. -/
def changed (now : Time) (l : IndexLink) : IndexLink :=
  ({ state := some .reindexPending, nextAttemptAt := some none,
     lastErrorCode := some (some errorContentChanged) } : Transition).apply now l

/-- The rows that a processing goes through before its last write, and whether it has written. -/
inductive Passes (now : Time) : IndexLink → Bool → IndexLink → Bool → Prop
  | stays (l w) : Passes now l w l w
  | clears {l} (w) : l.state = .reindexPending → l.ragFileId ≠ none →
      Passes now l w (cleared now l) true
  | changes {l w m w'} : l.state = .pending → l.ragFileId ≠ none →
      Passes now (changed now l) true m w' → Passes now l w m w'

theorem Passes.attempts {now : Time} {l m : IndexLink} {w w' : Bool} (h : Passes now l w m w') :
    m.attempts = l.attempts := by
  induction h with
  | stays => rfl
  | clears => rfl
  | changes _ _ _ ih => exact ih

theorem Passes.submitted {now : Time} {l m : IndexLink} {w w' : Bool} (h : Passes now l w m w') :
    m.state = .submitted ↔ l.state = .submitted := by
  induction h with
  | stays => exact Iff.rfl
  | clears => exact Iff.rfl
  | changes hstate _ _ ih =>
    rw [hstate]
    constructor
    · intro hm
      have hchanged := ih.1 hm
      cases hchanged
    · exact fun hl => by cases hl

theorem Passes.written {now : Time} {l m : IndexLink} {w w' : Bool} (h : Passes now l w m w')
    (hw : w = true) : w' = true := by
  induction h with
  | stays => exact hw
  | clears => rfl
  | changes _ _ _ ih => exact ih rfl

theorem Passes.same {now : Time} {l m : IndexLink} {w w' : Bool} (h : Passes now l w m w') :
    m.id = l.id ∧ m.fileSection = l.fileSection := by
  induction h with
  | stays => exact ⟨rfl, rfl⟩
  | clears => exact ⟨rfl, rfl⟩
  | changes _ _ _ ih => exact ih

/-! ### The watch -/

/-- The exceptions of RAG. -/
def isRag : Exc → Bool
  | .ragUnavailable _ => true
  | .ragHttp .. => true
  | _ => false

/-- The exceptions that the processing has a handler for: those of RAG, and the missing object of
a call to the object store. -/
def expected : SyncCmd → Exc → Bool
  | .objectExists _, .fileNotFound => true
  | .objectRead _, .fileNotFound => true
  | .objectSize _, .fileNotFound => true
  | _, e => isRag e

/-- A call is answered with an exception that the processing has no handler for. -/
def odd (c : SyncCmd) : Except Exc c.Resp → Bool
  | .ok _ => false
  | .error e => !expected c e

/-- The row under way, whether the processing has written it, and whether an exception without a
handler struck before. -/
structure Watch where
  row : IndexLink
  written : Bool
  struck : Bool

/-- A call to the object store, the records or RAG. -/
def Asks : SyncCmd → Prop
  | .applyTransition .. => False
  | .claimDue .. => False
  | .getByFileRecordId _ => False
  | _ => True

def Watch.after (s : Watch) (c : SyncCmd) (x : Except Exc c.Resp) : Watch :=
  ⟨s.row, s.written, s.struck || (!s.written && odd c x)⟩

/-- The row is written as the queue writes it; any answer comes from outside. -/
def Watching : Handler SyncCmd.Resp Exc Watch
  | .applyTransition linkId tr now, s, x, t =>
    linkId = s.row.id → s.row.fileSection ≠ .private →
      x = .ok (some (tr.apply now s.row)) ∧ t = ⟨tr.apply now s.row, true, s.struck⟩
  | .claimDue .., s, _, t => t = s
  | .getByFileRecordId _, s, _, t => t = s
  | c, s, x, t => t = s.after c x

section
variable {job : IndexSyncJob} {now : Time} {α β : Type} {l : IndexLink} {w : Bool} {s : Watch}

abbrev Works (p : Sync α) (s : Watch) (Q : Except Exc α → Watch → Prop) : Prop :=
  wp Watching (fun _ => True) p Q s

/-- The row is `l` and nothing has struck. -/
structure At (l : IndexLink) (w : Bool) (s : Watch) : Prop where
  row : s.row = l
  written : s.written = w
  struck : s.struck = false

/-- The processing has made its last write. -/
def Final (job : IndexSyncJob) (now : Time) (l : IndexLink) (t : Watch) : Prop :=
  ∃ e tr, Ends job now l e tr ∧ At (tr.apply now l) true t

/-- An exception has left the row. -/
structure Raised (l : IndexLink) (w : Bool) (e : Exc) (t : Watch) : Prop where
  row : t.row = l
  written : t.written = w
  struck : t.struck = (!w && !isRag e)

/-- What a part of the processing leaves: its last write for some of its results, the row as it
was for the others. -/
def Leaves (job : IndexSyncJob) (now : Time) (l : IndexLink) (w : Bool) (ended : α → Bool) :
    Except Exc α → Watch → Prop
  | .ok a, t => if ended a then Final job now l t else At l w t
  | .error e, t => Raised l w e t

theorem works_done {r : Except Exc α} {Q : Except Exc α → Watch → Prop} (h : Q r s) :
    Works (done r) s Q := ⟨trivial, h⟩

theorem works_mono {p : Sync α} {Q Q' : Except Exc α → Watch → Prop} (h : Works p s Q)
    (hq : ∀ r t, Q r t → Q' r t) : Works p s Q' :=
  wp_mono h fun r t _ => hq r t

theorem works_bind {p : Sync α} {f : α → Sync β} {P : Except Exc α → Watch → Prop}
    {Q : Except Exc β → Watch → Prop} (h : Works p s P)
    (hok : ∀ a t, P (.ok a) t → Works (f a) t Q)
    (herror : ∀ e t, P (.error e) t → Q (.error e) t) : Works (p.bind f) s Q :=
  wp_bind_of h (fun a t _ => hok a t) herror

theorem works_catch {p : Sync α} {f : Exc → Sync α} {P Q : Except Exc α → Watch → Prop}
    (h : Works p s P) (hok : ∀ a t, P (.ok a) t → Q (.ok a) t)
    (herror : ∀ e t, P (.error e) t → Works (f e) t Q) : Works (p.catchWith f) s Q :=
  wp_catch_of h hok fun e t _ => herror e t

/-- A part that may have ended the processing, and what goes on otherwise. -/
theorem works_leaves {p : Sync α} {f : α → Sync β} {ended : α → Bool}
    {Q : Except Exc β → Watch → Prop} (h : Works p s (Leaves job now l w ended))
    (hgo : ∀ a t, ended a = false → At l w t → Works (f a) t Q)
    (hend : ∀ a t, ended a = true → Final job now l t → Works (f a) t Q)
    (hraise : ∀ e t, Raised l w e t → Q (.error e) t) : Works (p.bind f) s Q := by
  apply works_bind h
  · intro a t ht
    unfold Leaves at ht
    dsimp only at ht
    cases hended : ended a with
    | true =>
      rw [hended] at ht
      exact hend a t hended ht
    | false =>
      rw [hended] at ht
      exact hgo a t hended ht
  · exact hraise

/-- What a call leaves. -/
def Asked (l : IndexLink) (w : Bool) (c : SyncCmd) (x : Except Exc c.Resp) (t : Watch) : Prop :=
  t.row = l ∧ t.written = w ∧ t.struck = (!w && odd c x)

theorem works_ask {c : SyncCmd} (hc : Asks c) (hs : At l w s) : Works (send c) s (Asked l w c) := by
  apply (wp_issue c _ s).2
  refine ⟨trivial, ?_⟩
  intro x t ht
  have hafter : t = s.after c x := by
    cases c <;> first | exact hc.elim | exact ht
  refine ⟨trivial, ?_⟩
  rw [hafter]
  refine ⟨hs.row, hs.written, ?_⟩
  unfold Watch.after
  rw [hs.struck, hs.written, Bool.false_or]

theorem Asked.at_ok {c : SyncCmd} {a : c.Resp} {t : Watch} (h : Asked l w c (.ok a) t) : At l w t := by
  obtain ⟨hrow, hwritten, hstruck⟩ := h
  exact ⟨hrow, hwritten, by rw [hstruck, odd, Bool.and_false]⟩

theorem Asked.at_expected {c : SyncCmd} {e : Exc} {t : Watch} (h : Asked l w c (.error e) t)
    (he : expected c e = true) : At l w t := by
  obtain ⟨hrow, hwritten, hstruck⟩ := h
  exact ⟨hrow, hwritten, by rw [hstruck, odd, he, Bool.not_true, Bool.and_false]⟩

theorem Asked.raised {c : SyncCmd} {e : Exc} {t : Watch} (h : Asked l w c (.error e) t)
    (he : expected c e = isRag e) : Raised l w e t := by
  obtain ⟨hrow, hwritten, hstruck⟩ := h
  exact ⟨hrow, hwritten, by rw [hstruck, odd, he]⟩

/-- The write of a row that the queue takes. -/
theorem works_write {link : IndexLink} (tr : Transition) (hs : At l w s) (hid : link.id = l.id)
    (hpublic : l.fileSection ≠ .private) : Works (write link now tr) s fun x t =>
      x = .ok (some (tr.apply now l)) ∧ At (tr.apply now l) true t := by
  apply (wp_issue _ _ s).2
  refine ⟨trivial, ?_⟩
  intro x t ht
  have hrow := hs.row
  subst hrow
  obtain ⟨hx, htable⟩ := ht hid hpublic
  refine ⟨trivial, hx, ?_⟩
  rw [htable]
  exact ⟨rfl, rfl, hs.struck⟩

/-- A part that returns behind the last write. -/
def Finishes (job : IndexSyncJob) (now : Time) (l : IndexLink) (r : Except Exc Outcome) (t : Watch) :
    Prop :=
  (∃ o, r = .ok o) ∧ Final job now l t

theorem works_finish {tr : Transition} {o : Outcome} {e : Ending} (hs : At l w s)
    (hpublic : l.fileSection ≠ .private) (hends : Ends job now l e tr) :
    Works ((write l now tr).bind fun _ => done (.ok o)) s (Finishes job now l) := by
  apply works_bind (works_write tr hs rfl hpublic)
  · intro _ t ht
    exact works_done ⟨⟨o, rfl⟩, e, tr, hends, ht.2⟩
  · intro e' t ht
    cases ht.1

theorem leaves_of_finishes {r : Except Exc Outcome} {t : Watch} (h : Finishes job now l r t) :
    Leaves job now l w (fun _ => true) r t := by
  obtain ⟨⟨o, hr⟩, hfinal⟩ := h
  subst hr
  exact hfinal

/-- The last write. -/
theorem works_end {tr : Transition} {o : Outcome} {e : Ending} (hs : At l w s)
    (hpublic : l.fileSection ≠ .private) (hends : Ends job now l e tr) :
    Works ((write l now tr).bind fun _ => done (.ok o)) s (Leaves job now l w fun _ => true) :=
  works_mono (works_finish hs hpublic hends) fun _ _ => leaves_of_finishes

/-! ### The parts -/

theorem works_fail (code : String) (hs : At l w s) (hpublic : l.fileSection ≠ .private) :
    Works (fail l now code) s (Leaves job now l w fun _ => true) :=
  works_end hs hpublic (.failed code)

theorem finishes_scheduleRetry (code : String) (hs : At l w s) (hpublic : l.fileSection ≠ .private) :
    Works (scheduleRetry job l now code) s (Finishes job now l) := by
  unfold scheduleRetry
  dsimp only
  split
  next hmax => exact works_finish hs hpublic (.exhausted code hmax)
  next hmax => exact works_finish hs hpublic (.retried code hmax)

theorem works_scheduleRetry (code : String) (hs : At l w s) (hpublic : l.fileSection ≠ .private) :
    Works (scheduleRetry job l now code) s (Leaves job now l w fun _ => true) :=
  works_mono (finishes_scheduleRetry code hs hpublic) fun _ _ => leaves_of_finishes

theorem works_missObject (hs : At l w s) (hpublic : l.fileSection ≠ .private) :
    Works (missObject job l now) s (Leaves job now l w fun _ => true) := by
  unfold missObject
  dsimp only
  split
  · exact works_fail objectNotFound hs hpublic
  · split
    next hmax => exact works_end hs hpublic (.lost hmax)
    next hmax => exact works_end hs hpublic (.missed hmax)

/-- An ending that is handed on as the left summand. -/
theorem works_left {γ : Type} {p : Sync Outcome}
    (h : Works p s (Leaves job now l w fun _ => true)) :
    Works (p.bind fun o => done (.ok (.inl o : Outcome ⊕ γ))) s (Leaves job now l w Sum.isLeft) := by
  apply works_leaves h
  · intro o t hended
    cases hended
  · exact fun o t _ ht => works_done ht
  · exact fun e t ht => ht

/-- A call that is tried: each answer is dealt with. -/
theorem works_attempt {c : SyncCmd} {f : Except Exc c.Resp → Sync α} {Q : Except Exc α → Watch → Prop}
    (hc : Asks c) (hs : At l w s) (hf : ∀ x t, Asked l w c x t → Works (f x) t Q) :
    Works ((send c).attempt.bind f) s Q := by
  have htried : Works (send c).attempt s fun r t => ∃ x, r = .ok x ∧ Asked l w c x t := by
    apply (wp_attempt _ _ _).2
    apply works_mono (works_ask hc hs)
    exact fun x t ht => ⟨x, rfl, ht⟩
  apply works_bind htried
  · intro x t ht
    obtain ⟨x', heq, hasked⟩ := ht
    cases heq
    exact hf x t hasked
  · intro e t ht
    obtain ⟨x', heq, -⟩ := ht
    cases heq

theorem works_readPayloadHash (hs : At l w s) (hpublic : l.fileSection ≠ .private) :
    Works (readPayloadHash job l now) s (Leaves job now l w Sum.isLeft) := by
  unfold readPayloadHash
  rw [bind_eq]
  refine works_attempt ?_ hs ?_
  · trivial
  intro x t ht
  cases x with
  | ok payload => exact works_done ht.at_ok
  | error e =>
    by_cases hmissing : e = .fileNotFound
    · subst hmissing
      exact works_left (works_missObject (ht.at_expected rfl) hpublic)
    · have hraised : Raised l w e t := ht.raised (by cases e <;> first | rfl | exact absurd rfl hmissing)
      cases e <;> first | exact works_done hraised | exact absurd rfl hmissing

theorem works_objectPresent (job : IndexSyncJob) (now : Time) (hs : At l w s) :
    Works (objectPresent l) s (Leaves job now l w fun _ => false) := by
  have hask : Works (send (.objectExists l.s3Key)) s (Asked l w (.objectExists l.s3Key)) :=
    works_ask trivial hs
  unfold objectPresent
  apply works_catch hask
  · exact fun a t ht => ht.at_ok
  · intro e t ht
    by_cases hmissing : e = .fileNotFound
    · subst hmissing
      exact works_done (ht.at_expected rfl)
    · have hraised : Raised l w e t := ht.raised (by cases e <;> first | rfl | exact absurd rfl hmissing)
      cases e <;> first | exact works_done hraised | exact absurd rfl hmissing

theorem works_readObjectHash (hs : At l w s) (hpublic : l.fileSection ≠ .private) :
    Works (readObjectHash job l now) s (Leaves job now l w Sum.isLeft) := by
  unfold readObjectHash
  rw [bind_eq]
  apply works_leaves (works_objectPresent job now hs)
  · intro present t _ ht
    split
    · exact works_left (works_missObject ht hpublic)
    · exact works_readPayloadHash ht hpublic
  · intro present t hended
    cases hended
  · exact fun e t ht => ht

theorem works_locate (hs : At l w s) (hpublic : l.fileSection ≠ .private) :
    Works (locate job l now) s (Leaves job now l w Sum.isLeft) := by
  unfold locate
  cases l.contentSha256 with
  | none => exact works_readObjectHash hs hpublic
  | some digest =>
    dsimp only
    rw [bind_eq]
    refine works_attempt ?_ hs ?_
    · trivial
    intro x t ht
    cases x with
    | ok size => exact works_done ht.at_ok
    | error e =>
      by_cases hmissing : e = .fileNotFound
      · subst hmissing
        exact works_left (works_fail objectNotFound (ht.at_expected rfl) hpublic)
      · have hraised : Raised l w e t :=
          ht.raised (by cases e <;> first | rfl | exact absurd rfl hmissing)
        cases e <;> first | exact works_done hraised | exact absurd rfl hmissing

theorem works_displayName (job : IndexSyncJob) (now : Time) (hs : At l w s) :
    Works (displayName l) s (Leaves job now l w fun _ => false) := by
  unfold displayName
  cases l.fileRecordId with
  | none => exact works_done hs
  | some fileRecordId =>
    have hask : Works (send (.originalName fileRecordId)) s (Asked l w (.originalName fileRecordId)) :=
      works_ask trivial hs
    apply works_mono hask
    intro r t ht
    cases r with
    | ok a => exact ht.at_ok
    | error e => exact ht.raised rfl

theorem works_manifest (hs : At l w s) (hpublic : l.fileSection ≠ .private) :
    Works (manifest job l now) s (Leaves job now l w Sum.isLeft) := by
  unfold manifest
  rw [bind_eq]
  apply works_leaves (works_locate hs hpublic)
  · intro located t hgo ht
    cases located with
    | inl o => cases hgo
    | inr found =>
      apply works_leaves (works_displayName job now ht)
      · exact fun name u _ hu => works_done hu
      · exact fun name u hended => by cases hended
      · exact fun e u hu => hu
  · intro located t hend ht
    cases located with
    | inl o => exact works_done ht
    | inr found => cases hend
  · exact fun e t ht => ht

theorem works_onRegisterHttp (statusCode : Nat) (errorCode : Option String) (detail : Option Uuid)
    (prepared : RagManifest) (hs : At l w s) (hpublic : l.fileSection ≠ .private)
    (hrag : l.ragFileId = none) : Works (onRegisterHttp l now statusCode errorCode detail prepared) s
      (Leaves job now l w fun _ => true) := by
  unfold onRegisterHttp
  split
  · unfold adoptDuplicate
    cases detail with
    | none => exact works_fail duplicateConflict hs hpublic
    | some adopted =>
      dsimp only
      split
      · exact works_fail duplicateConflict hs hpublic
      · exact works_end hs hpublic (.submitted adopted _ hrag)
  · exact works_fail _ hs hpublic

/-- `_register` is only reached without a RAG id. -/
theorem works_register (hs : At l w s) (hpublic : l.fileSection ≠ .private)
    (hrag : l.ragFileId = none) :
    Works (register job l now) s (Leaves job now l w fun _ => true) := by
  unfold register
  cases registerCollection l with
  | none => exact works_end hs hpublic (.skipped _)
  | some collection =>
    dsimp only
    rw [bind_eq]
    apply works_leaves (works_manifest hs hpublic)
    · intro prepared t hgo ht
      cases prepared with
      | inl o => cases hgo
      | inr prepared =>
        refine works_attempt ?_ ht ?_
        · trivial
        intro x u hu
        cases x with
        | ok card => exact works_end hu.at_ok hpublic (.submitted card.fileId _ hrag)
        | error e =>
          cases e
          case ragHttp statusCode errorCode detail =>
            exact works_onRegisterHttp _ _ _ _ (hu.at_expected rfl) hpublic hrag
          all_goals exact works_done (hu.raised rfl)
    · intro prepared t hend ht
      cases prepared with
      | inl o => exact works_done ht
      | inr prepared => cases hend
    · exact fun e t ht => ht

theorem works_deleteVectors (hs : At l w s) (hpublic : l.fileSection ≠ .private) :
    Works (deleteVectors job l now) s (Leaves job now l w Option.isSome) := by
  have hsome : ∀ {p : Sync Outcome} {t : Watch}, Works p t (Leaves job now l w fun _ => true) →
      Works (p.bind fun o => done (.ok (some o))) t (Leaves job now l w Option.isSome) := by
    intro p t h
    apply works_leaves h
    · exact fun o u hended => by cases hended
    · exact fun o u _ hu => works_done hu
    · exact fun e u hu => hu
  unfold deleteVectors
  cases l.ragFileId with
  | none => exact works_done hs
  | some ragFileId =>
    dsimp only
    rw [bind_eq]
    refine works_attempt ?_ hs ?_
    · trivial
    intro x t ht
    cases x with
    | ok a => exact works_done ht.at_ok
    | error e =>
      cases e
      case ragHttp statusCode errorCode detail =>
        have hat : At l w t := ht.at_expected rfl
        dsimp only
        split
        · exact works_done hat
        · split
          · exact hsome (works_scheduleRetry _ hat hpublic)
          · apply works_leaves (works_fail _ hat hpublic)
            · exact fun o u hended => by cases hended
            · exact fun o u _ hu => works_done hu
            · exact fun e u hu => hu
      all_goals exact works_done (ht.raised rfl)

/-! ### The whole -/

/-- What the body of `_process` leaves. -/
def Worked (job : IndexSyncJob) (now : Time) (l : IndexLink) (w : Bool) (r : Except Exc Outcome)
    (t : Watch) : Prop :=
  ∃ m w', Passes now l w m w' ∧ Leaves job now m w' (fun _ => true) r t

theorem worked_of_leaves {r : Except Exc Outcome} {t : Watch}
    (h : Leaves job now l w (fun _ => true) r t) : Worked job now l w r t := ⟨l, w, .stays l w, h⟩

theorem works_reindex (hs : At l w s) (hpublic : l.fileSection ≠ .private)
    (hstate : l.state = .reindexPending) : Works (reindex job l now) s (Worked job now l w) := by
  unfold reindex
  cases hrag : l.ragFileId with
  | none => exact works_mono (works_register hs hpublic hrag) fun _ _ => worked_of_leaves
  | some ragFileId =>
    dsimp only
    rw [bind_eq]
    apply works_leaves (works_deleteVectors hs hpublic)
    · intro gone t hgo ht
      cases gone with
      | some o => cases hgo
      | none =>
        dsimp only
        rw [bind_eq]
        apply works_bind (works_write _ ht rfl hpublic)
        · intro found u hu
          obtain ⟨hfound, hat⟩ := hu
          cases hfound
          have hnext : Works (register job (cleared now l) now) u
              (Leaves job now (cleared now l) true fun _ => true) := works_register hat hpublic rfl
          apply works_mono hnext
          intro r v hv
          exact ⟨_, true, .clears w hstate (by rw [hrag]; exact Option.some_ne_none _), hv⟩
        · intro e u hu
          cases hu.1
    · intro gone t hend ht
      cases gone with
      | some o => exact works_done (worked_of_leaves ht)
      | none => cases hend
    · exact fun e t ht => worked_of_leaves ht

theorem works_onRekeyHttp (statusCode : Nat) (errorCode : Option String) (hs : At l w s)
    (hpublic : l.fileSection ≠ .private) (hstate : l.state = .pending) (hrag : l.ragFileId ≠ none) :
    Works (onRekeyHttp job l now statusCode errorCode) s (Worked job now l w) := by
  unfold onRekeyHttp
  split
  · rw [bind_eq]
    apply works_bind (works_write _ hs rfl hpublic)
    · intro found t ht
      obtain ⟨hfound, hat⟩ := ht
      cases hfound
      have hnext : Works (reindex job (changed now l) now) t (Worked job now (changed now l) true) :=
        works_reindex hat hpublic rfl
      apply works_mono hnext
      intro r u hu
      obtain ⟨m, w', hpasses, hleaves⟩ := hu
      exact ⟨m, w', .changes hstate hrag hpasses, hleaves⟩
    · intro e t ht
      cases ht.1
  · split
    · exact works_mono (works_fail _ hs hpublic) fun _ _ => worked_of_leaves
    · exact works_mono (works_fail _ hs hpublic) fun _ _ => worked_of_leaves

theorem works_rekey (hs : At l w s) (hpublic : l.fileSection ≠ .private) (hstate : l.state = .pending) :
    Works (rekey job l now) s (Worked job now l w) := by
  unfold rekey
  cases hrag : l.ragFileId with
  | none => exact works_mono (works_register hs hpublic hrag) fun _ _ => worked_of_leaves
  | some ragFileId =>
    have hsome : l.ragFileId ≠ none := by
      rw [hrag]
      exact Option.some_ne_none _
    dsimp only
    rw [bind_eq]
    apply works_leaves (works_locate hs hpublic)
    · intro located t hgo ht
      cases located with
      | inl o => cases hgo
      | inr found =>
        refine works_attempt ?_ ht ?_
        · trivial
        intro x u hu
        cases x with
        | ok card =>
          exact works_mono (works_end hu.at_ok hpublic (.indexed card.fileId _ (.inl hstate)))
            fun _ _ => worked_of_leaves
        | error e =>
          cases e
          case ragHttp statusCode errorCode detail =>
            exact works_onRekeyHttp _ _ (hu.at_expected rfl) hpublic hstate hsome
          all_goals exact works_done (worked_of_leaves (hu.raised rfl))
    · intro located t hend ht
      cases located with
      | inl o => exact works_done (worked_of_leaves ht)
      | inr found => cases hend
    · exact fun e t ht => worked_of_leaves ht

theorem works_onPolledCard (card : RagFileCard) (hs : At l w s) (hpublic : l.fileSection ≠ .private)
    (hstate : l.state = .submitted) :
    Works (onPolledCard job l now card) s (Leaves job now l w fun _ => true) := by
  unfold onPolledCard
  dsimp only
  split_ifs
  · exact works_end hs hpublic (.indexed card.fileId _ (.inr hstate))
  · exact works_fail _ hs hpublic
  · exact works_end hs hpublic (.settled .removed (.inl ⟨rfl, .inr hstate⟩))
  · exact works_fail _ hs hpublic
  · exact works_end hs hpublic (.polled hstate)

theorem works_poll (hs : At l w s) (hpublic : l.fileSection ≠ .private) (hstate : l.state = .submitted) :
    Works (poll job l now) s (Leaves job now l w fun _ => true) := by
  unfold poll
  cases hrag : l.ragFileId with
  | none => exact works_register hs hpublic hrag
  | some ragFileId =>
    dsimp only
    rw [bind_eq]
    refine works_attempt ?_ hs ?_
    · trivial
    intro x t ht
    cases x with
    | ok card => exact works_onPolledCard card ht.at_ok hpublic hstate
    | error e =>
      cases e
      case ragHttp statusCode errorCode detail =>
        unfold onPollAnswer
        dsimp only
        split
        · exact works_end (ht.at_expected rfl) hpublic (.settled .removed (.inl ⟨rfl, .inr hstate⟩))
        · exact works_fail _ (ht.at_expected rfl) hpublic
      all_goals exact works_done (ht.raised rfl)

theorem works_remove {terminal : IndexLinkState} (hs : At l w s) (hpublic : l.fileSection ≠ .private)
    (hterminal : terminal = .removed ∧ (l.state = .removed ∨ l.state = .submitted) ∨
      terminal = .archived ∧ l.state = .archived) :
    Works (remove job l now terminal) s (Leaves job now l w fun _ => true) := by
  have hsettle : ∀ {t : Watch}, At l w t →
      Works (settle l now terminal) t (Leaves job now l w fun _ => true) :=
    fun ht => works_end ht hpublic (.settled terminal hterminal)
  unfold remove
  cases l.ragFileId with
  | none => exact hsettle hs
  | some ragFileId =>
    dsimp only
    rw [bind_eq]
    apply works_leaves (works_deleteVectors hs hpublic)
    · intro gone t hgo ht
      cases gone with
      | some o => cases hgo
      | none => exact hsettle ht
    · intro gone t hend ht
      cases gone with
      | some o => exact works_done ht
      | none => cases hend
    · exact fun e t ht => ht

/-- A row in a state that the worker picks up is worked on. -/
theorem works_dispatch (hs : At l w s) (hpublic : l.fileSection ≠ .private)
    (hdue : l.state.due = true) : Works (dispatch job l now) s (Worked job now l w) := by
  unfold dispatch
  cases hstate : l.state
  case submitted =>
    exact works_mono (works_poll hs hpublic hstate) fun _ _ => worked_of_leaves
  case removed =>
    exact works_mono (works_remove hs hpublic (.inl ⟨rfl, .inl hstate⟩)) fun _ _ => worked_of_leaves
  case archived =>
    exact works_mono (works_remove hs hpublic (.inr ⟨rfl, hstate⟩)) fun _ _ => worked_of_leaves
  case reindexPending => exact works_reindex hs hpublic hstate
  case pending =>
    dsimp only
    cases hrag : l.ragFileId with
    | none => exact works_mono (works_register hs hpublic hrag) fun _ _ => worked_of_leaves
    | some ragFileId => exact works_rekey hs hpublic hstate
  all_goals
    rw [hstate] at hdue
    cases hdue

/-- What a processing makes of a row that nothing without a handler strikes first: it ends with its
last write, or it is broken off behind one. -/
inductive Turn (job : IndexSyncJob) (now : Time) (l : IndexLink) : Option Ending → IndexLink → Prop
  | ended {m w e tr} : Passes now l false m w → Ends job now m e tr →
      Turn job now l (some e) (tr.apply now m)
  | broken {m} : Passes now l false m true → Turn job now l none m

/-- The row after the processing, and what it tells about the exceptions. -/
def Turned (job : IndexSyncJob) (now : Time) (l : IndexLink) (t : Watch) : Prop :=
  (t.struck = false ∧ ∃ e, Turn job now l e t.row) ∨ (t.struck = true ∧ t.row = l)

theorem write_passes {m : IndexLink} {w' : Bool} (h : Passes now l w m w') (tr : Transition) :
    write l now tr = write m now tr := by
  unfold write
  rw [h.same.1]

/-- The handlers of `_process` write the row under way with the counters of the claimed one. -/
theorem scheduleRetry_passes {m : IndexLink} {w' : Bool} (h : Passes now l w m w') (code : String) :
    scheduleRetry job l now code = scheduleRetry job m now code := by
  have hstate : (l.state = .submitted) = (m.state = .submitted) := propext h.submitted.symm
  unfold scheduleRetry
  simp only [write_passes h, h.attempts, hstate]

/-- What the handlers of the inner `try` leave. -/
def Handled (job : IndexSyncJob) (now : Time) (l : IndexLink) (r : Except Exc Outcome) (t : Watch) :
    Prop :=
  Turned job now l t ∨ ∃ e m w, r = .error e ∧ Passes now l false m w ∧ Raised m w e t ∧ isRag e = false

theorem turned_of_final {m : IndexLink} {w : Bool} {t : Watch} (hpasses : Passes now l false m w)
    (h : Final job now m t) : Turned job now l t := by
  obtain ⟨e, tr, hends, hat⟩ := h
  refine .inl ⟨hat.struck, some e, ?_⟩
  rw [hat.row]
  exact .ended hpasses hends

theorem turned_of_raised {m : IndexLink} {w : Bool} {e : Exc} {t : Watch}
    (hpasses : Passes now l false m w) (h : Raised m w e t) (he : isRag e = false) :
    Turned job now l t := by
  have hstruck : t.struck = !w := by
    rw [h.struck, he, Bool.not_false, Bool.and_true]
  have hrow := h.row
  cases hw : w with
  | true =>
    subst hw
    refine .inl ⟨hstruck, none, ?_⟩
    rw [hrow]
    exact .broken hpasses
  | false =>
    subst hw
    refine .inr ⟨hstruck, ?_⟩
    cases hpasses with
    | stays => exact hrow
    | changes hstate hrag hlater => cases hlater.written rfl

theorem works_onProcessError {m : IndexLink} {e : Exc} (hpasses : Passes now l false m w)
    (hraised : Raised m w e s) (hpublic : l.fileSection ≠ .private) :
    Works (onProcessError job l now e) s (Handled job now l) := by
  have hpublic' : m.fileSection ≠ .private := by
    rw [hpasses.same.2]
    exact hpublic
  have hat : isRag e = true → At m w s := by
    intro he
    refine ⟨hraised.row, hraised.written, ?_⟩
    rw [hraised.struck, he, Bool.not_true, Bool.and_false]
  have hended : ∀ {p : Sync Outcome}, Works p s (Finishes job now m) →
      Works p s (Handled job now l) := by
    intro p hp
    apply works_mono hp
    exact fun r t ht => .inl (turned_of_final hpasses ht.2)
  cases e
  case ragUnavailable code =>
    apply hended
    unfold onProcessError
    dsimp only
    rw [scheduleRetry_passes hpasses]
    exact finishes_scheduleRetry _ (hat rfl) hpublic'
  case ragHttp statusCode errorCode detail =>
    apply hended
    unfold onProcessError fail
    dsimp only
    rw [write_passes hpasses]
    exact works_finish (hat rfl) hpublic' (.failed _)
  all_goals exact works_done (.inr ⟨_, m, w, rfl, hpasses, hraised, rfl⟩)

/-- The processing of a row in a state that the worker picks up. -/
theorem works_process (hs : At l false s) (hpublic : l.fileSection ≠ .private)
    (hdue : l.state.due = true) :
    Works (process job l now) s fun r t => (∃ o, r = .ok o) ∧ Turned job now l t := by
  have hinner : Works ((dispatch job l now).catchWith (onProcessError job l now)) s fun r t =>
      (∃ o, r = .ok o) ∧ Turned job now l t ∨ (∃ e, r = .error e) ∧ Turned job now l t := by
    apply works_catch (works_dispatch hs hpublic hdue)
    · intro o t ht
      obtain ⟨m, w, hpasses, hfinal⟩ := ht
      exact .inl ⟨⟨o, rfl⟩, turned_of_final hpasses hfinal⟩
    · intro e t ht
      obtain ⟨m, w, hpasses, hraised⟩ := ht
      apply works_mono (works_onProcessError hpasses hraised hpublic)
      intro r u hu
      have hturned : Turned job now l u := by
        rcases hu with hturned | hstruck
        · exact hturned
        · obtain ⟨e', m', w', -, hpasses', hraised', hodd⟩ := hstruck
          exact turned_of_raised hpasses' hraised' hodd
      cases r with
      | ok o => exact .inl ⟨⟨o, rfl⟩, hturned⟩
      | error e' => exact .inr ⟨⟨e', rfl⟩, hturned⟩
  unfold process
  apply works_catch hinner
  · intro o t ht
    rcases ht with hok | herror
    · exact hok
    · obtain ⟨⟨e, he⟩, -⟩ := herror
      cases he
  · intro e t ht
    have hturned : Turned job now l t := by
      rcases ht with hok | herror
      · exact hok.2
      · exact herror.2
    exact works_done ⟨⟨.failed, rfl⟩, hturned⟩

/-! ### The draft of a row -/

/-- The answers of `draftAnswer`, to the watch. -/
def watchAnswer (outcomes : Outcomes) :
    (c : SyncCmd) → Watch × Bool → Except Exc c.Resp × (Watch × Bool)
  | .applyTransition linkId tr now, (s, rekeyed) =>
    if linkId ≠ s.row.id then (.ok none, s, rekeyed)
    else if s.row.fileSection = .private then (.error .privateIndexRefused, s, rekeyed)
    else (.ok (some (tr.apply now s.row)), ⟨tr.apply now s.row, true, s.struck⟩, rekeyed)
  | .claimDue limit now, (s, rekeyed) => (outcomes.reply rekeyed (.claimDue limit now), s, rekeyed)
  | .getByFileRecordId fileRecordId, (s, rekeyed) =>
    (outcomes.reply rekeyed (.getByFileRecordId fileRecordId), s, rekeyed)
  | c, (s, rekeyed) =>
    (outcomes.reply rekeyed c, s.after c (outcomes.reply rekeyed c), rekeys rekeyed c)

variable {outcomes : Outcomes}

theorem watching_answer (c : SyncCmd) (s : Watch) (n : Bool) :
    Watching c s (watchAnswer outcomes c (s, n)).1 (watchAnswer outcomes c (s, n)).2.1 := by
  cases c
  case applyTransition linkId tr now =>
    intro hid hpublic
    simp only [watchAnswer, hid, ne_eq, not_true_eq_false, if_false, if_neg hpublic, and_self]
  all_goals rfl

theorem run_watch {p : Sync α} {Q : Except Exc α → Watch → Prop} {n : Bool} (h : Works p s Q) :
    Q (run (watchAnswer outcomes) p (s, n)).1 (run (watchAnswer outcomes) p (s, n)).2.1 := by
  induction p generalizing s n with
  | done r => exact h.2
  | call c k ih =>
    rw [run_call]
    exact ih _ (h.2 _ _ (watching_answer c s n))

/-- The watch follows the draft. -/
theorem run_watch_row (p : Sync α) : ∀ (d : Draft) (s : Watch) (n : Bool), s.row = d.row →
    (run (draftAnswer outcomes) p (d, n)).2.1.row = (run (watchAnswer outcomes) p (s, n)).2.1.row := by
  induction p with
  | done r => exact fun d s n h => h.symm
  | call c k ih =>
    intro d s n h
    rw [run_call, run_call]
    cases c
    case applyTransition linkId tr now =>
      simp only [draftAnswer, watchAnswer, h]
      split
      · exact ih _ _ _ _ h
      · split
        · exact ih _ _ _ _ h
        · exact ih _ _ _ _ rfl
    all_goals exact ih _ _ _ _ h

end

section
variable (job : IndexSyncJob) (env : Uuid → Outcomes) (now : Time)

/-- Whether an exception without a handler strikes the processing of a row before it writes it. -/
def struck (link : IndexLink) : Bool :=
  (run (watchAnswer (env link.id)) (job.process link now) (⟨link, false, false⟩, false)).2.1.struck

/-- What a processing makes of its row. -/
theorem draft_turn {link : IndexLink} (hpublic : link.fileSection ≠ .private)
    (hdue : link.state.due = true) :
    (struck job env now link = false ∧ ∃ e, Turn job now link e (draft job env now link).row) ∨
      (struck job env now link = true ∧ (draft job env now link).row = link) := by
  have hworks : Works (job.process link now) ⟨link, false, false⟩ fun r t =>
      (∃ o, r = .ok o) ∧ Turned job now link t := works_process ⟨rfl, rfl, rfl⟩ hpublic hdue
  have hwatch : Turned job now link
      (run (watchAnswer (env link.id)) (job.process link now) (⟨link, false, false⟩, false)).2.1 :=
    (run_watch hworks).2
  have hrow : (draft job env now link).row =
      (run (watchAnswer (env link.id)) (job.process link now) (⟨link, false, false⟩, false)).2.1.row :=
    run_watch_row (job.process link now) ⟨link, []⟩ ⟨link, false, false⟩ false rfl
  rw [hrow]
  exact hwatch

end
end WebStorage.WorkerWrites
