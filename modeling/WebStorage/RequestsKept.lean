import WebStorage.NotifyRaces

set_option autoImplicit false

/-! Where requests and unfinished notifications of a link do not overlap, no request is lost. -/
namespace WebStorage.NotifyRaces
open Effect Effect.Prog IndexSyncJob

/-- The row still says what was requested, and RAG keeps objects of its type. -/
def Mark.Carried : Mark → IndexLink → Prop
  | .removed ragFileId, row => (Mark.removed ragFileId).Kept row
  | .changed s3Key contentSha256, row =>
    (Mark.changed s3Key contentSha256).Kept row ∧ registerCollection row ≠ none

/-- A loaded row whose processing serves the request. -/
def Mark.Ready (job : IndexSyncJob) : Mark → IndexLink → Prop
  | .removed _, link => link.state = .removed
  | .changed s3Key contentSha256, link =>
    (Mark.changed s3Key contentSha256).Carried link ∧ link.attempts + 1 < job.maxAttempts

/-- The request on the link has been served or is still in its row. -/
def Open (linkId : Uuid) (m : Mark) (q : Queue) : Prop :=
  m.Received q ∨ ∃ row, q.table.get linkId = some row ∧ m.Carried row

/-- What the others may do between two commands of a notification. -/
def Rely (linkId : Uuid) (m : Mark) (q q' : Queue) : Prop :=
  Open linkId m q' ∧ (m.Received q → m.Received q')

variable {job : IndexSyncJob} {serve : (c : SyncCmd) → Except Exc c.Resp → Prop} {v : Watched}
variable {m : Mark} {linkId : Uuid} {link : IndexLink} {now : Time} {q q' : Queue}

theorem Rely.trans {a b c : Queue} (hab : Rely linkId m a b) (hbc : Rely linkId m b c) :
    Rely linkId m a c :=
  ⟨hbc.1, fun h => hbc.2 (hab.2 h)⟩

/-- What each command does to the queue. -/
theorem answers_queue {c : SyncCmd} {x : Except Exc c.Resp} (h : Answers serve c q x q') :
    (∀ object ∈ q.received, object ∈ q'.received) ∧
      ((∃ linkId tr now found, c = .applyTransition linkId tr now ∧
        q.table.applyTransition linkId tr now = .ok (found, q'.table)) ∨ q'.table = q.table) := by
  cases c with
  | applyTransition linkId tr now =>
    simp only [Answers] at h
    split at h
    · rename_i found table hok
      obtain ⟨-, rfl⟩ := h
      exact ⟨fun _ ho => ho, .inl ⟨linkId, tr, now, found, rfl, hok⟩⟩
    · rw [h.2]
      exact ⟨fun _ ho => ho, .inr rfl⟩
  | register collection manifest userId =>
    obtain ⟨-, rfl⟩ := h
    split
    · exact ⟨fun _ ho => List.mem_cons_of_mem _ ho, .inr rfl⟩
    · exact ⟨fun _ ho => ho, .inr rfl⟩
  | rekey ragFileId target userId =>
    obtain ⟨-, rfl⟩ := h
    split
    · exact ⟨fun _ ho => List.mem_cons_of_mem _ ho, .inr rfl⟩
    · exact ⟨fun _ ho => ho, .inr rfl⟩
  | _ =>
    rw [h.2]
    exact ⟨fun _ ho => ho, .inr rfl⟩

theorem received_mono (hsub : ∀ object ∈ q.received, object ∈ q'.received)
    (h : m.Received q) : m.Received q' := by
  cases m with
  | removed ragFileId => exact h
  | changed s3Key contentSha256 =>
    obtain ⟨object, hmem, heq⟩ := h
    exact ⟨object, hsub object hmem, heq⟩

/-- A write that leaves the request in the row. -/
def Mark.Harmless : Mark → Transition → Prop
  | .removed _, tr => tr.ragFileId = none ∧
    (tr.state = none ∨ tr.state = some .removed ∨ tr.state = some .failed)
  | .changed .., tr => (tr.state = none ∨ tr.state = some .reindexPending) ∧
    tr.s3Key = none ∧ tr.contentSha256 = none ∧ tr.contentType = none

theorem carried_apply {tr : Transition} {row : IndexLink} (htr : m.Harmless tr)
    (h : m.Carried row) : m.Carried (tr.apply now row) := by
  cases m with
  | removed ragFileId =>
    obtain ⟨hstate, hrag⟩ := h
    obtain ⟨htrag, htstate⟩ := htr
    constructor
    · rcases htstate with ht | ht | ht <;> simp [Transition.apply, Transition.assign, ht, hstate]
    · simp [Transition.apply, Transition.assign, htrag, hrag]
  | changed s3Key contentSha256 =>
    obtain ⟨⟨hstate, hkey, hsha⟩, htype⟩ := h
    obtain ⟨htstate, htkey, htsha, httype⟩ := htr
    refine ⟨⟨?_, ?_, ?_⟩, ?_⟩
    · rcases htstate with ht | ht <;> simp [Transition.apply, Transition.assign, ht, hstate]
    · simp [Transition.apply, Transition.assign, htkey, hkey]
    · simp [Transition.apply, Transition.assign, htsha, hsha]
    · simpa [Transition.apply, Transition.assign, registerCollection, httype] using htype

/-- A command keeps the request open unless it is a write that could lose it. -/
theorem open_answers {c : SyncCmd} {x : Except Exc c.Resp}
    (hc : ∀ tr now, c = .applyTransition linkId tr now → m.Received q ∨ m.Harmless tr)
    (h : Answers serve c q x q') (hq : Open linkId m q) : Open linkId m q' := by
  obtain ⟨hsub, htable⟩ := answers_queue h
  rcases hq with hr | ⟨row, hrow, hcar⟩
  · exact .inl (received_mono hsub hr)
  rcases htable with ⟨id, tr, now, found, rfl, hok⟩ | htable
  · by_cases hid : linkId = id
    · subst hid
      rcases hc tr now rfl with hr | htr
      · exact .inl (received_mono hsub hr)
      · refine .inr ⟨tr.apply now row, ?_, carried_apply htr hcar⟩
        rw [LinkTable.applyTransition_get hok, if_pos rfl, hrow]
        rfl
    · refine .inr ⟨row, ?_, hcar⟩
      rw [LinkTable.applyTransition_get hok, if_neg hid, hrow]
  · exact .inr ⟨row, htable ▸ hrow, hcar⟩

/-- The weakest precondition of a notification's program next to the others. -/
abbrev Safe (serve : (c : SyncCmd) → Except Exc c.Resp → Prop) (linkId : Uuid) (m : Mark)
    {α : Type} (p : Sync α) (Q : Except Exc α → Queue → Prop) (q : Queue) : Prop :=
  wp ((Answers serve).interfered (Rely linkId m)) (Open linkId m) p Q q

section
variable {α β : Type}

theorem safe_of_all {P : SyncCmd → Prop} {R : (c : SyncCmd) → c.Resp → Prop} {p : Sync α}
    (hp : p.All P R) (hq : Open linkId m q)
    (hR : ∀ c q x q', P c → Answers serve c q x q' → ∀ a, x = .ok a → R c a)
    (hP : ∀ tr now, P (.applyTransition linkId tr now) → m.Harmless tr) :
    Safe serve linkId m p (fun _ _ => True) q := by
  refine wp_mono (wp_of_all hp hq ?_) fun _ _ _ _ => trivial
  rintro c s x t hc - ⟨s', hs', ht⟩
  refine ⟨open_answers ?_ ht hs'.1, hR c s' x t hc ht⟩
  rintro tr now rfl
  exact .inr (hP tr now hc)

/-- Once RAG has the object, nothing the program does can lose it. -/
theorem safe_received (p : Sync α) (h : m.Received q) :
    Safe serve linkId m p (fun _ q' => m.Received q') q := by
  induction p generalizing q with
  | done r => exact ⟨.inl h, h⟩
  | call c k ih =>
    refine ⟨.inl h, ?_⟩
    rintro x t ⟨s', hs', ht⟩
    exact ih x (received_mono (answers_queue ht).1 (hs'.2 h))

theorem answers_own {c : SyncCmd} {x : Except Exc c.Resp} (h : Answers serve c q x q')
    (a : c.Resp) (hx : x = .ok a) : c.Own a := by
  cases c with
  | applyTransition id tr now =>
    simp only [Answers] at h
    split at h
    · rename_i found table hok
      obtain ⟨rfl, -⟩ := h
      cases hx
      rintro row rfl
      obtain ⟨model, hg, rfl⟩ := LinkTable.applyTransition_own hok
      exact (LinkTable.get_some hg).2
    · obtain ⟨rfl, -⟩ := h
      cases hx
  | _ => trivial

/-- The work on another link leaves the request open. -/
theorem safe_other {p : Sync α} {other : Uuid} (hp : Stays other p) (hne : other ≠ linkId)
    (hq : Open linkId m q) : Safe serve linkId m p (fun _ _ => True) q :=
  safe_of_all hp hq (fun _ _ _ _ _ h => answers_own h) fun _ _ ht => absurd ht.symm hne

theorem safe_attempt {c : SyncCmd} {f : Except Exc c.Resp → Sync α}
    {Q : Except Exc α → Queue → Prop} (hc : ∀ tr now, c ≠ .applyTransition linkId tr now)
    (hq : Open linkId m q) (hf : ∀ x s t, Answers serve c s x t → Open linkId m t →
      Safe serve linkId m (f x) Q t) : Safe serve linkId m ((send c).attempt.bind f) Q q := by
  refine ⟨hq, ?_⟩
  rintro x t ⟨s, hs, ht⟩
  exact hf x s t ht (open_answers (fun tr now he => absurd he (hc tr now)) ht hs.1)

/-- After an exception other than an answer of RAG the processing writes nothing that could lose
the request. -/
def Calm (m : Mark) (r : Except Exc α) (q : Queue) : Prop :=
  ∀ statusCode errorCode file, r = .error (.ragHttp statusCode errorCode file) → m.Received q

theorem safe_calm {p : Sync α} (h : m.Received q) : Safe serve linkId m p (Calm m) q :=
  wp_mono (safe_received p h) fun _ _ _ hr _ _ _ _ => hr

theorem safe_write {tr : Transition} {f : Option IndexLink → Sync α} (hid : link.id = linkId)
    (htr : m.Harmless tr) (hq : Open linkId m q)
    (hf : ∀ found t, Open linkId m t →
      (∀ row, found = some row → row.id = linkId ∧ (m.Received t ∨ m.Carried row)) →
      Safe serve linkId m (f found) (Calm m) t) :
    Safe serve linkId m ((write link now tr).bind f) (Calm m) q := by
  refine ⟨hq, ?_⟩
  rintro x t ⟨s, hs, ht⟩
  have hopen : Open linkId m t := by
    refine open_answers ?_ ht hs.1
    intro tr' now' he
    cases he
    exact .inr htr
  have hsub := (answers_queue ht).1
  simp only [Answers] at ht
  split at ht
  · rename_i found table hok
    obtain ⟨rfl, rfl⟩ := ht
    refine hf found _ hopen ?_
    rintro row rfl
    obtain ⟨model, hg, rfl⟩ := LinkTable.applyTransition_own hok
    rw [hid] at hg
    refine ⟨(LinkTable.get_some hg).2, ?_⟩
    rcases hs.1 with hr | ⟨row, hrow, hcar⟩
    · exact .inl (received_mono hsub hr)
    · rw [hg] at hrow
      cases hrow
      exact .inr (carried_apply htr hcar)
  · rename_i e hok
    obtain ⟨rfl, -⟩ := ht
    refine ⟨hopen, ?_⟩
    intro statusCode errorCode file he
    cases he
    rcases LinkTable.applyTransition_error hok with h | h <;> cases h

end

section
variable {s3Key : Str} {contentSha256 : Option Digest}

/-- An object that can be read has the wanted hash, as far as one is known. -/
def Located (contentSha256 : Option Digest) : Except Exc (Outcome ⊕ (Digest × Nat)) → Prop
  | .ok (.inl _) => False
  | .ok (.inr (digest, _)) => contentSha256 = none ∨ contentSha256 = some digest
  | .error e => e = .other

def Prepared (s3Key : Str) (contentSha256 : Option Digest) :
    Except Exc (Outcome ⊕ RagManifest) → Prop
  | .ok (.inl _) => False
  | .ok (.inr prepared) => prepared.s3Key = s3Key ∧
    (contentSha256 = none ∨ contentSha256 = some prepared.contentSha256)
  | .error e => e = .other

variable (hserve : ∀ c x, serve c x → Served c x)
include hserve

theorem safe_locate (hq : Open linkId m q) :
    Safe serve linkId m (locate job link now) (fun r _ => Located link.contentSha256 r) q := by
  unfold locate
  split
  · rename_i hnone
    have hpresent : Safe serve linkId m (objectPresent link)
        (fun r _ => r = .ok true ∨ r = .error .other) q := by
      refine wp_catchWith ⟨hq, ?_⟩
      rintro x t ⟨s, hs, ht⟩
      have hopen : Open linkId m t := open_answers (fun _ _ he => by cases he) ht hs.1
      rcases hserve _ _ ht.1 with rfl | rfl
      · exact ⟨hopen, .inl rfl⟩
      · exact ⟨hopen, hopen, .inr rfl⟩
    simp only [readObjectHash, bind_eq, pure_eq]
    rw [Safe, wp_bind]
    refine wp_mono hpresent ?_
    rintro r t ht (rfl | rfl)
    · refine safe_attempt (fun _ _ he => by cases he) ht fun x s u hu hopen => ?_
      rcases hserve _ _ hu.1 with ⟨payload, rfl⟩ | rfl
      · exact ⟨hopen, .inl hnone⟩
      · exact ⟨hopen, rfl⟩
    · rfl
  · rename_i digest hsome
    simp only [bind_eq, pure_eq]
    refine safe_attempt (fun _ _ he => by cases he) hq fun x s t ht hopen => ?_
    rcases hserve _ _ ht.1 with ⟨size, rfl⟩ | rfl
    · exact ⟨hopen, .inr hsome⟩
    · exact ⟨hopen, rfl⟩

theorem safe_manifest (hq : Open linkId m q) : Safe serve linkId m (manifest job link now)
    (fun r _ => Prepared link.s3Key link.contentSha256 r) q := by
  simp only [manifest, bind_eq, pure_eq]
  rw [Safe, wp_bind]
  refine wp_mono (safe_locate hserve hq) ?_
  rintro (e | outcome | ⟨digest, size⟩) t ht hloc
  · exact hloc
  · exact hloc.elim
  · have hname : Safe serve linkId m (displayName link)
        (fun r _ => ∀ e, r = .error e → e = .other) t := by
      unfold displayName
      split
      · exact ⟨ht, fun e he => by cases he⟩
      · refine ⟨ht, ?_⟩
        rintro x u ⟨s, hs, hu⟩
        refine ⟨open_answers (fun _ _ he => by cases he) hu hs.1, ?_⟩
        rcases hserve _ _ hu.1 with ⟨name, rfl⟩ | rfl
        · exact fun e he => by cases he
        · exact fun e he => by
            cases he
            rfl
    dsimp only
    rw [wp_bind]
    refine wp_mono hname ?_
    rintro (e | name) u hu he
    · exact he e rfl
    · exact ⟨hu, rfl, hloc⟩

theorem safe_register (hq : Open linkId (.changed s3Key contentSha256) q)
    (hcar : (Mark.changed s3Key contentSha256).Carried link) :
    Safe serve linkId (.changed s3Key contentSha256) (register job link now)
      (Calm (.changed s3Key contentSha256)) q := by
  obtain ⟨⟨-, rfl, rfl⟩, htype⟩ := hcar
  unfold register
  split
  · rename_i hnone
    exact absurd hnone htype
  · rename_i collection hcollection
    simp only [bind_eq, pure_eq]
    rw [Safe, wp_bind]
    refine wp_mono (safe_manifest hserve hq) ?_
    rintro (e | outcome | prepared) t ht hprep
    · rintro statusCode errorCode file he
      cases he
      cases hprep
    · exact hprep.elim
    · refine safe_attempt (fun _ _ he => by cases he) ht fun x s u hu hopen => ?_
      obtain ⟨hx, rfl⟩ := hu
      have htook : ∀ q : Queue, (Mark.changed link.s3Key link.contentSha256).Received
          { q with received := (prepared.s3Key, prepared.contentSha256) :: q.received } :=
        fun q => ⟨_, List.mem_cons_self, hprep⟩
      rcases hserve _ _ hx with ⟨card, rfl⟩ | ⟨file, rfl⟩ | ⟨code, rfl⟩ | rfl
      · exact safe_calm (htook s)
      · exact safe_calm (htook s)
      · exact ⟨hopen, fun _ _ _ he => by cases he⟩
      · exact ⟨hopen, fun _ _ _ he => by cases he⟩

theorem safe_reindex (hid : link.id = linkId)
    (hq : Open linkId (.changed s3Key contentSha256) q)
    (hcar : (Mark.changed s3Key contentSha256).Carried link) :
    Safe serve linkId (.changed s3Key contentSha256) (reindex job link now)
      (Calm (.changed s3Key contentSha256)) q := by
  unfold reindex
  split
  · exact safe_register hserve hq hcar
  rename_i ragFileId hrag
  have hdelete : Safe serve linkId (.changed s3Key contentSha256) (deleteVectors job link now)
      (fun r _ => r = .ok none ∨ ∃ e, r = .error e ∧
        ∀ statusCode errorCode file, e ≠ .ragHttp statusCode errorCode file) q := by
    simp only [deleteVectors, hrag, bind_eq, pure_eq]
    refine safe_attempt (fun _ _ he => by cases he) hq fun x s t ht hopen => ?_
    rcases hserve _ _ ht.1 with rfl | ⟨statusCode, errorCode, file, hgone, rfl⟩ | ⟨code, rfl⟩ | rfl
    · exact ⟨hopen, .inl rfl⟩
    · simp only [hgone, if_true]
      exact ⟨hopen, .inl rfl⟩
    · exact ⟨hopen, .inr ⟨_, rfl, fun _ _ _ he => by cases he⟩⟩
    · exact ⟨hopen, .inr ⟨_, rfl, fun _ _ _ he => by cases he⟩⟩
  simp only [bind_eq, pure_eq]
  rw [Safe, wp_bind]
  refine wp_mono hdelete ?_
  rintro r t ht (rfl | ⟨e, rfl, he⟩)
  · refine safe_write hid ⟨.inl rfl, rfl, rfl, rfl⟩ ht fun found u hu hfound => ?_
    cases found with
    | none => exact ⟨hu, fun _ _ _ he => by cases he⟩
    | some cleared =>
      rcases (hfound cleared rfl).2 with hr | hcleared
      · exact safe_calm hr
      · exact safe_register hserve hu hcleared
  · intro statusCode errorCode file heq
    cases heq
    exact absurd rfl (he statusCode errorCode file)

theorem safe_rekey (hid : link.id = linkId)
    (hq : Open linkId (.changed s3Key contentSha256) q)
    (hcar : (Mark.changed s3Key contentSha256).Carried link) :
    Safe serve linkId (.changed s3Key contentSha256) (rekey job link now)
      (Calm (.changed s3Key contentSha256)) q := by
  unfold rekey
  split
  · exact safe_register hserve hq hcar
  obtain ⟨⟨-, rfl, rfl⟩, -⟩ := hcar
  simp only [bind_eq, pure_eq]
  rw [Safe, wp_bind]
  refine wp_mono (safe_locate hserve hq) ?_
  rintro (e | outcome | ⟨digest, size⟩) t ht hloc
  · rintro statusCode errorCode file he
    cases he
    cases hloc
  · exact hloc.elim
  · refine safe_attempt (fun _ _ he => by cases he) ht fun x s u hu hopen => ?_
    obtain ⟨hx, rfl⟩ := hu
    rcases hserve _ _ hx with ⟨card, rfl⟩ | ⟨file, rfl⟩ | ⟨code, rfl⟩ | rfl
    · exact safe_calm ⟨_, List.mem_cons_self, rfl, hloc⟩
    · -- RAG has other bytes under the old key: the row goes back to a full registration
      simp only [onRekeyHttp, true_and, if_true, bind_eq, pure_eq]
      refine safe_write hid ⟨.inr rfl, rfl, rfl, rfl⟩ hopen fun found w hw hfound => ?_
      cases found with
      | none => exact ⟨hw, fun _ _ _ he => by cases he⟩
      | some updated =>
        obtain ⟨hown, hr | hupdated⟩ := hfound updated rfl
        · exact safe_calm hr
        · exact safe_reindex hserve hown hw hupdated
    · exact ⟨hopen, fun _ _ _ he => by cases he⟩
    · exact ⟨hopen, fun _ _ _ he => by cases he⟩

theorem safe_dispatch (hid : link.id = linkId)
    (hq : Open linkId (.changed s3Key contentSha256) q)
    (hcar : (Mark.changed s3Key contentSha256).Carried link) :
    Safe serve linkId (.changed s3Key contentSha256) (dispatch job link now)
      (Calm (.changed s3Key contentSha256)) q := by
  rcases hcar.1.1 with hstate | hstate <;> simp only [dispatch, hstate]
  · split
    · exact safe_rekey hserve hid hq hcar
    · exact safe_register hserve hq hcar
  · exact safe_reindex hserve hid hq hcar

/-- A notification of changed content or of a changed key. -/
theorem safe_changed (hid : link.id = linkId)
    (hq : Open linkId (.changed s3Key contentSha256) q)
    (hready : (Mark.changed s3Key contentSha256).Ready job link) :
    Safe serve linkId (.changed s3Key contentSha256) (process job link now)
      (fun _ _ => True) q := by
  obtain ⟨hcar, hattempts⟩ := hready
  have hinner : Safe serve linkId (.changed s3Key contentSha256)
      ((dispatch job link now).catchWith (onProcessError job link now))
      (Calm (.changed s3Key contentSha256)) q := by
    refine wp_catchWith (wp_mono (safe_dispatch hserve hid hq hcar) ?_)
    rintro (e | outcome) t ht hcalm
    · cases e with
      | ragHttp statusCode errorCode file => exact safe_calm (hcalm _ _ _ rfl)
      | ragUnavailable code =>
        -- an attempt is left, so only the schedule is written
        have hleft : ¬ job.maxAttempts ≤ ((link.attempts + 1 : Nat) : Int) := by
          push_cast
          exact Int.not_le.2 hattempts
        simp only [onProcessError, scheduleRetry, if_neg hleft]
        refine safe_write (m := .changed s3Key contentSha256) hid ⟨.inl rfl, rfl, rfl, rfl⟩ ht fun _ u hu _ => ?_
        exact ⟨hu, fun _ _ _ he => by cases he⟩
      | _ => exact ⟨ht, fun _ _ _ he => by cases he⟩
    · exact hcalm
  refine wp_catchWith (wp_mono hinner ?_)
  rintro (e | outcome) t ht -
  · exact ⟨ht, trivial⟩
  · trivial

end

/-- A notification of a removal. -/
theorem safe_removed {ragFileId : Option Uuid} (hid : link.id = linkId)
    (hq : Open linkId (.removed ragFileId) q) (hready : link.state = .removed) :
    Safe serve linkId (.removed ragFileId) (process job link now) (fun _ _ => True) q := by
  subst hid
  refine safe_of_all (retires_process (R := fun _ _ => True) (.inl rfl) hready) hq ?_ ?_
  · exact fun _ _ _ _ _ _ _ _ => trivial
  · exact fun _ _ h => ⟨h.2.1, h.2.2⟩

/-- The requests that are accounted for: removals always, changes where the answers and the rows
let the work go on. -/
def Mark.Covered (strict : Prop) : Mark → Prop
  | .removed _ => True
  | .changed .. => strict

section
variable {strict : Prop} (hserve : strict → ∀ c x, serve c x → Served c x)

include hserve in
theorem safe_process (hm : m.Covered strict) (hq : Open linkId m q)
    (hready : link.id = linkId → m.Received q ∨ m.Ready job link) :
    Safe serve linkId m (process job link now) (fun _ _ => True) q := by
  by_cases hid : link.id = linkId
  · rcases hready hid with hr | hready
    · exact wp_mono (safe_received _ hr) fun _ _ _ _ => trivial
    · cases m with
      | removed ragFileId => exact safe_removed hid hq hready
      | changed s3Key contentSha256 => exact safe_changed (hserve hm) hid hq hready
  · exact safe_other (stays_process job link now) hid hq

include hserve in
theorem safe_processAll (hm : m.Covered strict) {links : List IndexLink}
    (hq : Open linkId m q) (hready : ∀ link ∈ links, link.id = linkId → m.Ready job link) :
    Safe serve linkId m (processAll job now links) (fun _ _ => True) q := by
  induction links generalizing q with
  | nil => exact ⟨hq, trivial⟩
  | cons link rest ih =>
    simp only [processAll, bind_eq, pure_eq]
    rw [Safe, wp_bind]
    have hfirst := hready link List.mem_cons_self
    refine wp_mono (safe_process hserve hm hq fun hid => .inr (hfirst hid)) ?_
    rintro (e | outcome) t ht -
    · trivial
    dsimp only
    rw [wp_bind]
    refine wp_mono (ih ht fun l hl => hready l (List.mem_cons_of_mem _ hl)) ?_
    rintro (e | outcomes) u hu -
    · trivial
    · exact ⟨hu, trivial⟩

/-- The watched row as it is loaded. -/
theorem ready_of_get (hm : m.Covered strict) (hq : Open linkId m q)
    (hget : q.table.get linkId = some link) (hfailed : link.state ≠ .failed)
    (hpatient : strict → link.state = .pending ∨ link.state = .reindexPending →
      link.attempts + 1 < job.maxAttempts) : m.Received q ∨ m.Ready job link := by
  rcases hq with hr | ⟨row, hrow, hcar⟩
  · exact .inl hr
  · rw [hget] at hrow
    cases hrow
    right
    cases m with
    | removed ragFileId => exact hcar.1.resolve_right hfailed
    | changed s3Key contentSha256 => exact ⟨hcar, hpatient hm hcar.1.1⟩

/-- A notification that keeps the request open on its own keeps it open next to others. -/
theorem safe_alone {α : Type} {p : Sync α} {Q : Except Exc α → Queue → Prop}
    (h : Safe serve linkId m p Q q) : wp (Answers serve) (Open linkId m) p Q q :=
  wp_handler h fun _ s _ _ hs ht => ⟨s, ⟨hs, id⟩, ht⟩

include hserve in
theorem open_tick (hm : m.Covered strict) (hq : Open linkId m q)
    (hpatient : strict → ∀ row, q.table.get linkId = some row →
      row.state = .pending ∨ row.state = .reindexPending → row.attempts + 1 < job.maxAttempts) :
    wp (Answers serve) (Open linkId m) (job.run now) (fun _ _ => True) q := by
  unfold IndexSyncJob.run
  split
  · exact ⟨hq, trivial⟩
  simp only [bind_eq, pure_eq]
  rw [wp_bind, send, wp_issue]
  refine ⟨hq, ?_⟩
  rintro x t ⟨hx, rfl⟩
  refine ⟨hq, ?_⟩
  cases x with
  | error e => trivial
  | ok claimed =>
    dsimp only
    rw [wp_bind]
    by_cases hr : m.Received t
    · refine wp_mono (safe_alone (safe_received _ hr)) ?_
      rintro (e | outcomes) u hu -
      · trivial
      · exact ⟨hu, trivial⟩
    · have hready : ∀ link ∈ claimed, link.id = linkId → m.Ready job link := by
        rintro link hlink rfl
        obtain ⟨hmem, hdue⟩ := (LinkTable.claimDue_spec hx.symm).2 link hlink
        have hget := LinkTable.get_of_mem hmem
        refine (ready_of_get hm hq hget ?_ fun hs => hpatient hs link hget).resolve_left hr
        intro hfailed
        simp [LinkTable.isDue, IndexLinkState.due, hfailed] at hdue
      refine wp_mono (safe_alone (safe_processAll hserve hm hq hready)) ?_
      rintro (e | outcomes) u hu -
      · trivial
      · exact ⟨hu, trivial⟩

end

/-- The watched row of a queue. -/
def InQueue (v : Watched) (q : Queue) : Prop :=
  ∃ row, q.table.get v.linkId = some row ∧ row.fileRecordId = some v.fileRecordId

theorem inQueue_answers {c : SyncCmd} {x : Except Exc c.Resp} (h : Answers serve c q x q')
    (hq : InQueue v q) : InQueue v q' := by
  obtain ⟨row, hrow, hfile⟩ := hq
  rcases (answers_queue h).2 with ⟨id, tr, now, found, -, hok⟩ | htable
  · have hget := LinkTable.applyTransition_get hok v.linkId
    split at hget
    · exact ⟨tr.apply now row, by rw [hget, hrow]; rfl, hfile⟩
    · exact ⟨row, hget.trans hrow, hfile⟩
  · exact ⟨row, htable ▸ hrow, hfile⟩

structure Inv (serve : (c : SyncCmd) → Except Exc c.Resp → Prop) (v : Watched) (strict : Prop)
    (w : World) : Prop where
  watched : InQueue v w.queue
  stays : ∀ n ∈ w.running, Stays n.linkId n.rest
  kept : ∀ m, w.mark = some m → m.Covered strict → Open v.linkId m w.queue ∧
    ∀ n ∈ w.running, n.linkId = v.linkId →
      Safe serve v.linkId m n.rest (fun _ _ => True) w.queue

section
variable {strict : Prop} {w : World}

/-- The queue moves on and the notifications wait. -/
theorem inv_queue (h : Inv serve v strict w) (hwatched : InQueue v q)
    (hrely : ∀ m, w.mark = some m → m.Covered strict → Open v.linkId m w.queue →
      Rely v.linkId m w.queue q) : Inv serve v strict { w with queue := q } where
  watched := hwatched
  stays := h.stays
  kept := by
    intro m hm hcov
    obtain ⟨hopen, hsafe⟩ := h.kept m hm hcov
    have hr := hrely m hm hcov hopen
    exact ⟨hr.1, fun n hn hid =>
      wp_stable (hsafe n hn hid) hr hr.1 (fun _ _ _ => Rely.trans) fun _ _ => trivial⟩

/-- A request on the watched link finds no notification at work. -/
theorem inv_requested (h : Inv serve v strict w) {table : LinkTable} {row : IndexLink}
    (hfinished : ∀ n ∈ w.running, n.linkId = v.linkId → n.Finished)
    (hget : table.get v.linkId = some row) (hfile : row.fileRecordId = some v.fileRecordId)
    (hcar : m.Covered strict → m.Carried row) :
    Inv serve v strict (w.requested table m) where
  watched := ⟨row, hget, hfile⟩
  stays := h.stays
  kept := by
    intro m' hm' hcov
    cases hm'
    have hopen : Open v.linkId m ⟨table, []⟩ := .inr ⟨row, hget, hcar hcov⟩
    refine ⟨hopen, fun n hn hid => ?_⟩
    obtain ⟨r, hr⟩ := hfinished n hn hid
    rw [hr]
    exact ⟨hopen, trivial⟩

/-- A request elsewhere leaves the watched row alone. -/
theorem inv_elsewhere (h : Inv serve v strict w) {table : LinkTable}
    (hget : table.get v.linkId = w.queue.table.get v.linkId) :
    Inv serve v strict (w.elsewhere table) := by
  have hwatched : InQueue v { w.queue with table := table } := by
    obtain ⟨row, hrow, hfile⟩ := h.watched
    exact ⟨row, hget.trans hrow, hfile⟩
  have hreceived : ∀ m : Mark, m.Received w.queue →
      m.Received { w.queue with table := table } :=
    fun m => received_mono fun _ ho => ho
  refine inv_queue h hwatched fun m _ _ hopen => ⟨?_, hreceived m⟩
  rcases hopen with hr | ⟨row, hrow, hcar⟩
  · exact .inl (hreceived m hr)
  · exact .inr ⟨row, hget.trans hrow, hcar⟩

theorem elsewhere_ne {t : LinkTable} {row other : IndexLink} {id : Uuid}
    (hrow : t.get v.linkId = some row) (hfile : row.fileRecordId = some v.fileRecordId)
    (hother : t.byFileRecordId id = some other) (heq : v.linkId = other.id) :
    id = v.fileRecordId := by
  obtain ⟨hmem, hof⟩ := LinkTable.byFileRecordId_some hother
  obtain ⟨hrmem, hrid⟩ := LinkTable.get_some hrow
  have hsame := LinkTable.eq_of_id hrmem hmem (hrid.trans heq)
  rw [← hsame, hfile] at hof
  exact (Option.some.inj hof).symm

/-- The row that carries a request for new content. -/
theorem carried_contentChanged {row : IndexLink} {decision : RegistrationDecision}
    (htype : collectionFor decision.contentType ≠ none) :
    (Mark.changed decision.s3Key decision.contentSha256).Carried
      ((LinkTable.contentChangedTransition row.ragFileId decision).apply now row) := by
  refine ⟨⟨?_, rfl, rfl⟩, htype⟩
  cases hrag : row.ragFileId with
  | none => exact .inl (by simp [Transition.apply, Transition.assign, LinkTable.contentChangedTransition])
  | some ragFileId =>
    exact .inr (by simp [Transition.apply, Transition.assign, LinkTable.contentChangedTransition])

theorem inv_step (hserve : strict → ∀ c x, serve c x → Served c x) {e : Event} {w' : World}
    (h : Inv serve v strict w) (hfree : RaceFree v w e) (hpatient : strict → Patient job v w e)
    (hstep : Step job serve v w e w') : Inv serve v strict w' := by
  obtain ⟨row, hrow, hfile⟩ := h.watched
  obtain ⟨hmem, hid⟩ := LinkTable.get_some hrow
  have hby : w.queue.table.byFileRecordId v.fileRecordId = some row :=
    LinkTable.byFileRecordId_eq hmem hfile
  cases hstep with
  | @load id now link hlink hnotify =>
    refine ⟨h.watched, ?_, ?_⟩
    · intro n hn
      rcases List.mem_cons.1 hn with rfl | hn
      · exact stays_process job link now
      · exact h.stays n hn
    · intro m hm hcov
      obtain ⟨hopen, hsafe⟩ := h.kept m hm hcov
      refine ⟨hopen, fun n hn hown => ?_⟩
      rcases List.mem_cons.1 hn with rfl | hn
      · refine safe_process hserve hcov hopen fun hown => ?_
        have hget := LinkTable.get_of_mem (LinkTable.byFileRecordId_some hlink).1
        rw [hown] at hget
        refine ready_of_get hcov hopen hget ?_ fun hs => hpatient hs link hget
        intro hfailed
        simp [shouldNotify, hfailed] at hnotify
      · exact hsafe n hn hown
  | @resume i linkId c k x q hrun hx =>
    have hin : (⟨linkId, call c k⟩ : Notification) ∈ w.running := List.mem_of_getElem? hrun
    have hstays := h.stays _ hin
    refine ⟨inQueue_answers hx h.watched, ?_, ?_⟩
    · intro n hn
      rcases List.mem_or_eq_of_mem_set hn with hn | rfl
      · exact h.stays n hn
      · exact hstays.2 x (answers_own hx)
    · intro m hm hcov
      obtain ⟨hopen, hsafe⟩ := h.kept m hm hcov
      have hreceived := received_mono (m := m) (answers_queue hx).1
      have hnext : linkId = v.linkId →
          Safe serve v.linkId m (k x) (fun _ _ => True) q := fun hown =>
        (hsafe _ hin hown).2 x q ⟨w.queue, ⟨hopen, id⟩, hx⟩
      have hopen' : Open v.linkId m q := by
        by_cases hown : linkId = v.linkId
        · exact wp_inv (hnext hown)
        · refine open_answers ?_ hx hopen
          rintro tr now rfl
          exact absurd hstays.1.symm hown
      refine ⟨hopen', fun n hn hown => ?_⟩
      rcases List.mem_or_eq_of_mem_set hn with hn | rfl
      · exact wp_stable (hsafe n hn hown) ⟨hopen', hreceived⟩ hopen'
          (fun _ _ _ => Rely.trans) fun _ _ => trivial
      · exact hnext hown
  | leave =>
    refine ⟨h.watched, fun n hn => h.stays n (List.mem_of_mem_eraseIdx hn), ?_⟩
    intro m hm hcov
    obtain ⟨hopen, hsafe⟩ := h.kept m hm hcov
    exact ⟨hopen, fun n hn => hsafe n (List.mem_of_mem_eraseIdx hn)⟩
  | @tick now result q hexec =>
    have hsub : ∀ object ∈ w.queue.received, object ∈ q.received :=
      exec_invariant (J := fun q => ∀ object ∈ w.queue.received, object ∈ q.received)
        (fun _ _ _ _ hJ hc o ho => (answers_queue hc).1 o (hJ o ho)) hexec fun _ ho => ho
    have hwatched : InQueue v q :=
      exec_invariant (J := InQueue v) (fun _ _ _ _ hJ hc => inQueue_answers hc hJ) hexec
        h.watched
    refine inv_queue h hwatched fun m hm hcov hopen => ⟨?_, received_mono hsub⟩
    exact (wp_sound (open_tick hserve hcov hopen hpatient) hexec).1
  | @tickRolledBack now q hreach =>
    have hsub : ∀ object ∈ w.queue.received, object ∈ q.received :=
      reaches_invariant (J := fun q => ∀ object ∈ w.queue.received, object ∈ q.received)
        (fun _ _ _ _ hJ hc o ho => (answers_queue hc).1 o (hJ o ho)) hreach fun _ ho => ho
    refine inv_queue h h.watched fun m hm hcov hopen => ?_
    have hreceived : m.Received w.queue → m.Received ⟨w.queue.table, q.received⟩ :=
      received_mono hsub
    refine ⟨?_, hreceived⟩
    rcases hopen with hr | hopen
    · exact .inl (hreceived hr)
    · exact .inr hopen
  | @removed ids now links table row' htable hids _ hrow' =>
    rw [hrow] at hrow'
    cases hrow'
    have hget := LinkTable.markRemoved_get htable hby
    rw [hid, if_pos hids] at hget
    exact inv_requested h (hfree hids) hget hfile fun _ => ⟨.inl rfl, rfl⟩
  | @removedElsewhere ids now links table htable hids =>
    have hget := LinkTable.markRemoved_get htable hby
    rw [hid, if_neg hids] at hget
    exact inv_elsewhere h (hget.trans hrow.symm)
  | @contentChanged decision now link table htable _ =>
    have hget := LinkTable.markContentChanged_get hby htable v.linkId
    rw [if_pos hid.symm] at hget
    exact inv_requested h (hfree rfl) hget hfile fun hs =>
      carried_contentChanged (hpatient hs rfl)
  | @contentChangedElsewhere id decision now link table htable hne =>
    refine inv_elsewhere h ?_
    cases hother : w.queue.table.byFileRecordId id with
    | none =>
      simp only [LinkTable.markContentChanged, hother] at htable
      cases htable
      rfl
    | some other =>
      rw [LinkTable.markContentChanged_get hother htable, if_neg]
      exact fun heq => hne (elsewhere_ne hrow hfile hother heq)
  | @rekey s3Key now link table row' htable _ hrow' =>
    rw [hrow] at hrow'
    cases hrow'
    obtain ⟨row', hget, hcases⟩ := LinkTable.markRekey_get hby htable
    have hget' := hget v.linkId
    rw [if_pos hid.symm] at hget'
    have hfile' : row'.fileRecordId = some v.fileRecordId := by
      rcases hcases with ⟨-, rfl | rfl⟩ | ⟨-, rfl⟩ <;> exact hfile
    refine inv_requested h (hfree rfl) hget' hfile' fun hs => ?_
    obtain ⟨htype, hwaits⟩ := hpatient hs rfl row hrow
    rcases hcases with ⟨hrag, rfl | rfl⟩ | ⟨hrag, rfl⟩
    · exact ⟨⟨hwaits.resolve_left (absurd hrag), rfl, rfl⟩, htype⟩
    · exact ⟨⟨hwaits.resolve_left (absurd hrag), rfl, rfl⟩, htype⟩
    · exact ⟨⟨.inl rfl, rfl, rfl⟩, htype⟩
  | @rekeyElsewhere id s3Key now link table htable hne =>
    refine inv_elsewhere h ?_
    cases hother : w.queue.table.byFileRecordId id with
    | none =>
      simp only [LinkTable.markRekey, hother] at htable
      cases htable
      rfl
    | some other =>
      obtain ⟨other', hget, -⟩ := LinkTable.markRekey_get hother htable
      rw [hget, if_neg]
      exact fun heq => hne (elsewhere_ne hrow hfile hother heq)

theorem inv_start (h : Start v w) : Inv serve v strict w := by
  refine ⟨h.watched, ?_, ?_⟩
  · rw [h.running]
    exact fun n hn => absurd hn List.not_mem_nil
  · rw [h.mark]
    exact fun m hm => by cases hm

theorem requestKept_of_inv (h : Inv serve v strict w) (hm : w.mark = some m)
    (hcov : m.Covered strict) : RequestKept v m w.queue := by
  rcases (h.kept m hm hcov).1 with hr | ⟨row, hrow, hcar⟩
  · exact .inl hr
  · refine .inr ⟨row, hrow, ?_⟩
    cases m with
    | removed ragFileId => exact hcar
    | changed s3Key contentSha256 => exact hcar.1

end

/-- Without a request on a link that is being notified, a removal is kept whatever the answers
are, and a change is kept as long as nobody gives the work up. -/
theorem request_kept {w₀ : World} (h : Start v w₀) :
    (∀ w, Steps (Step job Any v) (RaceFree v) w₀ w →
      ∀ ragFileId, w.mark = some (.removed ragFileId) →
        RequestKept v (.removed ragFileId) w.queue) ∧
    (∀ w, Steps (Step job Served v) (fun w e => RaceFree v w e ∧ Patient job v w e) w₀ w →
      ∀ m, w.mark = some m → RequestKept v m w.queue) := by
  constructor
  · intro w hsteps ragFileId hm
    have hinv : Inv Any v False w := hsteps.invariant (inv_start h) fun _ _ _ hinv hfree hstep =>
      inv_step False.elim hinv hfree False.elim hstep
    exact requestKept_of_inv hinv hm trivial
  · intro w hsteps m hm
    have hinv : Inv Served v True w := hsteps.invariant (inv_start h) fun _ _ _ hinv hok hstep =>
      inv_step (fun _ _ _ hx => hx) hinv hok.1 (fun _ => hok.2) hstep
    refine requestKept_of_inv hinv hm ?_
    cases m <;> trivial

/-- The queue's own answer, with the answers of the others given by `outside`. -/
def replyTo (outside : (c : SyncCmd) → Except Exc c.Resp) :
    (c : SyncCmd) → Queue → Except Exc c.Resp × Queue
  | .applyTransition linkId tr now, q =>
    match q.table.applyTransition linkId tr now with
    | .ok (found, table) => (.ok found, { q with table := table })
    | .error e => (.error e, q)
  | .claimDue limit now, q => (q.table.claimDue limit now, q)
  | .getByFileRecordId fileRecordId, q => (.ok (q.table.byFileRecordId fileRecordId), q)
  | .register collection manifest userId, q =>
    (outside (.register collection manifest userId),
      if tookRegistration (outside (.register collection manifest userId)) then
        { q with received := (manifest.s3Key, manifest.contentSha256) :: q.received } else q)
  | .rekey ragFileId target userId, q =>
    (outside (.rekey ragFileId target userId),
      if tookRekey (outside (.rekey ragFileId target userId)) then
        { q with received := (target.s3Key, target.contentSha256) :: q.received } else q)
  | c, q => (outside c, q)

theorem answers_replyTo {outside : (c : SyncCmd) → Except Exc c.Resp}
    (h : ∀ c, serve c (outside c)) (c : SyncCmd) (q : Queue) :
    Answers serve c q (replyTo outside c q).1 (replyTo outside c q).2 := by
  cases c with
  | applyTransition linkId tr now =>
    simp only [Answers, replyTo]
    cases q.table.applyTransition linkId tr now <;> exact ⟨rfl, rfl⟩
  | claimDue limit now => exact ⟨rfl, rfl⟩
  | getByFileRecordId fileRecordId => exact ⟨rfl, rfl⟩
  | _ => exact ⟨h _, rfl⟩

/-- The `i`-th notification goes on to its next command. -/
def World.resumed (outside : (c : SyncCmd) → Except Exc c.Resp) (i : Nat) (w : World) : World :=
  match w.running[i]? with
  | some ⟨linkId, .call c k⟩ =>
    { w with
      queue := (replyTo outside c w.queue).2
      running := w.running.set i ⟨linkId, k (replyTo outside c w.queue).1⟩ }
  | _ => w

theorem step_resumed {outside : (c : SyncCmd) → Except Exc c.Resp} {i : Nat} {w : World}
    {linkId : Uuid} {c : SyncCmd} {k : Except Exc c.Resp → Sync Outcome}
    (h : ∀ c, serve c (outside c)) (hrun : w.running[i]? = some ⟨linkId, .call c k⟩) :
    Step job serve v w (.resume i) (w.resumed outside i) := by
  have hstep : Step job serve v w (.resume i) _ := .resume hrun (answers_replyTo h c w.queue)
  simpa only [World.resumed, hrun] using hstep

def queuedLink : IndexLink where
  id := .ofDigit 1
  fileRecordId := some (.ofDigit 3)
  userId := .ofDigit 9
  fileSection := .files
  s3Key := "users/00000000-0000-0000-0000-000000000009/files/a.pdf".toList
  contentSha256 := some "e3b0c44298fc1c149afbf4c8996fb92427ae41e4649b934ca495991b7852b855"
  contentType := pdfContentType
  ragFileId := none
  state := .pending
  attempts := 0
  nextAttemptAt := none
  lastErrorCode := none
  createdAt := 0
  updatedAt := 0

def watchedLink : Watched := ⟨.ofDigit 1, .ofDigit 3⟩

def syncJob : IndexSyncJob := ⟨50, 8, 3600, fun _ => ""⟩

/-- The object can be read and RAG accepts it. -/
def accepting : (c : SyncCmd) → Except Exc c.Resp
  | .objectExists _ => .ok true
  | .objectSize _ => .ok 0
  | .originalName _ => .ok none
  | .register .. => .ok ⟨.ofDigit 5, "uploaded".toList, none⟩
  | _ => .error .other

theorem served_accepting (c : SyncCmd) : Served c (accepting c) := by
  cases c <;> simp [Served, accepting]

def quiet : World := ⟨⟨.one queuedLink, []⟩, [], none⟩

theorem start_quiet : Start watchedLink quiet := ⟨⟨queuedLink, rfl, rfl⟩, rfl, rfl⟩

/-- The upload's notification has loaded its row. -/
def loaded : World := { quiet with running := [⟨.ofDigit 1, syncJob.process queuedLink 0⟩] }

theorem step_loaded : Step syncJob serve watchedLink quiet (.load (.ofDigit 3) 0) loaded := by
  have hlink : quiet.queue.table.byFileRecordId (.ofDigit 3) = some queuedLink := rfl
  exact .load hlink rfl

/-- RAG has answered the upload's notification, which has not written its row yet. -/
def registered : World :=
  ((loaded.resumed accepting 0).resumed accepting 0).resumed accepting 0

theorem steps_registered {ok : World → Event → Prop} (hload : ok quiet (.load (.ofDigit 3) 0))
    (hresume : ∀ w, ok w (.resume 0)) (hserve : ∀ c, serve c (accepting c)) :
    Steps (Step syncJob serve watchedLink) ok quiet registered := by
  have h1 : Step syncJob serve watchedLink loaded (.resume 0) (loaded.resumed accepting 0) :=
    step_resumed hserve rfl
  have h2 : Step syncJob serve watchedLink (loaded.resumed accepting 0) (.resume 0)
      ((loaded.resumed accepting 0).resumed accepting 0) := step_resumed hserve rfl
  have h3 : Step syncJob serve watchedLink ((loaded.resumed accepting 0).resumed accepting 0)
      (.resume 0) registered := step_resumed hserve rfl
  exact .tail (.tail (.tail (.tail .refl hload step_loaded) (hresume _) h1) (hresume _) h2)
    (hresume _) h3

/-- The watched file is deleted: the row is marked and its RAG id, if any, stays. -/
def World.deleted (ragFileId : Option Uuid) (w : World) : World :=
  match w.queue.table.markRemoved [.ofDigit 3] 1000000 with
  | .ok (_, table) => w.requested table (.removed ragFileId)
  | .error _ => w

/-- The upload's notification ends before the file is deleted. -/
def notified : World := registered.resumed accepting 0

/-- The file is deleted while the answer of RAG is on its way. -/
def deletedEarly : World := registered.deleted none

def removedLink : IndexLink := LinkTable.removedTransition.apply 1000000 queuedLink

/-- The deletion's own notification finds no RAG id and settles the removal; then the upload's
notification writes what it computed from the row it had loaded. -/
def settling : World :=
  { deletedEarly with
    running := ⟨.ofDigit 1, syncJob.process removedLink 1000000⟩ :: deletedEarly.running }

def resurrected : World := (settling.resumed accepting 0).resumed accepting 1

/-- A deletion during the notification of the upload is lost: the row ends as `SUBMITTED`. -/
theorem deletion_lost : Start watchedLink quiet ∧
    Steps (Step syncJob Served watchedLink) (fun _ _ => True) quiet resurrected ∧
    (∀ n ∈ resurrected.running, n.Finished) ∧ resurrected.mark = some (.removed none) ∧
    ¬ RequestKept watchedLink (.removed none) resurrected.queue := by
  have h1 : Steps (Step syncJob Served watchedLink) (fun _ _ => True) quiet registered :=
    steps_registered trivial (fun _ => trivial) served_accepting
  have h2 : Step syncJob Served watchedLink registered (.removed [.ofDigit 3] 1000000)
      deletedEarly := by
    have hrow : registered.queue.table.get watchedLink.linkId = some queuedLink := rfl
    exact .removed rfl List.mem_cons_self (fun ⟨_, h⟩ => by cases h) hrow
  have h3 : Step syncJob Served watchedLink deletedEarly (.load (.ofDigit 3) 1000000)
      settling := by
    have hlink : deletedEarly.queue.table.byFileRecordId (.ofDigit 3) = some removedLink := rfl
    exact .load hlink rfl
  have h4 : Step syncJob Served watchedLink settling (.resume 0)
      (settling.resumed accepting 0) := step_resumed served_accepting rfl
  have h5 : Step syncJob Served watchedLink (settling.resumed accepting 0) (.resume 1)
      resurrected := step_resumed served_accepting rfl
  refine ⟨start_quiet, .tail (.tail (.tail (.tail h1 trivial h2) trivial h3) trivial h4)
    trivial h5, ?_, rfl, ?_⟩
  · intro n hn
    have hrunning : resurrected.running = [⟨.ofDigit 1, done (.ok .transitioned)⟩,
      ⟨.ofDigit 1, done (.ok .transitioned)⟩] := rfl
    rw [hrunning] at hn
    rcases List.mem_cons.1 hn with rfl | hn
    · exact ⟨_, rfl⟩
    · rw [List.mem_singleton.1 hn]
      exact ⟨_, rfl⟩
  · rintro (h | ⟨row, hrow, hkept⟩)
    · exact h
    · have hlast : (resurrected.queue.table.get watchedLink.linkId).map (·.state) =
        some .submitted := rfl
      rw [hrow] at hlast
      have hstate : row.state = .submitted := Option.some.inj hlast
      rcases hkept.1 with h | h <;> rw [hstate] at h <;> cases h

/-- The same deletion after the notification has ended is kept, with RAG's id. -/
theorem request_kept_in_turn :
    RequestKept watchedLink (.removed (some (.ofDigit 5)))
      (notified.deleted (some (.ofDigit 5))).queue := by
  have h1 : Steps (Step syncJob Any watchedLink) (RaceFree watchedLink) quiet registered :=
    steps_registered False.elim (fun _ => False.elim) fun _ => trivial
  have h2 : Step syncJob Any watchedLink registered (.resume 0) notified :=
    step_resumed (fun _ => trivial) rfl
  have h3 : Step syncJob Any watchedLink notified (.removed [.ofDigit 3] 1000000)
      (notified.deleted (some (.ofDigit 5))) := by
    have hmark : ¬ notified.Deleted := fun ⟨_, h⟩ => by cases h
    have hrow : ∃ row, notified.queue.table.get watchedLink.linkId = some row ∧
        row.ragFileId = some (.ofDigit 5) := ⟨_, rfl, rfl⟩
    obtain ⟨row, hrow, hrag⟩ := hrow
    rw [← hrag]
    exact .removed rfl List.mem_cons_self hmark hrow
  have hfree : RaceFree watchedLink registered (.resume 0) := False.elim
  refine (request_kept start_quiet).1 _ (.tail (.tail h1 hfree h2) ?_ h3) _ rfl
  intro _ n hn _
  have hrunning : notified.running = [⟨.ofDigit 1, done (.ok .transitioned)⟩] := rfl
  rw [hrunning] at hn
  rw [List.mem_singleton.1 hn]
  exact ⟨_, rfl⟩

end WebStorage.NotifyRaces
