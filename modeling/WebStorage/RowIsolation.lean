import WebStorage.TickIsolation

set_option autoImplicit false

/-! What the answers of RAG make of the RAG id of a row, and when the rows of one tick stay out of
each other's way. -/
namespace WebStorage.RowIsolation
open Effect Effect.Prog IndexSyncJob TickIsolation

section
variable (o : Outcomes) (link : IndexLink)

/-- The link's object is there, with its hash or a size. -/
def located (rekeyed : Bool) : Bool :=
  match link.contentSha256 with
  | none => decide (o.objectExists rekeyed = .ok true) && (o.objectRead rekeyed).isOk
  | some _ => (o.objectSize rekeyed).isOk

/-- The manifest of a registration is complete. -/
def prepared (rekeyed : Bool) : Bool :=
  (registerCollection link).isSome && located o link rekeyed &&
    (link.fileRecordId.isNone || o.originalName.isOk)

/-- The id that a registration gives: that of the new file, or of the one which RAG already has. -/
def registered (rekeyed : Bool) : Option Uuid :=
  if prepared o link rekeyed then
    match o.register with
    | .ok card => some card.fileId
    | .error (.ragHttp statusCode errorCode detailFileId) =>
      if statusCode = 409 ∧ errorCode = some errorDuplicateFile then detailFileId else none
    | .error _ => none
  else none

def vectorsGone : Bool :=
  match o.deleteVectors with
  | .ok _ => true
  | .error (.ragHttp statusCode errorCode _) => vectorsAlreadyGone statusCode errorCode
  | .error _ => false

/-- RAG refuses the rekey since it holds other content. -/
def contentChanged : Bool :=
  match o.rekey with
  | .error (.ragHttp statusCode errorCode _) =>
    decide (statusCode = 409 ∧ errorCode = some errorContentChanged)
  | _ => false

/-- The id that a rekey confirms. -/
def rekeyed : Option Uuid :=
  match o.rekey with
  | .ok card => some card.fileId
  | .error _ => none

/-- The id of a file that is ready. -/
def polled : Option Uuid :=
  match o.getFile with
  | .ok card => if Text.lower (Text.strip card.status) = "ready".toList then some card.fileId else none
  | .error _ => none

/-- Whether the answers make the processing drop the id which the row has, to register it anew. -/
def dropped : Bool :=
  match link.state, link.ragFileId with
  | .reindexPending, some _ => vectorsGone o
  | .pending, some _ => located o link false && contentChanged o && vectorsGone o
  | _, _ => false

/-- The id that the answers give to a row of a public section. -/
def given : Option Uuid :=
  match link.state, link.ragFileId with
  | .pending, none => registered o link false
  | .submitted, none => registered o link false
  | .reindexPending, none => registered o link false
  | .reindexPending, some _ => if vectorsGone o then registered o link false else none
  | .pending, some _ =>
    if located o link false then
      if contentChanged o then if vectorsGone o then registered o link true else none
      else rekeyed o
    else none
  | .submitted, some _ => polled o
  | _, _ => none

/-- The id that a public row holds once it has been processed. -/
def left : Option Uuid :=
  match given o link with
  | some id => some id
  | none => if dropped o link then none else link.ragFileId

/-- The id that the answers give to the row; the queue refuses to write one of the private section. -/
def taken : Option Uuid := if link.fileSection = .private then none else given o link

/-- The id that the row holds once it has been processed. -/
def held : Option Uuid := if link.fileSection = .private then link.ragFileId else left o link

end

/-- The RAG id of a row while the batch is at work, when the rows of `before` have been processed. -/
def holding (env : Uuid → Outcomes) (before : List IndexLink) (row : IndexLink) : Option Uuid :=
  if row ∈ before then held (env row.id) row else row.ragFileId

/-- No answer gives a row an id that another row holds at that moment. -/
def Apart (env : Uuid → Outcomes) (links rows : List IndexLink) : Prop :=
  ∀ before link after, links = before ++ link :: after → ∀ id, taken (env link.id) link = some id →
    ∀ row ∈ rows, row.id ≠ link.id → holding env before row ≠ some id

/-! ### Programs that leave the RAG id alone -/

/-- A command that writes no RAG id. -/
def SparesId : SyncCmd → Prop
  | .applyTransition _ tr _ => tr.ragFileId = none
  | _ => True

/-- The row keeps its RAG id, and no version in between has another. -/
structure Kept (d d' : Draft) : Prop where
  ragFileId : d'.row.ragFileId = d.row.ragFileId
  older : ∀ v ∈ d.versions, v ∈ d'.versions
  versions : ∀ v ∈ d'.versions, v ∈ d.versions ∨ v.ragFileId = d.row.ragFileId

theorem Kept.refl (d : Draft) : Kept d d := ⟨rfl, fun _ h => h, fun _ h => .inl h⟩

section
variable {α : Type} {o : Outcomes} {job : IndexSyncJob} {link : IndexLink} {now : Time} {d : Draft}
  {r : Bool}

theorem kept_run {p : Sync α} (hp : p.All SparesId fun _ _ => True) :
    Kept d (run (draftAnswer o) p (d, r)).2.1 := by
  induction p generalizing d r with
  | done x => exact Kept.refl d
  | call c k ih =>
    obtain ⟨hc, hk⟩ := hp
    rw [run_call]
    cases c
    case applyTransition linkId tr at_ =>
      -- a write is refused, or it adds a version with the id of the row
      simp only [draftAnswer]
      split_ifs with hid hprivate
      · exact ih _ (hk _ fun _ _ => trivial)
      · exact ih _ (hk _ fun _ _ => trivial)
      · have hrow : (tr.apply at_ d.row).ragFileId = d.row.ragFileId := by
          have htr : tr.ragFileId = none := hc
          simp [Transition.apply, Transition.assign, htr]
        have hrest := ih (.ok (some (tr.apply at_ d.row))) (hk _ fun _ _ => trivial)
          (d := ⟨tr.apply at_ d.row, tr.apply at_ d.row :: d.versions⟩) (r := r)
        refine ⟨hrest.ragFileId.trans hrow, fun v hv => hrest.older v (List.mem_cons_of_mem _ hv),
          fun v hv => ?_⟩
        rcases hrest.versions v hv with hold | hsame
        · rcases List.mem_cons.1 hold with rfl | hold
          · exact .inr hrow
          · exact .inl hold
        · exact .inr (hsame.trans hrow)
    all_goals exact ih _ (hk _ fun _ _ => trivial)

abbrev Spares (p : Sync α) : Prop := p.All SparesId fun _ _ => True

theorem spares_write {tr : Transition} {f : Option IndexLink → Sync α} (htr : tr.ragFileId = none)
    (hf : ∀ found, Spares (f found)) : Spares ((write link now tr).bind f) :=
  all_issue_bind htr fun found _ => hf found

theorem spares_attempt {c : SyncCmd} {f : Except Exc c.Resp → Sync α} (hc : SparesId c)
    (hf : ∀ x, Spares (f x)) : Spares ((send c).attempt.bind f) :=
  all_bind (all_attempt ⟨hc, fun _ _ => trivial⟩) hf

theorem spares_fail (code : String) : Spares (fail link now code) :=
  spares_write rfl fun _ => all_done _

theorem spares_scheduleRetry (code : String) : Spares (scheduleRetry job link now code) := by
  simp only [scheduleRetry]
  split <;> exact spares_write rfl fun _ => all_done _

theorem spares_missObject : Spares (missObject job link now) := by
  simp only [missObject]
  split
  · exact spares_fail _
  · split <;> exact spares_write rfl fun _ => all_done _

theorem spares_locate : Spares (locate job link now) := by
  have hmiss : Spares ((missObject job link now).bind fun outcome =>
      done (.ok (.inl outcome : Outcome ⊕ (Digest × Nat)))) :=
    all_bind spares_missObject fun _ => all_done _
  unfold locate
  split
  · refine all_bind (all_catchWith ⟨trivial, fun _ _ => trivial⟩ ?_) fun present => ?_
    · intro e
      split <;> trivial
    · split
      · exact hmiss
      · refine spares_attempt trivial fun x => ?_
        split
        · trivial
        · exact hmiss
        · trivial
  · simp only [bind_eq, pure_eq]
    refine spares_attempt trivial fun x => ?_
    split
    · trivial
    · exact all_bind (spares_fail _) fun _ => all_done _
    · trivial

theorem spares_manifest : Spares (manifest job link now) := by
  simp only [manifest, bind_eq, pure_eq]
  refine all_bind spares_locate fun found => ?_
  split
  · trivial
  · refine all_bind ?_ fun _ => all_done _
    unfold displayName
    split
    · trivial
    · exact ⟨trivial, fun _ _ => trivial⟩

theorem spares_deleteVectors : Spares (deleteVectors job link now) := by
  unfold deleteVectors
  split
  · trivial
  · simp only [bind_eq, pure_eq]
    refine spares_attempt trivial fun x => ?_
    split
    · trivial
    · split
      · trivial
      · split
        · exact all_bind (spares_scheduleRetry _) fun _ => all_done _
        · exact all_bind (spares_fail _) fun _ => all_done _
    · trivial

theorem spares_remove (terminal : IndexLinkState) : Spares (remove job link now terminal) := by
  have hsettle : Spares (settle link now terminal) := spares_write rfl fun _ => all_done _
  unfold remove
  split
  · exact hsettle
  · simp only [bind_eq, pure_eq]
    refine all_bind spares_deleteVectors fun outcome => ?_
    split
    · trivial
    · exact hsettle

theorem spares_onProcessError (e : Exc) : Spares (onProcessError job link now e) := by
  unfold onProcessError
  split
  · exact spares_scheduleRetry _
  · exact spares_fail _
  · trivial

/-! ### What the lookups find -/

/-- A lookup that ends the processing finds nothing. -/
theorem run_inl_ne {β : Type} {h : (c : SyncCmd) → Draft × Bool → Except Exc c.Resp × (Draft × Bool)}
    {p : Sync Outcome} {s : Draft × Bool} (found : β) :
    (run h (p.bind fun outcome => done (.ok (.inl outcome : Outcome ⊕ β))) s).1 ≠
      .ok (.inr found) := by
  rw [run_bind]
  rcases run h p s with ⟨_ | _, _⟩ <;> (intro h; cases h)

/-- One call outside, tried. -/
theorem run_attempt_send {β : Type} {c : SyncCmd} {f : Except Exc c.Resp → Sync β}
    {x : Except Exc c.Resp} {r' : Bool} (hc : draftAnswer o c (d, r) = (x, d, r')) :
    run (draftAnswer o) ((send c).attempt.bind f) (d, r) = run (draftAnswer o) (f x) (d, r') := by
  have hsend : run (draftAnswer o) (send c) (d, r) = (x, d, r') := hc
  rw [run_bind, run_attempt, hsend]

/-- Whether a missing object counts as absent. -/
theorem run_objectPresent (found : Bool) : (o.objectExists r = .ok found ∨
      (o.objectExists r = .error .fileNotFound ∧ found = false)) →
    run (draftAnswer o) (objectPresent link) (d, r) = (.ok found, d, r) := by
  have hsend : run (draftAnswer o) (send (.objectExists link.s3Key)) (d, r) =
      (o.objectExists r, d, r) := rfl
  rintro (hexists | ⟨hmissing, rfl⟩)
  · rw [hexists] at hsend
    exact run_catch_ok hsend _
  · rw [hmissing] at hsend
    exact run_catch_error hsend _

variable (o job link now d r) in
theorem run_readPayloadHash :
    ((o.objectRead r).isOk = true → ∃ found,
      run (draftAnswer o) (readPayloadHash job link now) (d, r) = (.ok (.inr found), d, r)) ∧
    ((o.objectRead r).isOk = false → ∀ found,
      (run (draftAnswer o) (readPayloadHash job link now) (d, r)).1 ≠ .ok (.inr found)) := by
  have hanswer : draftAnswer o (.objectRead link.s3Key) (d, r) = (o.objectRead r, d, r) := rfl
  simp only [readPayloadHash, bind_eq, pure_eq, run_attempt_send hanswer]
  rcases o.objectRead r with e | payload
  · refine ⟨(fun h => by cases h), fun _ found => ?_⟩
    split
    · rename_i h
      cases h
    · exact run_inl_ne found
    · intro h
      cases h
  · exact ⟨fun _ => ⟨_, rfl⟩, fun h => by cases h⟩

variable (o job link now d r) in
theorem run_readObjectHash :
    (o.objectExists r = .ok true → (o.objectRead r).isOk = true → ∃ found,
      run (draftAnswer o) (readObjectHash job link now) (d, r) = (.ok (.inr found), d, r)) ∧
    ((o.objectExists r ≠ .ok true ∨ (o.objectRead r).isOk = false) → ∀ found,
      (run (draftAnswer o) (readObjectHash job link now) (d, r)).1 ≠ .ok (.inr found)) := by
  obtain ⟨hread, hunread⟩ := run_readPayloadHash o job link now d r
  have habsent : run (draftAnswer o) (objectPresent link) (d, r) = (.ok false, d, r) →
      ∀ found, (run (draftAnswer o) (readObjectHash job link now) (d, r)).1 ≠ .ok (.inr found) := by
    intro h found
    rw [readObjectHash, bind_eq, run_bind_ok h]
    exact run_inl_ne found
  rcases hexists : o.objectExists r with e | _ | _
  · refine ⟨(fun h => by cases h), fun _ => ?_⟩
    by_cases hmissing : e = .fileNotFound
    · rw [hmissing] at hexists
      exact habsent (run_objectPresent false (.inr ⟨hexists, rfl⟩))
    · -- any other exception goes through
      have hpresent : run (draftAnswer o) (objectPresent link) (d, r) = (.error e, d, r) := by
        have hsend : run (draftAnswer o) (send (.objectExists link.s3Key)) (d, r) =
            (.error e, d, r) := congrArg (·, d, r) hexists
        rw [objectPresent, run_catch_error hsend]
        split
        · exact absurd rfl hmissing
        · rfl
      intro found
      rw [readObjectHash, bind_eq, run_bind_error hpresent]
      intro h
      cases h
  · exact ⟨(fun h => by cases h), fun _ => habsent (run_objectPresent false (.inl hexists))⟩
  · have hpresent : run (draftAnswer o) (objectPresent link) (d, r) = (.ok true, d, r) :=
      run_objectPresent true (.inl hexists)
    simp only [readObjectHash, bind_eq, run_bind_ok hpresent]
    refine ⟨fun _ => hread, fun h => ?_⟩
    exact hunread (h.resolve_left fun hne => hne rfl)

variable (o job link now d r) in
theorem run_locate : (located o link r = true → ∃ found, run (draftAnswer o) (locate job link now)
      (d, r) = (.ok (.inr found), d, r)) ∧
    (located o link r = false → ∀ found,
      (run (draftAnswer o) (locate job link now) (d, r)).1 ≠ .ok (.inr found)) := by
  unfold located locate
  cases link.contentSha256 with
  | some digest =>
    have hanswer : draftAnswer o (.objectSize link.s3Key) (d, r) = (o.objectSize r, d, r) := rfl
    simp only [bind_eq, pure_eq, run_attempt_send hanswer]
    rcases o.objectSize r with e | size
    · refine ⟨(fun h => by cases h), fun _ found => ?_⟩
      split
      · rename_i h
        cases h
      · exact run_inl_ne found
      · intro h
        cases h
    · exact ⟨fun _ => ⟨_, rfl⟩, fun h => by cases h⟩
  | none =>
    obtain ⟨hread, hunread⟩ := run_readObjectHash o job link now d r
    simp only [Bool.and_eq_true, Bool.and_eq_false_iff, decide_eq_true_eq, decide_eq_false_iff_not]
    exact ⟨fun h => hread h.1 h.2, fun h => hunread h⟩

variable (o job now d r) in
theorem run_manifest {collection : RagCollection} (hcollection : registerCollection link = some collection) :
    (prepared o link r = true → ∃ m, run (draftAnswer o) (manifest job link now)
      (d, r) = (.ok (.inr m), d, r)) ∧
    (prepared o link r = false → ∀ m,
      (run (draftAnswer o) (manifest job link now) (d, r)).1 ≠ .ok (.inr m)) := by
  obtain ⟨hfound, hlost⟩ := run_locate o job link now d r
  simp only [prepared, hcollection, Option.isSome_some, Bool.true_and, manifest, bind_eq, pure_eq]
  cases hlocated : located o link r with
  | false =>
    refine ⟨(fun h => by cases h), fun _ m => ?_⟩
    rw [run_bind]
    rcases hrun : run (draftAnswer o) (locate job link now) (d, r) with ⟨_ | ⟨outcome | found⟩, s⟩
    · intro h
      cases h
    · intro h
      cases h
    · exact absurd (congrArg Prod.fst hrun) (hlost hlocated found)
  | true =>
    obtain ⟨found, hrun⟩ := hfound hlocated
    rw [run_bind_ok hrun]
    unfold displayName
    rcases hrecord : link.fileRecordId with _ | fileRecordId
    · exact ⟨fun _ => ⟨_, rfl⟩, fun h => by cases h⟩
    · have hname : run (draftAnswer o) (send (.originalName fileRecordId)) (d, r) =
          (o.originalName, d, r) := rfl
      rcases horiginal : o.originalName with e | name
      · rw [horiginal] at hname
        refine ⟨(fun h => by cases h), fun _ m => ?_⟩
        dsimp only
        rw [run_bind_error hname]
        intro h
        cases h
      · rw [horiginal] at hname
        refine ⟨fun _ => ?_, fun h => by cases h⟩
        dsimp only
        rw [run_bind_ok hname]
        exact ⟨_, rfl⟩

end

/-! ### What a processing makes of the RAG id -/

/-- From `d` on the answers have given the row the id `new`, or none, and it ends with the id `final`. -/
structure Takes (d d' : Draft) (new final : Option Uuid) : Prop where
  ends : d'.row.ragFileId = final
  among : final = none ∨ final = d.row.ragFileId ∨ final = new
  versions : ∀ v ∈ d'.versions, v ∈ d.versions ∨ v.ragFileId = none ∨
    v.ragFileId = d.row.ragFileId ∨ v.ragFileId = new
  gives : ∀ id, new = some id → ∃ v ∈ d'.versions, v.ragFileId = some id

section
variable {α : Type} {o : Outcomes} {job : IndexSyncJob} {link : IndexLink} {now : Time}
  {d d' d'' : Draft} {r : Bool} {new final : Option Uuid} {vs : List IndexLink}

theorem Kept.takes (h : Kept d d') : Takes d d' none d.row.ragFileId where
  ends := h.ragFileId
  among := .inr (.inl rfl)
  versions v hv := (h.versions v hv).imp id fun hsame => .inr (.inl hsame)
  gives _ h := by cases h

/-- A processing goes on without touching the id. -/
theorem Takes.kept (h : Takes d d' new final) (hkept : Kept d' d'') : Takes d d'' new final where
  ends := hkept.ragFileId.trans h.ends
  among := h.among
  versions v hv := by
    rcases hkept.versions v hv with hold | hsame
    · exact h.versions v hold
    · rw [hsame, h.ends]
      exact .inr h.among
  gives id hid := by
    obtain ⟨v, hv, hrag⟩ := h.gives id hid
    exact ⟨v, hkept.older v hv, hrag⟩

/-- What came before has left the id or dropped it. -/
theorem Takes.after (h : Takes d' d'' new final)
    (hrow : d'.row.ragFileId = none ∨ d'.row.ragFileId = d.row.ragFileId)
    (hversions : ∀ v ∈ d'.versions, v ∈ d.versions ∨ v.ragFileId = none ∨
      v.ragFileId = d.row.ragFileId) : Takes d d'' new final where
  ends := h.ends
  among := by
    rcases h.among with hnone | hsame | hnew
    · exact .inl hnone
    · rw [hsame]
      exact hrow.imp id .inl
    · exact .inr (.inr hnew)
  versions v hv := by
    rcases h.versions v hv with hold | hnone | hsame | hnew
    · exact (hversions v hold).imp id fun h => h.imp id .inl
    · exact .inr (.inl hnone)
    · rw [hsame]
      exact .inr (hrow.imp id .inl)
    · exact .inr (.inr (.inr hnew))
  gives := h.gives

/-- A write of the row goes through. -/
theorem run_write {tr : Transition} (hpublic : link.fileSection ≠ .private) :
    run (draftAnswer o) (write link now tr) (⟨link, vs⟩, r) =
      (.ok (some (tr.apply now link)), ⟨tr.apply now link, tr.apply now link :: vs⟩, r) := by
  have hanswer : draftAnswer o (.applyTransition link.id tr now) (⟨link, vs⟩, r) =
      (.ok (some (tr.apply now link)), ⟨tr.apply now link, tr.apply now link :: vs⟩, r) := by
    simp only [draftAnswer, ne_eq, not_true_eq_false, if_false, if_neg hpublic]
  exact hanswer

theorem takes_succeed {state : IndexLinkState} {id : Uuid} {hash : Option (Option Digest)}
    (hpublic : link.fileSection ≠ .private) : Takes ⟨link, vs⟩
      (run (draftAnswer o) (succeed link now state (some (some id)) hash) (⟨link, vs⟩, r)).2.1
      (some id) (some id) := by
  simp only [succeed, bind_eq, pure_eq]
  rw [run_bind_ok (run_write hpublic), run_done]
  refine ⟨rfl, .inr (.inr rfl), fun v hv => ?_, fun id hnew => ⟨_, List.mem_cons_self, hnew⟩⟩
  rcases List.mem_cons.1 hv with rfl | hv
  · exact .inr (.inr (.inr rfl))
  · exact .inl hv

variable (o job now r vs) in
theorem takes_register (hpublic : link.fileSection ≠ .private) (hnone : link.ragFileId = none) :
    Takes ⟨link, vs⟩ (run (draftAnswer o) (register job link now) (⟨link, vs⟩, r)).2.1
      (registered o link r) (registered o link r) := by
  -- a run that leaves the id alone takes none, since there was none
  have hkept : ∀ {d' : Draft}, Kept ⟨link, vs⟩ d' → Takes ⟨link, vs⟩ d' none none := by
    intro d' h
    have htakes := h.takes
    rwa [show (Draft.mk link vs).row.ragFileId = none from hnone] at htakes
  unfold register
  rcases hcollection : registerCollection link with _ | collection
  · have hnothing : registered o link r = none := by simp [registered, prepared, hcollection]
    rw [hnothing]
    exact hkept (kept_run (spares_write rfl fun _ => all_done _))
  obtain ⟨hready, hunready⟩ := run_manifest o job now ⟨link, vs⟩ r hcollection
  simp only [bind_eq, pure_eq]
  cases hprepared : prepared o link r with
  | false =>
    have hnothing : registered o link r = none := by simp [registered, hprepared]
    rw [hnothing, run_bind]
    have hmanifest : Kept ⟨link, vs⟩ (run (draftAnswer o) (manifest job link now) (⟨link, vs⟩, r)).2.1 :=
      kept_run spares_manifest
    rcases hrun : run (draftAnswer o) (manifest job link now) (⟨link, vs⟩, r) with
      ⟨_ | ⟨outcome | m⟩, s⟩
    · rw [hrun] at hmanifest
      exact hkept hmanifest
    · rw [hrun] at hmanifest
      exact hkept hmanifest
    · exact absurd (congrArg Prod.fst hrun) (hunready hprepared m)
  | true =>
    -- the manifest is complete, and RAG is asked
    obtain ⟨m, hrun⟩ := hready hprepared
    have hanswer : draftAnswer o (.register collection m link.userId) (⟨link, vs⟩, r) =
        (o.register, ⟨link, vs⟩, r) := rfl
    rw [run_bind_ok hrun]
    dsimp only
    rw [run_attempt_send hanswer]
    simp only [registered, hprepared, if_true]
    rcases o.register with e | card
    · cases e with
      | ragHttp statusCode errorCode detailFileId =>
        dsimp only
        unfold onRegisterHttp
        split
        · cases detailFileId with
          | none => exact hkept (kept_run (spares_fail _))
          | some adopted =>
            -- the row has no id, so the one that RAG has is adopted
            have hfree : ¬ (link.ragFileId.isSome = true ∧ link.ragFileId ≠ some adopted) := by
              simp [hnone]
            simp only [adoptDuplicate, if_neg hfree]
            exact takes_succeed hpublic
        · exact hkept (kept_run (spares_fail _))
      | _ => exact hkept (Kept.refl _)
    · exact takes_succeed hpublic

variable (o job now d r) in
theorem run_deleteVectors {ragFileId : Uuid} (hrag : link.ragFileId = some ragFileId) :
    (vectorsGone o = true →
      run (draftAnswer o) (deleteVectors job link now) (d, r) = (.ok none, d, r)) ∧
    (vectorsGone o = false →
      (run (draftAnswer o) (deleteVectors job link now) (d, r)).1 ≠ .ok none) := by
  have hanswer : draftAnswer o (.deleteVectors ragFileId link.userId) (d, r) =
      (o.deleteVectors, d, r) := rfl
  have hsome : ∀ {p : Sync Outcome} {s : Draft × Bool},
      (run (draftAnswer o) (p.bind fun outcome => done (.ok (some outcome))) s).1 ≠ .ok none := by
    intro p s
    rw [run_bind]
    rcases run (draftAnswer o) p s with ⟨_ | _, _⟩ <;> (intro h; cases h)
  simp only [deleteVectors, hrag, bind_eq, pure_eq, run_attempt_send hanswer, vectorsGone]
  rcases o.deleteVectors with e | gone
  · cases e with
    | ragHttp statusCode errorCode detailFileId =>
      dsimp only
      split
      · rename_i hgone
        exact ⟨fun _ => rfl, fun h => absurd (hgone.symm.trans h) (by decide)⟩
      · rename_i hgone
        refine ⟨fun h => absurd h hgone, fun _ => ?_⟩
        split
        · exact hsome
        · rw [run_bind]
          rcases run (draftAnswer o) (fail link now _) (d, r) with ⟨_ | _, _⟩ <;> (intro h; cases h)
    | _ => exact ⟨(fun h => by cases h), (fun _ h => by cases h)⟩
  · exact ⟨fun _ => rfl, fun h => by cases h⟩

/-- What a write leaves of the answers to a registration. -/
theorem registered_apply {tr : Transition} (hhash : tr.contentSha256 = none)
    (htype : tr.contentType = none) : registered o (tr.apply now link) r = registered o link r := by
  simp [registered, prepared, located, registerCollection, Transition.apply, Transition.assign,
    hhash, htype]

variable (o job now r vs) in
theorem takes_reindex {ragFileId : Uuid} (hpublic : link.fileSection ≠ .private)
    (hrag : link.ragFileId = some ragFileId) : Takes ⟨link, vs⟩
      (run (draftAnswer o) (reindex job link now) (⟨link, vs⟩, r)).2.1
      (if vectorsGone o then registered o link r else none)
      (if vectorsGone o then registered o link r else link.ragFileId) := by
  obtain ⟨hgone, hkept⟩ := run_deleteVectors o job now ⟨link, vs⟩ r hrag
  simp only [reindex, hrag, bind_eq, pure_eq]
  cases hvectors : vectorsGone o with
  | true =>
    rw [run_bind_ok (hgone hvectors)]
    dsimp only
    rw [run_bind_ok (run_write hpublic)]
    dsimp only
    -- the dropped id is behind the version without one
    let tr : Transition := { ragFileId := some none }
    have hsection : (tr.apply now link).fileSection ≠ .private := hpublic
    have hregister := takes_register o job now r (tr.apply now link :: vs) hsection rfl
    rw [registered_apply rfl rfl] at hregister
    refine hregister.after (.inl rfl) fun v hv => ?_
    rcases List.mem_cons.1 hv with rfl | hv
    · exact .inr (.inl rfl)
    · exact .inl hv
  | false =>
    have hdelete : Kept ⟨link, vs⟩
        (run (draftAnswer o) (deleteVectors job link now) (⟨link, vs⟩, r)).2.1 :=
      kept_run spares_deleteVectors
    rw [run_bind, ← hrag]
    rcases hrun : run (draftAnswer o) (deleteVectors job link now) (⟨link, vs⟩, r) with
      ⟨_ | _ | outcome, s⟩
    · rw [hrun] at hdelete
      exact hdelete.takes
    · exact absurd (congrArg Prod.fst hrun) (hkept hvectors)
    · rw [hrun] at hdelete
      exact hdelete.takes

theorem left_of_given {id : Uuid} (h : given o link = some id) : left o link = some id := by
  simp only [left, h]

theorem left_of_dropped (h : dropped o link = true) : left o link = given o link := by
  unfold left
  rw [h]
  cases given o link <;> rfl

theorem left_of_kept (hgiven : given o link = none) (hdropped : dropped o link = false) :
    left o link = link.ragFileId := by
  simp only [left, hgiven, hdropped, Bool.false_eq_true, if_false]

/-- A processing that gives the row no id and drops none. -/
theorem Kept.left (h : Kept ⟨link, vs⟩ d') (hgiven : given o link = none)
    (hdropped : dropped o link = false) :
    Takes ⟨link, vs⟩ d' (given o link) (RowIsolation.left o link) := by
  rw [left_of_kept hgiven hdropped, hgiven]
  exact h.takes

theorem takes_rekey {ragFileId : Uuid} (hpublic : link.fileSection ≠ .private)
    (hstate : link.state = .pending) (hrag : link.ragFileId = some ragFileId) : Takes ⟨link, vs⟩
      (run (draftAnswer o) (IndexSyncJob.rekey job link now) (⟨link, vs⟩, false)).2.1
      (given o link) (left o link) := by
  obtain ⟨hfound, hlost⟩ := run_locate o job link now ⟨link, vs⟩ false
  have hgiven : given o link = if located o link false then
      if contentChanged o then if vectorsGone o then registered o link true else none
      else rekeyed o else none := by
    simp only [given, hstate, hrag]
  have hdropped : dropped o link =
      (located o link false && contentChanged o && vectorsGone o) := by
    simp only [dropped, hstate, hrag]
  simp only [IndexSyncJob.rekey, hrag, bind_eq, pure_eq]
  cases hlocated : located o link false with
  | false =>
    have hlocate : Kept ⟨link, vs⟩
        (run (draftAnswer o) (locate job link now) (⟨link, vs⟩, false)).2.1 := kept_run spares_locate
    have hnothing : given o link = none := by simp [hgiven, hlocated]
    have hkeeps : dropped o link = false := by simp [hdropped, hlocated]
    rw [run_bind]
    rcases hrun : run (draftAnswer o) (locate job link now) (⟨link, vs⟩, false) with
      ⟨_ | ⟨outcome | found⟩, s⟩
    · rw [hrun] at hlocate
      exact hlocate.left hnothing hkeeps
    · rw [hrun] at hlocate
      exact hlocate.left hnothing hkeeps
    · exact absurd (congrArg Prod.fst hrun) (hlost hlocated found)
  | true =>
    obtain ⟨⟨digest, size⟩, hrun⟩ := hfound hlocated
    have hanswer : draftAnswer o (.rekey ragFileId ⟨link.s3Key, size, digest⟩ link.userId)
        (⟨link, vs⟩, false) = (o.rekey, ⟨link, vs⟩, true) := rfl
    rw [run_bind_ok hrun]
    dsimp only
    rw [run_attempt_send hanswer]
    simp only [hlocated, if_true, Bool.true_and] at hgiven hdropped
    rcases hrekey : o.rekey with e | card
    · have hid : rekeyed o = none := by simp only [rekeyed, hrekey]
      cases e with
      | ragHttp statusCode errorCode detailFileId =>
        simp only [onRekeyHttp, bind_eq, pure_eq]
        by_cases hchanged : statusCode = 409 ∧ errorCode = some errorContentChanged
        · have hsees : contentChanged o = true := by simp only [contentChanged, hrekey, hchanged]; rfl
          simp only [hsees, if_true, Bool.true_and] at hgiven hdropped
          rw [if_pos hchanged, run_bind_ok (run_write hpublic)]
          dsimp only
          -- the row goes on as one that is to be reindexed
          let tr : Transition :=
            { state := some .reindexPending, nextAttemptAt := some none,
              lastErrorCode := some (some errorContentChanged) }
          have hsection : (tr.apply now link).fileSection ≠ .private := hpublic
          have hreindex := takes_reindex o job now true (tr.apply now link :: vs) hsection hrag
          rw [registered_apply rfl rfl] at hreindex
          have hleft : left o link = if vectorsGone o then registered o link true else link.ragFileId := by
            cases hvectors : vectorsGone o with
            | true =>
              rw [left_of_dropped (hdropped.trans hvectors), hgiven, hvectors]
              rfl
            | false =>
              rw [hvectors] at hgiven
              exact left_of_kept hgiven (hdropped.trans hvectors)
          rw [hgiven, hleft]
          refine hreindex.after (.inr rfl) fun v hv => ?_
          rcases List.mem_cons.1 hv with rfl | hv
          · exact .inr (.inr rfl)
          · exact .inl hv
        · have hsees : contentChanged o = false := by simp only [contentChanged, hrekey, hchanged]; rfl
          simp only [hsees, Bool.false_eq_true, if_false, Bool.false_and, hid] at hgiven hdropped
          rw [if_neg hchanged]
          split <;> exact (kept_run (spares_fail _)).left hgiven hdropped
      | _ =>
        have hsees : contentChanged o = false := by simp only [contentChanged, hrekey]
        simp only [hsees, Bool.false_eq_true, if_false, Bool.false_and, hid] at hgiven hdropped
        exact (Kept.refl _).left hgiven hdropped
    · have hsees : contentChanged o = false := by simp only [contentChanged, hrekey]
      simp only [hsees, Bool.false_eq_true, if_false, rekeyed, hrekey] at hgiven
      rw [left_of_given hgiven, hgiven]
      exact takes_succeed hpublic

theorem takes_poll {ragFileId : Uuid} (hpublic : link.fileSection ≠ .private)
    (hstate : link.state = .submitted) (hrag : link.ragFileId = some ragFileId) : Takes ⟨link, vs⟩
      (run (draftAnswer o) (poll job link now) (⟨link, vs⟩, r)).2.1 (given o link) (left o link) := by
  have hanswer : draftAnswer o (.getFile ragFileId link.userId) (⟨link, vs⟩, r) =
      (o.getFile, ⟨link, vs⟩, r) := rfl
  have hgiven : given o link = polled o := by simp only [given, hstate, hrag]
  have hkeeps : dropped o link = false := by simp only [dropped, hstate]
  simp only [poll, hrag, bind_eq]
  rw [run_attempt_send hanswer]
  rcases hget : o.getFile with e | card
  · have hnothing : given o link = none := by simp only [hgiven, polled, hget]
    have hspares : Spares (onPollAnswer job link now (.error e)) := by
      unfold onPollAnswer
      split
      · rename_i h
        cases h
      · split
        · exact spares_write rfl fun _ => all_done _
        · exact spares_fail _
      · trivial
    exact (kept_run hspares).left hnothing hkeeps
  · simp only [onPollAnswer, onPolledCard]
    by_cases hready : Text.lower (Text.strip card.status) = "ready".toList
    · have hid : given o link = some card.fileId := by simp only [hgiven, polled, hget, if_pos hready]
      rw [if_pos hready, left_of_given hid, hid]
      exact takes_succeed hpublic
    · have hnothing : given o link = none := by simp only [hgiven, polled, hget, if_neg hready]
      rw [if_neg hready]
      refine Kept.left (kept_run ?_) hnothing hkeeps
      split_ifs
      · exact spares_fail _
      · exact spares_write rfl fun _ => all_done _
      · exact spares_fail _
      · exact spares_write rfl fun _ => all_done _

theorem takes_dispatch (hpublic : link.fileSection ≠ .private) : Takes ⟨link, []⟩
    (run (draftAnswer o) (dispatch job link now) (⟨link, []⟩, false)).2.1
    (given o link) (left o link) := by
  -- a row without an id is registered whatever its state asks for
  have hregister : link.ragFileId = none → given o link = registered o link false →
      dropped o link = false → Takes ⟨link, []⟩
        (run (draftAnswer o) (register job link now) (⟨link, []⟩, false)).2.1
        (given o link) (left o link) := by
    intro hnone hgiven hkeeps
    have hleft : left o link = registered o link false := by
      rcases hid : registered o link false with _ | id
      · rw [left_of_kept (hgiven.trans hid) hkeeps, hnone]
      · exact left_of_given (hgiven.trans hid)
    rw [hgiven, hleft]
    exact takes_register _ _ _ _ _ hpublic hnone
  unfold dispatch
  cases hstate : link.state with
  | pending =>
    rcases hrag : link.ragFileId with _ | ragFileId
    · exact hregister hrag (by simp only [given, hstate, hrag]) (by simp only [dropped, hstate, hrag])
    · exact takes_rekey hpublic hstate hrag
  | submitted =>
    rcases hrag : link.ragFileId with _ | ragFileId
    · have hpoll : poll job link now = register job link now := by simp only [poll, hrag]
      dsimp only
      rw [hpoll]
      exact hregister hrag (by simp only [given, hstate, hrag]) (by simp only [dropped, hstate])
    · exact takes_poll hpublic hstate hrag
  | reindexPending =>
    rcases hrag : link.ragFileId with _ | ragFileId
    · have hreindex : reindex job link now = register job link now := by simp only [reindex, hrag]
      dsimp only
      rw [hreindex]
      exact hregister hrag (by simp only [given, hstate, hrag]) (by simp only [dropped, hstate, hrag])
    · have hgiven : given o link = if vectorsGone o then registered o link false else none := by
        simp only [given, hstate, hrag]
      have hdropped : dropped o link = vectorsGone o := by simp only [dropped, hstate, hrag]
      have hleft : left o link =
          if vectorsGone o then registered o link false else link.ragFileId := by
        cases hvectors : vectorsGone o with
        | true =>
          rw [left_of_dropped (hdropped.trans hvectors), hgiven, hvectors]
          rfl
        | false =>
          rw [hvectors] at hgiven
          exact left_of_kept hgiven (hdropped.trans hvectors)
      rw [hgiven, hleft]
      exact takes_reindex _ _ _ _ _ hpublic hrag
  | removed =>
    exact (kept_run (spares_remove _)).left (by simp only [given, hstate])
      (by simp only [dropped, hstate])
  | archived =>
    exact (kept_run (spares_remove _)).left (by simp only [given, hstate])
      (by simp only [dropped, hstate])
  | _ =>
    exact (Kept.refl _).left (by simp only [given, hstate]) (by simp only [dropped, hstate])

/-- The handlers of `_process` leave the id alone. -/
theorem takes_process (hpublic : link.fileSection ≠ .private) : Takes ⟨link, []⟩
    (run (draftAnswer o) (process job link now) (⟨link, []⟩, false)).2.1
    (given o link) (left o link) := by
  have hcatch : ∀ {p : Sync Outcome} {f : Exc → Sync Outcome} {s : Draft × Bool} {new final},
      Takes ⟨link, []⟩ (run (draftAnswer o) p s).2.1 new final → (∀ e, Spares (f e)) →
        Takes ⟨link, []⟩ (run (draftAnswer o) (p.catchWith f) s).2.1 new final := by
    intro p f s new final h hf
    rcases hrun : run (draftAnswer o) p s with ⟨e | outcome, t⟩
    · rw [hrun] at h
      rw [run_catch_error hrun]
      exact h.kept (kept_run (hf e))
    · rw [hrun] at h
      rw [run_catch_ok hrun]
      exact h
  exact hcatch (hcatch (takes_dispatch hpublic) spares_onProcessError) fun _ => all_done _

/-- The queue refuses every write of a private row. -/
theorem run_private (hprivate : d.row.fileSection = .private) (p : Sync α) :
    (run (draftAnswer o) p (d, r)).2.1 = d := by
  induction p generalizing r with
  | done x => rfl
  | call c k ih =>
    rw [run_call]
    cases c
    case applyTransition linkId tr at_ =>
      simp only [draftAnswer, hprivate, if_true]
      split <;> exact ih _
    all_goals exact ih _

end

/-- What the answers to a link make of the RAG id of its row. -/
theorem takes_draft (job : IndexSyncJob) (env : Uuid → Outcomes) (now : Time) (link : IndexLink) :
    Takes ⟨link, []⟩ (draft job env now link) (taken (env link.id) link)
      (held (env link.id) link) := by
  unfold taken held
  by_cases hprivate : link.fileSection = .private
  · have hdraft : draft job env now link = ⟨link, []⟩ := run_private hprivate _
    rw [if_pos hprivate, if_pos hprivate, hdraft]
    exact (Kept.refl _).takes
  · rw [if_neg hprivate, if_neg hprivate]
    exact takes_process hprivate

/-! ### Rows that stay out of each other's way -/

section
variable {job : IndexSyncJob} {env : Uuid → Outcomes} {now : Time} {t : LinkTable}
  {link : IndexLink} {links rows rows' : List IndexLink}

/-- No version of the row clashes exactly if nobody holds the id that the answers give to it. -/
theorem clash_free_iff (hunique : ∀ r ∈ rows, r.id ≠ link.id → link.ragFileId ≠ none →
      r.ragFileId ≠ link.ragFileId) :
    (∀ v ∈ (draft job env now link).versions, ¬ Clash link.id rows v) ↔
      ∀ id, taken (env link.id) link = some id → ∀ r ∈ rows, r.id ≠ link.id →
        r.ragFileId ≠ some id := by
  have htakes := takes_draft job env now link
  constructor
  · intro hfree id hid r hr hne hsame
    obtain ⟨v, hv, hrag⟩ := htakes.gives id hid
    refine hfree v hv ⟨r, hr, hne, ?_, hsame.trans hrag.symm⟩
    rw [hrag]
    exact Option.some_ne_none id
  · rintro hapart v hv ⟨r, hr, hne, hsome, hsame⟩
    rcases htakes.versions v hv with hold | hnone | hkept | htaken
    · exact absurd hold List.not_mem_nil
    · exact hsome hnone
    · rw [hkept] at hsome hsame
      exact hunique r hr hne hsome hsame
    · obtain ⟨id, hid⟩ := Option.ne_none_iff_exists'.1 hsome
      rw [hid] at htaken hsame
      exact hapart id htaken.symm r hr hne hsame

/-- The rows when those of `before` have been processed. -/
def processed (job : IndexSyncJob) (env : Uuid → Outcomes) (now : Time)
    (before rows : List IndexLink) : List IndexLink :=
  rows.map fun row => if row ∈ before then (draft job env now row).row else row

variable (job env now) in
theorem processed_row (before : List IndexLink) (row : IndexLink) :
    (if row ∈ before then (draft job env now row).row else row).id = row.id ∧
      (if row ∈ before then (draft job env now row).row else row).ragFileId =
        holding env before row := by
  unfold holding
  split
  · exact ⟨draft_id job env now row, (takes_draft job env now row).ends⟩
  · exact ⟨rfl, rfl⟩

theorem mem_processed {before : List IndexLink} {r : IndexLink}
    (hr : r ∈ processed job env now before rows) :
    ∃ row ∈ rows, row.id = r.id ∧ holding env before row = r.ragFileId := by
  obtain ⟨row, hrow, rfl⟩ := List.mem_map.1 hr
  have hspec := processed_row job env now before row
  exact ⟨row, hrow, hspec.1.symm, hspec.2.symm⟩

variable (job env now) in
theorem processed_mem (before : List IndexLink) {row : IndexLink} (hrow : row ∈ rows) :
    ∃ r ∈ processed job env now before rows, r.id = row.id ∧
      r.ragFileId = holding env before row := by
  have hspec := processed_row job env now before row
  exact ⟨_, List.mem_map_of_mem hrow, hspec.1, hspec.2⟩

/-- The next row of the batch is processed. -/
theorem processed_snoc {before : List IndexLink} (hids : (rows.map (·.id)).Nodup) (hlink : link ∈ rows) :
    LinkTable.replace (processed job env now before rows) (draft job env now link).row =
      processed job env now (before ++ [link]) rows := by
  rw [LinkTable.replace, processed, processed, List.map_map]
  refine List.map_congr_left fun row hrow => ?_
  have hid := (processed_row job env now before row).1
  have hone : row.id = link.id → row = link := fun h => List.inj_on_of_nodup_map hids hrow hlink h
  simp only [Function.comp_apply, hid, draft_id, List.mem_append, List.mem_singleton]
  by_cases hsame : row = link
  · rw [hsame, if_pos rfl, if_pos (.inr rfl)]
  · rw [if_neg fun h => hsame (hone h)]
    simp only [hsame, or_false]

/-- No two rows hold one RAG id. -/
def Distinct (rows : List IndexLink) : Prop :=
  ∀ a ∈ rows, ∀ b ∈ rows, a.ragFileId ≠ none → a.ragFileId = b.ragFileId → a.id = b.id

/-- A row that takes an id which nobody holds, keeps its own or drops it, leaves them distinct. -/
theorem distinct_replace (hrows : Distinct rows) {row : IndexLink} (hold : link ∈ rows)
    (hid : row.id = link.id) {new : Option Uuid} (hnew : ∀ id, new = some id → ∀ r ∈ rows,
      r.id ≠ link.id → r.ragFileId ≠ some id)
    (hamong : row.ragFileId = none ∨ row.ragFileId = link.ragFileId ∨ row.ragFileId = new) :
    Distinct (LinkTable.replace rows row) := by
  -- what the new row holds no other row holds
  have hfree : ∀ r ∈ rows, r.id ≠ row.id → row.ragFileId ≠ none → row.ragFileId ≠ r.ragFileId := by
    intro r hr hne hsome hsame
    rw [hid] at hne
    rcases hamong with hnone | hkept | htaken
    · exact hsome hnone
    · exact hne (hrows link hold r hr (hkept ▸ hsome) (hkept ▸ hsame)).symm
    · obtain ⟨id, hget⟩ := Option.ne_none_iff_exists'.1 hsome
      exact hnew id (htaken.symm.trans hget) r hr hne (hsame.symm.trans hget)
  intro a ha b hb hsome hsame
  rcases LinkTable.mem_replace ha with hanew | ⟨haold, hane⟩
  · rcases LinkTable.mem_replace hb with hbnew | ⟨hbold, hbne⟩
    · rw [hanew, hbnew]
    · rw [hanew] at hsome hsame
      exact absurd hsame (hfree b hbold hbne hsome)
  · rcases LinkTable.mem_replace hb with hbnew | ⟨hbold, hbne⟩
    · rw [hbnew] at hsame
      exact absurd hsame.symm (hfree a haold hane (hsame ▸ hsome))
    · exact hrows a haold b hbold hsome hsame

variable (job env now) in
/-- The drafts of a batch clash exactly if the answers bring its rows together. -/
theorem noClash_iff (hids : (rows.map (·.id)).Nodup) (before links : List IndexLink)
    (hlinks : ∀ link ∈ links, link ∈ rows ∧ link ∉ before) (hnodup : links.Nodup)
    (hdistinct : Distinct (processed job env now before rows)) :
    NoClash job env now links (processed job env now before rows) ↔
      ∀ earlier link after, links = earlier ++ link :: after →
        ∀ id, taken (env link.id) link = some id → ∀ row ∈ rows, row.id ≠ link.id →
          holding env (before ++ earlier) row ≠ some id := by
  induction links generalizing before with
  | nil =>
    refine ⟨fun _ earlier link after h => ?_, fun _ => trivial⟩
    cases earlier <;> cases h
  | cons link rest ih =>
    obtain ⟨hlink, hlater⟩ := hlinks link List.mem_cons_self
    obtain ⟨hnot, hrest⟩ := List.nodup_cons.1 hnodup
    have hmem : link ∈ processed job env now before rows :=
      List.mem_map.2 ⟨link, hlink, if_neg hlater⟩
    -- the first link, among the rows as those before it have left them
    have hfirst : (∀ v ∈ (draft job env now link).versions,
          ¬ Clash link.id (processed job env now before rows) v) ↔
        ∀ id, taken (env link.id) link = some id → ∀ row ∈ rows, row.id ≠ link.id →
          holding env before row ≠ some id := by
      have hunique : ∀ r ∈ processed job env now before rows, r.id ≠ link.id →
          link.ragFileId ≠ none → r.ragFileId ≠ link.ragFileId := fun r hr hne hsome hsame =>
        hne (hdistinct link hmem r hr hsome hsame.symm).symm
      rw [clash_free_iff hunique]
      constructor
      · intro h id hid row hrow hne hsame
        obtain ⟨r, hr, hrid, hrag⟩ := processed_mem job env now before hrow
        exact h id hid r hr (hrid ▸ hne) (hrag.trans hsame)
      · intro h id hid r hr hne hsame
        obtain ⟨row, hrow, hrid, hrag⟩ := mem_processed hr
        exact h id hid row hrow (hrid ▸ hne) (hrag.trans hsame)
    -- the links after it, once it has its draft
    have hnext : (∀ id, taken (env link.id) link = some id → ∀ row ∈ rows, row.id ≠ link.id →
          holding env before row ≠ some id) →
        (NoClash job env now rest (processed job env now (before ++ [link]) rows) ↔
          ∀ earlier other after, rest = earlier ++ other :: after →
            ∀ id, taken (env other.id) other = some id → ∀ row ∈ rows, row.id ≠ other.id →
              holding env (before ++ [link] ++ earlier) row ≠ some id) := by
      intro hapart
      apply ih
      · intro other hother
        obtain ⟨hrow, hnew⟩ := hlinks other (List.mem_cons_of_mem _ hother)
        refine ⟨hrow, fun h => ?_⟩
        rcases List.mem_append.1 h with h | h
        · exact hnew h
        · exact hnot (List.mem_singleton.1 h ▸ hother)
      · exact hrest
      · rw [← processed_snoc hids hlink]
        refine distinct_replace hdistinct hmem (draft_id job env now link) (fun id hid r hr hne => ?_)
          ((takes_draft job env now link).ends ▸ (takes_draft job env now link).among)
        obtain ⟨row, hrow, hrid, hrag⟩ := mem_processed hr
        exact fun hsame => hapart id hid row hrow (hrid ▸ hne) (hrag.trans hsame)
    unfold NoClash
    rw [processed_snoc hids hlink, hfirst]
    constructor
    · rintro ⟨hapart, hno⟩ earlier other after hsplit
      cases earlier with
      | nil =>
        cases hsplit
        rw [List.append_nil]
        exact hapart
      | cons first earlier =>
        cases hsplit
        have hlast := (hnext hapart).1 hno earlier other after rfl
        rwa [List.append_assoc] at hlast
    · intro h
      have hapart := h [] link rest rfl
      rw [List.append_nil] at hapart
      refine ⟨hapart, (hnext hapart).2 fun earlier other after hsplit => ?_⟩
      have hlast := h (link :: earlier) other after (congrArg (link :: ·) hsplit)
      rwa [List.append_assoc]

end

/-! ### The tick and those after it -/

/-- The commit of the tick raises, and everything is rolled back. -/
def Blocked (job : IndexSyncJob) (env : Uuid → Outcomes) (now : Time) (t : LinkTable) : Prop :=
  (batch job env now (claimed job now t) ⟨t, false⟩).failed = true

/-- The times of a tick and of those after it, as long as no further row comes due. -/
structure LaterTicks (now : Time) (t : LinkTable) where
  clock : Nat → Time
  start : clock 0 = now
  due : ∀ n, ∀ row ∈ t.rows, LinkTable.isDue (clock n) row = LinkTable.isDue now row

/-- The queue before the `n`th of these ticks, when RAG and the object store keep to their answers. -/
def ticks (job : IndexSyncJob) (env : Uuid → Outcomes) (clock : Nat → Time) (t : LinkTable) :
    Nat → LinkTable
  | 0 => t
  | n + 1 => tick job env (clock n) (ticks job env clock t n)

section
variable {job : IndexSyncJob} {env : Uuid → Outcomes} {now : Time} {t : LinkTable}

/-- The drafts of a tick clash exactly if its answers bring two rows together. -/
theorem noClash_claimed : NoClash job env now (claimed job now t) t.rows ↔
    Apart env (claimed job now t) t.rows := by
  obtain ⟨hids, hget⟩ := claimed_spec job now t
  have hstart : processed job env now [] t.rows = t.rows := by
    simp [processed]
  have hclaimed : ∀ link ∈ claimed job now t, link ∈ t.rows ∧ link ∉ ([] : List IndexLink) :=
    fun link hl => ⟨(LinkTable.get_some (hget link hl)).1, List.not_mem_nil⟩
  have hiff := noClash_iff job env now t.id_unique [] _ hclaimed
    (List.Nodup.of_map _ hids) (hstart.symm ▸ t.rag_unique)
  rwa [hstart] at hiff

/-- A tick goes through exactly if its answers keep the rows apart. -/
theorem not_blocked_iff : ¬ Blocked job env now t ↔ Apart env (claimed job now t) t.rows := by
  obtain ⟨hids, hget⟩ := claimed_spec job now t
  obtain ⟨hgood, hbad⟩ := batch_spec job env now (claimed job now t) hids t hget
  rw [← noClash_claimed]
  unfold Blocked
  constructor
  · intro hgoes
    by_contra hno
    exact hgoes (hbad hno)
  · intro hno hblocked
    obtain ⟨t', hb, -⟩ := hgood hno
    rw [hb] at hblocked
    cases hblocked

/-- Ticks with the same due rows claim the same batch. -/
theorem claimed_later (job : IndexSyncJob) (later : LaterTicks now t) (n : Nat) :
    claimed job (later.clock n) t = claimed job now t := by
  unfold claimed LinkTable.claimDue
  rw [List.filter_congr (later.due n)]

/-- A blocked tick leaves the queue as it was. -/
theorem tick_blocked (h : Blocked job env now t) : tick job env now t = t := if_pos h

/-- A tick that is blocked blocks those after it. -/
theorem ticks_blocked (later : LaterTicks now t) (h : Blocked job env now t) (n : Nat) :
    ticks job env later.clock t n = t ∧
      Blocked job env (later.clock n) (ticks job env later.clock t n) := by
  have hagain : ∀ m, Blocked job env (later.clock m) t := by
    intro m
    by_contra hgoes
    rw [not_blocked_iff, claimed_later job later m, ← not_blocked_iff] at hgoes
    exact hgoes h
  induction n with
  | zero => exact ⟨rfl, hagain 0⟩
  | succ n ih =>
    have hstays : ticks job env later.clock t (n + 1) = t := by
      rw [ticks, tick_blocked ih.2]
      exact ih.1
    exact ⟨hstays, hstays.symm ▸ hagain (n + 1)⟩

end

/-- RAG ids stay unique, each claimed link gets the transition that it would get alone, and the
ticks do not all block, exactly if no answer gives a row an id that another row holds. -/
theorem tick_isolated_iff (job : IndexSyncJob) (env : Uuid → Outcomes) (now : Time) (t : LinkTable)
    (later : LaterTicks now t) :
    (UniqueColumn (·.ragFileId) (tick job env now t).rows ∧
      (∀ link ∈ claimed job now t,
        (tick job env now t).get link.id = (tickAlone job env now t link).get link.id) ∧
      ∃ n, ¬ Blocked job env (later.clock n) (ticks job env later.clock t n)) ↔
    Apart env (claimed job now t) t.rows := by
  constructor
  · rintro ⟨-, -, n, hgoes⟩
    by_contra hno
    rw [← not_blocked_iff, not_not] at hno
    exact hgoes (ticks_blocked later hno n).2
  · intro hapart
    have hno := noClash_claimed.2 hapart
    refine ⟨(tick job env now t).rag_unique, fun link hl => ?_, 0, ?_⟩
    · rw [(tick_get hl).1 hno]
      refine (tickAlone_get hl fun v hv r hr hu hsome => ?_).symm
      exact hno.unclaimed hl hv hr hu hsome
    · rw [later.start]
      exact not_blocked_iff.2 hapart

/-- RAG registers the first link and answers the second with the file it then has. -/
def duplicateOutcomes (linkId : Uuid) : Outcomes :=
  { Outcomes.unanswered with
    objectSize := fun _ => .ok 0
    originalName := .ok none
    register := if linkId = .ofDigit 1 then .ok ⟨.ofDigit 5, "uploaded".toList, none⟩
      else .error (.ragHttp 409 (some errorDuplicateFile) (some (.ofDigit 5))) }

/-- The second link's failed flush discards the transition of the first, and blocks every tick. -/
theorem duplicate_discards_batch :
    firstLink ∈ claimed defaultJob 0 twoLinks ∧
    (tick defaultJob duplicateOutcomes 0 twoLinks).get firstLink.id ≠
      (tickAlone defaultJob duplicateOutcomes 0 twoLinks firstLink).get firstLink.id ∧
    ∀ n, Blocked defaultJob duplicateOutcomes 0
      (ticks defaultJob duplicateOutcomes (fun _ => 0) twoLinks n) := by
  have hblocked : Blocked defaultJob duplicateOutcomes 0 twoLinks := by
    unfold Blocked
    decide
  refine ⟨by decide, by decide, fun n => ?_⟩
  exact (ticks_blocked ⟨fun _ => 0, rfl, fun _ _ _ => rfl⟩ hblocked n).2

end WebStorage.RowIsolation
