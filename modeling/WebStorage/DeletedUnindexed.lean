import WebStorage.DeletionEffects

set_option autoImplicit false

/-! Runs of deletions and of the sync job: what is deleted does not stay in the index, as long as
no deletion takes a record with it whose removal it does not queue. -/
namespace WebStorage.DeletedUnindexed
open Effect Effect.Prog

variable {w v u t : World} {job : IndexSyncJob} {link : IndexLink} {now : Time}

/-- Links stand for records of the indexed sections, and whatever is gone is retired. -/
structure Inv (w : World) : Prop where
  sections : Sectioned w.db
  retired : ∀ link ∈ w.db.links.rows, w.Gone link → w.Retired link

/-! ### Deletions -/

theorem mem_lost {objects : List Str} {r : FileRecord} (hr : r ∈ w.db.records.rows)
    (h : r.id ∈ w.lost objects) : recordKey r ∈ w.objects ∧ recordKey r ∉ objects := by
  obtain ⟨r', hr', hid⟩ := List.mem_map.1 h
  obtain ⟨hmem, hlost⟩ := List.mem_filter.1 hr'
  rw [RecordTable.eq_of_id hmem hr hid] at hlost
  exact of_decide_eq_true hlost

/-- A link that stands for a record that is still there. -/
theorem not_gone (h : ¬ w.Gone link) : ∃ r ∈ w.db.records.rows, link.fileRecordId = some r.id ∧
    r.status ≠ .deleted ∧ r.id ∉ w.wiped := by
  unfold World.Gone at h
  push Not at h
  obtain ⟨id, hid, r, hget, hstatus, hwiped⟩ := h
  obtain ⟨hmem, hrid⟩ := RecordTable.get_some hget
  rw [← hrid] at hid hwiped
  exact ⟨r, hmem, hid, hstatus, hwiped⟩

theorem Retired.later {link' : IndexLink} (h : w.Retired link) (hstate : link'.state = link.state)
    (hrag : link'.ragFileId = link.ragFileId) (hkey : link'.s3Key = link.s3Key)
    (hobjects : ∀ k ∈ v.objects, k ∈ w.objects) (hasked : ∀ id ∈ w.asked, id ∈ v.asked) :
    v.Retired link' := by
  unfold World.Retired at *
  rw [hstate, hrag, hkey]
  rcases h with h | h | ⟨h, hall⟩ | ⟨h, hskipped | hmissing⟩
  · exact .inl h
  · exact .inr (.inl h)
  · exact .inr (.inr (.inl ⟨h, fun id hid => hasked id (hall id hid)⟩))
  · exact .inr (.inr (.inr ⟨h, .inl hskipped⟩))
  · exact .inr (.inr (.inr ⟨h, .inr fun key hk hin => hmissing key hk (hobjects key hin)⟩))

theorem drops_not_queued {e : Deletion} {d : Db} {r : FileRecord} (h : e.Drops now r) :
    ¬ e.Queues d r := by
  cases e with
  | cleanupPendingRecords => exact fun hqueues => hqueues
  | deleteUser sv adminId targetUserId => exact fun hqueues => hqueues
  | _ => exact h.elim

theorem inv_committed {e : Deletion} {t : Site} (h : Inv w)
    (hcovered : Covered w (.committed e, now)) (henabled : e.Enabled)
    (hexec : Exec Answers (e.program now) ⟨w.db, w.objects⟩ (.ok ()) t) :
    Inv (w.after t.db t.objects) := by
  obtain ⟨hspares, hdone⟩ := wp_sound (does_program e now (s := ⟨w.db, w.objects⟩) h.sections
    henabled) hexec
  obtain ⟨ids, hfades, hmarked, hqueued⟩ := hdone () rfl
  refine ⟨hfades.sectioned h.sections, fun link hlink hgone => ?_⟩
  obtain ⟨old, hold, hdims⟩ := hfades.links link hlink
  rcases hdims.state with hremoved | ⟨hstate, hrag, hkey⟩
  · exact .inl hremoved
  suffices hretired : w.Retired old from
    Retired.later hretired hstate hrag hkey hspares.subset fun _ hid => hid
  by_contra hlive
  obtain ⟨r, hr, hid, hstatus, hwiped⟩ := not_gone fun hgone' => hlive (h.retired old hold hgone')
  -- the record is endangered only if its link is marked
  have hqueues : e.Endangers now w r → e.Queues w.db r := hcovered old hold hlive r hr hid
  have hkept : ¬ (∃ r' ∈ w.db.records.rows, r'.id = r.id ∧ e.Drops now r') := by
    rintro ⟨r', hr', hrid, hdrops⟩
    rw [RecordTable.eq_of_id hr' hr hrid] at hdrops
    exact drops_not_queued hdrops (hqueues (.inr hdrops))
  have hsame : link.fileRecordId = some r.id := by
    rcases hdims.record with hsame | ⟨-, id, hid', hrem⟩
    · exact hsame.trans hid
    · rw [hid] at hid'
      rw [← Option.some.inj hid'] at hrem
      exact absurd hrem hkept
  have hnot : r.id ∉ ids := by
    intro hin
    have hremoved := hmarked link hlink r.id hin hsame
    rw [hstate] at hremoved
    exact hlive (.inl hremoved)
  obtain ⟨r', hr', hw⟩ := hfades.kept r hr hkept
  have hget : t.db.records.get r.id = some r' := by
    rw [← hw.id]
    exact RecordTable.get_of_mem hr'
  rcases hgone r.id hsame r' hget with hdeleted | hwiped'
  · rcases hw.status hdeleted with hdeleted' | hin
    · exact hstatus hdeleted'
    · exact hnot hin
  · rcases List.mem_append.1 hwiped' with hold' | hlost
    · exact hwiped hold'
    · obtain ⟨hbefore, hafter⟩ := mem_lost hr hlost
      have hendangered : e.Endangers now w r := .inl ⟨hbefore, hspares.under _ hbefore hafter⟩
      exact hnot (hqueued r hr (hqueues hendangered) hbefore hafter)

theorem reaches_unwatched {α : Type} {p : FileM α} {s t : Site × List Str} (h : Reaches Watched p s t) :
    Reaches Answers p s.1 t.1 := by
  induction h with
  | here p s => exact .here p s.1
  | call hc _ ih => exact .call hc.1 ih

/-- What a command takes away it was asked to. -/
theorem answers_takesAway {c : FileCmd} {s t : Site} {x : Except Exc c.Resp} (h : Answers c s x t)
    {k : Str} (hbefore : k ∈ s.objects) (hafter : k ∉ t.objects) : ∃ key ∈ takesAway c, Under key k := by
  have hsame : t.objects ≠ s.objects := fun heq => hafter (heq ▸ hbefore)
  have hasked : ∀ a path, (∃ key, objectKey a path = .ok key ∧ Under key k) →
      ∃ key ∈ (objectKey a path).toOption.toList, Under key k := by
    intro a path hkey
    obtain ⟨key, hok, hunder⟩ := hkey
    rw [hok]
    exact ⟨key, List.mem_singleton_self key, hunder⟩
  cases c with
  | uuid4 => exact absurd (congrArg Site.objects h) hsame
  | db f => exact absurd h.2 hsame
  | store a op =>
    have hserve : StoreServes a op s.objects x t.objects := h.2
    cases op with
    | delete path => exact hasked a path (hserve.2.1 k hbefore hafter)
    | rename oldPath newPath => exact hasked a oldPath (hserve k hbefore hafter)
    | write path data size => exact absurd (hserve k hbefore) hafter
    | mkdir path => exact absurd (hserve k hbefore) hafter
    | list path => exact absurd hserve.1 hsame
    | listStaleTmpEntryPaths cutoff => exact absurd hserve.1 hsame
    | _ => exact absurd hserve hsame

/-- An object that is gone when a deletion is stopped is one that the bucket was asked to take away. -/
theorem lost_asked {α : Type} {p : FileM α} {s t : Site} {keys : List Str}
    (h : Reaches Watched p (s, []) (t, keys)) :
    ∀ k ∈ s.objects, k ∉ t.objects → ∃ key ∈ keys, Under key k := by
  have hstep : ∀ (c : FileCmd) (u : Site × List Str) (x : Except Exc c.Resp) (v : Site × List Str),
      (∀ k ∈ s.objects, k ∉ u.1.objects → ∃ key ∈ u.2, Under key k) → Watched c u x v →
      ∀ k ∈ s.objects, k ∉ v.1.objects → ∃ key ∈ v.2, Under key k := by
    intro c u x v hu hx k hbefore hafter
    obtain ⟨hanswer, hkeys⟩ := hx
    rw [hkeys]
    by_cases hstill : k ∈ u.1.objects
    · obtain ⟨key, hkey, hunder⟩ := answers_takesAway hanswer hstill hafter
      exact ⟨key, List.mem_append_right _ hkey, hunder⟩
    · obtain ⟨key, hkey, hunder⟩ := hu k hbefore hstill
      exact ⟨key, List.mem_append_left _ hkey, hunder⟩
  exact reaches_invariant (J := fun u => ∀ k ∈ s.objects, k ∉ u.1.objects → ∃ key ∈ u.2, Under key k)
    hstep h fun k hk hnot => absurd hk hnot

theorem inv_rolledBack {e : Deletion} {t : Site} {keys : List Str} (h : Inv w)
    (hcovered : Covered w (.rolledBack e keys, now)) (henabled : e.Enabled)
    (hreach : Reaches Watched (e.program now) (⟨w.db, w.objects⟩, []) (t, keys)) :
    Inv (w.after w.db t.objects) := by
  have hspares : Spares (e.Wipes now w.db) ⟨w.db, w.objects⟩ t :=
    wp_crash (does_program e now (s := ⟨w.db, w.objects⟩) h.sections henabled) (reaches_unwatched hreach)
  refine ⟨h.sections, fun link hlink hgone => ?_⟩
  suffices hretired : w.Retired link from
    Retired.later hretired rfl rfl rfl hspares.subset fun _ hid => hid
  by_contra hlive
  obtain ⟨r, hr, hid, hstatus, hwiped⟩ := not_gone fun hgone' => hlive (h.retired link hlink hgone')
  rcases hgone r.id hid r (RecordTable.get_of_mem hr) with hdeleted | hwiped'
  · exact hstatus hdeleted
  · rcases List.mem_append.1 hwiped' with hold' | hlost
    · exact hwiped hold'
    · obtain ⟨hbefore, hafter⟩ := mem_lost hr hlost
      obtain ⟨key, hkey, hunder⟩ := lost_asked hreach _ hbefore hafter
      exact hcovered link hlink hlive r hr hid hbefore key hkey hunder

/-! ### The sync job -/

/-- The sync job leaves records and bucket alone, and what RAG was asked stays asked. -/
structure Frozen (w v : World) : Prop where
  records : v.db.records = w.db.records
  objects : v.objects = w.objects
  wiped : v.wiped = w.wiped
  asked : ∀ id ∈ w.asked, id ∈ v.asked

theorem Frozen.refl (w : World) : Frozen w w := ⟨rfl, rfl, rfl, fun _ h => h⟩

theorem Frozen.trans (h : Frozen w v) (h' : Frozen v u) : Frozen w u :=
  ⟨h'.records.trans h.records, h'.objects.trans h.objects, h'.wiped.trans h.wiped,
    fun id hid => h'.asked id (h.asked id hid)⟩

theorem Frozen.gone (h : Frozen w v) (hgone : v.Gone link) : w.Gone link := by
  unfold World.Gone at *
  rw [h.records, h.wiped] at hgone
  exact hgone

theorem Frozen.missing (h : Frozen w v) {path : Str} : v.Missing path ↔ w.Missing path := by
  unfold World.Missing
  rw [h.objects]

/-- A row after some transitions of the sync job. -/
structure Successor (link row : IndexLink) : Prop where
  id : row.id = link.id
  fileRecordId : row.fileRecordId = link.fileRecordId
  fileSection : row.fileSection = link.fileSection

theorem successor_apply (tr : Transition) {row : IndexLink} (h : Successor link row) :
    Successor link (tr.apply now row) := ⟨h.id, h.fileRecordId, h.fileSection⟩

/-- The processing of one link is under way: the other rows are as they were, and the row of the
link satisfies `P`. -/
structure Processing (w : World) (link : IndexLink) (P : IndexLink → Prop) (v : World) : Prop where
  frozen : Frozen w v
  others : ∀ id, id ≠ link.id → v.db.links.get id = w.db.links.get id
  row : ∃ row, v.db.links.get link.id = some row ∧ Successor link row ∧ P row

/-- A transition of the link that keeps `P`. -/
theorem processing_answers {P : IndexLink → Prop} {c : SyncCmd} {x : Except Exc c.Resp}
    (hv : Processing w link P v) (htouches : c.Touches link.id)
    (hP : ∀ tr at_ row, c = .applyTransition link.id tr at_ → P row → P (tr.apply at_ row))
    (h : SyncAnswers c v x u) : Processing w link P u := by
  obtain ⟨hserve, -, hobjects, hwiped, hasked⟩ := h
  have hasked' : ∀ id ∈ v.asked, id ∈ u.asked := by
    intro id hid
    rw [hasked]
    exact List.mem_append_left _ hid
  -- every command but the write leaves the tables as they are
  have hsame : u.db = v.db → Processing w link P u := by
    intro hdb
    refine ⟨hv.frozen.trans ⟨by rw [hdb], hobjects, hwiped, hasked'⟩, ?_, ?_⟩
    · rw [hdb]
      exact hv.others
    · rw [hdb]
      exact hv.row
  rcases hserve with ⟨e, -, hdb⟩ | hserve
  · exact hsame hdb
  cases c with
  | applyTransition linkId tr at_ =>
    have hid : linkId = link.id := htouches
    subst hid
    have happly : onLinks (fun t => t.applyTransition link.id tr at_) v.db = (x, u.db) := hserve
    cases ht : v.db.links.applyTransition link.id tr at_ with
    | error e =>
      rw [onLinks_error (f := fun t => t.applyTransition link.id tr at_) ht] at happly
      exact hsame (congrArg Prod.snd happly).symm
    | ok res =>
      have hok : v.db.links.applyTransition link.id tr at_ = .ok (res.1, res.2) := ht
      rw [onLinks_ok (f := fun t => t.applyTransition link.id tr at_) hok] at happly
      have hdb : u.db = { v.db with links := res.2 } := (congrArg Prod.snd happly).symm
      have hget := LinkTable.applyTransition_get hok
      obtain ⟨row, hrow, hsuccessor, hProw⟩ := hv.row
      refine ⟨hv.frozen.trans ⟨by rw [hdb], hobjects, hwiped, hasked'⟩, fun id hne => ?_, ?_⟩
      · rw [hdb]
        dsimp only
        rw [hget, if_neg hne]
        exact hv.others id hne
      · refine ⟨tr.apply at_ row, ?_, successor_apply tr hsuccessor, hP tr at_ row rfl hProw⟩
        rw [hdb]
        dsimp only
        rw [hget, if_pos rfl, hrow]
        rfl
  | claimDue limit at_ => exact htouches.elim
  | getByFileRecordId fileRecordId => exact htouches.elim
  | _ => exact hsame hserve

/-- The queue answers a transition with the row it names. -/
theorem own_answers {c : SyncCmd} {a : c.Resp} (h : SyncAnswers c v (.ok a) u) :
    SyncCmd.Own c a := by
  cases c with
  | applyTransition linkId tr at_ =>
    intro row hrow
    rcases h.1 with ⟨e, he, -⟩ | hserve
    · cases he
    have happly : onLinks (fun t => t.applyTransition linkId tr at_) v.db = (.ok a, u.db) := hserve
    cases ht : v.db.links.applyTransition linkId tr at_ with
    | error e =>
      rw [onLinks_error (f := fun t => t.applyTransition linkId tr at_) ht] at happly
      cases congrArg Prod.fst happly
    | ok res =>
      have hok : v.db.links.applyTransition linkId tr at_ = .ok (res.1, res.2) := ht
      rw [onLinks_ok (f := fun t => t.applyTransition linkId tr at_) hok] at happly
      have hres : res.1 = a := Except.ok.inj (congrArg Prod.fst happly)
      rw [hres, hrow] at hok
      obtain ⟨model, hmodel, rfl⟩ := LinkTable.applyTransition_own hok
      exact (LinkTable.get_some hmodel).2
  | _ => trivial

/-- What the processing of one link leaves behind. -/
def Processed (w : World) (link : IndexLink) (v : World) : Prop :=
  Inv v ∧ Frozen w v ∧ ∀ id, id ≠ link.id → v.db.links.get id = w.db.links.get id

theorem Processing.done {P : IndexLink → Prop} (h : Processing w link P v) (hw : Inv w)
    (hlink : w.db.links.get link.id = some link)
    (hP : ∀ row, Successor link row → w.Gone link → P row → v.Retired row) :
    Processed w link v := by
  -- each row is the row in hand, or one that was there before
  have hrows : ∀ row ∈ v.db.links.rows, (Successor link row ∧ P row) ∨ row ∈ w.db.links.rows := by
    intro row hrow
    have hget := LinkTable.get_of_mem hrow
    by_cases hid : row.id = link.id
    · obtain ⟨row', hrow', hsuccessor, hProw⟩ := h.row
      rw [hid, hrow'] at hget
      rw [← Option.some.inj hget]
      exact .inl ⟨hsuccessor, hProw⟩
    · rw [h.others _ hid] at hget
      exact .inr (LinkTable.get_some hget).1
  have hmem := (LinkTable.get_some hlink).1
  refine ⟨⟨fun row hrow => ?_, fun row hrow hgone => ?_⟩, h.frozen, h.others⟩
  · rw [h.frozen.records]
    rcases hrows row hrow with ⟨hsuccessor, -⟩ | hold
    · rw [hsuccessor.fileSection, hsuccessor.fileRecordId]
      exact hw.sections link hmem
    · exact hw.sections row hold
  · have hgone' := h.frozen.gone hgone
    rcases hrows row hrow with ⟨hsuccessor, hProw⟩ | hold
    · refine hP row hsuccessor (fun id hid => ?_) hProw
      exact hgone' id (hsuccessor.fileRecordId.trans hid)
    · refine Retired.later (hw.retired row hold hgone') rfl rfl rfl (fun k hk => ?_) h.frozen.asked
      rw [h.frozen.objects] at hk
      exact hk

/-- The processing of a link whose record is still there. -/
theorem processed_live (hw : Inv w) (hlink : w.db.links.get link.id = some link)
    (hlive : ¬ w.Gone link) :
    wp SyncAnswers (Frozen w) (job.process link now) (fun _ => Processed w link) w := by
  have hwp : wp SyncAnswers (Processing w link fun _ => True) (job.process link now)
      (fun _ => Processing w link fun _ => True) w := by
    refine wp_of_all (IndexSyncJob.stays_process job link now) ?_ fun c s x t hc hs hx => ?_
    · exact ⟨.refl w, fun _ _ => rfl, link, hlink, ⟨rfl, rfl, rfl⟩, trivial⟩
    · refine ⟨processing_answers hs hc (fun _ _ _ _ h => h) hx, fun a ha => ?_⟩
      rw [ha] at hx
      exact own_answers hx
  refine wp_weaken (wp_mono hwp fun _ t _ ht => ?_) fun t ht => ht.frozen
  exact ht.done hw hlink fun _ _ hgone => absurd hgone hlive

/-- A row on its way out of the index: unless RAG does not know it, a failure comes after RAG was
asked. -/
def Leaving (link : IndexLink) (terminal : IndexLinkState) (row : IndexLink) : Prop :=
  row.ragFileId = link.ragFileId ∧ (row.state = terminal ∨ row.state = .failed)

theorem leaving_apply {terminal : IndexLinkState} {tr : Transition} {row : IndexLink}
    (hrag : tr.ragFileId = none)
    (hstate : tr.state = none ∨ tr.state = some terminal ∨ tr.state = some .failed)
    (h : Leaving link terminal row) : Leaving link terminal (tr.apply now row) := by
  refine ⟨?_, ?_⟩
  · simpa [Transition.apply, Transition.assign, hrag] using h.1
  · rcases hstate with hstate | hstate | hstate
    · simpa [Transition.apply, Transition.assign, hstate] using h.2
    · simp [Transition.apply, Transition.assign, hstate]
    · simp [Transition.apply, Transition.assign, hstate]

theorem leaving_run {terminal : IndexLinkState} {p : Sync Outcome}
    (hp : p.All (SyncCmd.Retires link.id terminal) fun _ _ => True)
    (hv : Processing w link (Leaving link terminal) v) :
    wp SyncAnswers (fun u => Processing w link (Leaving link terminal) u ∧
        ∀ id ∈ v.asked, id ∈ u.asked) p
      (fun _ u => Processing w link (Leaving link terminal) u ∧ ∀ id ∈ v.asked, id ∈ u.asked) v := by
  refine wp_of_all hp ⟨hv, fun _ h => h⟩ fun c s x t hc hs hx => ⟨⟨?_, ?_⟩, fun _ _ => trivial⟩
  · refine processing_answers hs.1 ?_ ?_ hx
    · cases c with
      | applyTransition linkId tr at_ => exact hc.1
      | deleteVectors ragFileId userId => trivial
      | _ => exact hc.elim
    · rintro tr at_ row rfl hrow
      exact leaving_apply hc.2.1 hc.2.2 hrow
  · intro id hid
    rw [hx.2.2.2.2]
    exact List.mem_append_left _ (hs.2 id hid)

/-- RAG is asked before anything else. -/
theorem process_asks {terminal : IndexLinkState} {ragFileId : Uuid}
    (hterminal : terminal = .removed ∨ terminal = .archived) (hstate : link.state = terminal)
    (hrag : link.ragFileId = some ragFileId) : ∃ k, job.process link now =
      .call (.deleteVectors ragFileId link.userId) k := by
  have hdispatch : job.dispatch link now = job.remove link now terminal := by
    rcases hterminal with rfl | rfl <;> simp only [IndexSyncJob.dispatch, hstate]
  unfold IndexSyncJob.process
  rw [hdispatch, IndexSyncJob.remove, hrag]
  dsimp only
  rw [IndexSyncJob.deleteVectors, hrag]
  exact ⟨_, rfl⟩

/-- The processing of a link whose removal is queued. -/
theorem processed_leaving {terminal : IndexLinkState} (hw : Inv w)
    (hlink : w.db.links.get link.id = some link)
    (hterminal : terminal = .removed ∨ terminal = .archived) (hstate : link.state = terminal) :
    wp SyncAnswers (Frozen w) (job.process link now) (fun _ => Processed w link) w := by
  have hall : (job.process link now).All (SyncCmd.Retires link.id terminal) (fun _ _ => True) :=
    IndexSyncJob.retires_process hterminal hstate
  have hstart : Processing w link (Leaving link terminal) w :=
    ⟨.refl w, fun _ _ => rfl, link, hlink, ⟨rfl, rfl, rfl⟩, rfl, .inl hstate⟩
  have hretired : ∀ {v : World}, (∀ ragFileId, link.ragFileId = some ragFileId →
      ragFileId ∈ v.asked) → ∀ row, Leaving link terminal row → v.Retired row := by
    rintro v hasked row ⟨hrag, hstate' | hfailed⟩
    · rcases hterminal with rfl | rfl
      · exact .inl hstate'
      · exact .inr (.inl hstate')
    · exact .inr (.inr (.inl ⟨hfailed, fun id hid => hasked id (hrag.symm.trans hid)⟩))
  cases hrag : link.ragFileId with
  | none =>
    -- RAG has never known the link: nothing has to be asked
    have hunknown : ∀ {v : World}, ∀ ragFileId, link.ragFileId = some ragFileId →
        ragFileId ∈ v.asked := by
      intro v ragFileId hsome
      rw [hrag] at hsome
      cases hsome
    refine wp_weaken (wp_mono (leaving_run hall hstart) fun _ t _ ht => ?_) fun t ht => ht.1.frozen
    exact ht.1.done hw hlink fun row _ _ hrow => hretired hunknown row hrow
  | some ragFileId =>
    obtain ⟨k, hk⟩ : ∃ k, job.process link now = .call (.deleteVectors ragFileId link.userId) k :=
      process_asks hterminal hstate hrag
    rw [hk] at hall ⊢
    refine ⟨.refl w, fun x t ht => ?_⟩
    -- the first command asks RAG to delete it, whatever it answers
    have hasked : ragFileId ∈ t.asked := by
      rw [ht.2.2.2.2]
      exact List.mem_append_right _ (List.mem_singleton_self _)
    have htouches : (SyncCmd.deleteVectors ragFileId link.userId).Touches link.id := trivial
    have hnext : Processing w link (Leaving link terminal) t :=
      processing_answers hstart htouches (fun tr at_ row hc => by cases hc) ht
    have hrest := leaving_run (hall.2 x fun _ _ => trivial) hnext
    refine wp_weaken (wp_mono hrest fun _ u _ hu => ?_) fun u hu => hu.1.frozen
    refine hu.1.done hw hlink fun row _ _ hrow => hretired (fun id hid => ?_) row hrow
    rw [hrag] at hid
    exact Option.some.inj hid ▸ hu.2 ragFileId hasked

/-! A link that RAG does not know, and that has no object any more, is not registered. -/

/-- The link stays unknown to RAG, and at its key. -/
def Unknown (link : IndexLink) (row : IndexLink) : Prop :=
  row.ragFileId = none ∧ row.s3Key = link.s3Key

abbrev Absent (w : World) (link : IndexLink) (v : World) : Prop :=
  Processing w link (Unknown link) v

theorem absent_write {tr : Transition} (hrag : tr.ragFileId = none) (hkey : tr.s3Key = none)
    (hv : Absent w link v) :
    wp SyncAnswers (Absent w link) (IndexSyncJob.write link now tr) (fun _ => Absent w link) v := by
  refine ⟨hv, fun x t ht => ?_⟩
  have htouches : (SyncCmd.applyTransition link.id tr now).Touches link.id := rfl
  have hnext : Absent w link t := by
    refine processing_answers hv htouches ?_ ht
    rintro tr' at_ row hc hrow
    cases hc
    constructor
    · simpa [Transition.apply, Transition.assign, hrag] using hrow.1
    · simpa [Transition.apply, Transition.assign, hkey] using hrow.2
  exact ⟨hnext, hnext⟩

theorem absent_outcome {tr : Transition} {o : Outcome} (hrag : tr.ragFileId = none)
    (hkey : tr.s3Key = none) (hv : Absent w link v) :
    wp SyncAnswers (Absent w link) ((IndexSyncJob.write link now tr).bind fun _ => done (.ok o))
      (fun _ => Absent w link) v := by
  rw [wp_bind]
  refine wp_mono (absent_write hrag hkey hv) fun x t ht _ => ?_
  cases x with
  | ok found => exact ⟨ht, ht⟩
  | error e => exact ht

theorem absent_missObject (hv : Absent w link v) :
    wp SyncAnswers (Absent w link) (job.missObject link now) (fun _ => Absent w link) v := by
  unfold IndexSyncJob.missObject
  split
  · exact absent_outcome rfl rfl hv
  · dsimp only
    split
    · exact absent_outcome rfl rfl hv
    · exact absent_outcome rfl rfl hv

/-- Whatever ends the search ends the processing. -/
def NotLocated {β : Type} (w : World) (link : IndexLink) (x : Except Exc (Outcome ⊕ β)) (v : World) :
    Prop := Absent w link v ∧ ∀ b, x ≠ .ok (.inr b)

theorem notLocated_inl {β : Type} {p : Sync Outcome}
    (hp : wp SyncAnswers (Absent w link) p (fun _ => Absent w link) v) :
    wp SyncAnswers (Absent w link) (p.bind fun o => done (.ok (.inl o : Outcome ⊕ β)))
      (NotLocated w link) v := by
  rw [wp_bind]
  refine wp_mono hp fun x t ht _ => ?_
  cases x with
  | ok o => exact ⟨ht, ht, fun b hb => by cases hb⟩
  | error e => exact ⟨ht, fun b hb => by cases hb⟩

theorem absent_command {c : SyncCmd} {x : Except Exc c.Resp} (hv : Absent w link v)
    (htouches : c.Touches link.id) (hwrites : ∀ id tr at_, c ≠ .applyTransition id tr at_)
    (h : SyncAnswers c v x u) : Absent w link u :=
  processing_answers hv htouches (fun tr at_ row hc => absurd hc (hwrites _ tr at_)) h

theorem absent_locate (hmissing : w.Missing link.s3Key) (hv : Absent w link v) :
    wp SyncAnswers (Absent w link) (job.locate link now) (NotLocated w link) v := by
  -- an object that is missing cannot be read
  have hread : ∀ v, Absent w link v → wp SyncAnswers (Absent w link)
      (job.readPayloadHash link now) (NotLocated w link) v := by
    intro v hv
    unfold IndexSyncJob.readPayloadHash
    rw [bind_eq, wp_bind, wp_attempt]
    refine ⟨hv, fun x t ht => ?_⟩
    have hnext := absent_command (c := .objectRead link.s3Key) hv trivial (fun _ _ _ => nofun) ht
    refine ⟨hnext, ?_⟩
    cases x with
    | ok payload => exact absurd (hv.frozen.missing.2 hmissing) (ht.2.1 payload rfl)
    | error e =>
      dsimp only
      split
      · rename_i heq
        cases heq
      · exact notLocated_inl (absent_missObject hnext)
      · exact ⟨hnext, hnext, fun b hb => by cases hb⟩
  unfold IndexSyncJob.locate
  split
  · unfold IndexSyncJob.readObjectHash IndexSyncJob.objectPresent
    rw [bind_eq, wp_bind]
    refine wp_catchWith ⟨hv, fun x t ht => ?_⟩
    have hnext := absent_command (c := .objectExists link.s3Key) hv trivial (fun _ _ _ => nofun) ht
    refine ⟨hnext, ?_⟩
    have hgo : ∀ present : Bool, wp SyncAnswers (Absent w link)
        (if present = false then do return .inl (← job.missObject link now)
          else job.readPayloadHash link now) (NotLocated w link) t := by
      intro present
      split
      · exact notLocated_inl (absent_missObject hnext)
      · exact hread t hnext
    cases x with
    | ok present => exact hgo present
    | error e =>
      dsimp only
      split
      · exact ⟨hnext, hgo false⟩
      · exact ⟨hnext, hnext, fun b hb => by cases hb⟩
  · rw [bind_eq, wp_bind, wp_attempt]
    refine ⟨hv, fun x t ht => ?_⟩
    have hnext := absent_command (c := .objectSize link.s3Key) hv trivial (fun _ _ _ => nofun) ht
    refine ⟨hnext, ?_⟩
    cases x with
    | ok size => exact absurd (hv.frozen.missing.2 hmissing) (ht.2.1 size rfl)
    | error e =>
      dsimp only
      split
      · rename_i heq
        cases heq
      · exact notLocated_inl (absent_outcome rfl rfl hnext)
      · exact ⟨hnext, hnext, fun b hb => by cases hb⟩

theorem absent_register (hmissing : w.Missing link.s3Key) (hv : Absent w link v) :
    wp SyncAnswers (Absent w link) (job.register link now) (fun _ => Absent w link) v := by
  unfold IndexSyncJob.register
  split
  · exact absent_outcome rfl rfl hv
  have hmanifest : wp SyncAnswers (Absent w link) (job.manifest link now) (NotLocated w link) v := by
    unfold IndexSyncJob.manifest
    rw [bind_eq, wp_bind]
    refine wp_mono (absent_locate hmissing hv) fun x t ht hx => ?_
    cases x with
    | error e => exact ⟨ht, fun b hb => by cases hb⟩
    | ok located =>
      cases located with
      | inl outcome => exact ⟨ht, ht, fun b hb => by cases hb⟩
      | inr found => exact absurd rfl (hx.2 found)
  rw [bind_eq, wp_bind]
  refine wp_mono hmanifest fun x t ht hx => ?_
  cases x with
  | error e => exact ht
  | ok prepared =>
    cases prepared with
    | inl outcome => exact ⟨ht, ht⟩
    | inr manifest => exact absurd rfl (hx.2 manifest)

theorem absent_process (hdue : link.state.due) (hrag : link.ragFileId = none)
    (hstate : ¬ (link.state = .removed ∨ link.state = .archived))
    (hmissing : w.Missing link.s3Key) (hv : Absent w link v) :
    wp SyncAnswers (Absent w link) (job.process link now) (fun _ => Absent w link) v := by
  have hdispatch : job.dispatch link now = job.register link now := by
    unfold IndexSyncJob.dispatch IndexSyncJob.poll IndexSyncJob.reindex
    rw [hrag]
    cases hlink : link.state with
    | pending => rfl
    | submitted => rfl
    | reindexPending => rfl
    | removed => exact absurd (.inl hlink) hstate
    | archived => exact absurd (.inr hlink) hstate
    | _ =>
      rw [hlink] at hdue
      cases hdue
  unfold IndexSyncJob.process
  rw [hdispatch]
  refine wp_catchWith (wp_catchWith (wp_mono (absent_register hmissing hv) fun x t ht _ => ?_))
  cases x with
  | ok outcome => exact ht
  | error e =>
    have hhandled : wp SyncAnswers (Absent w link) (job.onProcessError link now e)
        (fun _ => Absent w link) t := by
      unfold IndexSyncJob.onProcessError
      split
      · unfold IndexSyncJob.scheduleRetry
        dsimp only
        split
        · exact absent_outcome rfl rfl ht
        · exact absent_outcome rfl rfl ht
      · exact absent_outcome rfl rfl ht
      · exact ⟨ht, ht⟩
    refine wp_mono hhandled fun y u hu _ => ?_
    cases y with
    | ok outcome => exact hu
    | error e' => exact ⟨hu, hu⟩

theorem processed_absent (hw : Inv w) (hlink : w.db.links.get link.id = some link)
    (hdue : link.state.due) (hrag : link.ragFileId = none)
    (hstate : ¬ (link.state = .removed ∨ link.state = .archived))
    (hmissing : w.Missing link.s3Key) :
    wp SyncAnswers (Frozen w) (job.process link now) (fun _ => Processed w link) w := by
  have hstart : Absent w link w := ⟨.refl w, fun _ _ => rfl, link, hlink, ⟨rfl, rfl, rfl⟩, hrag, rfl⟩
  have hrun : wp SyncAnswers (Absent w link) (job.process link now) (fun _ => Absent w link) w :=
    absent_process hdue hrag hstate hmissing hstart
  refine wp_weaken (wp_mono hrun fun _ t _ ht => ?_) fun t ht => ht.frozen
  refine ht.done hw hlink fun row _ _ hrow => .inr (.inr (.inr ⟨hrow.1, .inr ?_⟩))
  rw [hrow.2]
  exact ht.frozen.missing.2 hmissing

/-- The processing of any due link. -/
theorem processed (hw : Inv w) (hlink : w.db.links.get link.id = some link)
    (hdue : link.state.due) :
    wp SyncAnswers (Frozen w) (job.process link now) (fun _ => Processed w link) w := by
  by_cases hgone : w.Gone link
  swap
  · exact processed_live hw hlink hgone
  have hretired := hw.retired link (LinkTable.get_some hlink).1 hgone
  have hfailed : ∀ state, link.state = state → state.due = false → False := by
    intro state hstate hnot
    rw [hstate, hnot] at hdue
    cases hdue
  rcases hretired with hremoved | harchived | ⟨hstate, -⟩ | ⟨hrag, hskipped | hmissing⟩
  · exact processed_leaving hw hlink (.inl rfl) hremoved
  · exact processed_leaving hw hlink (.inr rfl) harchived
  · exact (hfailed _ hstate rfl).elim
  · exact (hfailed _ hskipped rfl).elim
  · by_cases hstate : link.state = .removed ∨ link.state = .archived
    · rcases hstate with hremoved | harchived
      · exact processed_leaving hw hlink (.inl rfl) hremoved
      · exact processed_leaving hw hlink (.inr rfl) harchived
    · exact processed_absent hw hlink hdue hrag hstate hmissing

/-- A batch that was claimed together: each link is due, and its row is still as it was claimed. -/
theorem processed_all (links : List IndexLink) (hw : Inv v) (hframe : Frozen w v)
    (hnodup : (links.map (·.id)).Nodup)
    (hlinks : ∀ link ∈ links, v.db.links.get link.id = some link ∧ link.state.due) :
    wp SyncAnswers (Frozen w) (job.processAll now links) (fun _ u => Inv u ∧ Frozen w u) v := by
  induction links generalizing v with
  | nil => exact ⟨hframe, hw, hframe⟩
  | cons link rest ih =>
    obtain ⟨hget, hdue⟩ := hlinks link List.mem_cons_self
    have hfirst : wp SyncAnswers (Frozen v) (job.process link now) (fun _ => Processed v link) v :=
      processed hw hget hdue
    unfold IndexSyncJob.processAll
    rw [bind_eq, wp_bind]
    refine wp_weaken (wp_mono hfirst fun x t _ ht => ?_) fun t ht => hframe.trans ht
    have hinv := ht.1
    have hframe' := hframe.trans ht.2.1
    cases x with
    | error e => exact ⟨hinv, hframe'⟩
    | ok outcome =>
      obtain ⟨hne, hrestnodup⟩ := List.nodup_cons.1 hnodup
      have hrest : ∀ l ∈ rest, t.db.links.get l.id = some l ∧ l.state.due := by
        intro l hl
        obtain ⟨hlget, hldue⟩ := hlinks l (List.mem_cons_of_mem _ hl)
        have hlne : l.id ≠ link.id := by
          intro heq
          have hin : l.id ∈ rest.map (·.id) := List.mem_map_of_mem hl
          rw [heq] at hin
          exact hne hin
        exact ⟨(ht.2.2 l.id hlne).trans hlget, hldue⟩
      dsimp only
      rw [bind_eq, wp_bind]
      refine wp_mono (ih hinv hframe' hrestnodup hrest) fun y u hu hdone => ?_
      cases y with
      | ok outcomes => exact ⟨hu, hdone⟩
      | error e => exact hdone

/-- A query changes no table. -/
theorem inv_queried (hw : Inv w) (hdb : t.db = w.db) (hobjects : t.objects = w.objects)
    (hwiped : t.wiped = w.wiped) (hasked : t.asked = w.asked ++ []) : Inv t ∧ Frozen w t := by
  have hframe : Frozen w t := by
    refine ⟨by rw [hdb], hobjects, hwiped, fun id hid => ?_⟩
    rw [hasked]
    exact List.mem_append_left _ hid
  refine ⟨⟨hdb ▸ hw.sections, fun link hlink hgone => ?_⟩, hframe⟩
  rw [hdb] at hlink
  refine Retired.later (hw.retired link hlink (hframe.gone hgone)) rfl rfl rfl (fun k hk => ?_)
    hframe.asked
  rwa [hframe.objects] at hk

theorem processed_run (hw : Inv w) :
    wp SyncAnswers (Frozen w) (job.run now) (fun _ u => Inv u ∧ Frozen w u) w := by
  unfold IndexSyncJob.run
  split
  · exact ⟨.refl w, hw, .refl w⟩
  rw [bind_eq, wp_bind]
  refine ⟨.refl w, fun x t ht => ?_⟩
  -- the query changes nothing
  have hdb : t.db = w.db := by
    rcases ht.1 with ⟨e, -, hdb⟩ | hserve
    · exact hdb
    · exact hserve.2
  obtain ⟨hinv, hframe⟩ := inv_queried hw hdb ht.2.2.1 ht.2.2.2.1 ht.2.2.2.2
  refine ⟨hframe, ?_⟩
  cases x with
  | error e => exact ⟨hinv, hframe⟩
  | ok links =>
    have hclaimed : w.db.links.claimDue job.batchSize now = .ok links := by
      rcases ht.1 with ⟨e, he, -⟩ | hserve
      · cases he
      · exact hserve.1.symm
    obtain ⟨hnodup, hspec⟩ := LinkTable.claimDue_spec hclaimed
    have hlinks : ∀ link ∈ links, t.db.links.get link.id = some link ∧ link.state.due := by
      intro link hlink
      obtain ⟨hmem, hdue⟩ := hspec link hlink
      simp only [LinkTable.isDue, Bool.and_eq_true] at hdue
      rw [hdb]
      exact ⟨LinkTable.get_of_mem hmem, hdue.1.1⟩
    dsimp only
    rw [bind_eq, wp_bind]
    refine wp_mono (processed_all links hinv hframe hnodup hlinks) fun y u hu hdone => ?_
    cases y with
    | ok outcomes => exact ⟨hu, hdone⟩
    | error e => exact hdone

theorem due_of_shouldNotify (h : shouldNotify link = true) : link.state.due := by
  simp only [shouldNotify, Bool.and_eq_true, Bool.or_eq_true, decide_eq_true_eq] at h
  rcases h.2 with hremoved | hpending
  · rw [hremoved]
    rfl
  · rw [hpending.1]
    rfl

theorem processed_notifyAll (ids : List Uuid) (hw : Inv v) (hframe : Frozen w v) :
    wp SyncAnswers (Frozen w) (notifyAll job now ids) (fun _ u => Inv u ∧ Frozen w u) v := by
  induction ids generalizing v with
  | nil => exact ⟨hframe, hw, hframe⟩
  | cons id rest ih =>
    unfold notifyAll
    rw [bind_eq, wp_bind]
    refine ⟨hframe, fun x t ht => ?_⟩
    have hdb : t.db = v.db := by
      rcases ht.1 with ⟨e, -, hdb⟩ | hserve
      · exact hdb
      · exact hserve.2
    obtain ⟨hinv, hframe'⟩ := inv_queried hw hdb ht.2.2.1 ht.2.2.2.1 ht.2.2.2.2
    have hlater := hframe.trans hframe'
    refine ⟨hlater, ?_⟩
    cases x with
    | error e => exact ⟨hinv, hlater⟩
    | ok found =>
      have hrest := ih hinv hlater
      dsimp only
      cases found with
      | none => exact hrest
      | some link =>
        dsimp only
        split
        · rename_i hnotify
          have hget : t.db.links.get link.id = some link := by
            rcases ht.1 with ⟨e, he, -⟩ | hserve
            · cases he
            · have hfound : v.db.links.byFileRecordId id = some link :=
                (Except.ok.inj hserve.1).symm
              rw [hdb]
              exact LinkTable.get_of_mem (LinkTable.byFileRecordId_some hfound).1
          have hprocessed : wp SyncAnswers (Frozen t) (job.process link now)
              (fun _ => Processed t link) t := processed hinv hget (due_of_shouldNotify hnotify)
          rw [bind_eq, wp_bind, wp_attempt]
          refine wp_weaken (wp_mono hprocessed fun y u _ hu => ?_) fun u hu => hlater.trans hu
          exact ih hu.1 (hlater.trans hu.2.1)
        · exact hrest

theorem inv_synced {α : Type} {p : Sync α} (hw : Inv w)
    (hp : wp SyncAnswers (Frozen w) p (fun _ u => Inv u ∧ Frozen w u) w) (h : Synced p w u) :
    Inv u := by
  cases h with
  | commit hexec => exact (wp_sound hp hexec).2.1
  | stopped hreach =>
    -- the tables are the old ones, and what was asked stays asked
    rename_i v
    have hframe : Frozen w v := wp_crash hp hreach
    refine ⟨hw.sections, fun link hlink hgone => ?_⟩
    have hback : Frozen w { v with db := w.db } := ⟨rfl, hframe.objects, hframe.wiped, hframe.asked⟩
    refine Retired.later (hw.retired link hlink (hback.gone hgone)) rfl rfl rfl (fun k hk => ?_)
      hframe.asked
    have hk' : k ∈ v.objects := hk
    rwa [hframe.objects] at hk'

theorem inv_step {e : Event × Time} (hw : Inv w) (hcovered : Covered w e) (h : Step w e u) :
    Inv u := by
  cases h with
  | committed henabled hexec => exact inv_committed hw hcovered henabled hexec
  | rolledBack henabled hreach => exact inv_rolledBack hw hcovered henabled hreach
  | tick hsynced => exact inv_synced hw (processed_run hw) hsynced
  | notify hsynced =>
    refine inv_synced hw ?_ hsynced
    unfold notifyIndexLinks
    split
    · exact processed_notifyAll _ hw (.refl w)
    · exact ⟨.refl w, hw, .refl w⟩

/-- A bucket that answers what it is asked about one path, and refuses the rest. -/
def bucketAnswer (a : Adapter) : (op : StoreOp) → List Str → Except Exc op.Resp × List Str
  | .exists path, o => (do
      let key ← objectKey a path
      pure (o.any fun k => decide (k = key) || (key ++ ['/']).isPrefixOf k), o)
  | .delete path, o =>
    match objectKey a path with
    | .ok key => (.ok (), o.filter fun k => !(decide (k = key) || (key ++ ['/']).isPrefixOf k))
    | .error e => (.error e, o)
  | .list path, o => (do
      let key ← objectKey a path
      if o.any fun k => (key ++ ['/']).isPrefixOf k then pure [] else .error .fileNotFound, o)
  | _, o => (.error .storageUnavailable, o)

def siteAnswer : (c : FileCmd) → Site → Except Exc c.Resp × Site
  | .uuid4, s => (.error .other, s)
  | .db f, s => ((f s.db).1, ⟨(f s.db).2, s.objects⟩)
  | .store a op, s => ((bucketAnswer a op s.objects).1, ⟨s.db, (bucketAnswer a op s.objects).2⟩)

/-- The world after a deletion that the bucket answers. -/
def deleted (e : Deletion) (w : World) : World :=
  let site := (Prog.run siteAnswer (e.program 0) ⟨w.db, w.objects⟩).2
  w.after site.db site.objects

def indexedLink : IndexLink :=
  { RagEntries.uploadedLink with state := .indexed, ragFileId := some (.ofDigit 4) }

/-- One file of the user, which is in the index. -/
def indexed : World where
  db := ⟨⟨[RagEntries.sampleRecord], by decide⟩, ∅, .one indexedLink⟩
  objects := [RagEntries.sampleRecord.relativePath]
  wiped := []
  asked := []

def files : FileService where
  adapter := ⟨"users/00000000-0000-0000-0000-000000000002/files".toList, none⟩
  fileSection := .files
  archiveManager := none
  queue := ⟨true, ⟨true, 0, 0, 0⟩⟩

end WebStorage.DeletedUnindexed
