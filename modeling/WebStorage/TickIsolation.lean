import WebStorage.SyncJob

set_option autoImplicit false

/-! One tick shares one session over its batch. A flush that breaks a unique constraint leaves
the session unusable until the transaction is rolled back. The draft of a row is what its processing
would make of it in a session of its own. -/
namespace WebStorage.TickIsolation
open Effect Effect.Prog IndexSyncJob

structure Session where
  table : LinkTable
  failed : Bool

/-- What the records, the object store and RAG answer in the processing of one link. Each of them is
asked at most once, but the object store, which is asked again after a rekey that found other
content in RAG (`true`). -/
structure Outcomes where
  originalName : Except Exc (Option Str)
  objectExists : Bool → Except Exc Bool
  objectRead : Bool → Except Exc Bytes
  objectSize : Bool → Except Exc Nat
  register : Except Exc RagFileCard
  rekey : Except Exc RagFileCard
  deleteVectors : Except Exc Unit
  getFile : Except Exc RagFileCard

/-- Nothing can be reached. -/
def Outcomes.unanswered : Outcomes where
  originalName := .error .other
  objectExists _ := .error .other
  objectRead _ := .error .other
  objectSize _ := .error .other
  register := .error .other
  rekey := .error .other
  deleteVectors := .error .other
  getFile := .error .other

/-- The answer to a command from outside; the queue is not asked here. -/
def Outcomes.reply (outcomes : Outcomes) (rekeyed : Bool) : (c : SyncCmd) → Except Exc c.Resp
  | .originalName _ => outcomes.originalName
  | .objectExists _ => outcomes.objectExists rekeyed
  | .objectRead _ => outcomes.objectRead rekeyed
  | .objectSize _ => outcomes.objectSize rekeyed
  | .register .. => outcomes.register
  | .rekey .. => outcomes.rekey
  | .deleteVectors .. => outcomes.deleteVectors
  | .getFile .. => outcomes.getFile
  | .applyTransition .. | .claimDue .. | .getByFileRecordId _ => .error .other

/-- Whether a rekey has been asked for when the command is over. -/
def rekeys (rekeyed : Bool) : SyncCmd → Bool
  | .rekey .. => true
  | _ => rekeyed

/-- The queue answers from the session; everything else answers by `outcomes`. -/
def answer (outcomes : Outcomes) :
    (c : SyncCmd) → Session × Bool → Except Exc c.Resp × (Session × Bool)
  | .applyTransition linkId tr now, (s, rekeyed) =>
    if s.failed then (.error .pendingRollback, s, rekeyed)
    else match s.table.applyTransition linkId tr now with
      | .ok (row, table) => (.ok row, ⟨table, false⟩, rekeyed)
      | .error .integrityError => (.error .integrityError, ⟨s.table, true⟩, rekeyed)
      | .error e => (.error e, s, rekeyed)
  | .claimDue limit now, (s, rekeyed) =>
    if s.failed then (.error .pendingRollback, s, rekeyed)
    else (s.table.claimDue limit now, s, rekeyed)
  | .getByFileRecordId fileRecordId, (s, rekeyed) =>
    if s.failed then (.error .pendingRollback, s, rekeyed)
    else (.ok (s.table.byFileRecordId fileRecordId), s, rekeyed)
  | .originalName fileRecordId, (s, rekeyed) =>
    if s.failed then (.error .pendingRollback, s, rekeyed)
    else (outcomes.reply rekeyed (.originalName fileRecordId), s, rekeyed)
  | c, (s, rekeyed) => (outcomes.reply rekeyed c, s, rekeys rekeyed c)

/-- A row with the versions of it that were flushed, the latest first. -/
structure Draft where
  row : IndexLink
  versions : List IndexLink

/-- The queue as a link sees it that shares it with no other row. -/
def draftAnswer (outcomes : Outcomes) :
    (c : SyncCmd) → Draft × Bool → Except Exc c.Resp × (Draft × Bool)
  | .applyTransition linkId tr now, (d, rekeyed) =>
    if linkId ≠ d.row.id then (.ok none, d, rekeyed)
    else if d.row.fileSection = .private then (.error .privateIndexRefused, d, rekeyed)
    else (.ok (some (tr.apply now d.row)),
      ⟨tr.apply now d.row, tr.apply now d.row :: d.versions⟩, rekeyed)
  | c, (d, rekeyed) => (outcomes.reply rekeyed c, d, rekeys rekeyed c)

/-- A row other than that of `linkId` holds the RAG id of this version of it. -/
def Clash (linkId : Uuid) (rows : List IndexLink) (version : IndexLink) : Prop :=
  ∃ r ∈ rows, r.id ≠ linkId ∧ version.ragFileId ≠ none ∧ r.ragFileId = version.ragFileId

instance (linkId : Uuid) (rows : List IndexLink) (version : IndexLink) :
    Decidable (Clash linkId rows version) :=
  inferInstanceAs (Decidable (∃ r ∈ rows, _))

theorem clash_replace {linkId : Uuid} {rows : List IndexLink} {row version : IndexLink}
    (hid : row.id = linkId) :
    Clash linkId (LinkTable.replace rows row) version ↔ Clash linkId rows version := by
  constructor
  · rintro ⟨r, hr, hne, hsome, heq⟩
    rcases LinkTable.mem_replace hr with rfl | ⟨hr, -⟩
    · exact absurd hid hne
    · exact ⟨r, hr, hne, hsome, heq⟩
  · rintro ⟨r, hr, hne, hsome, heq⟩
    exact ⟨r, LinkTable.replace_of_mem hr (hid ▸ hne), hne, hsome, heq⟩

theorem set_of_clash (row : IndexLink) {t : LinkTable} {old : IndexLink} (hg : t.get row.id = some old)
    (hf : row.fileRecordId = old.fileRecordId) :
    (¬ Clash row.id t.rows row ∧ ∃ t', t.set row = .ok t') ∨
      (Clash row.id t.rows row ∧ t.set row = .error .integrityError) := by
  have hiff := LinkTable.set_ok_iff hg hf
  by_cases hc : Clash row.id t.rows row
  · refine .inr ⟨hc, ?_⟩
    obtain ⟨r, hr, hne, hsome, heq⟩ := hc
    cases hset : t.set row with
    | ok t' => exact absurd heq (hiff.1 ⟨t', hset⟩ r hr hne hsome)
    | error e => rw [LinkTable.set_error hset]
  · exact .inl ⟨hc, hiff.2 fun r hr hne hsome heq => hc ⟨r, hr, hne, hsome, heq⟩⟩

section
variable {α : Type} {outcomes : Outcomes}

theorem run_failed (p : Sync α) (s : Session × Bool) (h : s.1.failed = true) :
    (run (answer outcomes) p s).2.1.failed = true := by
  induction p generalizing s with
  | done r => exact h
  | call c k ih =>
    rw [run_call]
    apply ih
    obtain ⟨s, n⟩ := s
    have hs : s.failed = true := h
    cases c <;> simp only [answer, hs, if_true]

theorem draft_spec (p : Sync α) (d : Draft) (n : Bool) :
    (run (draftAnswer outcomes) p (d, n)).2.1.row.id = d.row.id ∧
      ∀ v ∈ d.versions, v ∈ (run (draftAnswer outcomes) p (d, n)).2.1.versions := by
  induction p generalizing d n with
  | done r => exact ⟨rfl, fun v hv => hv⟩
  | call c k ih =>
    rw [run_call]
    cases c with
    | applyTransition linkId tr now =>
      simp only [draftAnswer]
      split_ifs
      · exact ih _ _ _
      · exact ih _ _ _
      · obtain ⟨hid, hv⟩ := ih (.ok (some (tr.apply now d.row)))
          ⟨tr.apply now d.row, tr.apply now d.row :: d.versions⟩ n
        exact ⟨hid, fun v hmem => hv v (List.mem_cons_of_mem _ hmem)⟩
    | _ => exact ih _ _ _

/-- The session follows the draft as long as no version clashes with another row, and the first
version that does makes it fail. -/
theorem run_session (outcomes : Outcomes) (p : Sync α) (d : Draft) (n : Bool) (t : LinkTable)
    (hp : Stays d.row.id p) (hg : t.get d.row.id = some d.row) :
    ((∀ v ∈ (run (draftAnswer outcomes) p (d, n)).2.1.versions, ¬ Clash d.row.id t.rows v) →
      (run (answer outcomes) p (⟨t, false⟩, n)).2.1.failed = false ∧
      (run (answer outcomes) p (⟨t, false⟩, n)).2.1.table.rows =
        LinkTable.replace t.rows (run (draftAnswer outcomes) p (d, n)).2.1.row) ∧
    ((∀ v ∈ d.versions, ¬ Clash d.row.id t.rows v) →
      (∃ v ∈ (run (draftAnswer outcomes) p (d, n)).2.1.versions, Clash d.row.id t.rows v) →
      (run (answer outcomes) p (⟨t, false⟩, n)).2.1.failed = true) := by
  induction p generalizing d n t with
  | done r =>
    refine ⟨fun _ => ⟨rfl, ?_⟩, fun hno ⟨v, hv, hc⟩ => absurd hc (hno v hv)⟩
    exact (LinkTable.replace_self hg).symm
  | call c k ih =>
    obtain ⟨hc, hk⟩ := hp
    rw [run_call, run_call]
    cases c with
    | applyTransition linkId tr now =>
      have hid : linkId = d.row.id := hc
      subst hid
      by_cases hs : d.row.fileSection = .private
      · have ha : t.applyTransition d.row.id tr now = .error .privateIndexRefused := by
          simp only [LinkTable.applyTransition, hg, if_pos hs]
        simp only [answer, draftAnswer, ne_eq, not_true_eq_false, if_false, if_pos hs, ha,
          Bool.false_eq_true]
        exact ih _ d n t (hk _ (by simp)) hg
      have hk' : Stays (tr.apply now d.row).id (k (.ok (some (tr.apply now d.row)))) := by
        refine hk _ ?_
        rintro a ⟨⟩ row ⟨⟩
        rfl
      have hd : draftAnswer outcomes (.applyTransition d.row.id tr now) (d, n) =
          (.ok (some (tr.apply now d.row)),
            ⟨tr.apply now d.row, tr.apply now d.row :: d.versions⟩, n) := by
        simp only [draftAnswer, ne_eq, not_true_eq_false, if_false, if_neg hs]
      rw [hd]
      rcases set_of_clash (tr.apply now d.row) hg rfl with ⟨hno, t', ht'⟩ | ⟨hyes, he⟩
      · have ha : answer outcomes (.applyTransition d.row.id tr now) (⟨t, false⟩, n) =
            (.ok (some (tr.apply now d.row)), ⟨t', false⟩, n) := by
          simp only [answer, LinkTable.applyTransition, hg, if_neg hs, ht', Bool.false_eq_true,
            if_false]
          rfl
        rw [ha]
        have hmem : (tr.apply now d.row).id ∈ t.rows.map (·.id) :=
          List.mem_map.2 ⟨d.row, (LinkTable.get_some hg).1, rfl⟩
        have hg' : t'.get (tr.apply now d.row).id = some (tr.apply now d.row) := by
          rw [LinkTable.get_set ht' hmem, if_pos rfl]
        have hrows : t'.rows = LinkTable.replace t.rows (tr.apply now d.row) :=
          LinkTable.flush_rows ht'
        have hclash (v : IndexLink) : Clash d.row.id t'.rows v ↔ Clash d.row.id t.rows v := by
          rw [hrows]
          exact clash_replace rfl
        obtain ⟨hgood, hbad⟩ := ih _ ⟨tr.apply now d.row, tr.apply now d.row :: d.versions⟩ n t'
          hk' hg'
        constructor
        · intro hnone
          obtain ⟨hf, hr⟩ := hgood fun v hv hcl => hnone v hv ((hclash v).1 hcl)
          refine ⟨hf, hr.trans ?_⟩
          rw [hrows, LinkTable.replace_replace]
          exact (draft_spec (k (.ok (some (tr.apply now d.row))))
            ⟨tr.apply now d.row, tr.apply now d.row :: d.versions⟩ n).1.symm
        · rintro hold ⟨v, hv, hcl⟩
          refine hbad ?_ ⟨v, hv, (hclash v).2 hcl⟩
          intro v' hv' hcl'
          rcases List.mem_cons.1 hv' with rfl | hv'
          · exact hno ((hclash _).1 hcl')
          · exact hold v' hv' ((hclash v').1 hcl')
      · have ha : answer outcomes (.applyTransition d.row.id tr now) (⟨t, false⟩, n) =
            (.error .integrityError, ⟨t, true⟩, n) := by
          simp only [answer, LinkTable.applyTransition, hg, if_neg hs, he, Bool.false_eq_true,
            if_false]
          rfl
        rw [ha]
        constructor
        · intro hnone
          refine absurd hyes (hnone _ ((draft_spec _ _ _).2 _ List.mem_cons_self))
        · exact fun _ _ => run_failed _ _ rfl
    | claimDue => exact absurd hc id
    | getByFileRecordId => exact absurd hc id
    | _ => exact ih _ d _ t (hk _ fun _ _ => trivial) hg

end

section
variable (job : IndexSyncJob) (env : Uuid → Outcomes) (now : Time)

/-- What the processing of a link makes of its row when no constraint can be broken. -/
def draft (link : IndexLink) : Draft :=
  (run (draftAnswer (env link.id)) (job.process link now) (⟨link, []⟩, false)).2.1

def processIn (link : IndexLink) (s : Session) : Session :=
  (run (answer (env link.id)) (job.process link now) (s, false)).2.1

def batch : List IndexLink → Session → Session
  | [], s => s
  | link :: rest, s => batch rest (processIn job env now link s)

/-- The batch that a tick on this table claims. -/
def claimed (t : LinkTable) : List IndexLink :=
  match t.claimDue job.batchSize now with
  | .ok links => links
  | .error _ => []

/-- The commit after the tick: a failed session can only be rolled back. -/
def persisted (t : LinkTable) (s : Session) : LinkTable := if s.failed then t else s.table

def tick (t : LinkTable) : LinkTable :=
  persisted t (batch job env now (claimed job now t) ⟨t, false⟩)

/-- The table in which the rows with these ids are absent. -/
def without (t : LinkTable) (gone : List Uuid) : LinkTable where
  rows := t.rows.filter (·.id ∉ gone)
  id_unique := t.id_unique.sublist (List.filter_sublist.map _)
  file_record_unique a ha b hb :=
    t.file_record_unique a (List.mem_of_mem_filter ha) b (List.mem_of_mem_filter hb)
  rag_unique a ha b hb :=
    t.rag_unique a (List.mem_of_mem_filter ha) b (List.mem_of_mem_filter hb)

/-- The tick that finds every other claimed link absent. -/
def tickAlone (t : LinkTable) (link : IndexLink) : LinkTable :=
  let others := ((claimed job now t).map (·.id)).filter (· ≠ link.id)
  persisted (without t others) (batch job env now [link] ⟨without t others, false⟩)

/-- No version of a row clashes with the other rows at that time: those of the batch before it are
drafts by then. -/
def NoClash : List IndexLink → List IndexLink → Prop
  | [], _ => True
  | link :: rest, rows =>
    (∀ v ∈ (draft job env now link).versions, ¬ Clash link.id rows v) ∧
      NoClash rest (LinkTable.replace rows (draft job env now link).row)

theorem processIn_spec {t : LinkTable} {link : IndexLink} (hg : t.get link.id = some link) :
    ((∀ v ∈ (draft job env now link).versions, ¬ Clash link.id t.rows v) →
      ∃ t', processIn job env now link ⟨t, false⟩ = ⟨t', false⟩ ∧
        t'.rows = LinkTable.replace t.rows (draft job env now link).row) ∧
    ((∃ v ∈ (draft job env now link).versions, Clash link.id t.rows v) →
      (processIn job env now link ⟨t, false⟩).failed = true) := by
  obtain ⟨hgood, hbad⟩ := run_session (env link.id) (job.process link now)
    ⟨link, []⟩ false t (stays_process job link now) hg
  constructor
  · intro hno
    obtain ⟨hf, hrows⟩ := hgood hno
    refine ⟨(processIn job env now link ⟨t, false⟩).table, ?_, hrows⟩
    cases hs : processIn job env now link ⟨t, false⟩ with
    | mk table failed =>
      have : failed = false := by rw [← hf]; exact (congrArg Session.failed hs).symm
      rw [this]
  · exact hbad (by simp)

theorem draft_id (link : IndexLink) : (draft job env now link).row.id = link.id :=
  (draft_spec (job.process link now) ⟨link, []⟩ false).1

theorem batch_failed (links : List IndexLink) {s : Session} (h : s.failed = true) :
    (batch job env now links s).failed = true := by
  induction links generalizing s with
  | nil => exact h
  | cons link rest ih => exact ih (run_failed _ (s, false) h)

theorem batch_spec (links : List IndexLink) (hn : (links.map (·.id)).Nodup) (t : LinkTable)
    (hg : ∀ link ∈ links, t.get link.id = some link) :
    (NoClash job env now links t.rows →
      ∃ t', batch job env now links ⟨t, false⟩ = ⟨t', false⟩ ∧
        (∀ link ∈ links, t'.get link.id = some (draft job env now link).row) ∧
        ∀ id, id ∉ links.map (·.id) → t'.get id = t.get id) ∧
    (¬ NoClash job env now links t.rows →
      (batch job env now links ⟨t, false⟩).failed = true) := by
  induction links generalizing t with
  | nil => exact ⟨fun _ => ⟨t, rfl, by simp, fun _ _ => rfl⟩, fun h => absurd trivial h⟩
  | cons link rest ih =>
    rw [List.map_cons, List.nodup_cons] at hn
    have hlink := hg link List.mem_cons_self
    obtain ⟨hgood, hbad⟩ := processIn_spec job env now hlink
    by_cases hno : ∀ v ∈ (draft job env now link).versions, ¬ Clash link.id t.rows v
    · obtain ⟨t₁, hs, hrows⟩ := hgood hno
      have hmem : (draft job env now link).row.id ∈ t.rows.map (·.id) := by
        rw [draft_id]
        exact List.mem_map_of_mem (LinkTable.get_some hlink).1
      have hget := LinkTable.get_replace hrows hmem
      rw [draft_id] at hget
      have hg₁ : ∀ link' ∈ rest, t₁.get link'.id = some link' := by
        intro link' hl'
        have hne : link'.id ≠ link.id := fun he => hn.1 (he ▸ List.mem_map_of_mem hl')
        rw [hget, if_neg hne]
        exact hg link' (List.mem_cons_of_mem _ hl')
      obtain ⟨hgood', hbad'⟩ := ih hn.2 t₁ hg₁
      rw [hrows] at hgood' hbad'
      simp only [batch, hs]
      constructor
      · intro hnc
        obtain ⟨t', hb, hin, hout⟩ := hgood' hnc.2
        refine ⟨t', hb, ?_, ?_⟩
        · intro link' hl'
          rcases List.mem_cons.1 hl' with rfl | hl'
          · rw [hout _ hn.1, hget, if_pos rfl]
          · exact hin link' hl'
        · intro id hid
          rw [List.map_cons, List.mem_cons, not_or] at hid
          rw [hout id hid.2, hget, if_neg hid.1]
      · exact fun hnc => hbad' fun h => hnc ⟨hno, h⟩
    · have hclash : ∃ v ∈ (draft job env now link).versions, Clash link.id t.rows v := by
        simpa using hno
      constructor
      · exact fun hnc => absurd hnc.1 hno
      · exact fun _ => batch_failed job env now rest (hbad hclash)

theorem claimed_spec (t : LinkTable) : ((claimed job now t).map (·.id)).Nodup ∧
    ∀ link ∈ claimed job now t, t.get link.id = some link := by
  unfold claimed
  split
  · rename_i links h
    obtain ⟨hn, hmem⟩ := LinkTable.claimDue_spec h
    exact ⟨hn, fun link hl => LinkTable.get_of_mem (hmem link hl).1⟩
  · exact ⟨List.nodup_nil, by simp⟩

variable {job env now}

/-- An unclaimed row is there for every link of the batch. -/
theorem NoClash.unclaimed {links rows : List IndexLink} (h : NoClash job env now links rows)
    {link r v : IndexLink} (hl : link ∈ links) (hv : v ∈ (draft job env now link).versions)
    (hr : r ∈ rows) (hu : ∀ other ∈ links, r.id ≠ other.id) (hsome : v.ragFileId ≠ none) :
    r.ragFileId ≠ v.ragFileId := by
  induction links generalizing rows with
  | nil => simp at hl
  | cons first rest ih =>
    obtain ⟨hfirst, hrest⟩ := h
    have hne := hu first List.mem_cons_self
    rcases List.mem_cons.1 hl with rfl | hl
    · exact fun heq => hfirst v hv ⟨r, hr, hne, hsome, heq⟩
    · refine ih hrest hl (LinkTable.replace_of_mem hr ?_)
        fun other ho => hu other (List.mem_cons_of_mem _ ho)
      rwa [draft_id]

theorem tick_get {t : LinkTable} {link : IndexLink} (hl : link ∈ claimed job now t) :
    (NoClash job env now (claimed job now t) t.rows →
      (tick job env now t).get link.id = some (draft job env now link).row) ∧
    (¬ NoClash job env now (claimed job now t) t.rows →
      (tick job env now t).get link.id = some link) := by
  obtain ⟨hn, hg⟩ := claimed_spec job now t
  obtain ⟨hgood, hbad⟩ :=
    batch_spec job env now (claimed job now t) hn t hg
  constructor
  · intro hno
    obtain ⟨t', hb, hin, -⟩ := hgood hno
    simp only [tick, persisted, hb, Bool.false_eq_true, if_false, hin link hl]
  · intro hno
    simp only [tick, persisted, hbad hno, if_true, hg link hl]

theorem mem_without_others {t : LinkTable} {link r : IndexLink} (hl : link ∈ claimed job now t) :
    r ∈ (without t (((claimed job now t).map (·.id)).filter (· ≠ link.id))).rows ∧
      r.id ≠ link.id ↔ r ∈ t.rows ∧ ∀ other ∈ claimed job now t, r.id ≠ other.id := by
  simp only [without, List.mem_filter, List.mem_map, decide_eq_true_eq, ne_eq]
  constructor
  · rintro ⟨⟨hr, hnot⟩, hne⟩
    refine ⟨hr, fun other ho he => hnot ⟨⟨other, ho, he.symm⟩, hne⟩⟩
  · rintro ⟨hr, hu⟩
    refine ⟨⟨hr, ?_⟩, hu link hl⟩
    rintro ⟨⟨other, ho, he⟩, -⟩
    exact hu other ho he.symm

theorem tickAlone_get {t : LinkTable} {link : IndexLink} (hl : link ∈ claimed job now t)
    (hfree : ∀ v ∈ (draft job env now link).versions, ∀ r ∈ t.rows,
      (∀ other ∈ claimed job now t, r.id ≠ other.id) → v.ragFileId ≠ none →
      r.ragFileId ≠ v.ragFileId) :
    (tickAlone job env now t link).get link.id = some (draft job env now link).row := by
  have hmem := fun r : IndexLink => @mem_without_others job now t link r hl
  generalize hothers : ((claimed job now t).map (·.id)).filter (· ≠ link.id) = others at hmem
  have hlink : link ∈ (without t others).rows := by
    refine List.mem_filter.2
      ⟨(LinkTable.get_some ((claimed_spec job now t).2 link hl)).1, ?_⟩
    rw [← hothers]
    simp
  have hg : (without t others).get link.id = some link := LinkTable.get_of_mem hlink
  obtain ⟨hgood, -⟩ := processIn_spec job env now hg
  obtain ⟨t', hs, hrows⟩ := hgood fun v hv ⟨r, hr, hne, hsome, heq⟩ =>
    hfree v hv r ((hmem r).1 ⟨hr, hne⟩).1 ((hmem r).1 ⟨hr, hne⟩).2 hsome heq
  have hget := LinkTable.get_replace hrows
    (draft_id job env now link ▸ List.mem_map_of_mem hlink) link.id
  simp only [tickAlone, hothers, batch, hs, persisted, Bool.false_eq_true, if_false]
  rw [hget, draft_id, if_pos rfl]

end

/-! ### The batch as a run of the job -/

/-- The session of a tick over any answers from outside. -/
def SessionAnswers : Handler SyncCmd.Resp Exc Session := fun c s x s' =>
  ∃ outcomes n m, answer outcomes c (s, n) = (x, s', m)

theorem exec_answer {α : Type} (outcomes : Outcomes) (p : Sync α) (s : Session) (n : Bool) :
    Exec SessionAnswers p s (run (answer outcomes) p (s, n)).1
      (run (answer outcomes) p (s, n)).2.1 := by
  induction p generalizing s n with
  | done r => exact Exec.done r s
  | call c k ih => exact Exec.call ⟨outcomes, n, _, rfl⟩ (ih _ _ _)

/-- `_process` returns an outcome whatever happens below it. -/
theorem process_returns {σ : Type} (h : (c : SyncCmd) → σ → Except Exc c.Resp × σ)
    (job : IndexSyncJob) (link : IndexLink) (now : Time) (s : σ) :
    ∃ outcome, (run h (job.process link now) s).1 = .ok outcome := by
  unfold process
  rw [catchWith, run_bind, run_attempt]
  dsimp only
  split <;> exact ⟨_, rfl⟩

/-- `batch` is what a run of the job does to its session. -/
theorem run_batch {job : IndexSyncJob} {env : Uuid → Outcomes} {now : Time} {t : LinkTable}
    (hb : 1 ≤ job.batchSize) (hm : 1 ≤ job.maxAttempts) :
    ∃ result, Exec SessionAnswers (job.run now) ⟨t, false⟩ (.ok result)
      (batch job env now (claimed job now t) ⟨t, false⟩) := by
  have hlinks (links : List IndexLink) (s : Session) : ∃ outcomes,
      Exec SessionAnswers (job.processAll now links) s (.ok outcomes)
        (batch job env now links s) := by
    induction links generalizing s with
    | nil => exact ⟨[], Exec.done _ s⟩
    | cons link rest ih =>
      obtain ⟨outcomes, hrest⟩ := ih (processIn job env now link s)
      have hp := exec_answer (env link.id) (job.process link now) s false
      obtain ⟨outcome, hreturns⟩ := process_returns (answer (env link.id)) job link now (s, false)
      rw [hreturns] at hp
      exact ⟨outcome :: outcomes, exec_bind hp (exec_bind hrest (Exec.done _ _))⟩
  obtain ⟨outcomes, houtcomes⟩ := hlinks (claimed job now t) ⟨t, false⟩
  have hclaim : t.claimDue job.batchSize now = .ok (claimed job now t) := by
    unfold claimed LinkTable.claimDue
    rw [if_neg (by omega)]
  have hfirst : SessionAnswers (.claimDue job.batchSize now) ⟨t, false⟩
      (.ok (claimed job now t)) ⟨t, false⟩ :=
    ⟨.unanswered, false, false, by simp [answer, hclaim]⟩
  unfold IndexSyncJob.run
  rw [if_neg (by omega)]
  exact ⟨_, exec_bind (Exec.call hfirst (Exec.done _ _)) (exec_bind houtcomes (Exec.done _ _))⟩

/-! ### Two links with the same content -/

def firstLink : IndexLink where
  id := .ofDigit 1
  fileRecordId := some (.ofDigit 3)
  userId := .ofDigit 9
  fileSection := .files
  s3Key := "users/00000000-0000-0000-0000-000000000009/files/a.pdf".toList
  contentSha256 := some "e3b0c44298fc1c149afbf4c8996fb92427ae41e4649b934ca495991b7852b855"
  contentType := pdfContentType
  ragFileId := none
  state := .pending
  attempts := 0
  nextAttemptAt := none
  lastErrorCode := none
  createdAt := 0
  updatedAt := 0

/-- The same content under a second name. -/
def secondLink : IndexLink :=
  { firstLink with
    id := .ofDigit 2
    fileRecordId := some (.ofDigit 4)
    s3Key := "users/00000000-0000-0000-0000-000000000009/files/b.pdf".toList }

def twoLinks : LinkTable where
  rows := [firstLink, secondLink]
  id_unique := by decide
  file_record_unique := by decide
  rag_unique := by decide

def defaultJob : IndexSyncJob := ⟨50, 8, 3600, fun _ => ""⟩

end WebStorage.TickIsolation
