import WebStorage.IndexLinks

set_option autoImplicit false

/-! What the calls of the queue do to the row of any link: they leave it alone, or they write it
the one way that the call is for. -/
namespace WebStorage.LinkTable

section
variable {t t' : LinkTable} {now : Time} {id : Uuid} {row : IndexLink}

/-- A request about a file record reaches the row of this link. -/
def hits (t : LinkTable) (fileRecordId : Uuid) (id : Uuid) : Bool :=
  (t.byFileRecordId fileRecordId).any (·.id = id)

theorem hits_iff {fileRecordId : Uuid} {model : IndexLink}
    (h : t.byFileRecordId fileRecordId = some model) : t.hits fileRecordId id = true ↔ id = model.id := by
  unfold hits
  rw [h, Option.any_some, decide_eq_true_eq]
  exact eq_comm

/-- The row of the link that a transition names is written, every other one stays. -/
theorem applyTransition_row {linkId : Uuid} {tr : Transition} {found : Option IndexLink}
    (h : t.applyTransition linkId tr now = .ok (found, t')) (hrow : t'.get id = some row) :
    ∃ old, t.get id = some old ∧
      ((id ≠ linkId ∧ row = old) ∨ (id = linkId ∧ row = tr.apply now old)) := by
  rw [applyTransition_get h id] at hrow
  split at hrow
  next heq =>
    obtain ⟨old, hold, happly⟩ := Option.map_eq_some_iff.1 hrow
    exact ⟨old, hold, .inr ⟨heq, happly.symm⟩⟩
  next hne => exact ⟨row, hrow, .inl ⟨hne, rfl⟩⟩

theorem markContentChanged_row {fileRecordId : Uuid} {decision : RegistrationDecision}
    {found : Option IndexLink} (h : t.markContentChanged fileRecordId decision now = .ok (found, t'))
    (hrow : t'.get id = some row) : ∃ old, t.get id = some old ∧
      ((t.hits fileRecordId id = false ∧ row = old) ∨ (t.hits fileRecordId id = true ∧
        row = (contentChangedTransition old.ragFileId decision).apply now old)) := by
  cases hmodel : t.byFileRecordId fileRecordId with
  | none =>
    have hhits : t.hits fileRecordId id = false := by
      rw [hits, hmodel, Option.any_none]
    simp only [markContentChanged, hmodel] at h
    cases h
    exact ⟨row, hrow, .inl ⟨hhits, rfl⟩⟩
  | some model =>
    have hhits : t.hits fileRecordId id = true ↔ id = model.id := hits_iff hmodel
    have hget : t.get model.id = some model := get_of_mem (byFileRecordId_some hmodel).1
    rw [markContentChanged_get hmodel h id] at hrow
    split at hrow
    next heq =>
      cases hrow
      exact ⟨model, by rw [heq, hget], .inr ⟨hhits.2 heq, rfl⟩⟩
    next hne => exact ⟨row, hrow, .inl ⟨Bool.eq_false_iff.2 fun hh => hne (hhits.1 hh), rfl⟩⟩

/-- Only the row of a link that RAG knows is queued for a new key. -/
theorem markRekey_row {fileRecordId : Uuid} {s3Key : Str} {found : Option IndexLink}
    (h : t.markRekey fileRecordId s3Key now = .ok (found, t')) (hrow : t'.get id = some row) :
    ∃ old, t.get id = some old ∧
      ((¬ (t.hits fileRecordId id = true ∧ old.ragFileId ≠ none) ∧ row.attempts = old.attempts ∧
          row.state = old.state) ∨
        (t.hits fileRecordId id = true ∧ old.ragFileId ≠ none ∧
          row = (rekeyTransition s3Key now).apply now old)) := by
  cases hmodel : t.byFileRecordId fileRecordId with
  | none =>
    have hhits : t.hits fileRecordId id = false := by
      rw [hits, hmodel, Option.any_none]
    simp only [markRekey, hmodel] at h
    cases h
    refine ⟨row, hrow, .inl ⟨?_, rfl, rfl⟩⟩
    rw [hhits]
    exact fun hboth => Bool.false_ne_true hboth.1
  | some model =>
    have hhits : t.hits fileRecordId id = true ↔ id = model.id := hits_iff hmodel
    have hget : t.get model.id = some model := get_of_mem (byFileRecordId_some hmodel).1
    obtain ⟨row', hrows, hcases⟩ := markRekey_get hmodel h
    rw [hrows id] at hrow
    split at hrow
    next heq =>
      cases hrow
      refine ⟨model, by rw [heq, hget], ?_⟩
      rcases hcases with hunknown | hknown
      · obtain ⟨hnone, hkey⟩ := hunknown
        refine .inl ⟨fun hboth => hboth.2 hnone, ?_⟩
        rcases hkey with hkey | hkey
        · rw [hkey]
          exact ⟨rfl, rfl⟩
        · rw [hkey]
          exact ⟨rfl, rfl⟩
      · exact .inr ⟨hhits.2 heq, hknown.1, hknown.2⟩
    next hne => exact ⟨row, hrow, .inl ⟨fun hboth => hne (hhits.1 hboth.1), rfl, rfl⟩⟩

theorem markRemoved_row {fileRecordIds : List Uuid} {links : List IndexLink}
    (h : t.markRemoved fileRecordIds now = .ok (links, t')) (hrow : t'.get id = some row) :
    ∃ old, t.get id = some old ∧
      (((fileRecordIds.any fun f => t.hits f id) = false ∧ row = old) ∨
        ((fileRecordIds.any fun f => t.hits f id) = true ∧ row = removedTransition.apply now old)) := by
  have hmodels : id ∈ ((dictFromKeys fileRecordIds).filterMap t.byFileRecordId).map (·.id) ↔
      (fileRecordIds.any fun f => t.hits f id) = true := by
    rw [List.mem_map, List.any_eq_true]
    constructor
    · intro hmem
      obtain ⟨model, hmodel, hid⟩ := hmem
      obtain ⟨f, hf, hby⟩ := List.mem_filterMap.1 hmodel
      exact ⟨f, mem_dictFromKeys.1 hf, (hits_iff hby).2 hid.symm⟩
    · intro hany
      obtain ⟨f, hf, hhits⟩ := hany
      cases hby : t.byFileRecordId f with
      | none =>
        rw [hits, hby] at hhits
        cases hhits
      | some model =>
        have hid : model.id = id := ((hits_iff hby).1 hhits).symm
        exact ⟨model, List.mem_filterMap.2 ⟨f, mem_dictFromKeys.2 hf, hby⟩, hid⟩
  rw [removeAll_get h id] at hrow
  split at hrow
  next hmem =>
    obtain ⟨old, hold, happly⟩ := Option.map_eq_some_iff.1 hrow
    exact ⟨old, hold, .inr ⟨hmodels.1 hmem, happly.symm⟩⟩
  next hnot => exact ⟨row, hrow, .inl ⟨Bool.eq_false_iff.2 fun hh => hnot (hmodels.2 hh), rfl⟩⟩

theorem markArchived_row {fileRecordId : Uuid} {found : Option IndexLink}
    (h : t.markArchived fileRecordId now = .ok (found, t')) (hrow : t'.get id = some row) :
    ∃ old, t.get id = some old ∧
      ((t.hits fileRecordId id = false ∧ row = old) ∨ (t.hits fileRecordId id = true ∧
        row = ({ state := some .archived, nextAttemptAt := some none } : Transition).apply now old)) := by
  cases hmodel : t.byFileRecordId fileRecordId with
  | none =>
    have hhits : t.hits fileRecordId id = false := by
      rw [hits, hmodel, Option.any_none]
    simp only [markArchived, hmodel] at h
    cases h
    exact ⟨row, hrow, .inl ⟨hhits, rfl⟩⟩
  | some model =>
    have hhits : t.hits fileRecordId id = true ↔ id = model.id := hits_iff hmodel
    simp only [markArchived, hmodel] at h
    obtain ⟨old, hold, hor⟩ := applyTransition_row h hrow
    refine ⟨old, hold, ?_⟩
    rcases hor with hother | hsame
    · exact .inl ⟨Bool.eq_false_iff.2 fun hh => hother.1 (hhits.1 hh), hother.2⟩
    · exact .inr ⟨hhits.2 hsame.1, hsame.2⟩

/-- The loop of a retry takes up each of its rows once. -/
theorem retryAll_row {models : List IndexLink} {n : Nat} (hnodup : (models.map (·.id)).Nodup)
    (hmodels : ∀ model ∈ models, t.get model.id = some model)
    (h : retryAll models now t = .ok (n, t')) (hrow : t'.get id = some row) :
    ∃ old, t.get id = some old ∧ ((old ∉ models ∧ row = old) ∨
      (old ∈ models ∧ row = (retryTransition old.ragFileId).apply now old)) := by
  induction models generalizing t n with
  | nil =>
    cases h
    exact ⟨row, hrow, .inl ⟨List.not_mem_nil, rfl⟩⟩
  | cons model models ih =>
    rw [List.map_cons, List.nodup_cons] at hnodup
    unfold retryAll at h
    cases ha : t.applyTransition model.id (retryTransition model.ragFileId) now with
    | error e =>
      simp only [ha, bind, Except.bind] at h
      cases h
    | ok res =>
      cases hr : retryAll models now res.2 with
      | error e =>
        simp only [ha, hr, bind, Except.bind] at h
        cases h
      | ok res' =>
        simp only [ha, hr, bind, Except.bind] at h
        cases h
        have hfirst : t.applyTransition model.id (retryTransition model.ragFileId) now =
            .ok (res.1, res.2) := ha
        have hrest : ∀ other ∈ models, res.2.get other.id = some other := by
          intro other hother
          have hne : other.id ≠ model.id := by
            intro heq
            exact hnodup.1 (heq ▸ List.mem_map_of_mem hother)
          rw [applyTransition_get hfirst other.id, if_neg hne]
          exact hmodels other (List.mem_cons_of_mem _ hother)
        obtain ⟨mid, hmid, hlater⟩ := ih hnodup.2 hrest hr
        obtain ⟨old, hold, hnow⟩ := applyTransition_row hfirst hmid
        refine ⟨old, hold, ?_⟩
        rcases hnow with hother | hsame
        · obtain ⟨hne, heq⟩ := hother
          subst heq
          have hnot : mid ≠ model := by
            intro hmodel
            rw [hmodel] at hmid hold
            exact hne (get_some hold).2.symm
          rcases hlater with hlater | hlater
          · exact .inl ⟨fun hmem => (List.mem_cons.1 hmem).elim hnot hlater.1, hlater.2⟩
          · exact .inr ⟨List.mem_cons_of_mem _ hlater.1, hlater.2⟩
        · obtain ⟨heq, hmidrow⟩ := hsame
          have holdmodel : old = model := by
            rw [heq, hmodels model List.mem_cons_self] at hold
            exact (Option.some.inj hold).symm
          subst holdmodel
          -- the rest of the loop does not meet the row again
          rcases hlater with hlater | hlater
          · exact .inr ⟨List.mem_cons_self, hlater.2.trans hmidrow⟩
          · have hid : mid.id = old.id := by
              rw [hmidrow]
              rfl
            exact absurd (hid ▸ List.mem_map_of_mem hlater.1) hnodup.1

theorem retryFailed_row {limit : Int} {n : Nat} (h : t.retryFailed limit now = .ok (n, t'))
    (hrow : t'.get id = some row) : ∃ old, t.get id = some old ∧
      ((old ∉ t.failedRows limit ∧ row = old) ∨ (old ∈ t.failedRows limit ∧ old.state = .failed ∧
        row = (retryTransition old.ragFileId).apply now old)) := by
  unfold retryFailed at h
  split at h
  · cases h
  have hperm := List.perm_insertionSort oldestFirst (t.rows.filter (·.state = .failed))
  have hmem : ∀ model ∈ t.failedRows limit, model ∈ t.rows ∧ model.state = .failed := by
    intro model hmodel
    have hin := List.mem_filter.1 (hperm.subset (List.mem_of_mem_take hmodel))
    exact ⟨hin.1, of_decide_eq_true hin.2⟩
  have hnodup : ((t.failedRows limit).map (·.id)).Nodup := by
    refine List.Nodup.sublist ((List.take_sublist _ _).map _) ?_
    rw [(hperm.map (·.id)).nodup_iff]
    exact t.id_unique.sublist (List.filter_sublist.map _)
  obtain ⟨old, hold, hor⟩ := retryAll_row hnodup (fun model hm => get_of_mem (hmem model hm).1) h hrow
  refine ⟨old, hold, ?_⟩
  rcases hor with hstays | hretried
  · exact .inl hstays
  · exact .inr ⟨hretried.1, (hmem old hretried.1).2, hretried.2⟩

theorem upsertPending_row {newId : Uuid} {record : FileRecord} {decision : RegistrationDecision}
    {found : Option IndexLink} (h : t.upsertPending newId record decision now = .ok (found, t'))
    (hrow : t'.get id = some row) : t.get id = some row ∨
      (t.get id = none ∧ row = insertedLink newId record decision now) := by
  unfold upsertPending at h
  split_ifs at h
  · cases h
    exact .inl hrow
  · cases hb : t.byFileRecordId record.id with
    | some existing =>
      simp only [hb] at h
      split_ifs at h
      cases h
      exact .inl hrow
    | none =>
      cases hi : t.insert (insertedLink newId record decision now) with
      | error e =>
        simp only [hb, hi, bind, Except.bind] at h
        cases h
      | ok t₁ =>
        simp only [hb, hi, bind, Except.bind] at h
        cases h
        have hfind : t'.get id =
            (t.get id).or ([insertedLink newId record decision now].find? (·.id = id)) := by
          unfold get
          rw [flush_rows hi, List.find?_append]
        rw [hfind] at hrow
        cases hold : t.get id with
        | some old =>
          rw [hold, Option.some_or] at hrow
          exact .inl hrow
        | none =>
          rw [hold, Option.none_or] at hrow
          exact .inr ⟨rfl, List.mem_singleton.1 (List.mem_of_find?_eq_some hrow)⟩

end
end WebStorage.LinkTable
