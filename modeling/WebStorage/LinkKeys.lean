import WebStorage.IndexLinks

set_option autoImplicit false

/-! What the calls of the queue leave of a row: it stands for the same record, and its key changes
only to the one that the call was given for that record. -/
namespace WebStorage

/-- The keys under which the contents of a record are known to RAG: its path, and its preview's. -/
def objectKeys (r : FileRecord) : List Str := [r.relativePath, previewObjectKey r.userId r.id]

/-- A decision names one of the record's keys. -/
theorem decide_key {record : FileRecord} {maxImageBytes : Int} {decision : RegistrationDecision}
    (h : decideRegistrationTarget record maxImageBytes = .ok decision) :
    decision.s3Key ∈ objectKeys record := by
  have hpath : ∀ {kind : RegistrationKind} {contentType : String} {hash : Option Digest}
      {skipCode : Option IndexSkipCode},
      RegistrationDecision.make kind record.relativePath contentType hash skipCode = .ok decision →
        decision.s3Key ∈ objectKeys record := by
    intro kind contentType hash skipCode hmake
    rw [(RegistrationDecision.make_ok hmake).2.1]
    exact List.mem_cons_self
  simp only [decideRegistrationTarget] at h
  split_ifs at h
  · exact hpath h
  · exact hpath h
  · exact hpath h
  · exact hpath h
  · rw [(RegistrationDecision.make_ok h).2.1]
    exact List.mem_cons_of_mem _ List.mem_cons_self
  · exact hpath h

namespace LinkTable

/-- The row stands for what the old one stands for. -/
structure SameLink (old row : IndexLink) : Prop where
  id : row.id = old.id
  fileRecordId : row.fileRecordId = old.fileRecordId
  fileSection : row.fileSection = old.fileSection
  userId : row.userId = old.userId

theorem SameLink.refl (row : IndexLink) : SameLink row row := ⟨rfl, rfl, rfl, rfl⟩

theorem SameLink.trans {a b c : IndexLink} (h : SameLink a b) (h' : SameLink b c) : SameLink a c :=
  ⟨h'.id.trans h.id, h'.fileRecordId.trans h.fileRecordId, h'.fileSection.trans h.fileSection,
    h'.userId.trans h.userId⟩

theorem sameLink_apply (tr : Transition) (now : Time) (row : IndexLink) :
    SameLink row (tr.apply now row) := ⟨rfl, rfl, rfl, rfl⟩

/-- Every row is an old one with other columns. Its key is the old one, unless `given` is a key for
its record. -/
def Rekeyed (given : Uuid → Str → Prop) (t t' : LinkTable) : Prop :=
  ∀ link ∈ t'.rows, ∃ old ∈ t.rows, SameLink old link ∧
    (link.s3Key = old.s3Key ∨ ∃ f, link.fileRecordId = some f ∧ given f link.s3Key)

/-- No key changes. -/
abbrev Inherits : LinkTable → LinkTable → Prop := Rekeyed fun _ _ => False

section
variable {given : Uuid → Str → Prop} {t t' t'' : LinkTable} {now : Time} {found : Option IndexLink}

theorem Rekeyed.refl (t : LinkTable) : Rekeyed given t t :=
  fun link hlink => ⟨link, hlink, .refl link, .inl rfl⟩

theorem Inherits.rekeyed (h : Inherits t t') : Rekeyed given t t' := by
  intro link hlink
  obtain ⟨old, hold, hsame, hkey | ⟨_, _, hfalse⟩⟩ := h link hlink
  · exact ⟨old, hold, hsame, .inl hkey⟩
  · exact hfalse.elim

theorem Inherits.trans (h : Inherits t t') (h' : Inherits t' t'') : Inherits t t'' := by
  intro link hlink
  obtain ⟨mid, hmid, hsame', hkey' | ⟨_, _, hfalse⟩⟩ := h' link hlink
  · obtain ⟨old, hold, hsame, hkey | ⟨_, _, hfalse⟩⟩ := h mid hmid
    · exact ⟨old, hold, hsame.trans hsame', .inl (hkey'.trans hkey)⟩
    · exact hfalse.elim
  · exact hfalse.elim

/-- One row is written. -/
theorem rekeyed_set {old row : IndexLink} (hold : old ∈ t.rows) (hsame : SameLink old row)
    (hkey : row.s3Key = old.s3Key ∨ ∃ f, row.fileRecordId = some f ∧ given f row.s3Key)
    (h : t.set row = .ok t') : Rekeyed given t t' := by
  intro link hlink
  rw [flush_rows h] at hlink
  rcases mem_replace hlink with hnew | ⟨hmem, -⟩
  · rw [hnew]
    exact ⟨old, hold, hsame, hkey⟩
  · exact ⟨link, hmem, .refl link, .inl rfl⟩

theorem rekeyed_applyTransition {linkId : Uuid} {tr : Transition}
    (htr : ∀ key, tr.s3Key = some key → ∀ model, t.get linkId = some model →
      ∃ f, model.fileRecordId = some f ∧ given f key)
    (h : t.applyTransition linkId tr now = .ok (found, t')) : Rekeyed given t t' := by
  unfold applyTransition at h
  cases hg : t.get linkId with
  | none =>
    simp only [hg] at h
    cases h
    exact .refl t
  | some model =>
    simp only [hg] at h
    split at h
    · cases h
    · cases hs : t.set (tr.apply now model) with
      | error e =>
        simp only [hs, bind, Except.bind] at h
        cases h
      | ok t₁ =>
        simp only [hs, bind, Except.bind] at h
        cases h
        refine rekeyed_set (get_some hg).1 (sameLink_apply tr now model) ?_ hs
        have hkey : (tr.apply now model).s3Key = tr.s3Key.getD model.s3Key := rfl
        rw [hkey]
        cases htrKey : tr.s3Key with
        | none => exact .inl rfl
        | some key => exact .inr (htr key htrKey model hg)

theorem inherits_applyTransition {linkId : Uuid} {tr : Transition} (htr : tr.s3Key = none)
    (h : t.applyTransition linkId tr now = .ok (found, t')) : Inherits t t' := by
  refine rekeyed_applyTransition (fun key hkey => ?_) h
  rw [htr] at hkey
  cases hkey

/-- The row that a transition answers with is in the table. -/
theorem applyTransition_found {linkId : Uuid} {tr : Transition} {link : IndexLink}
    (h : t.applyTransition linkId tr now = .ok (found, t')) (hfound : found = some link) :
    link ∈ t'.rows := by
  unfold applyTransition at h
  cases hg : t.get linkId with
  | none =>
    simp only [hg] at h
    cases h
    cases hfound
  | some model =>
    simp only [hg] at h
    split at h
    · cases h
    · cases hs : t.set (tr.apply now model) with
      | error e =>
        simp only [hs, bind, Except.bind] at h
        cases h
      | ok t₁ =>
        simp only [hs, bind, Except.bind] at h
        cases h
        cases hfound
        have hrow := get_set hs
          (List.mem_map.2 ⟨model, (get_some hg).1, rfl⟩) (tr.apply now model).id
        rw [if_pos rfl] at hrow
        exact (get_some hrow).1

theorem rekeyed_markContentChanged {fileRecordId : Uuid} {decision : RegistrationDecision}
    (h : t.markContentChanged fileRecordId decision now = .ok (found, t')) :
    Rekeyed (fun f key => f = fileRecordId ∧ key = decision.s3Key) t t' := by
  cases hb : t.byFileRecordId fileRecordId with
  | none =>
    simp only [markContentChanged, hb] at h
    cases h
    exact .refl t
  | some row =>
    simp only [markContentChanged, hb] at h
    split at h
    · cases h
    · refine rekeyed_applyTransition (fun key hkey model hmodel => ?_) h
      rw [get_of_mem (byFileRecordId_some hb).1] at hmodel
      cases hmodel
      cases hkey
      exact ⟨fileRecordId, (byFileRecordId_some hb).2, rfl, rfl⟩

theorem rekeyed_markRekey {fileRecordId : Uuid} {s3Key : Str}
    (h : t.markRekey fileRecordId s3Key now = .ok (found, t')) :
    Rekeyed (fun f key => f = fileRecordId ∧ key = s3Key) t t' := by
  cases hb : t.byFileRecordId fileRecordId with
  | none =>
    simp only [markRekey, hb] at h
    cases h
    exact .refl t
  | some row =>
    obtain ⟨hrow, hrecord⟩ := byFileRecordId_some hb
    simp only [markRekey, hb] at h
    split_ifs at h
    · cases h
      exact .refl t
    · cases hs : t.set { row with s3Key := s3Key, updatedAt := now } with
      | error e =>
        simp only [hs, bind, Except.bind] at h
        cases h
      | ok t₁ =>
        simp only [hs, bind, Except.bind] at h
        cases h
        have hsame : SameLink row { row with s3Key := s3Key, updatedAt := now } :=
          ⟨rfl, rfl, rfl, rfl⟩
        exact rekeyed_set hrow hsame (.inr ⟨fileRecordId, hrecord, rfl, rfl⟩) hs
    · refine rekeyed_applyTransition (fun key hkey model hmodel => ?_) h
      rw [get_of_mem hrow] at hmodel
      cases hmodel
      cases hkey
      exact ⟨fileRecordId, hrecord, rfl, rfl⟩

theorem inherits_removeAll {models links : List IndexLink}
    (h : removeAll models now t = .ok (links, t')) : Inherits t t' := by
  induction models generalizing t links with
  | nil =>
    cases h
    exact .refl _
  | cons m models ih =>
    unfold removeAll at h
    cases ha : t.applyTransition m.id removedTransition now with
    | error e =>
      simp only [ha, bind, Except.bind] at h
      cases h
    | ok res =>
      cases hr : removeAll models now res.2 with
      | error e =>
        simp only [ha, hr, bind, Except.bind] at h
        cases h
      | ok res' =>
        simp only [ha, hr, bind, Except.bind] at h
        cases h
        have hfirst : t.applyTransition m.id removedTransition now = .ok (res.1, res.2) := ha
        exact (inherits_applyTransition rfl hfirst).trans (ih hr)

theorem inherits_markArchived {fileRecordId : Uuid}
    (h : t.markArchived fileRecordId now = .ok (found, t')) : Inherits t t' := by
  unfold markArchived at h
  split at h
  · cases h
    exact .refl t
  · exact inherits_applyTransition rfl h

theorem inherits_retryAll {models : List IndexLink} {n : Nat}
    (h : retryAll models now t = .ok (n, t')) : Inherits t t' := by
  induction models generalizing t n with
  | nil =>
    cases h
    exact .refl _
  | cons m models ih =>
    unfold retryAll at h
    cases ha : t.applyTransition m.id (retryTransition m.ragFileId) now with
    | error e =>
      simp only [ha, bind, Except.bind] at h
      cases h
    | ok res =>
      cases hr : retryAll models now res.2 with
      | error e =>
        simp only [ha, hr, bind, Except.bind] at h
        cases h
      | ok res' =>
        simp only [ha, hr, bind, Except.bind] at h
        cases h
        have hfirst : t.applyTransition m.id (retryTransition m.ragFileId) now =
            .ok (res.1, res.2) := ha
        exact (inherits_applyTransition rfl hfirst).trans (ih hr)

theorem inherits_retryFailed {limit : Int} {n : Nat}
    (h : t.retryFailed limit now = .ok (n, t')) : Inherits t t' := by
  unfold retryFailed at h
  split at h
  · cases h
  · exact inherits_retryAll h

/-- The only row that `upsert_pending` adds: for a record of the indexed sections that is not
encrypted. -/
theorem upsertPending_rows {id : Uuid} {record : FileRecord} {decision : RegistrationDecision}
    (h : t.upsertPending id record decision now = .ok (found, t')) :
    ∀ link ∈ t'.rows, link ∈ t.rows ∨ (link = insertedLink id record decision now ∧
      (record.fileSection = .files ∨ record.fileSection = .photos) ∧
        record.isEncrypted = false) := by
  intro link hlink
  unfold upsertPending at h
  split_ifs at h with hrefused hexcluded
  · cases h
    exact .inl hlink
  · rw [not_or] at hrefused hexcluded
    cases hb : t.byFileRecordId record.id with
    | some existing =>
      simp only [hb] at h
      split_ifs at h
      cases h
      exact .inl hlink
    | none =>
      cases hi : t.insert (insertedLink id record decision now) with
      | error e =>
        simp only [hb, hi, bind, Except.bind] at h
        cases h
      | ok t₁ =>
        simp only [hb, hi, bind, Except.bind] at h
        cases h
        rw [flush_rows hi] at hlink
        rcases List.mem_append.1 hlink with hold | hnew
        · exact .inl hold
        · have hsection : record.fileSection = .files ∨ record.fileSection = .photos := by
            by_contra hneither
            exact hexcluded.1 (not_or.1 hneither)
          exact .inr ⟨List.mem_singleton.1 hnew, hsection, by simpa using hrefused.2⟩

end
end LinkTable
end WebStorage
