import WebStorage.Requests

set_option autoImplicit false

/-! What a path addresses in the record table. -/
namespace WebStorage
open Effect Effect.Prog

/-- Shared records are looked up whoever owns them. -/
def lookupOwner (userId : Uuid) (fileSection : FileSection) : Option Uuid :=
  if fileSection = .shared then none else some userId

/-- The downloadable records of a path. -/
def atPath (owner : Option Uuid) (fileSection : FileSection) (path : Str)
    (rows : List FileRecord) : List FileRecord :=
  rows.filter fun r => inScope owner fileSection r && r.relativePath = path && isDownloadable r

/-- The `COMMITTED` records of a name. -/
def ofName (owner : Option Uuid) (fileSection : FileSection) (name : Str)
    (rows : List FileRecord) : List FileRecord :=
  rows.filter fun r => inScope owner fileSection r && r.status = .committed &&
    r.originalName = name

/-- The record that a path addresses: the one that is there, or else the only one of its name. -/
def Addressed (rows : List FileRecord) (owner : Option Uuid) (fileSection : FileSection)
    (path name : Str) (r : FileRecord) : Prop :=
  atPath owner fileSection path rows = [r] ∨
    (atPath owner fileSection path rows = [] ∧ ofName owner fileSection name rows = [r])

variable {rows : List FileRecord} {owner : Option Uuid} {fileSection : FileSection}
variable {path name : Str} {r : FileRecord} {d : Db}

theorem Addressed.spec (h : Addressed rows owner fileSection path name r) :
    r ∈ rows ∧ inScope owner fileSection r ∧ isDownloadable r := by
  rcases h with h | ⟨-, h⟩
  · have hm : r ∈ atPath owner fileSection path rows := h ▸ List.mem_singleton_self r
    simp only [atPath, List.mem_filter, Bool.and_eq_true] at hm
    exact ⟨hm.1, hm.2.1.1, hm.2.2⟩
  · have hm : r ∈ ofName owner fileSection name rows := h ▸ List.mem_singleton_self r
    simp only [ofName, List.mem_filter, Bool.and_eq_true, decide_eq_true_eq] at hm
    exact ⟨hm.1, hm.2.1.1, by simp [isDownloadable, hm.2.1.2]⟩

theorem Addressed.section_eq (h : Addressed rows owner fileSection path name r) :
    r.fileSection = fileSection := by
  have hs := h.spec.2.1
  simp only [inScope, Bool.and_eq_true, decide_eq_true_eq] at hs
  exact hs.2

theorem Addressed.unique {r' : FileRecord} (h : Addressed rows owner fileSection path name r)
    (h' : Addressed rows owner fileSection path name r') : r = r' := by
  have hone : [r] = [r'] → r = r' := fun heq => (List.cons.inj heq).1
  rcases h with h | ⟨hnone, h⟩
  · rcases h' with h' | ⟨hnone', -⟩
    · exact hone (h.symm.trans h')
    · rw [hnone'] at h
      cases h
  · rcases h' with h' | ⟨-, h'⟩
    · rw [hnone] at h'
      cases h'
    · exact hone (h.symm.trans h')

/-- The row after the lookup has moved it to the path. -/
def movedTo (path : Str) (r : FileRecord) : FileRecord := { r with relativePath := path }

/-- The table after a lookup of the path that found `r`. -/
def afterLookup (d : Db) (path : Str) (r : FileRecord) : Db :=
  { d with records := d.records.update (·.id = r.id) (movedTo path) }

theorem update_self {t : RecordTable} {f : FileRecord → FileRecord} {p : FileRecord → Bool}
    (h : ∀ r ∈ t.rows, p r → f r = r) : t.update p f = t := by
  have hrows : RecordTable.updated p f t.rows = t.rows := by
    refine (List.map_congr_left fun r hr => ?_).trans (List.map_id _)
    split
    · rename_i hp
      simp [h r hr hp]
    · rfl
  cases t
  simp only [RecordTable.update] at *
  congr

theorem afterLookup_self (hr : r ∈ d.records.rows) (hpath : r.relativePath = path) :
    afterLookup d path r = d := by
  unfold afterLookup
  rw [update_self]
  intro r' hr' hid
  rw [RecordTable.eq_of_id hr' hr (by simpa using hid), movedTo, ← hpath]

theorem get_afterLookup (path : Str) (hr : r ∈ d.records.rows) :
    (afterLookup d path r).records.get r.id = some (movedTo path r) := by
  rw [afterLookup, RecordTable.get_update, RecordTable.get_of_mem hr]
  simp [movedTo]

/-- What `_get_record_by_section_path` can leave behind. -/
def Looked (d : Db) (owner : Option Uuid) (fileSection : FileSection) (path name : Str) :
    Except Exc (Option FileRecord) → Db → Prop
  | .ok (some found), t => ∃ r, Addressed d.records.rows owner fileSection path name r ∧
    found = movedTo path r ∧ t = afterLookup d path r
  | .ok none, t => t = d ∧ ∀ r, ¬ Addressed d.records.rows owner fileSection path name r
  | .error _, t => t = d

theorem scalarOneOrNone_some {rows : List FileRecord} {found : FileRecord}
    (h : scalarOneOrNone rows = .ok (some found)) : rows = [found] := by
  revert h
  rcases rows with _ | ⟨r, _ | ⟨r', rest⟩⟩ <;> simp [scalarOneOrNone]

theorem scalarOneOrNone_none {rows : List FileRecord} (h : scalarOneOrNone rows = .ok none) :
    rows = [] := by
  revert h
  rcases rows with _ | ⟨r, _ | ⟨r', rest⟩⟩ <;> simp [scalarOneOrNone]

theorem looked_downloadable {found : FileRecord}
    (h : (FileRepo.getDownloadable owner path fileSection d).1 = .ok (some found)) :
    Looked d owner fileSection path name (.ok (some found)) d := by
  have hrows : scalarOneOrNone (atPath owner fileSection path d.records.rows) =
    .ok (some found) := h
  have hone : atPath owner fileSection path d.records.rows = [found] := scalarOneOrNone_some hrows
  have hm : found ∈ atPath owner fileSection path d.records.rows :=
    hone ▸ List.mem_singleton_self found
  simp only [atPath, List.mem_filter, Bool.and_eq_true, decide_eq_true_eq] at hm
  refine ⟨found, .inl hone, ?_, (afterLookup_self hm.1 hm.2.1.2).symm⟩
  rw [movedTo, ← hm.2.1.2]

theorem looked_heal (h : (FileRepo.getDownloadable owner path fileSection d).1 = .ok none) :
    Looked d owner fileSection path name (FileRepo.heal owner fileSection path name d).1
      (FileRepo.heal owner fileSection path name d).2 := by
  have hrows : scalarOneOrNone (atPath owner fileSection path d.records.rows) = .ok none := h
  have hnone : atPath owner fileSection path d.records.rows = [] := scalarOneOrNone_none hrows
  have hnot : ¬ (∃ r, ofName owner fileSection name d.records.rows = [r]) →
      ∀ r, ¬ Addressed d.records.rows owner fileSection path name r := by
    rintro hno r (hr | ⟨-, hr⟩)
    · rw [hnone] at hr
      cases hr
    · exact hno ⟨r, hr⟩
  unfold FileRepo.heal
  have hfold : (d.records.rows.filter fun r => inScope owner fileSection r &&
      r.status = .committed && r.originalName = name) =
      ofName owner fileSection name d.records.rows := rfl
  rw [hfold]
  rcases hnamed : ofName owner fileSection name d.records.rows with _ | ⟨r, _ | ⟨r', rest⟩⟩
  · exact ⟨rfl, hnot (by simp [hnamed])⟩
  · have haddr : Addressed d.records.rows owner fileSection path name r := .inr ⟨hnone, hnamed⟩
    have hmem := haddr.spec.1
    dsimp only
    split
    · rename_i hpath
      refine ⟨r, haddr, ?_, (afterLookup_self hmem hpath).symm⟩
      rw [movedTo, ← hpath]
    · have hget := get_afterLookup path hmem
      simp only [FileRepo.assign]
      show Looked d owner fileSection path name
        (.ok ((afterLookup d path r).records.get r.id)) (afterLookup d path r)
      rw [hget]
      exact ⟨r, haddr, rfl, rfl⟩
  · exact ⟨rfl, hnot (by simp [hnamed])⟩

/-- The same for a path of the section. -/
def LookedUp (s : FileService) (userId : Uuid) (sectionPath : Str) (fileSection : FileSection)
    (d : Db) (x : Except Exc (Option FileRecord)) (t : Db) : Prop :=
  (∃ path, s.adapter.toDiskRelativePath sectionPath = .ok path ∧
    Looked d (lookupOwner userId fileSection) fileSection path (Text.name sectionPath) x t) ∨
  ∃ e, s.adapter.toDiskRelativePath sectionPath = .error e ∧ x = .error e ∧ t = d

/-- The two queries of a lookup, for the owner whose records it may find. -/
def lookupIn (owner : Option Uuid) (fileSection : FileSection) (path filename : Str) :
    FileM (Option FileRecord) := do
  match ← db (FileRepo.getDownloadable owner path fileSection) with
  | some record => pure (some record)
  | none => db (FileRepo.heal owner fileSection path filename)

theorem lookupIn_spec (owner : Option Uuid) (fileSection : FileSection) (path filename : Str)
    (d : Db) : dbWp (lookupIn owner fileSection path filename)
      (Looked d owner fileSection path filename) d := by
  refine bind_db (fun found hfound => ?_) fun e _ => rfl
  cases found with
  | some record => exact ⟨trivial, looked_downloadable hfound⟩
  | none => exact dbWp_db (looked_heal hfound)

/-- The lookup of a path moves the record it addresses there, and nothing else. -/
theorem lookup_spec (s : FileService) (userId : Uuid) (sectionPath : Str)
    (fileSection : FileSection) (d : Db) :
    dbWp (s.getRecordBySectionPath userId sectionPath fileSection)
      (LookedUp s userId sectionPath fileSection d) d := by
  unfold FileService.getRecordBySectionPath FileService.toDisk
  cases hdisk : s.adapter.toDiskRelativePath sectionPath with
  | error e => exact ⟨trivial, .inr ⟨e, hdisk, rfl, rfl⟩⟩
  | ok path =>
    have hboth := lookupIn_spec (lookupOwner userId fileSection) fileSection path
      (Text.name sectionPath) d
    refine wp_mono ?_ fun x t _ hx => .inl ⟨path, hdisk, hx⟩
    show dbWp (if fileSection = .shared then _ else _) _ d
    by_cases hs : fileSection = .shared
    · rw [if_pos hs]
      simp only [lookupOwner, if_pos hs] at hboth ⊢
      exact hboth
    · rw [if_neg hs]
      simp only [lookupOwner, if_neg hs] at hboth ⊢
      exact hboth

end WebStorage
