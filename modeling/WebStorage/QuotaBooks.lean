import WebStorage.Requests

set_option autoImplicit false

/-! The books of the quota table: what the columns of a user say against what is stored. -/
namespace WebStorage.QuotaBooks
open Effect Effect.Prog

/-- The columns that count bytes. -/
inductive Column
  | total | «private» | photos
deriving DecidableEq

def Column.counts : Column → FileSection → Bool
  | .total, _ => true
  | .private, fileSection => fileSection = .private
  | .photos, fileSection => fileSection = .photos

def Column.of : Column → QuotaUsage → Int
  | .total, usage => usage.totalBytes
  | .private, usage => usage.privateBytes
  | .photos, usage => usage.photosBytes

/-- The bytes of the user's `COMMITTED` and `ARCHIVED` records that a column counts. -/
def storedBytes (d : Db) (userId : Uuid) (column : Column) : Int :=
  ((d.records.rows.filter fun r => r.userId = userId && isDownloadable r &&
    column.counts r.fileSection).map (·.sizeBytes)).sum

/-- What the quota row of the user says; no row counts as zero. -/
def recordedBytes (d : Db) (userId : Uuid) (column : Column) : Int :=
  ((d.quotas.lookup userId).map column.of).getD 0

/-- What one record adds to a column of a user. -/
def weight (userId : Uuid) (column : Column) (r : FileRecord) : Int :=
  if r.userId = userId ∧ isDownloadable r ∧ column.counts r.fileSection then r.sizeBytes else 0

def due (owner : Uuid) (fileSection : FileSection) (bytes : Int) (userId : Uuid)
    (column : Column) : Int :=
  if userId = owner ∧ column.counts fileSection then bytes else 0

/-- The books are right but for `bytes` of one user in one section that have not been entered. -/
structure Off (owner : Uuid) (fileSection : FileSection) (bytes : Int) (d : Db) : Prop where
  drift : ∀ userId column, storedBytes d userId column =
    recordedBytes d userId column + due owner fileSection bytes userId column
  size : ∀ r ∈ d.records.rows, 0 ≤ r.sizeBytes

/-- Whoever has a downloadable record satisfies `P`. -/
def Owners (P : Uuid → Prop) (d : Db) : Prop :=
  ∀ r ∈ d.records.rows, isDownloadable r → P r.userId

def HasRow (d : Db) (userId : Uuid) : Prop := (d.quotas.lookup userId).isSome

/-- The books are right, sizes are sizes, and whoever stores a file has a quota row. -/
structure Balanced (d : Db) : Prop where
  exact : ∀ userId column, storedBytes d userId column = recordedBytes d userId column
  size : ∀ r ∈ d.records.rows, 0 ≤ r.sizeBytes
  row : Owners (HasRow d) d

variable {d : Db} {owner userId : Uuid} {fileSection : FileSection} {bytes : Int}
variable {column : Column} {record : FileRecord}

theorem stored_weight (d : Db) (userId : Uuid) (column : Column) :
    storedBytes d userId column = (d.records.rows.map (weight userId column)).sum := by
  unfold storedBytes
  induction d.records.rows with
  | nil => rfl
  | cons r rest ih =>
    rw [List.map_cons, List.sum_cons, ← ih]
    by_cases h : r.userId = userId ∧ isDownloadable r ∧ column.counts r.fileSection
    · obtain ⟨h1, h2, h3⟩ := h
      simp [weight, h1, h2, h3]
    · rw [weight, if_neg h, List.filter_cons_of_neg (by simpa [and_assoc] using h), zero_add]

theorem weight_congr {r r' : FileRecord} (howner : r'.userId = r.userId)
    (hsize : r'.sizeBytes = r.sizeBytes) (hsection : r'.fileSection = r.fileSection)
    (hstatus : isDownloadable r' = isDownloadable r) :
    weight userId column r' = weight userId column r := by
  simp only [weight, howner, hsize, hsection, hstatus]

theorem due_zero : due owner fileSection 0 userId column = 0 := by
  unfold due
  split <;> rfl

theorem due_add (m n : Int) : due owner fileSection (m + n) userId column =
    due owner fileSection m userId column + due owner fileSection n userId column := by
  unfold due
  split <;> simp

theorem Balanced.off (h : Balanced d) (owner : Uuid) (fileSection : FileSection) :
    Off owner fileSection 0 d where
  drift u c := by rw [h.exact, due_zero, add_zero]
  size := h.size

theorem Off.balanced (h : Off owner fileSection 0 d) (hrow : Owners (HasRow d) d) :
    Balanced d where
  exact u c := by rw [h.drift, due_zero, add_zero]
  size := h.size
  row := hrow

/-! ### Rows -/

theorem updated_cons (p : FileRecord → Bool) (f : FileRecord → FileRecord) (r : FileRecord)
    (rest : List FileRecord) : RecordTable.updated p f (r :: rest) =
      (if p r then { f r with id := r.id } else r) :: RecordTable.updated p f rest := rfl

/-- One row changes: a sum over the table changes by the difference. -/
theorem sum_updated_one {rows : List FileRecord} {f : FileRecord → FileRecord}
    (g : FileRecord → Int) (hn : (rows.map (·.id)).Nodup) (hr : record ∈ rows) :
    ((RecordTable.updated (·.id = record.id) f rows).map g).sum =
      (rows.map g).sum - g record + g { f record with id := record.id } := by
  induction rows with
  | nil => exact absurd hr List.not_mem_nil
  | cons r rest ih =>
    rw [List.map_cons, List.nodup_cons] at hn
    by_cases he : r.id = record.id
    · have hnot : record ∉ rest := fun hm => hn.1 (he ▸ List.mem_map_of_mem hm)
      have hrec : record = r := (List.mem_cons.1 hr).resolve_right hnot
      have hrest : RecordTable.updated (·.id = record.id) f rest = rest := by
        refine (List.map_congr_left fun x hx => ?_).trans (List.map_id _)
        have hx' : x.id ≠ record.id := fun h => hn.1 (he ▸ h ▸ List.mem_map_of_mem hx)
        simp [hx']
      rw [updated_cons, hrest, hrec]
      simp only [decide_true, if_true, List.map_cons, List.sum_cons]
      ring
    · have hmem : record ∈ rest := (List.mem_cons.1 hr).resolve_left fun h => he (h ▸ rfl)
      have hih := ih hn.2 hmem
      rw [updated_cons, List.map_cons, List.sum_cons, hih, List.map_cons, List.sum_cons]
      simp only [he, decide_false, Bool.false_eq_true, if_false]
      ring

theorem mem_updated {rows : List FileRecord} {p : FileRecord → Bool}
    {f : FileRecord → FileRecord} {r : FileRecord}
    (h : r ∈ RecordTable.updated p f rows) :
    ∃ r₀ ∈ rows, (p r₀ = true ∧ r = { f r₀ with id := r₀.id }) ∨ (p r₀ = false ∧ r = r₀) := by
  obtain ⟨r₀, hr₀, rfl⟩ := List.mem_map.1 h
  refine ⟨r₀, hr₀, ?_⟩
  cases hp : p r₀ <;> simp

theorem stored_update_one {f : FileRecord → FileRecord} (hr : d.records.get record.id = some record)
    (u : Uuid) (c : Column) :
    storedBytes { d with records := d.records.update (·.id = record.id) f } u c =
      storedBytes d u c - weight u c record + weight u c { f record with id := record.id } := by
  rw [stored_weight, stored_weight]
  exact sum_updated_one (weight u c) d.records.id_unique (RecordTable.get_some hr).1

theorem stored_update_same {p : FileRecord → Bool} {f : FileRecord → FileRecord}
    {u : Uuid} {c : Column} (h : ∀ r ∈ d.records.rows, p r →
      weight u c { f r with id := r.id } = weight u c r) :
    storedBytes { d with records := d.records.update p f } u c = storedBytes d u c := by
  rw [stored_weight, stored_weight]
  refine congrArg List.sum ?_
  simp only [RecordTable.update, RecordTable.updated, List.map_map]
  refine List.map_congr_left fun r hr => ?_
  simp only [Function.comp_apply]
  split
  · rename_i hp
    exact h r hr hp
  · rfl

/-- The row of the record is rewritten: its bytes move from the old weight to the new one. -/
theorem off_update_one {f : FileRecord → FileRecord} {bytes' : Int}
    (h : Off owner fileSection bytes d) (hr : d.records.get record.id = some record)
    (hsize : 0 ≤ (f record).sizeBytes)
    (hw : ∀ u c, weight u c { f record with id := record.id } =
      weight u c record + due owner fileSection bytes' u c) :
    Off owner fileSection (bytes + bytes')
      { d with records := d.records.update (·.id = record.id) f } where
  drift u c := by
    rw [stored_update_one hr, h.drift u c, hw, due_add]
    simp only [recordedBytes]
    ring
  size r hr' := by
    obtain ⟨r₀, hr₀, ⟨hid, rfl⟩ | ⟨-, rfl⟩⟩ := mem_updated hr'
    · have hsame := RecordTable.eq_of_id hr₀ (RecordTable.get_some hr).1 (by simpa using hid)
      rw [hsame]
      exact hsize
    · exact h.size _ hr₀

/-- Rows change; who becomes the owner of a downloadable one satisfies `P` too. -/
theorem owners_update {P : Uuid → Prop} {p : FileRecord → Bool} {f : FileRecord → FileRecord}
    (h : Owners P d) (hf : ∀ r ∈ d.records.rows, p r → (f r).userId = r.userId ∧
      (isDownloadable (f r) → isDownloadable r ∨ P r.userId)) :
    Owners P { d with records := d.records.update p f } := by
  intro r hr hd
  obtain ⟨r₀, hr₀, ⟨hp, rfl⟩ | ⟨-, rfl⟩⟩ := mem_updated hr
  · obtain ⟨howner, hdown⟩ := hf r₀ hr₀ hp
    show P (f r₀).userId
    rw [howner]
    exact (hdown hd).elim (h r₀ hr₀) id
  · exact h _ hr₀ hd

/-- Columns that no sum depends on are rewritten. -/
theorem balanced_update {p : FileRecord → Bool} {f : FileRecord → FileRecord} (h : Balanced d)
    (hf : ∀ r ∈ d.records.rows, p r → (f r).userId = r.userId ∧ (f r).sizeBytes = r.sizeBytes ∧
      (f r).fileSection = r.fileSection ∧ isDownloadable (f r) = isDownloadable r) :
    Balanced { d with records := d.records.update p f } where
  exact u c := by
    rw [stored_update_same, h.exact]
    · rfl
    · intro r hr hp
      obtain ⟨h1, h2, h3, h4⟩ := hf r hr hp
      exact weight_congr h1 h2 h3 h4
  size r hr := by
    obtain ⟨r₀, hr₀, ⟨hp, rfl⟩ | ⟨-, rfl⟩⟩ := mem_updated hr
    · have h2 : (f r₀).sizeBytes = r₀.sizeBytes := (hf r₀ hr₀ hp).2.1
      show 0 ≤ (f r₀).sizeBytes
      rw [h2]
      exact h.size r₀ hr₀
    · exact h.size _ hr₀
  row := by
    refine owners_update (P := HasRow d) h.row fun r hr hp => ?_
    obtain ⟨h1, -, -, h4⟩ := hf r hr hp
    exact ⟨h1, fun hd => .inl (h4 ▸ hd)⟩

/-! ### Quota rows -/

theorem recorded_insert {usage : QuotaUsage} (owner : Uuid) (u : Uuid) (c : Column) :
    recordedBytes { d with quotas := d.quotas.insert owner usage } u c =
      if u = owner then c.of usage else recordedBytes d u c := by
  unfold recordedBytes
  split
  · rename_i h
    rw [h, AList.lookup_insert]
    rfl
  · rename_i h
    rw [AList.lookup_insert_ne h]

theorem of_adjust (c : Column) (usage : QuotaUsage) :
    c.of (QuotaRepo.adjust bytes fileSection usage) =
      c.of usage + if c.counts fileSection then bytes else 0 := by
  cases c <;> simp [Column.of, Column.counts, QuotaRepo.adjust] <;> split <;> simp

theorem of_newUsage (limit : Int) (c : Column) : c.of (QuotaRepo.newUsage limit) = 0 := by
  cases c <;> rfl

theorem of_current (limit : Int) (owner : Uuid) (c : Column) :
    c.of ((d.quotas.lookup owner).getD (QuotaRepo.newUsage limit)) = recordedBytes d owner c := by
  unfold recordedBytes
  cases d.quotas.lookup owner with
  | none => exact of_newUsage limit c
  | some usage => rfl

theorem hasRow_modify {limit : Int} {f : QuotaUsage → QuotaUsage} {u : Uuid}
    (h : u ≠ owner → HasRow d u) : HasRow (QuotaRepo.modify limit owner f d).2 u := by
  unfold HasRow
  by_cases he : u = owner
  · rw [he, QuotaRepo.modify, AList.lookup_insert]
    rfl
  · rw [QuotaRepo.modify, AList.lookup_insert_ne he]
    exact h he

/-- The missing bytes are entered. -/
theorem balanced_adjust {limit : Int} (h : Off owner fileSection bytes d)
    (hrow : Owners (fun u => u ≠ owner → HasRow d u) d) :
    Balanced (QuotaRepo.modify limit owner (QuotaRepo.adjust bytes fileSection) d).2 where
  exact u c := by
    have hd := h.drift u c
    rw [QuotaRepo.modify, recorded_insert, of_adjust, of_current]
    unfold due at hd
    show storedBytes d u c = _
    by_cases he : u = owner <;> simp_all
  size := h.size
  row r hr hd := hasRow_modify (hrow r hr hd)

end WebStorage.QuotaBooks
