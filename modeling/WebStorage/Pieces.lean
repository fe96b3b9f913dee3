import Mathlib

set_option autoImplicit false

/-! A list cut into pieces of one size. What is cut off so far, and what is left in the buffer,
depends on the elements seen and not on the chunks they came in. -/
namespace WebStorage.Pieces
variable {α : Type*} {size : Nat} {body : List α}

/-- The full pieces at the front. -/
def pieces (size : Nat) (body : List α) : List (List α) :=
  (List.range (body.length / size)).map fun i => (body.drop (i * size)).take size

/-- What is left behind the full pieces. -/
def remainder (size : Nat) (body : List α) : List α := body.drop (body.length / size * size)

theorem pieces_of_lt (h : body.length < size) : pieces size body = [] := by
  unfold pieces
  rw [Nat.div_eq_of_lt h]
  rfl

theorem remainder_of_lt (h : body.length < size) : remainder size body = body := by
  unfold remainder
  rw [Nat.div_eq_of_lt h, Nat.zero_mul]
  rfl

theorem div_of_le (hsize : 0 < size) (h : size ≤ body.length) :
    body.length / size = (body.drop size).length / size + 1 := by
  rw [List.length_drop]
  exact Nat.div_eq_sub_div hsize h

theorem pieces_of_le (hsize : 0 < size) (h : size ≤ body.length) :
    pieces size body = body.take size :: pieces size (body.drop size) := by
  unfold pieces
  rw [div_of_le hsize h, List.range_succ_eq_map, List.map_cons, List.map_map]
  congr 1
  · rw [Nat.zero_mul, List.drop_zero]
  · apply List.map_congr_left
    intro i _
    have hoffset : (i + 1) * size = size + i * size := by ring
    show (body.drop ((i + 1) * size)).take size = ((body.drop size).drop (i * size)).take size
    rw [List.drop_drop, hoffset]

theorem remainder_of_le (hsize : 0 < size) (h : size ≤ body.length) :
    remainder size body = remainder size (body.drop size) := by
  unfold remainder
  have hoffset : ((body.drop size).length / size + 1) * size =
      size + (body.drop size).length / size * size := by ring
  rw [List.drop_drop, div_of_le hsize h, hoffset]

@[simp] theorem length_pieces : (pieces size body).length = body.length / size := by
  simp [pieces]

theorem remainder_lt (hsize : 0 < size) (body : List α) : (remainder size body).length < size := by
  have hmod := Nat.mod_lt body.length hsize
  have hdiv := Nat.div_add_mod body.length size
  have hcomm := Nat.mul_comm size (body.length / size)
  unfold remainder
  rw [List.length_drop]
  omega

/-- Cutting the front off a list goes on with what is left of it. -/
theorem cut_append (hsize : 0 < size) (body rest : List α) :
    pieces size (body ++ rest) = pieces size body ++ pieces size (remainder size body ++ rest) ∧
      remainder size (body ++ rest) = remainder size (remainder size body ++ rest) := by
  induction hn : body.length using Nat.strongRecOn generalizing body with
  | ind n ih =>
    by_cases hlt : body.length < size
    · rw [pieces_of_lt hlt, remainder_of_lt hlt]
      exact ⟨rfl, rfl⟩
    · have hle : size ≤ body.length := Nat.le_of_not_lt hlt
      have hboth : size ≤ (body ++ rest).length := by
        rw [List.length_append]
        omega
      have hshort : (body.drop size).length < n := by
        rw [List.length_drop]
        omega
      obtain ⟨hpieces, hrest⟩ := ih _ hshort (body.drop size) rfl
      rw [pieces_of_le hsize hboth, pieces_of_le hsize hle, remainder_of_le hsize hboth,
        remainder_of_le hsize hle, List.take_append_of_le_length hle,
        List.drop_append_of_le_length hle, hpieces, List.cons_append]
      exact ⟨rfl, hrest⟩

theorem pieces_append (hsize : 0 < size) (body rest : List α) :
    pieces size (body ++ rest) = pieces size body ++ pieces size (remainder size body ++ rest) :=
  (cut_append hsize body rest).1

theorem pieces_flatten (hsize : 0 < size) (body : List α) :
    (pieces size body).flatten ++ remainder size body = body := by
  induction hn : body.length using Nat.strongRecOn generalizing body with
  | ind n ih =>
    by_cases hlt : body.length < size
    · rw [pieces_of_lt hlt, remainder_of_lt hlt]
      rfl
    · have hle : size ≤ body.length := Nat.le_of_not_lt hlt
      have hshort : (body.drop size).length < n := by
        rw [List.length_drop]
        omega
      have hrest := ih _ hshort (body.drop size) rfl
      rw [pieces_of_le hsize hle, remainder_of_le hsize hle, List.flatten_cons, List.append_assoc,
        hrest, List.take_append_drop]

theorem length_of_mem (hsize : 0 < size) {piece : List α} (h : piece ∈ pieces size body) :
    piece.length = size := by
  unfold pieces at h
  obtain ⟨i, hi, heq⟩ := List.mem_map.1 h
  have hlt : i < body.length / size := List.mem_range.1 hi
  have hmul : (i + 1) * size ≤ body.length := (Nat.le_div_iff_mul_le hsize).1 hlt
  have hsplit : (i + 1) * size = i * size + size := by ring
  rw [← heq, List.length_take, List.length_drop]
  omega

/-- The full pieces, and the rest as the last one unless it is empty. -/
def cut (size : Nat) (body : List α) : List (List α) :=
  pieces size body ++ if remainder size body = [] then [] else [remainder size body]

theorem cut_split (hsize : 0 < size) (body rest : List α) :
    cut size (body ++ rest) = pieces size body ++ cut size (remainder size body ++ rest) := by
  obtain ⟨hpieces, hrest⟩ := cut_append hsize body rest
  unfold cut
  rw [hpieces, hrest, List.append_assoc]

theorem cut_flatten (hsize : 0 < size) (body : List α) : (cut size body).flatten = body := by
  have hflat := pieces_flatten hsize body
  unfold cut
  rw [List.flatten_append]
  split
  next h =>
    rw [h] at hflat
    rw [List.flatten_nil, hflat]
  next => rw [List.flatten_cons, List.flatten_nil, List.append_nil, hflat]

/-- Pieces of which all but the last are full and none is empty. -/
structure WellCut (size : Nat) (parts : List (List α)) : Prop where
  full : ∀ part ∈ parts.dropLast, part.length = size
  nonempty : ∀ part ∈ parts, part ≠ []
  fits : ∀ part ∈ parts, part.length ≤ size

theorem dropLast_of_start {first whole : List α} (h : first <+: whole) :
    first.dropLast <+: whole.dropLast := by
  obtain ⟨rest, hrest⟩ := h
  subst hrest
  by_cases hnil : rest = []
  · rw [hnil, List.append_nil]
  · rw [List.dropLast_append_of_ne_nil hnil]
    exact (List.dropLast_prefix first).trans (List.prefix_append _ _)

theorem wellCut_of_prefix {parts : List (List α)} (h : WellCut size parts) {first : List (List α)}
    (hstart : first <+: parts) : WellCut size first := by
  constructor
  · intro part hpart
    exact h.full part ((dropLast_of_start hstart).subset hpart)
  · exact fun part hpart => h.nonempty part (hstart.subset hpart)
  · exact fun part hpart => h.fits part (hstart.subset hpart)

theorem wellCut_cut (hsize : 0 < size) (body : List α) : WellCut size (cut size body) := by
  have hfull : ∀ part ∈ pieces size body, part.length = size := fun _ h => length_of_mem hsize h
  have hpiece : ∀ part ∈ pieces size body, part ≠ [] := by
    intro part hpart hnil
    have hlength := hfull part hpart
    rw [hnil, List.length_nil] at hlength
    omega
  unfold cut
  by_cases hnone : remainder size body = []
  · rw [if_pos hnone, List.append_nil]
    constructor
    · exact fun part hpart => hfull part (List.dropLast_subset _ hpart)
    · exact hpiece
    · exact fun part hpart => (hfull part hpart).le
  · rw [if_neg hnone]
    constructor
    · intro part hpart
      rw [List.dropLast_concat] at hpart
      exact hfull part hpart
    · intro part hpart
      rcases List.mem_append.1 hpart with hin | hlast
      · exact hpiece part hin
      · rw [List.mem_singleton.1 hlast]
        exact hnone
    · intro part hpart
      rcases List.mem_append.1 hpart with hin | hlast
      · exact (hfull part hin).le
      · rw [List.mem_singleton.1 hlast]
        exact (remainder_lt hsize body).le

theorem pieces_prefix_cut : pieces size body <+: cut size body := List.prefix_append _ _

end WebStorage.Pieces
