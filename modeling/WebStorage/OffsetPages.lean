import Mathlib

set_option autoImplicit false

/-! Pages cut by offset and limit out of answers that are sorted by a key, where every page may come
from another answer: rows with equal keys stand in any order. -/
namespace WebStorage.OffsetPages

variable {α τ : Type} [LinearOrder τ]

/-- One answer to a query that sorts the rows by a key, the greatest first. -/
structure Answer (key : α → τ) (rows : List α) where
  list : List α
  perm : list.Perm rows
  sorted : list.Pairwise fun a b => key b ≤ key a

/-- The rows of one page, pages counted from zero. -/
def window (limit i : Nat) (list : List α) : List α := (list.drop (i * limit)).take limit

/-- The first `n` pages, each cut out of an answer of its own. -/
def pages {key : α → τ} {rows : List α} (answers : Nat → Answer key rows) (limit n : Nat) : List α :=
  (List.range n).flatMap fun i => window limit i (answers i).list

/-- No boundary between two pages falls between two rows of one key. -/
def Unsplit (key : α → τ) (rows : List α) (limit : Nat) : Prop :=
  ∀ k c, ¬ (rows.countP (fun a => c < key a) < k * limit ∧ k * limit < rows.countP fun a => c ≤ key a)

section
variable {key : α → τ} {rows : List α} {limit : Nat}

theorem pages_succ (answers : Nat → Answer key rows) (n : Nat) :
    pages answers limit (n + 1) = pages answers limit n ++ window limit n (answers n).list := by
  unfold pages
  rw [List.range_succ, List.flatMap_append, List.flatMap_singleton]

theorem take_succ_window (n : Nat) (list : List α) :
    list.take ((n + 1) * limit) = list.take (n * limit) ++ window limit n list := by
  unfold window
  rw [Nat.succ_mul, List.take_add]

theorem sorted_iff_keys {list : List α} : (list.Pairwise fun a b => key b ≤ key a) ↔
    (list.map key).Pairwise fun c d => d ≤ c :=
  (List.pairwise_map (R := fun c d : τ => d ≤ c)).symm

/-- The keys of sorted answers are the same list. -/
theorem keys_eq (a b : Answer key rows) : a.list.map key = b.list.map key := by
  have hperm : (a.list.map key).Perm (b.list.map key) := (a.perm.trans b.perm.symm).map key
  apply List.Perm.eq_of_pairwise _ (sorted_iff_keys.1 a.sorted) (sorted_iff_keys.1 b.sorted) hperm
  exact fun c d _ _ hcd hdc => le_antisymm hdc hcd

theorem keys_pages (answers : Nat → Answer key rows) (a : Answer key rows) (n : Nat) :
    (pages answers limit n).map key = (a.list.map key).take (n * limit) := by
  induction n with
  | zero =>
    rw [Nat.zero_mul]
    rfl
  | succ n ih =>
    have hwindow : (window limit n (answers n).list).map key = window limit n (a.list.map key) := by
      unfold window
      rw [List.map_take, List.map_drop, keys_eq (answers n) a]
    rw [pages_succ, List.map_append, ih, take_succ_window, hwindow]

/-- The pages are sorted whichever answers they are cut from. -/
theorem pages_sorted (answers : Nat → Answer key rows) (n : Nat) :
    (pages answers limit n).Pairwise fun a b => key b ≤ key a := by
  have hkeys : (pages answers limit n).map key = ((answers 0).list.map key).take (n * limit) :=
    keys_pages answers (answers 0) n
  apply sorted_iff_keys.2
  rw [hkeys]
  exact (sorted_iff_keys.1 (answers 0).sorted).take

/-- Where a property holds of all that comes before, it holds of the first rows of a list. -/
theorem holds_iff_lt {p : α → Bool} : ∀ {list : List α}, list.Pairwise (fun a b => p b = true → p a = true) →
    ∀ i (hi : i < list.length), p list[i] = true ↔ i < list.countP p := by
  intro list
  induction list with
  | nil =>
    intro _ i hi
    cases hi
  | cons a rest ih =>
    intro h i hi
    obtain ⟨hhead, hrest⟩ := List.pairwise_cons.1 h
    by_cases ha : p a = true
    · rw [List.countP_cons_of_pos ha]
      cases i with
      | zero => exact ⟨fun _ => Nat.succ_pos _, fun _ => ha⟩
      | succ i =>
        have hi' : i < rest.length := Nat.lt_of_succ_lt_succ hi
        rw [List.getElem_cons_succ, ih hrest i hi']
        omega
    · have hnone : ∀ b ∈ rest, ¬ p b = true := fun b hb hpb => ha (hhead b hb hpb)
      rw [List.countP_cons_of_neg ha, List.countP_eq_zero.2 hnone]
      constructor
      · intro hp
        rcases List.mem_cons.1 (List.getElem_mem hi) with heq | hmem
        · exact absurd (heq ▸ hp) ha
        · exact absurd hp (hnone _ hmem)
      · exact fun hlt => absurd hlt (Nat.not_lt_zero i)

theorem filter_eq_take {p : α → Bool} : ∀ {list : List α},
    list.Pairwise (fun a b => p b = true → p a = true) → list.filter p = list.take (list.countP p) := by
  intro list
  induction list with
  | nil => exact fun _ => rfl
  | cons a rest ih =>
    intro h
    obtain ⟨hhead, hrest⟩ := List.pairwise_cons.1 h
    by_cases ha : p a = true
    · rw [List.filter_cons_of_pos ha, List.countP_cons_of_pos ha, List.take_succ_cons, ih hrest]
    · have hnone : ∀ b ∈ rest, ¬ p b = true := fun b hb hpb => ha (hhead b hb hpb)
      rw [List.filter_cons_of_neg ha, List.filter_eq_nil_iff.2 hnone, List.countP_cons_of_neg ha,
        List.countP_eq_zero.2 hnone, List.take_zero]

theorem Answer.above (a : Answer key rows) (c : τ) :
    a.list.Pairwise fun x y => decide (c < key y) = true → decide (c < key x) = true := by
  apply a.sorted.imp
  intro x y hle hy
  exact decide_eq_true (lt_of_lt_of_le (of_decide_eq_true hy) hle)

theorem Answer.lt_key_iff (a : Answer key rows) (c : τ) (i : Nat) (hi : i < a.list.length) :
    c < key a.list[i] ↔ i < rows.countP fun x => c < key x := by
  rw [← a.perm.countP_eq, ← holds_iff_lt (a.above c) i hi, decide_eq_true_iff]

theorem Answer.le_key_iff (a : Answer key rows) (c : τ) (i : Nat) (hi : i < a.list.length) :
    c ≤ key a.list[i] ↔ i < rows.countP fun x => c ≤ key x := by
  have hsorted : a.list.Pairwise fun x y => decide (c ≤ key y) = true → decide (c ≤ key x) = true := by
    apply a.sorted.imp
    intro x y hle hy
    exact decide_eq_true (le_trans (of_decide_eq_true hy) hle)
  rw [← a.perm.countP_eq, ← holds_iff_lt hsorted i hi, decide_eq_true_iff]

/-- Up to a boundary that splits no key, all answers have the same rows. -/
theorem take_perm (h : Unsplit key rows limit) (a b : Answer key rows) (n : Nat) :
    (a.list.take (n * limit)).Perm (b.list.take (n * limit)) := by
  by_cases hn : n * limit < a.list.length
  · -- the key at the boundary: the rows above it are exactly those before the boundary
    have hle := (a.le_key_iff (key a.list[n * limit]) _ hn).1 le_rfl
    have hnot : ¬ n * limit < rows.countP fun x => key a.list[n * limit] < key x :=
      fun hlt => lt_irrefl _ ((a.lt_key_iff _ _ hn).2 hlt)
    have hcount : (rows.countP fun x => key a.list[n * limit] < key x) = n * limit := by
      have hsplit := h n (key a.list[n * limit])
      omega
    have htake : ∀ x : Answer key rows, x.list.take (n * limit) =
        x.list.filter fun y => key a.list[n * limit] < key y := by
      intro x
      rw [filter_eq_take (x.above _), x.perm.countP_eq, hcount]
    rw [htake a, htake b]
    exact (a.perm.trans b.perm.symm).filter _
  · have hb : b.list.length ≤ n * limit := by
      have hlength := (a.perm.trans b.perm.symm).length_eq
      omega
    rw [List.take_of_length_le (Nat.le_of_not_lt hn), List.take_of_length_le hb]
    exact a.perm.trans b.perm.symm

/-- The pages up to a boundary have the rows of any answer up to it. -/
theorem pages_take (h : Unsplit key rows limit) (answers : Nat → Answer key rows) (a : Answer key rows)
    (n : Nat) : (pages answers limit n).Perm (a.list.take (n * limit)) := by
  induction n with
  | zero =>
    rw [Nat.zero_mul, List.take_zero]
    exact .nil
  | succ n ih =>
    rw [pages_succ]
    have hprefix : (pages answers limit n).Perm ((answers n).list.take (n * limit)) :=
      ih.trans (take_perm h a (answers n) n)
    have hwhole : (pages answers limit n ++ window limit n (answers n).list).Perm
        ((answers n).list.take ((n + 1) * limit)) := by
      rw [take_succ_window]
      exact hprefix.append_right _
    exact hwhole.trans (take_perm h (answers n) a (n + 1))

theorem pages_perm (h : Unsplit key rows limit) (answers : Nat → Answer key rows) {n : Nat}
    (hn : rows.length ≤ n * limit) : (pages answers limit n).Perm rows := by
  have hlength := (answers 0).perm.length_eq
  have hall := pages_take h answers (answers 0) n
  rw [List.take_of_length_le (by omega)] at hall
  exact hall.trans (answers 0).perm

theorem pages_same {answers : Nat → Answer key rows} {list : List α} {n : Nat}
    (h : ∀ i < n, (answers i).list = list) : pages answers limit n = list.take (n * limit) := by
  induction n with
  | zero =>
    rw [Nat.zero_mul]
    rfl
  | succ n ih =>
    rw [pages_succ, take_succ_window, ih fun i hi => h i (Nat.lt_succ_of_lt hi), h n (Nat.lt_succ_self n)]

/-- Two neighbours of one key change places. -/
def Answer.swap (a : Answer key rows) (i : Nat) (hi : i + 1 < a.list.length)
    (heq : key a.list[i] = key a.list[i + 1]) : Answer key rows where
  list := a.list.take i ++ a.list[i + 1] :: a.list[i] :: a.list.drop (i + 2)
  perm := by
    have hsplit : a.list = a.list.take i ++ a.list[i] :: a.list[i + 1] :: a.list.drop (i + 2) := by
      rw [List.getElem_cons_drop, List.getElem_cons_drop, List.take_append_drop]
    have hswap : (a.list.take i ++ a.list[i + 1] :: a.list[i] :: a.list.drop (i + 2)).Perm
        (a.list.take i ++ a.list[i] :: a.list[i + 1] :: a.list.drop (i + 2)) :=
      (List.Perm.swap _ _ _).append_left _
    rw [← hsplit] at hswap
    exact hswap.trans a.perm
  sorted := by
    have hsplit : a.list = a.list.take i ++ a.list[i] :: a.list[i + 1] :: a.list.drop (i + 2) := by
      rw [List.getElem_cons_drop, List.getElem_cons_drop, List.take_append_drop]
    have hkeys := sorted_iff_keys.1 a.sorted
    apply sorted_iff_keys.2
    rw [hsplit] at hkeys
    simpa only [List.map_append, List.map_cons, heq] using hkeys

/-- A boundary inside the rows of one key repeats one of them, when two answers differ there. -/
theorem split_repeats (hlimit : 0 < limit) (a : Answer key rows)
    (h : ¬ Unsplit key rows limit) :
    ∃ answers : Nat → Answer key rows, ∀ n, rows.length ≤ n * limit → ¬ (pages answers limit n).Nodup := by
  unfold Unsplit at h
  push Not at h
  obtain ⟨k, c, hbefore, hafter⟩ := h
  have hlength := a.perm.length_eq
  have hcount : (rows.countP fun x => c ≤ key x) ≤ rows.length := List.countP_le_length
  obtain ⟨i, hi⟩ : ∃ i, k * limit = i + 1 := ⟨k * limit - 1, by omega⟩
  have hnext : i + 1 < a.list.length := by omega
  have hkey : ∀ j (hj : j < a.list.length), j = i ∨ j = i + 1 → key a.list[j] = c := by
    intro j hj hor
    apply le_antisymm
    · exact le_of_not_gt fun hlt => by
        have hfirst := (a.lt_key_iff c j hj).1 hlt
        omega
    · exact (a.le_key_iff c j hj).2 (by omega)
  have heq : key a.list[i] = key a.list[i + 1] :=
    (hkey i (by omega) (.inl rfl)).trans (hkey (i + 1) hnext (.inr rfl)).symm
  refine ⟨fun j => if j = k then a.swap i hnext heq else a, ?_⟩
  intro n hn hnodup
  have hk : k < n := by
    by_contra hge
    have hmul := Nat.mul_le_mul_right limit (Nat.le_of_not_lt hge)
    omega
  have hpages : pages (fun j => if j = k then a.swap i hnext heq else a) limit k =
      a.list.take (k * limit) := by
    apply pages_same
    intro j hj
    rw [if_neg (Nat.ne_of_lt hj)]
  have hfirst : a.list[i] ∈ a.list.take (k * limit) := by
    rw [hi]
    exact List.mem_take_iff_getElem.2 ⟨i, by omega, rfl⟩
  have hsecond : a.list[i] ∈ window limit k (a.swap i hnext heq).list := by
    have hdrop : (a.swap i hnext heq).list.drop (k * limit) = a.list[i] :: a.list.drop (i + 2) := by
      show (a.list.take i ++ a.list[i + 1] :: a.list[i] :: a.list.drop (i + 2)).drop (k * limit) = _
      have htake : (a.list.take i).length = i := by
        rw [List.length_take]
        omega
      rw [hi, List.drop_append, htake]
      simp
    unfold window
    rw [hdrop]
    obtain ⟨l, hl⟩ : ∃ l, limit = l + 1 := ⟨limit - 1, by omega⟩
    rw [hl, List.take_succ_cons]
    exact List.mem_cons_self
  have hsub : ∀ m, k + 1 ≤ m → (pages (fun j => if j = k then a.swap i hnext heq else a) limit (k + 1)).Sublist
      (pages (fun j => if j = k then a.swap i hnext heq else a) limit m) := by
    intro m hm
    induction m, hm using Nat.le_induction with
    | base => exact List.Sublist.refl _
    | succ m _ ih =>
      rw [pages_succ _ m]
      exact ih.trans (List.sublist_append_left _ _)
  have hshort := hnodup.sublist (hsub n hk)
  rw [pages_succ, hpages, if_pos rfl] at hshort
  exact List.disjoint_of_nodup_append hshort hfirst hsecond

/-- Rows of different keys are split by no boundary. -/
theorem unsplit_of_nodup (h : (rows.map key).Nodup) (limit : Nat) : Unsplit key rows limit := by
  intro k c hsplit
  have hsum : (rows.countP fun a => c ≤ key a) =
      (rows.countP fun a => c < key a) + rows.countP fun a => key a = c := by
    clear h hsplit
    induction rows with
    | nil => rfl
    | cons a rest ih =>
      simp only [List.countP_cons, ih]
      rcases lt_trichotomy c (key a) with hlt | heq | hgt
      · simp [hlt, hlt.le, hlt.ne']
        omega
      · simp [heq]
        omega
      · simp [hgt.not_ge, hgt.not_gt, hgt.ne]
  have hone : (rows.countP fun a => key a = c) ≤ 1 := by
    have hcount := List.nodup_iff_count_le_one.1 h c
    rw [List.count_eq_countP, List.countP_map] at hcount
    apply le_trans (List.countP_mono_left _) hcount
    intro a _ ha
    simpa using ha
  omega

end
end WebStorage.OffsetPages
