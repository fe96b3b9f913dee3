import Mathlib

set_option autoImplicit false

/-! Keyset pagination: rows with pairwise different keys are read in pages, each page starting
after the key that the last one ended with. -/
namespace WebStorage.Keyset

variable {α κ : Type} [LinearOrder κ] (key : α → κ)

/-- The rows after a key. -/
def rest (after : Option κ) (rows : List α) : List α :=
  rows.filter fun row => after.all fun k => decide (k < key row)

/-- Rows in the order of their keys. -/
def Ascending (rows : List α) : Prop := rows.Pairwise fun a b => key a < key b

variable {key} {rows : List α} {r : α → α → Prop} [DecidableRel r]

/-- Sorting rows with different keys puts them in order. -/
theorem ascending_insertionSort (hr : ∀ a b, r a b ↔ key a ≤ key b) (h : (rows.map key).Nodup) :
    Ascending key (rows.insertionSort r) := by
  have htotal : Std.Total r := ⟨fun a b => by
    rw [hr, hr]
    exact le_total (key a) (key b)⟩
  have htrans : IsTrans α r := ⟨fun a b c => by
    rw [hr, hr, hr]
    exact le_trans⟩
  have hsorted := List.pairwise_insertionSort r rows
  have hdistinct : (rows.insertionSort r).Pairwise fun a b => key a ≠ key b := by
    have hperm := (List.perm_insertionSort r rows).map key
    exact List.pairwise_map.1 (hperm.nodup_iff.2 h)
  refine (hsorted.and hdistinct).imp ?_
  intro a b hab
  exact lt_of_le_of_ne ((hr a b).1 hab.1) hab.2

theorem Ascending.sublist {sub : List α} (h : Ascending key rows) (hsub : sub.Sublist rows) :
    Ascending key sub := List.Pairwise.sublist hsub h

/-- There is one order of the same rows. -/
theorem Ascending.eq_of_perm {rows' : List α} (h : Ascending key rows) (h' : Ascending key rows')
    (hperm : rows.Perm rows') : rows = rows' := by
  have hrows : rows.Pairwise fun a b => key a < key b := h
  have hrows' : rows'.Pairwise fun a b => key a < key b := h'
  apply List.Perm.eq_of_pairwise _ hrows hrows' hperm
  intro a b _ _ hab hba
  exact absurd hab (lt_asymm hba)

/-- The order of some of the rows is that of all rows. -/
theorem insertionSort_filter (hr : ∀ a b, r a b ↔ key a ≤ key b) (h : (rows.map key).Nodup)
    (p : α → Bool) : (rows.filter p).insertionSort r = (rows.insertionSort r).filter p := by
  have hfiltered : ((rows.filter p).map key).Nodup := h.sublist (List.filter_sublist.map key)
  apply (ascending_insertionSort hr hfiltered).eq_of_perm
  · exact (ascending_insertionSort hr h).sublist List.filter_sublist
  · exact (List.perm_insertionSort r _).trans ((List.perm_insertionSort r rows).symm.filter p)

/-- What is after the last row of a page is what the page left over. -/
theorem rest_page (h : Ascending key rows) (n : ℕ) {last : α}
    (hlast : (rows.take n).getLast? = some last) : rest key (some (key last)) rows = rows.drop n := by
  have hsplit : rows = rows.take n ++ rows.drop n := (List.take_append_drop n rows).symm
  obtain ⟨front, hfront⟩ := List.getLast?_eq_some_iff.1 hlast
  have hpair : (rows.take n ++ rows.drop n).Pairwise fun a b => key a < key b := hsplit ▸ h
  obtain ⟨hpage, -, hcross⟩ := List.pairwise_append.1 hpair
  have hmem : last ∈ rows.take n := by
    rw [hfront]
    exact List.mem_append_right _ (List.mem_singleton_self _)
  rw [hfront] at hpage
  have hle : ∀ row ∈ rows.take n, key row ≤ key last := by
    intro row hrow
    rw [hfront] at hrow
    rcases List.mem_append.1 hrow with hbefore | hself
    · exact le_of_lt ((List.pairwise_append.1 hpage).2.2 row hbefore last
        (List.mem_singleton_self _))
    · rw [List.mem_singleton.1 hself]
  have hnone : (rows.take n).filter (fun row => decide (key last < key row)) = [] := by
    rw [List.filter_eq_nil_iff]
    intro row hrow hlt
    exact absurd (of_decide_eq_true hlt) (not_lt.2 (hle row hrow))
  have hall : (rows.drop n).filter (fun row => decide (key last < key row)) = rows.drop n := by
    rw [List.filter_eq_self]
    intro row hrow
    exact decide_eq_true (hcross last hmem row hrow)
  calc rest key (some (key last)) rows
      = rows.filter fun row => decide (key last < key row) := rfl
    _ = (rows.take n ++ rows.drop n).filter fun row => decide (key last < key row) := by
        rw [List.take_append_drop]
    _ = rows.drop n := by rw [List.filter_append, hnone, hall, List.nil_append]

end WebStorage.Keyset
