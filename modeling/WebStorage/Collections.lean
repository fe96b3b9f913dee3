import Mathlib

set_option autoImplicit false

/-! Dictionaries that are filled in one pass, the stable sort by a descending key, and the steps of
a computation that may fail. -/
namespace WebStorage.Collections

/-- A computation that succeeds succeeded at its first step. -/
theorem except_bind {ε α β : Type} {x : Except ε α} {f : α → Except ε β} {b : β}
    (h : (x >>= f) = .ok b) : ∃ a, x = .ok a ∧ f a = .ok b := by
  cases x with
  | error e => cases h
  | ok a => exact ⟨a, rfl, h⟩

theorem except_map {ε α β : Type} {x : Except ε α} {f : α → β} {b : β}
    (h : x.map f = .ok b) : ∃ a, x = .ok a ∧ f a = b := by
  cases x with
  | error e => cases h
  | ok a => exact ⟨a, rfl, Except.ok.inj h⟩

section
variable {κ v : Type} [DecidableEq κ]

/-- `found = {}`, then `found[key] = value` for each pair. -/
def dictOf (pairs : List (κ × v)) : AList fun _ : κ => v :=
  pairs.foldl (fun found pair => found.insert pair.1 pair.2) ∅

/-- Where no key comes with two values, the dictionary holds the pairs. -/
theorem lookup_dictOf {pairs : List (κ × v)} {k : κ} {x : v}
    (h : ∀ a ∈ pairs, ∀ b ∈ pairs, a.1 = b.1 → a.2 = b.2) :
    (dictOf pairs).lookup k = some x ↔ (k, x) ∈ pairs := by
  induction pairs using List.reverseRecOn with
  | nil =>
    rw [dictOf, List.foldl_nil, AList.lookup_empty]
    simp
  | append_singleton pairs last ih =>
    obtain ⟨k', x'⟩ := last
    have hprev := ih fun a ha b hb => h a (List.mem_append_left _ ha) b (List.mem_append_left _ hb)
    have hlast : (k', x') ∈ pairs ++ [(k', x')] :=
      List.mem_append_right _ (List.mem_singleton_self _)
    have hstep : dictOf (pairs ++ [(k', x')]) = (dictOf pairs).insert k' x' := by
      unfold dictOf
      rw [List.foldl_append, List.foldl_cons, List.foldl_nil]
    rw [hstep, List.mem_append, List.mem_singleton]
    by_cases hk : k = k'
    · rw [hk, AList.lookup_insert]
      constructor
      · intro hx
        rw [Option.some.inj hx]
        exact .inr rfl
      · intro hmem
        rcases hmem with hmem | heq
        · have hsame : x = x' := h _ (List.mem_append_left _ hmem) _ hlast rfl
          rw [hsame]
        · rw [(Prod.mk.inj heq).2]
    · rw [AList.lookup_insert_ne hk, hprev]
      apply (or_iff_left _).symm
      intro heq
      exact hk (Prod.mk.inj heq).1

end

section
variable {α S : Type} [LE S] (key : α → S)

/-- Any two keys of the items compare. -/
def Compare (items : List α) : Prop :=
  ∀ a ∈ items, ∀ b ∈ items, key a ≤ key b ∨ key b ≤ key a

/-- The key compares as equal with `s`. -/
def Tied (s : S) (a : α) : Prop := key a ≤ s ∧ s ≤ key a

instance [DecidableLE S] (s : S) : DecidablePred (Tied key s) := fun _ => instDecidableAnd

/-- What `list.sort(key=key, reverse=True)` promises. It only rearranges its items; where their keys
compare, the greater come first and equal ones keep their order. -/
structure ReverseSort [DecidableLE S] where
  sort : List α → List α
  perm : ∀ items, (sort items).Perm items
  ordered : ∀ items, Compare key items → (sort items).Pairwise fun a b => key b ≤ key a
  stable : ∀ items, Compare key items → ∀ s,
    (sort items).filter (fun b => decide (Tied key s b)) = items.filter fun b => decide (Tied key s b)

/-- `a` may stand before `b` in descending order: its key is not the lesser one. -/
def descending (a b : α) : Prop := ¬(key a ≤ key b ∧ ¬key b ≤ key a)

instance [DecidableLE S] : DecidableRel (descending key) := fun _ _ => instDecidableNot

variable {key} {items : List α} {a : α}

theorem descending_iff {b : α} (h : key a ≤ key b ∨ key b ≤ key a) :
    descending key a b ↔ key b ≤ key a := by
  unfold descending
  constructor
  · intro hnot
    rcases h with hle | hle
    · exact not_not.1 fun hlt => hnot ⟨hle, hlt⟩
    · exact hle
  · intro hle hlt
    exact hlt.2 hle

variable [DecidableLE S] [IsTrans S (· ≤ ·)]

theorem pairwise_orderedInsert (h : Compare key (a :: items))
    (hsorted : items.Pairwise fun b c => key c ≤ key b) :
    (items.orderedInsert (descending key) a).Pairwise fun b c => key c ≤ key b := by
  induction items with
  | nil => exact List.pairwise_singleton _ _
  | cons b items ih =>
    obtain ⟨hfirst, hrest⟩ := List.pairwise_cons.1 hsorted
    have hab := h a List.mem_cons_self b (List.mem_cons_of_mem a List.mem_cons_self)
    by_cases hle : descending key a b
    · rw [List.orderedInsert_cons_of_le _ _ hle]
      have hba : key b ≤ key a := (descending_iff hab).1 hle
      apply List.pairwise_cons.2
      refine ⟨?_, hsorted⟩
      intro c hc
      rcases List.mem_cons.1 hc with heq | hc
      · rw [heq]
        exact hba
      · exact Trans.trans (hfirst c hc) hba
    · rw [List.orderedInsert_of_not_le _ _ hle]
      have hba : key a ≤ key b := by
        have hlt := not_not.1 hle
        exact hlt.1
      have htail : Compare key (a :: items) := by
        intro x hx y hy
        have hsub : ∀ z ∈ a :: items, z ∈ a :: b :: items := by
          intro z hz
          rcases List.mem_cons.1 hz with heq | hz
          · rw [heq]
            exact List.mem_cons_self
          · exact List.mem_cons_of_mem a (List.mem_cons_of_mem b hz)
        exact h x (hsub x hx) y (hsub y hy)
      apply List.pairwise_cons.2
      refine ⟨?_, ih htail hrest⟩
      intro c hc
      rcases (List.mem_orderedInsert _).1 hc with heq | hc
      · rw [heq]
        exact hba
      · exact hfirst c hc

/-- An item is put before those with its own key. -/
theorem filter_orderedInsert (a : α) (s : S) (items : List α) :
    (items.orderedInsert (descending key) a).filter (fun b => decide (Tied key s b)) =
      (a :: items).filter fun b => decide (Tied key s b) := by
  induction items with
  | nil => rfl
  | cons b items ih =>
    by_cases hle : descending key a b
    · rw [List.orderedInsert_cons_of_le _ _ hle]
    · rw [List.orderedInsert_of_not_le _ _ hle, List.filter_cons, ih]
      have hlt : ¬key b ≤ key a := (not_not.1 hle).2
      by_cases ha : Tied key s a
      · have hb : ¬Tied key s b := by
          intro hb
          exact hlt (Trans.trans hb.1 ha.2)
        simp [ha, hb]
      · simp [ha, List.filter_cons]

theorem pairwise_insertionSort (h : Compare key items) :
    (items.insertionSort (descending key)).Pairwise fun b c => key c ≤ key b := by
  induction items with
  | nil => exact List.Pairwise.nil
  | cons a items ih =>
    have hitems : Compare key items := fun x hx y hy =>
      h x (List.mem_cons_of_mem a hx) y (List.mem_cons_of_mem a hy)
    apply pairwise_orderedInsert _ (ih hitems)
    intro x hx y hy
    have hback : ∀ z ∈ a :: items.insertionSort (descending key), z ∈ a :: items := by
      intro z hz
      rw [List.mem_cons, List.mem_insertionSort] at hz
      exact List.mem_cons.2 hz
    exact h x (hback x hx) y (hback y hy)

/-- Items with the same key keep their order. -/
theorem filter_insertionSort (s : S) (items : List α) :
    (items.insertionSort (descending key)).filter (fun b => decide (Tied key s b)) =
      items.filter fun b => decide (Tied key s b) := by
  induction items with
  | nil => rfl
  | cons a items ih =>
    have hstep : (a :: items).insertionSort (descending key) =
        (items.insertionSort (descending key)).orderedInsert (descending key) a := rfl
    rw [hstep, filter_orderedInsert, List.filter_cons, ih, List.filter_cons]

/-- Insertion sort is such a sort. -/
def insertionReverseSort (key : α → S) : ReverseSort key where
  sort items := items.insertionSort (descending key)
  perm items := List.perm_insertionSort _ items
  ordered _ h := pairwise_insertionSort h
  stable items _ s := filter_insertionSort s items

end

end WebStorage.Collections
