import WebStorage.EffectProgram

set_option autoImplicit false

/-! Several programs that run side by side over one shared state. Each advances by one command at
a time, a program can stop for good at any point, and the state can move on its own. -/
namespace WebStorage.Effect
open Prog
universe u

/-- The shared state, and what is left of every program that was started. -/
structure Pool {C : Type u} (Resp : C → Type) (ε σ α : Type) where
  shared : σ
  running : List (Prog Resp ε α)

inductive Turn
  | start
  | advance (i : Nat)
  | die (i : Nat)
  | outside
deriving DecidableEq

section
variable {C : Type u} {Resp : C → Type} {ε σ α : Type}

/-- One step of the pool. `Starts` are the programs that may join it. -/
inductive Pool.Step (H : Handler Resp ε σ) (outside : σ → σ → Prop)
    (Starts : Prog Resp ε α → Prop) (s : Pool Resp ε σ α) : Turn → Pool Resp ε σ α → Prop
  | start {p} : Starts p → Step H outside Starts s .start ⟨s.shared, s.running ++ [p]⟩
  | advance {i c k x t} : s.running[i]? = some (call c k) → H c s.shared x t →
      Step H outside Starts s (.advance i) ⟨t, s.running.set i (k x)⟩
  | die {i e} : Step H outside Starts s (.die i) ⟨s.shared, s.running.set i (raise e)⟩
  | outside {t} : outside s.shared t → Step H outside Starts s .outside ⟨t, s.running⟩

/-- The command that a program issues next. -/
def Prog.next : Prog Resp ε α → Option C
  | done _ => none
  | call c _ => some c

@[simp] theorem next_done (r : Except ε α) : (done r : Prog Resp ε α).next = none := rfl
@[simp] theorem next_raise (e : ε) : (raise e : Prog Resp ε α).next = none := rfl

/-- How many programs are about to issue the command. -/
def waiting [DecidableEq C] (c : C) (running : List (Prog Resp ε α)) : Nat :=
  running.countP (·.next = some c)

variable {running : List (Prog Resp ε α)} {i : Nat} {p q : Prog Resp ε α}

theorem forall_set {P : Prog Resp ε α → Prop} (h : ∀ p ∈ running, P p) (hq : P q) :
    ∀ p ∈ running.set i q, P p := by
  intro p hp
  rcases List.mem_or_eq_of_mem_set hp with hp | rfl
  · exact h p hp
  · exact hq

theorem forall_start {P : Prog Resp ε α → Prop} (h : ∀ p ∈ running, P p) (hq : P q) :
    ∀ p ∈ running ++ [q], P p := by
  intro p hp
  rcases List.mem_append.1 hp with hp | hp
  · exact h p hp
  · rw [List.mem_singleton.1 hp]
    exact hq

section
variable [DecidableEq C]

/-- One program moves on: it no longer waits for what it did, and may wait for something else. -/
theorem waiting_set (c : C) (hi : running[i]? = some p) :
    waiting c (running.set i q) + (if p.next = some c then 1 else 0) =
      waiting c running + if q.next = some c then 1 else 0 := by
  obtain ⟨hlt, hget⟩ := List.getElem?_eq_some_iff.1 hi
  have hcount := List.countP_set (p := fun p => decide (p.next = some c)) (a := q) hlt
  have hpos : (if p.next = some c then 1 else 0) ≤ waiting c running := by
    split
    · rename_i hnext
      exact List.countP_pos_iff.2 ⟨p, List.mem_of_getElem? hi, by simpa using hnext⟩
    · exact Nat.zero_le _
  unfold waiting at *
  rw [hcount, hget]
  simp only [decide_eq_true_eq]
  omega

theorem waiting_start {c : C} (hq : q.next ≠ some c) :
    waiting c (running ++ [q]) = waiting c running := by
  simp [waiting, List.countP_append, hq]

theorem waiting_pos {c : C} : 0 < waiting c running ↔ ∃ p ∈ running, p.next = some c := by
  simp [waiting, List.countP_pos_iff]

end

/-- A sum over the programs changes by what the program that moves on adds to it. -/
theorem sum_set (f : Prog Resp ε α → Int) (hi : running[i]? = some p) :
    ((running.set i q).map f).sum = (running.map f).sum - f p + f q := by
  induction running generalizing i with
  | nil => cases hi
  | cons r rest ih =>
    cases i with
    | zero =>
      have hr : r = p := Option.some.inj hi
      simp only [List.set_cons_zero, List.map_cons, List.sum_cons, hr]
      ring
    | succ j =>
      have hrest := ih (i := j) hi
      simp only [List.set_cons_succ, List.map_cons, List.sum_cons, hrest]
      ring

/-- Who stands where after a program has moved on. -/
theorem getElem?_set_cases {j : Nat} {r : Prog Resp ε α} (h : (running.set i q)[j]? = some r) :
    (j = i ∧ r = q) ∨ (j ≠ i ∧ running[j]? = some r) := by
  rw [List.getElem?_set] at h
  split at h
  · rename_i hij
    split at h
    · exact .inl ⟨hij.symm, (Option.some.inj h).symm⟩
    · cases h
  · rename_i hij
    exact .inr ⟨fun hji => hij hji.symm, h⟩

theorem set_out_of_range (hi : running[i]? = none) : running.set i q = running :=
  List.set_eq_of_length_le (List.getElem?_eq_none_iff.1 hi)

end
end WebStorage.Effect
