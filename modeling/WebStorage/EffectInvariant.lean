import WebStorage.EffectProgram

set_option autoImplicit false

/-! Invariants of programs. A program maintains an invariant when it holds wherever the program can be
stopped, and what the program returns satisfies a condition that does not depend on the state. -/
namespace WebStorage.Effect
open Prog

universe u

section
variable {C : Type u} {Resp : C → Type} {ε α β σ : Type} {H : Handler Resp ε σ} {I : σ → Prop}

/-- From every state of the invariant the program stays in it, and returns values of `Q` only. -/
structure Maintains (H : Handler Resp ε σ) (I : σ → Prop) (p : Prog Resp ε α) (Q : α → Prop) : Prop where
  run : ∀ s, I s → wp H I p (fun r _ => ∀ a, r = .ok a → Q a) s

theorem maintains_done {a : α} {Q : α → Prop} (h : Q a) : Maintains H I (done (.ok a)) Q := by
  constructor
  intro s hs
  refine ⟨hs, ?_⟩
  intro b hb
  cases hb
  exact h

theorem maintains_raise (e : ε) {Q : α → Prop} : Maintains H I (raise e) Q := by
  constructor
  intro s hs
  refine ⟨hs, ?_⟩
  intro a ha
  cases ha

theorem maintains_result (r : Except ε α) {Q : α → Prop} (h : ∀ a, r = .ok a → Q a) :
    Maintains H I (done r) Q := ⟨fun _ hs => ⟨hs, h⟩⟩

theorem Maintains.mono {p : Prog Resp ε α} {Q Q' : α → Prop} (h : Maintains H I p Q)
    (hq : ∀ a, Q a → Q' a) : Maintains H I p Q' := by
  constructor
  intro s hs
  apply wp_mono (h.run s hs)
  intro r t _ hr a ha
  exact hq a (hr a ha)

theorem maintains_bind {p : Prog Resp ε α} {f : α → Prog Resp ε β} {P : α → Prop} {Q : β → Prop}
    (h : Maintains H I p P) (hf : ∀ a, P a → Maintains H I (f a) Q) : Maintains H I (p.bind f) Q := by
  constructor
  intro s hs
  apply wp_bind_of (h.run s hs)
  · intro a t ht ha
    exact (hf a (ha a rfl)).run t ht
  · intro e t _ b hb
    cases hb

theorem maintains_attempt {p : Prog Resp ε α} {Q : α → Prop} (h : Maintains H I p Q) :
    Maintains H I p.attempt fun r => ∀ a, r = .ok a → Q a := by
  constructor
  intro s hs
  rw [wp_attempt]
  apply wp_mono (h.run s hs)
  intro r t _ hr x hx
  cases hx
  exact hr

theorem maintains_catch {p : Prog Resp ε α} {h : ε → Prog Resp ε α} {Q : α → Prop}
    (hp : Maintains H I p Q) (hh : ∀ e, Maintains H I (h e) Q) : Maintains H I (p.catchWith h) Q := by
  constructor
  intro s hs
  apply wp_catch_of (hp.run s hs)
  · exact fun a t ha => ha
  · exact fun e t ht _ => (hh e).run t ht

/-- A command maintains what every answer to it maintains. -/
theorem maintains_issue {c : C} {Q : Resp c → Prop}
    (h : ∀ s x t, I s → H c s x t → I t ∧ ∀ a, x = .ok a → Q a) : Maintains H I (issue c) Q := by
  constructor
  intro s hs
  refine ⟨hs, ?_⟩
  intro x t ht
  exact h s x t hs ht

/-- Whoever runs the program finds the invariant at its end, and the condition on what it returned. -/
theorem Maintains.exec {p : Prog Resp ε α} {Q : α → Prop} (h : Maintains H I p Q) {s t : σ}
    {r : Except ε α} (he : Exec H p s r t) (hs : I s) : I t ∧ ∀ a, r = .ok a → Q a :=
  wp_sound (h.run s hs) he

/-- The invariant also holds where a run is stopped. -/
theorem Maintains.reaches {p : Prog Resp ε α} {Q : α → Prop} (h : Maintains H I p Q) {s t : σ}
    (hr : Reaches H p s t) (hs : I s) : I t := wp_crash (h.run s hs) hr

end
end WebStorage.Effect
