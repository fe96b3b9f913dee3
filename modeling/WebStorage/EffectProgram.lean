import Mathlib

set_option autoImplicit false

/-! Programs that talk to an environment through commands. A command is answered
with a value or with an exception, the environment may change its own state, and
a program can be stopped between any two commands. -/
namespace WebStorage.Effect
universe u

/-- A program over the commands `C`: it ends with a result, or issues one command
and continues with what the environment answered. -/
inductive Prog {C : Type u} (Resp : C → Type) (ε α : Type) : Type u
  | done (r : Except ε α)
  | call (c : C) (k : Except ε (Resp c) → Prog Resp ε α)

/-- What the environment may do on a command: the answer and its next state. -/
abbrev Handler {C : Type u} (Resp : C → Type) (ε σ : Type) :=
  (c : C) → σ → Except ε (Resp c) → σ → Prop

/-- The environment as one of several concurrent programs meets it: before each of its commands
the others may have moved the state along `R`. -/
def Handler.interfered {C : Type u} {Resp : C → Type} {ε σ : Type} (R : σ → σ → Prop)
    (H : Handler Resp ε σ) : Handler Resp ε σ :=
  fun c s x t => ∃ s', R s s' ∧ H c s' x t

section
variable {C : Type u} {Resp : C → Type} {ε α β σ τ : Type}

namespace Prog

def bind : Prog Resp ε α → (α → Prog Resp ε β) → Prog Resp ε β
  | done (.ok a), f => f a
  | done (.error e), _ => done (.error e)
  | call c k, f => call c (fun x => bind (k x) f)

instance : Monad (Prog Resp ε) where
  pure a := done (.ok a)
  bind := bind

/-- Issue one command; an exception answered by the environment propagates. -/
def issue (c : C) : Prog Resp ε (Resp c) := call c done

def raise (e : ε) : Prog Resp ε α := done (.error e)

/-- Run `p` and hand its result, value or exception, to the caller. -/
def attempt : Prog Resp ε α → Prog Resp ε (Except ε α)
  | done r => done (.ok r)
  | call c k => call c (fun x => attempt (k x))

/-- `try: p except: h`. -/
def catchWith (p : Prog Resp ε α) (h : ε → Prog Resp ε α) : Prog Resp ε α :=
  bind (attempt p) fun
    | .ok a => done (.ok a)
    | .error e => h e

/-- Every command the program can issue satisfies `P`, as long as each value it is answered
satisfies `R`. -/
def All (P : C → Prop) (R : (c : C) → Resp c → Prop) : Prog Resp ε α → Prop
  | done _ => True
  | call c k => P c ∧ ∀ x, (∀ a, x = .ok a → R c a) → All P R (k x)

/-- Every run of the program ends with an exception. -/
def Fails : Prog Resp ε α → Prop
  | done (.ok _) => False
  | done (.error _) => True
  | call _ k => ∀ x, Fails (k x)

/-- A complete run. -/
inductive Exec (H : Handler Resp ε σ) : Prog Resp ε α → σ → Except ε α → σ → Prop
  | done (r s) : Exec H (done r) s r s
  | call {c k s x t r u} : H c s x t → Exec H (k x) t r u → Exec H (call c k) s r u

/-- A run that was stopped after some of its commands. -/
inductive Reaches (H : Handler Resp ε σ) : Prog Resp ε α → σ → σ → Prop
  | here (p s) : Reaches H p s s
  | call {c k s x t u} : H c s x t → Reaches H (k x) t u → Reaches H (call c k) s u

/-- Weakest precondition with a crash condition: `I` holds whenever the program can
be stopped, and `Q` of the result when it ends. -/
def wp (H : Handler Resp ε σ) (I : σ → Prop) :
    Prog Resp ε α → (Except ε α → σ → Prop) → σ → Prop
  | done r, Q, s => I s ∧ Q r s
  | call c k, Q, s => I s ∧ ∀ x t, H c s x t → wp H I (k x) Q t

/-- The commands of the run in which the environment answers by `x`. -/
def issued (x : (c : C) → Except ε (Resp c)) : Prog Resp ε α → List C
  | done _ => []
  | call c k => c :: issued x (k (x c))

/-- Run a program in an environment that answers with a function. -/
def run (h : (c : C) → σ → Except ε (Resp c) × σ) : Prog Resp ε α → σ → Except ε α × σ
  | done r, s => (r, s)
  | call c k, s => run h (k (h c s).1) (h c s).2

end Prog

open Prog

@[simp] theorem pure_eq (a : α) : (pure a : Prog Resp ε α) = done (.ok a) := rfl

@[simp] theorem bind_eq (p : Prog Resp ε α) (f : α → Prog Resp ε β) :
    (p >>= f) = p.bind f := rfl

theorem bind_done (p : Prog Resp ε α) : (p.bind fun a => done (.ok a)) = p := by
  induction p with
  | done r => cases r <;> rfl
  | call c k ih => exact congrArg (call c) (funext ih)

theorem bind_assoc {γ : Type} (p : Prog Resp ε α) (f : α → Prog Resp ε β) (g : β → Prog Resp ε γ) :
    (p.bind f).bind g = p.bind fun a => (f a).bind g := by
  induction p with
  | done r => cases r <;> rfl
  | call c k ih => exact congrArg (call c) (funext ih)

section
variable {P : C → Prop} {R : (c : C) → Resp c → Prop}

@[simp] theorem all_done (r : Except ε α) : (done r : Prog Resp ε α).All P R := trivial

@[simp] theorem all_raise (e : ε) : (raise e : Prog Resp ε α).All P R := trivial

theorem all_mono {P' : C → Prop} {p : Prog Resp ε α} (hp : p.All P R) (hP : ∀ c, P c → P' c) :
    p.All P' R := by
  induction p with
  | done r => trivial
  | call c k ih => exact ⟨hP c hp.1, fun x hx => ih x (hp.2 x hx)⟩

theorem all_bind {p : Prog Resp ε α} {f : α → Prog Resp ε β}
    (hp : p.All P R) (hf : ∀ a, (f a).All P R) : (p.bind f).All P R := by
  induction p with
  | done r =>
    cases r with
    | ok a => exact hf a
    | error e => trivial
  | call c k ih => exact ⟨hp.1, fun x hx => ih x (hp.2 x hx)⟩

theorem all_issue_bind {c : C} {f : Resp c → Prog Resp ε β} (hc : P c)
    (hf : ∀ a, R c a → (f a).All P R) : ((issue c).bind f).All P R := by
  refine ⟨hc, ?_⟩
  rintro (e | a) hx
  · trivial
  · exact hf a (hx a rfl)

theorem all_done_bind {r : Except ε α} {f : α → Prog Resp ε β}
    (hf : ∀ a, r = .ok a → (f a).All P R) : ((done r).bind f).All P R := by
  cases r with
  | ok a => exact hf a rfl
  | error e => trivial

theorem all_attempt {p : Prog Resp ε α} (hp : p.All P R) : p.attempt.All P R := by
  induction p with
  | done r => trivial
  | call c k ih => exact ⟨hp.1, fun x hx => ih x (hp.2 x hx)⟩

theorem all_catchWith {p : Prog Resp ε α} {h : ε → Prog Resp ε α}
    (hp : p.All P R) (hh : ∀ e, (h e).All P R) : (p.catchWith h).All P R := by
  apply all_bind (all_attempt hp)
  rintro (e | a)
  · exact hh e
  · trivial

end

variable {H : Handler Resp ε σ} {I J : σ → Prop}

@[simp] theorem wp_done (r : Except ε α) (Q : Except ε α → σ → Prop) (s : σ) :
    wp H I (done r) Q s ↔ I s ∧ Q r s := Iff.rfl

@[simp] theorem wp_call (c : C) (k : Except ε (Resp c) → Prog Resp ε α)
    (Q : Except ε α → σ → Prop) (s : σ) :
    wp H I (call c k) Q s ↔ I s ∧ ∀ x t, H c s x t → wp H I (k x) Q t := Iff.rfl

@[simp] theorem wp_issue (c : C) (Q : Except ε (Resp c) → σ → Prop) (s : σ) :
    wp H I (issue c) Q s ↔ I s ∧ ∀ x t, H c s x t → I t ∧ Q x t := Iff.rfl

@[simp] theorem wp_raise (e : ε) (Q : Except ε α → σ → Prop) (s : σ) :
    wp H I (raise e) Q s ↔ I s ∧ Q (.error e) s := Iff.rfl

theorem wp_inv {p : Prog Resp ε α} {Q : Except ε α → σ → Prop} {s : σ} (h : wp H I p Q s) :
    I s := by
  cases p <;> exact h.1

theorem wp_mono {p : Prog Resp ε α} {Q Q' : Except ε α → σ → Prop} {s : σ}
    (h : wp H I p Q s) (hq : ∀ r t, I t → Q r t → Q' r t) : wp H I p Q' s := by
  induction p generalizing s with
  | done r => exact ⟨h.1, hq r s h.1 h.2⟩
  | call c k ih => exact ⟨h.1, fun x t ht => ih x (h.2 x t ht)⟩

theorem wp_weaken {p : Prog Resp ε α} {Q : Except ε α → σ → Prop} {s : σ} (h : wp H I p Q s)
    (hi : ∀ t, I t → J t) : wp H J p Q s := by
  induction p generalizing s with
  | done r => exact ⟨hi s h.1, h.2⟩
  | call c k ih => exact ⟨hi s h.1, fun x t ht => ih x (h.2 x t ht)⟩

/-- Sequencing: an exception of the first part is the result of the whole. -/
theorem wp_bind (p : Prog Resp ε α) (f : α → Prog Resp ε β) (Q : Except ε β → σ → Prop) (s : σ) :
    wp H I (p.bind f) Q s ↔ wp H I p (fun r t => match r with
      | .ok a => wp H I (f a) Q t
      | .error e => Q (.error e) t) s := by
  induction p generalizing s with
  | done r =>
    cases r with
    | ok a => exact ⟨fun h => ⟨wp_inv h, h⟩, fun h => h.2⟩
    | error e => exact Iff.rfl
  | call c k ih => simp only [Prog.bind, wp_call, ih]

theorem wp_attempt (p : Prog Resp ε α) (Q : Except ε (Except ε α) → σ → Prop) (s : σ) :
    wp H I p.attempt Q s ↔ wp H I p (fun r t => Q (.ok r) t) s := by
  induction p generalizing s with
  | done r => exact Iff.rfl
  | call c k ih => simp only [attempt, wp_call, ih]

theorem wp_catchWith {p : Prog Resp ε α} {h : ε → Prog Resp ε α} {Q : Except ε α → σ → Prop}
    {s : σ} (hp : wp H I p (fun r t => match r with
      | .ok a => Q (.ok a) t
      | .error e => wp H I (h e) Q t) s) : wp H I (p.catchWith h) Q s := by
  rw [catchWith, wp_bind, wp_attempt]
  refine wp_mono hp ?_
  rintro (e | a) t ht hq
  · exact hq
  · exact ⟨ht, hq⟩

/-- What is known of the first part is what the second part starts from. -/
theorem wp_bind_of {p : Prog Resp ε α} {f : α → Prog Resp ε β} {P : Except ε α → σ → Prop}
    {Q : Except ε β → σ → Prop} {s : σ} (h : wp H I p P s)
    (hok : ∀ a t, I t → P (.ok a) t → wp H I (f a) Q t)
    (herror : ∀ e t, P (.error e) t → Q (.error e) t) : wp H I (p.bind f) Q s := by
  apply (wp_bind p f Q s).2
  apply wp_mono h
  intro r t hi hp
  cases r with
  | ok a => exact hok a t hi hp
  | error e => exact herror e t hp

theorem wp_catch_of {p : Prog Resp ε α} {f : ε → Prog Resp ε α} {P Q : Except ε α → σ → Prop}
    {s : σ} (h : wp H I p P s) (hok : ∀ a t, P (.ok a) t → Q (.ok a) t)
    (herror : ∀ e t, I t → P (.error e) t → wp H I (f e) Q t) : wp H I (p.catchWith f) Q s := by
  apply wp_catchWith
  apply wp_mono h
  intro r t hi hp
  cases r with
  | ok a => exact hok a t hp
  | error e => exact herror e t hi hp

/-- A property every permitted command keeps holds throughout the program. -/
theorem wp_of_all {P : C → Prop} {R : (c : C) → Resp c → Prop} {p : Prog Resp ε α} {s : σ}
    (hp : p.All P R) (hs : I s)
    (hstep : ∀ c s x t, P c → I s → H c s x t → I t ∧ ∀ a, x = .ok a → R c a) :
    wp H I p (fun _ => I) s := by
  induction p generalizing s with
  | done r => exact ⟨hs, hs⟩
  | call c k ih =>
    refine ⟨hs, fun x t ht => ?_⟩
    obtain ⟨hi, hr⟩ := hstep c s x t hp.1 hs ht
    exact ih x (hp.2 x hr) hi

theorem fails_bind {p : Prog Resp ε α} {f : α → Prog Resp ε β} (hf : ∀ a, (f a).Fails) :
    (p.bind f).Fails := by
  induction p with
  | done r =>
    cases r with
    | ok a => exact hf a
    | error e => trivial
  | call c k ih => exact fun x => ih x

/-- A program that always raises establishes what is asked of normal results only. -/
theorem wp_of_fails {p : Prog Resp ε α} {Q : α → σ → Prop} {s : σ} (hp : p.Fails) :
    wp H (fun _ => True) p (fun r t => ∀ a, r = .ok a → Q a t) s := by
  induction p generalizing s with
  | done r =>
    cases r with
    | ok a => exact hp.elim
    | error e => exact ⟨trivial, fun a ha => by cases ha⟩
  | call c k ih => exact ⟨trivial, fun x t _ => ih x (hp x)⟩

/-- A handler that raises again adds nothing to the normal results. -/
theorem wp_catch_raise {p : Prog Resp ε α} {h : ε → Prog Resp ε α} {Q : α → σ → Prop} {s : σ}
    (hp : wp H (fun _ => True) p (fun r t => ∀ a, r = .ok a → Q a t) s)
    (hh : ∀ e, (h e).Fails) :
    wp H (fun _ => True) (p.catchWith h) (fun r t => ∀ a, r = .ok a → Q a t) s := by
  refine wp_catchWith (wp_mono hp ?_)
  rintro (e | a) t - hq
  · exact wp_of_fails (hh e)
  · intro b hb
    cases hb
    exact hq a rfl

theorem wp_sound {p : Prog Resp ε α} {Q : Except ε α → σ → Prop} {s t : σ} {r : Except ε α}
    (h : wp H I p Q s) (he : Exec H p s r t) : I t ∧ Q r t := by
  induction he with
  | done r s => exact h
  | call hc _ ih => exact ih (h.2 _ _ hc)

theorem wp_crash {p : Prog Resp ε α} {Q : Except ε α → σ → Prop} {s t : σ}
    (h : wp H I p Q s) (he : Reaches H p s t) : I t := by
  induction he with
  | here p s => exact wp_inv h
  | call hc _ ih => exact ih (h.2 _ _ hc)

theorem exec_invariant {J : σ → Prop} (hstep : ∀ c s x t, J s → H c s x t → J t)
    {p : Prog Resp ε α} {s t : σ} {r : Except ε α} (h : Exec H p s r t) (hs : J s) : J t := by
  induction h with
  | done r s => exact hs
  | call hc _ ih => exact ih (hstep _ _ _ _ hs hc)

theorem reaches_invariant {J : σ → Prop} (hstep : ∀ c s x t, J s → H c s x t → J t)
    {p : Prog Resp ε α} {s t : σ} (h : Reaches H p s t) (hs : J s) : J t := by
  induction h with
  | here p s => exact hs
  | call hc _ ih => exact ih (hstep _ _ _ _ hs hc)

theorem wp_handler {H' : Handler Resp ε σ} {p : Prog Resp ε α} {Q : Except ε α → σ → Prop}
    {s : σ} (h : wp H' I p Q s) (hH : ∀ c s x t, I s → H c s x t → H' c s x t) :
    wp H I p Q s := by
  induction p generalizing s with
  | done r => exact h
  | call c k ih => exact ⟨h.1, fun x t ht => ih x (h.2 x t (hH c s x t h.1 ht))⟩

/-- What a program needs is not disturbed by the interference it was proved under. -/
theorem wp_stable {R : σ → σ → Prop} {p : Prog Resp ε α} {Q : Except ε α → σ → Prop} {s s' : σ}
    (h : wp (H.interfered R) I p Q s) (hR : R s s') (hi : I s')
    (htrans : ∀ a b c, R a b → R b c → R a c) (hQ : ∀ r, Q r s → Q r s') :
    wp (H.interfered R) I p Q s' := by
  cases p with
  | done r => exact ⟨hi, hQ r h.2⟩
  | call c k =>
    refine ⟨hi, ?_⟩
    rintro x t ⟨u, hu, ht⟩
    exact h.2 x t ⟨u, htrans _ _ _ hR hu, ht⟩

theorem exec_bind {p : Prog Resp ε α} {f : α → Prog Resp ε β} {s t u : σ} {a : α}
    {r : Except ε β} (hp : Exec H p s (.ok a) t) (hf : Exec H (f a) t r u) :
    Exec H (p.bind f) s r u := by
  generalize hx : (Except.ok a : Except ε α) = x at hp
  induction hp with
  | done x s =>
    subst hx
    exact hf
  | call hc _ ih => exact Exec.call hc (ih hf hx)

/-- A function whose answers the environment allows gives one of the runs. -/
theorem exec_run {h : (c : C) → σ → Except ε (Resp c) × σ}
    (hH : ∀ c s, H c s (h c s).1 (h c s).2) (p : Prog Resp ε α) (s : σ) :
    Exec H p s (run h p s).1 (run h p s).2 := by
  induction p generalizing s with
  | done r => exact Exec.done r s
  | call c k ih => exact Exec.call (hH c s) (ih _ _)

/-- The answers of the function are those of an environment, at every command that the program
comes to. -/
def Prog.Follows (H : Handler Resp ε σ) (h : (c : C) → σ → Except ε (Resp c) × σ) :
    Prog Resp ε α → σ → Prop
  | done _, _ => True
  | call c k, s => H c s (h c s).1 (h c s).2 ∧ Follows H h (k (h c s).1) (h c s).2

section
variable {h : (c : C) → σ → Except ε (Resp c) × σ} {p : Prog Resp ε α} {s : σ}

theorem follows_of_all {P : C → Prop} {R : (c : C) → Resp c → Prop} (hp : p.All P R)
    (hH : ∀ c s, P c → H c s (h c s).1 (h c s).2)
    (hR : ∀ c s a, (h c s).1 = .ok a → R c a) : p.Follows H h s := by
  induction p generalizing s with
  | done r => trivial
  | call c k ih => exact ⟨hH c s hp.1, ih _ (hp.2 _ fun a ha => hR c s a ha)⟩

end

@[simp] theorem run_done (h : (c : C) → σ → Except ε (Resp c) × σ) (r : Except ε α) (s : σ) :
    run h (done r) s = (r, s) := rfl

@[simp] theorem run_call (h : (c : C) → σ → Except ε (Resp c) × σ) (c : C)
    (k : Except ε (Resp c) → Prog Resp ε α) (s : σ) :
    run h (call c k) s = run h (k (h c s).1) (h c s).2 := rfl

@[simp] theorem run_issue (h : (c : C) → σ → Except ε (Resp c) × σ) (c : C) (s : σ) :
    run h (issue c) s = h c s := rfl

@[simp] theorem run_raise (h : (c : C) → σ → Except ε (Resp c) × σ) (e : ε) (s : σ) :
    run h (raise e : Prog Resp ε α) s = (.error e, s) := rfl

theorem run_bind (h : (c : C) → σ → Except ε (Resp c) × σ) (p : Prog Resp ε α)
    (f : α → Prog Resp ε β) (s : σ) :
    run h (p.bind f) s = match run h p s with
      | (.ok a, t) => run h (f a) t
      | (.error e, t) => (.error e, t) := by
  induction p generalizing s with
  | done r => cases r <;> rfl
  | call c k ih => simp only [Prog.bind, run_call, ih]

theorem run_attempt (h : (c : C) → σ → Except ε (Resp c) × σ) (p : Prog Resp ε α) (s : σ) :
    run h p.attempt s = (.ok (run h p s).1, (run h p s).2) := by
  induction p generalizing s with
  | done r => rfl
  | call c k ih => simp only [attempt, run_call, ih]

section
variable {h : (c : C) → σ → Except ε (Resp c) × σ} {p : Prog Resp ε α} {a : α} {e : ε} {s t : σ}

theorem run_bind_ok (hp : run h p s = (.ok a, t)) (f : α → Prog Resp ε β) :
    run h (p.bind f) s = run h (f a) t := by
  rw [run_bind, hp]

theorem run_bind_error (hp : run h p s = (.error e, t)) (f : α → Prog Resp ε β) :
    run h (p.bind f) s = (.error e, t) := by
  rw [run_bind, hp]

theorem run_catch_ok (hp : run h p s = (.ok a, t)) (f : ε → Prog Resp ε α) :
    run h (p.catchWith f) s = (.ok a, t) := by
  rw [catchWith, run_bind, run_attempt, hp]
  rfl

theorem run_catch_error (hp : run h p s = (.error e, t)) (f : ε → Prog Resp ε α) :
    run h (p.catchWith f) s = run h (f e) t := by
  rw [catchWith, run_bind, run_attempt, hp]

end

end

/-- The states a system reaches from `s` when every step it takes is permitted. -/
inductive Steps {σ E : Type*} (step : σ → E → σ → Prop) (ok : σ → E → Prop) (s : σ) : σ → Prop
  | refl : Steps step ok s s
  | tail {t e u} : Steps step ok s t → ok t e → step t e u → Steps step ok s u

section
variable {σ E : Type*} {step : σ → E → σ → Prop} {ok : σ → E → Prop} {s t : σ}

theorem Steps.invariant {Inv : σ → Prop} (h : Steps step ok s t) (h0 : Inv s)
    (hstep : ∀ t e u, Inv t → ok t e → step t e u → Inv u) : Inv t := by
  induction h with
  | refl => exact h0
  | tail _ hok hst ih => exact hstep _ _ _ ih hok hst

theorem Steps.mono {ok' : σ → E → Prop} (h : Steps step ok s t)
    (himp : ∀ t e, ok t e → ok' t e) : Steps step ok' s t := by
  induction h with
  | refl => exact Steps.refl
  | tail _ hok hst ih => exact Steps.tail ih (himp _ _ hok) hst

end
end WebStorage.Effect
