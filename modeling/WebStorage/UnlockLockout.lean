import WebStorage.Domain
import WebStorage.ConcurrentPrograms

set_option autoImplicit false

/-! Unlocking the private section under a limit of attempts: the requests of one user from one
client address, and the counter that they share in Redis. -/
namespace WebStorage.UnlockLockout
open Effect Effect.Prog

def unlockRateLimitMaxAttempts : Nat := 5
def unlockRateLimitTtlSeconds : Nat := 900

/-- The steps of a request. `verify` is `PrivateService.unlock`: whether the passphrase was
accepted, or an exception before it was checked or after it was accepted. -/
inductive UnlockCmd
  | getUnlockAttempts | verify | incr | expire (seconds : Nat) | resetUnlockAttempts
deriving DecidableEq

abbrev UnlockCmd.Resp : UnlockCmd → Type
  | getUnlockAttempts => Nat
  | verify => Bool
  | incr => Nat
  | expire _ => Unit
  | resetUnlockAttempts => Unit

inductive UnlockResponse
  | tooManyAttempts
  | success (value : Bool)
deriving DecidableEq

abbrev UnlockM := Prog UnlockCmd.Resp Exc

/-- `increment_unlock_attempts`. -/
def incrementUnlockAttempts : UnlockM Nat := do
  let count ← issue UnlockCmd.incr
  if count = 1 then
    issue (UnlockCmd.expire unlockRateLimitTtlSeconds)
    pure count
  else pure count

/-- The answer to a refused passphrase. -/
def reportFailure : UnlockM UnlockResponse := do
  let updatedAttempts ← issue UnlockCmd.getUnlockAttempts
  if unlockRateLimitMaxAttempts ≤ updatedAttempts then pure .tooManyAttempts
  else pure (.success false)

/-- `unlock_private_section` after its check of the counter. -/
def verifyPassphrase : UnlockM UnlockResponse := do
  if ← issue UnlockCmd.verify then
    issue UnlockCmd.resetUnlockAttempts
    pure (.success true)
  else
    let _ ← incrementUnlockAttempts
    reportFailure

/-- `unlock_private_section`. -/
def unlockPrivateSection : UnlockM UnlockResponse := do
  let attempts ← issue UnlockCmd.getUnlockAttempts
  if unlockRateLimitMaxAttempts ≤ attempts then pure .tooManyAttempts
  else verifyPassphrase

/-- The counter key: its value, and what is left of its time to live. -/
structure Counter where
  value : Nat
  ttl : Option Nat
deriving DecidableEq

/-- The counter, and the number of passphrases verified since it was last absent or a passphrase
was last accepted. -/
structure Lockout where
  counter : Option Counter
  verified : Nat

def Lockout.attempts (s : Lockout) : Nat := (s.counter.map (·.value)).getD 0

/-- What one command answers and does. -/
inductive Serve : Handler UnlockCmd.Resp Exc Lockout
  | getUnlockAttempts (s : Lockout) : Serve .getUnlockAttempts s (.ok s.attempts) s
  | accepted (s : Lockout) : Serve .verify s (.ok true) { s with verified := 0 }
  | refused (s : Lockout) : Serve .verify s (.ok false) { s with verified := s.verified + 1 }
  | failed (s : Lockout) (e : Exc) : Serve .verify s (.error e) s
  | incr (s : Lockout) : Serve .incr s (.ok (s.attempts + 1))
      { s with counter := some ⟨s.attempts + 1, s.counter.bind (·.ttl)⟩ }
  | expire (s : Lockout) (seconds : Nat) : Serve (.expire seconds) s (.ok ())
      { s with counter := s.counter.map fun c => { c with ttl := some seconds } }
  | resetUnlockAttempts (s : Lockout) : Serve .resetUnlockAttempts s (.ok ()) ⟨none, 0⟩

/-- The counter's time is over. -/
inductive Expiry : Lockout → Lockout → Prop
  | over (value ttl verified : Nat) : Expiry ⟨some ⟨value, some ttl⟩, verified⟩ ⟨none, 0⟩

abbrev Requests := Pool UnlockCmd.Resp Exc Lockout UnlockResponse

/-- Requests of one user from one address: any number, in any interleaving. -/
abbrev Step : Requests → Turn → Requests → Prop :=
  Pool.Step Serve Expiry (· = unlockPrivateSection)

/-- The requests that passed the check of the counter and have not been counted yet. -/
def uncounted (running : List (UnlockM UnlockResponse)) : Nat :=
  waiting .verify running + waiting .incr running

/-- A request that passes the check leaves room for those that passed it before and are not
counted yet, and no process dies between a refused passphrase and the end of its count. -/
def Orderly (s : Requests) : Turn → Prop
  | .advance i => s.running[i]? = some unlockPrivateSection →
    s.shared.attempts < unlockRateLimitMaxAttempts →
    s.shared.attempts + uncounted s.running < unlockRateLimitMaxAttempts
  | .die i => ∀ p, s.running[i]? = some p → p.next ≠ some .incr ∧
    p.next ≠ some (.expire unlockRateLimitTtlSeconds)
  | _ => True

def noRequests : Requests := ⟨⟨none, 0⟩, []⟩

/-! ### What a request can do -/

/-- The rest of a request whose passphrase was refused. -/
def countFailure : UnlockM UnlockResponse := incrementUnlockAttempts.bind fun _ => reportFailure

def setTtl (count : Nat) : UnlockM UnlockResponse :=
  ((issue (UnlockCmd.expire unlockRateLimitTtlSeconds)).bind fun _ => done (.ok count)).bind
    fun _ => reportFailure

def finishSuccess : UnlockM UnlockResponse :=
  (issue UnlockCmd.resetUnlockAttempts).bind fun _ => done (.ok (.success true))

/-- How far a request has come. -/
inductive Stage : UnlockM UnlockResponse → Prop
  | fresh : Stage unlockPrivateSection
  | checked : Stage verifyPassphrase
  | refused : Stage countFailure
  | created (count : Nat) : Stage (setTtl count)
  | reporting : Stage reportFailure
  | accepted : Stage finishSuccess
  | ended (r : Except Exc UnlockResponse) : Stage (done r)

/-- A request's step, with where it leads. -/
inductive Move (s : Lockout) : UnlockM UnlockResponse → UnlockM UnlockResponse → Lockout → Prop
  | blocked : unlockRateLimitMaxAttempts ≤ s.attempts →
      Move s unlockPrivateSection (done (.ok .tooManyAttempts)) s
  | checked : s.attempts < unlockRateLimitMaxAttempts →
      Move s unlockPrivateSection verifyPassphrase s
  | accepted : Move s verifyPassphrase finishSuccess { s with verified := 0 }
  | refused : Move s verifyPassphrase countFailure { s with verified := s.verified + 1 }
  | failed (e : Exc) : Move s verifyPassphrase (done (.error e)) s
  | counted : s.attempts ≠ 0 → Move s countFailure reportFailure
      { s with counter := some ⟨s.attempts + 1, s.counter.bind (·.ttl)⟩ }
  | created : s.attempts = 0 → Move s countFailure (setTtl (s.attempts + 1))
      { s with counter := some ⟨s.attempts + 1, s.counter.bind (·.ttl)⟩ }
  | expiring (count : Nat) : Move s (setTtl count) reportFailure
      { s with counter := s.counter.map fun c =>
        { c with ttl := some unlockRateLimitTtlSeconds } }
  | reported (r : Except Exc UnlockResponse) : Move s reportFailure (done r) s
  | reset : Move s finishSuccess (done (.ok (.success true))) ⟨none, 0⟩

theorem move_of_serve {s t : Lockout} {c : UnlockCmd}
    {k : Except Exc c.Resp → UnlockM UnlockResponse} {x : Except Exc c.Resp}
    (hstage : Stage (call c k)) (hserve : Serve c s x t) : Move s (call c k) (k x) t := by
  generalize hp : call c k = p at hstage ⊢
  cases hstage with
  | fresh =>
    have hp' : call c k = call UnlockCmd.getUnlockAttempts _ := hp
    cases hp'
    cases hserve
    show Move s unlockPrivateSection (if unlockRateLimitMaxAttempts ≤ s.attempts then _ else _) s
    split
    · exact Move.blocked ‹_›
    · exact Move.checked (not_le.1 ‹_›)
  | checked =>
    have hp' : call c k = call UnlockCmd.verify _ := hp
    cases hp'
    cases hserve with
    | accepted => exact Move.accepted
    | refused => exact Move.refused
    | failed _ e => exact Move.failed e
  | refused =>
    have hp' : call c k = call UnlockCmd.incr _ := hp
    cases hp'
    cases hserve
    -- only the first failure of a window sets the time to live
    have hnext : (if s.attempts + 1 = 1 then (issue (UnlockCmd.expire
        unlockRateLimitTtlSeconds)).bind fun _ => done (.ok (s.attempts + 1))
        else done (.ok (s.attempts + 1)) : UnlockM Nat).bind (fun _ => reportFailure) =
        if s.attempts = 0 then setTtl (s.attempts + 1) else reportFailure := by
      split_ifs <;> first | rfl | omega
    show Move s countFailure ((if s.attempts + 1 = 1 then (issue (UnlockCmd.expire
        unlockRateLimitTtlSeconds)).bind fun _ => done (.ok (s.attempts + 1))
        else done (.ok (s.attempts + 1)) : UnlockM Nat).bind (fun _ => reportFailure)) _
    rw [hnext]
    split
    · exact Move.created ‹_›
    · exact Move.counted ‹_›
  | created count =>
    have hp' : call c k = call (UnlockCmd.expire unlockRateLimitTtlSeconds) _ := hp
    cases hp'
    cases hserve
    exact Move.expiring count
  | reporting =>
    have hp' : call c k = call UnlockCmd.getUnlockAttempts _ := hp
    cases hp'
    cases hserve
    show Move s reportFailure (if unlockRateLimitMaxAttempts ≤ s.attempts then _ else _) s
    split
    · exact Move.reported _
    · exact Move.reported _
  | accepted =>
    have hp' : call c k = call UnlockCmd.resetUnlockAttempts _ := hp
    cases hp'
    cases hserve
    exact Move.reset
  | ended r => cases hp

theorem Move.stage {s t : Lockout} {p q : UnlockM UnlockResponse} (h : Move s p q t) :
    Stage q := by
  cases h with
  | blocked => exact Stage.ended _
  | checked => exact Stage.checked
  | accepted => exact Stage.accepted
  | refused => exact Stage.refused
  | failed e => exact Stage.ended _
  | counted => exact Stage.reporting
  | created => exact Stage.created _
  | expiring => exact Stage.reporting
  | reported r => exact Stage.ended _
  | reset => exact Stage.ended _

/-! ### The limit -/

/-- Every verified passphrase is counted, or about to be; there is room for those that passed
the check; and a counter without a time to live is about to get one. -/
structure Limited (s : Requests) : Prop where
  stages : ∀ p ∈ s.running, Stage p
  verified : s.shared.verified ≤ s.shared.attempts + waiting .incr s.running
  room : s.shared.attempts + uncounted s.running ≤ unlockRateLimitMaxAttempts
  ttl : ∀ value, s.shared.counter = some ⟨value, none⟩ →
    0 < waiting (.expire unlockRateLimitTtlSeconds) s.running

@[simp] theorem next_unlock : unlockPrivateSection.next = some .getUnlockAttempts := rfl
@[simp] theorem next_verify : verifyPassphrase.next = some .verify := rfl
@[simp] theorem next_countFailure : countFailure.next = some .incr := rfl
@[simp] theorem next_setTtl (count : Nat) :
    (setTtl count).next = some (.expire unlockRateLimitTtlSeconds) := rfl
@[simp] theorem next_report : reportFailure.next = some .getUnlockAttempts := rfl
@[simp] theorem next_finishSuccess : finishSuccess.next = some .resetUnlockAttempts := rfl

section
variable {s : Requests} {t : Lockout} {i : Nat} {p q : UnlockM UnlockResponse}

/-- A request moves on without a change of the counter or of the count. -/
theorem limited_silent (h : Limited s) (hi : s.running[i]? = some p) (hq : Stage q)
    (hp : p.next ≠ some .incr) (hp' : p.next ≠ some (.expire unlockRateLimitTtlSeconds))
    (hroom : s.shared.attempts + uncounted (s.running.set i q) ≤ unlockRateLimitMaxAttempts) :
    Limited ⟨s.shared, s.running.set i q⟩ := by
  have hincr := waiting_set (q := q) .incr hi
  have hexpire := waiting_set (q := q) (.expire unlockRateLimitTtlSeconds) hi
  rw [if_neg hp] at hincr
  rw [if_neg hp'] at hexpire
  have hver := h.verified
  refine ⟨forall_set h.stages hq, ?_, hroom, fun v hv => ?_⟩
  · dsimp only
    omega
  · have hold := h.ttl v hv
    dsimp only
    omega

/-- One step of one request keeps the limit. -/
theorem limited_advance (h : Limited s) (hi : s.running[i]? = some p)
    (hmove : Move s.shared p q t) (horderly : Orderly s (.advance i)) :
    Limited ⟨t, s.running.set i q⟩ := by
  have hstages := forall_set (i := i) h.stages hmove.stage
  have hverify := waiting_set (q := q) .verify hi
  have hincr := waiting_set (q := q) .incr hi
  have hexpire := waiting_set (q := q) (.expire unlockRateLimitTtlSeconds) hi
  have hver := h.verified
  have hroom := h.room
  have httl := h.ttl
  unfold uncounted at hroom
  cases hmove with
  | blocked _ =>
    simp at hverify hincr
    refine limited_silent h hi (Stage.ended _) (by simp) (by simp) ?_
    unfold uncounted
    omega
  | checked hbelow =>
    have hleft := horderly hi hbelow
    simp at hverify hincr
    refine limited_silent h hi Stage.checked (by simp) (by simp) ?_
    unfold uncounted at hleft ⊢
    omega
  | accepted =>
    simp at hverify hincr hexpire
    refine ⟨hstages, Nat.zero_le _, ?_, fun v hv => ?_⟩
    · show s.shared.attempts + (waiting UnlockCmd.verify _ + waiting UnlockCmd.incr _) ≤ _
      dsimp only
      omega
    · have hold := httl v hv
      dsimp only
      omega
  | refused =>
    -- one passphrase more is verified, and one request more waits to count it
    simp at hverify hincr hexpire
    refine ⟨hstages, ?_, ?_, fun v hv => ?_⟩
    · show s.shared.verified + 1 ≤ s.shared.attempts + _
      dsimp only
      omega
    · show s.shared.attempts + (waiting UnlockCmd.verify _ + waiting UnlockCmd.incr _) ≤ _
      dsimp only
      omega
    · have hold := httl v hv
      dsimp only
      omega
  | failed e =>
    simp at hverify hincr
    refine limited_silent h hi (Stage.ended _) (by simp) (by simp) ?_
    unfold uncounted
    omega
  | counted hexists =>
    simp at hverify hincr hexpire
    refine ⟨hstages, ?_, ?_, fun v hv => ?_⟩
    · show s.shared.verified ≤ s.shared.attempts + 1 + _
      dsimp only
      omega
    · show s.shared.attempts + 1 + (waiting UnlockCmd.verify _ + waiting UnlockCmd.incr _) ≤ _
      dsimp only
      omega
    · have hnone : s.shared.counter.bind (·.ttl) = none :=
        congrArg Counter.ttl (Option.some.inj hv)
      rcases hcounter : s.shared.counter with _ | ⟨value, ttl⟩
      · exact absurd (by rw [Lockout.attempts, hcounter]; rfl) hexists
      · rw [hcounter] at hnone
        have hold := httl value (hcounter.trans (by rw [show ttl = none from hnone]))
        dsimp only
        omega
  | created hnew =>
    simp at hverify hincr hexpire
    refine ⟨hstages, ?_, ?_, fun v hv => ?_⟩
    · show s.shared.verified ≤ s.shared.attempts + 1 + _
      dsimp only
      omega
    · show s.shared.attempts + 1 + (waiting UnlockCmd.verify _ + waiting UnlockCmd.incr _) ≤ _
      dsimp only
      omega
    · dsimp only
      omega
  | expiring count =>
    simp at hverify hincr hexpire
    have hsame : ((s.shared.counter.map fun c =>
        ({ c with ttl := some unlockRateLimitTtlSeconds } : Counter)).map (·.value)).getD 0 =
        s.shared.attempts := by
      unfold Lockout.attempts
      cases s.shared.counter <;> rfl
    refine ⟨hstages, ?_, ?_, fun v hv => ?_⟩
    · show s.shared.verified ≤ ((s.shared.counter.map _).map _).getD 0 + _
      dsimp only
      omega
    · show ((s.shared.counter.map _).map _).getD 0 + (waiting UnlockCmd.verify _ + waiting UnlockCmd.incr _) ≤ _
      dsimp only
      omega
    · obtain ⟨c, -, hc⟩ := Option.map_eq_some_iff.1 hv
      cases hc
  | reported r =>
    simp at hverify hincr
    refine limited_silent h hi (Stage.ended _) (by simp) (by simp) ?_
    unfold uncounted
    omega
  | reset =>
    simp at hverify hincr
    refine ⟨hstages, Nat.zero_le _, ?_, fun v hv => by cases hv⟩
    show 0 + (waiting UnlockCmd.verify _ + waiting UnlockCmd.incr _) ≤ _
    dsimp only
    omega

theorem limited_step {t : Requests} {e : Turn} (h : Limited s) (horderly : Orderly s e)
    (hstep : Step s e t) : Limited t := by
  cases hstep with
  | @start p hp =>
    subst hp
    have hver := h.verified
    have hroom := h.room
    unfold uncounted at hroom
    refine ⟨forall_start h.stages Stage.fresh, ?_, ?_, fun v hv => ?_⟩
    · dsimp only
      rw [waiting_start (by simp)]
      exact hver
    · dsimp only [uncounted]
      rw [waiting_start (by simp), waiting_start (by simp)]
      exact hroom
    · dsimp only
      rw [waiting_start (by simp)]
      exact h.ttl v hv
  | @advance i c k x u hi hserve =>
    have hmove := move_of_serve (h.stages _ (List.mem_of_getElem? hi)) hserve
    exact limited_advance h hi hmove horderly
  | @die i e =>
    rcases hp : s.running[i]? with _ | p
    · rw [set_out_of_range hp]
      exact h
    · obtain ⟨hincr, hexpire⟩ := horderly p hp
      have hverify := waiting_set (q := (raise e : UnlockM UnlockResponse)) .verify hp
      have hcount := waiting_set (q := (raise e : UnlockM UnlockResponse)) .incr hp
      have hroom := h.room
      simp at hverify hcount
      refine limited_silent h hp (Stage.ended _) hincr hexpire ?_
      unfold uncounted at *
      omega
  | outside hexpiry =>
    obtain ⟨⟨counter, verified⟩, running⟩ := s
    cases hexpiry
    refine ⟨h.stages, Nat.zero_le _, ?_, fun v hv => by cases hv⟩
    have hroom := h.room
    show 0 + uncounted running ≤ _
    dsimp only at hroom
    omega

/-- In every orderly run at most `UNLOCK_RATE_LIMIT_MAX_ATTEMPTS` passphrases are verified in a
window, and a counter has a time to live unless a live request is about to set it. -/
theorem lockout_holds (hrun : Steps Step Orderly noRequests s) :
    s.shared.verified ≤ unlockRateLimitMaxAttempts ∧
      ∀ value, s.shared.counter = some ⟨value, none⟩ →
        ∃ p ∈ s.running, p.next = some (.expire unlockRateLimitTtlSeconds) := by
  have hstart : Limited noRequests :=
    ⟨fun _ hp => absurd hp List.not_mem_nil, Nat.zero_le _, Nat.zero_le _, fun _ hv => by cases hv⟩
  have hlimited := hrun.invariant hstart fun _ _ _ h hok hstep => limited_step h hok hstep
  have hver := hlimited.verified
  have hroom := hlimited.room
  unfold uncounted at hroom
  exact ⟨by omega, fun value hvalue => waiting_pos.1 (hlimited.ttl value hvalue)⟩

end

/-! ### Six requests at once, and a process that dies -/

def Unrestricted (_ : Requests) (_ : Turn) : Prop := True

section
variable {ok : Requests → Turn → Prop} {s : Lockout} {running : List (UnlockM UnlockResponse)}

theorem steps_arrive (h : Steps Step ok noRequests ⟨s, running⟩)
    (hok : ok ⟨s, running⟩ .start) :
    Steps Step ok noRequests ⟨s, running ++ [unlockPrivateSection]⟩ :=
  Steps.tail h hok (Pool.Step.start rfl)

theorem step_advance {i : Nat} {c : UnlockCmd} {k : Except Exc c.Resp → UnlockM UnlockResponse}
    {x : Except Exc c.Resp} {t : Lockout} (hi : running[i]? = some (call c k))
    (hserve : Serve c s x t) : Step ⟨s, running⟩ (.advance i) ⟨t, running.set i (k x)⟩ :=
  Pool.Step.advance hi hserve

theorem steps_check {i : Nat} (h : Steps Step ok noRequests ⟨s, running⟩)
    (hok : ok ⟨s, running⟩ (.advance i)) (hi : running[i]? = some unlockPrivateSection)
    (hbelow : s.attempts < unlockRateLimitMaxAttempts) :
    Steps Step ok noRequests ⟨s, running.set i verifyPassphrase⟩ := by
  have hnext : (if unlockRateLimitMaxAttempts ≤ s.attempts then done (.ok .tooManyAttempts)
      else verifyPassphrase : UnlockM UnlockResponse) = verifyPassphrase :=
    if_neg (not_le.2 hbelow)
  have hstep : Step ⟨s, running⟩ (.advance i) ⟨s, running.set i
      (if unlockRateLimitMaxAttempts ≤ s.attempts then done (.ok .tooManyAttempts)
        else verifyPassphrase)⟩ := step_advance hi (Serve.getUnlockAttempts s)
  rw [hnext] at hstep
  exact Steps.tail h hok hstep

theorem steps_refuse {i : Nat} (h : Steps Step ok noRequests ⟨s, running⟩)
    (hok : ok ⟨s, running⟩ (.advance i)) (hi : running[i]? = some verifyPassphrase) :
    Steps Step ok noRequests ⟨⟨s.counter, s.verified + 1⟩, running.set i countFailure⟩ := by
  have hstep := step_advance hi (Serve.refused s)
  exact Steps.tail h hok hstep

theorem steps_create {i verified : Nat} (h : Steps Step ok noRequests ⟨⟨none, verified⟩, running⟩)
    (hok : ok ⟨⟨none, verified⟩, running⟩ (.advance i)) (hi : running[i]? = some countFailure) :
    Steps Step ok noRequests ⟨⟨some ⟨1, none⟩, verified⟩, running.set i (setTtl 1)⟩ := by
  have hstep := step_advance hi (Serve.incr ⟨none, verified⟩)
  exact Steps.tail h hok hstep

end

/-- All requests read the counter before any of them counts; and one dies before `EXPIRE`. -/
theorem lockout_passed :
    ¬ (∀ s, Steps Step Unrestricted noRequests s →
      s.shared.verified ≤ unlockRateLimitMaxAttempts) ∧
    ¬ ∀ s, Steps Step Unrestricted noRequests s →
      ∀ counter, s.shared.counter = some counter → counter.ttl.isSome := by
  constructor
  · intro hclaim
    have h1 : Steps Step Unrestricted noRequests _ := steps_arrive Steps.refl trivial
    have h6 := steps_arrive (steps_arrive (steps_arrive (steps_arrive (steps_arrive h1 trivial)
      trivial) trivial) trivial) trivial
    have hread := steps_check (i := 5) (steps_check (i := 4) (steps_check (i := 3) (steps_check
      (i := 2) (steps_check (i := 1) (steps_check (i := 0) h6 trivial rfl (by decide))
      trivial rfl (by decide)) trivial rfl (by decide)) trivial rfl (by decide))
      trivial rfl (by decide)) trivial rfl (by decide)
    have hverify := steps_refuse (i := 5) (steps_refuse (i := 4) (steps_refuse (i := 3)
      (steps_refuse (i := 2) (steps_refuse (i := 1) (steps_refuse (i := 0) hread trivial rfl)
      trivial rfl) trivial rfl) trivial rfl) trivial rfl) trivial rfl
    exact absurd (hclaim _ hverify) (by decide)
  · intro hclaim
    have harrived : Steps Step Unrestricted noRequests _ := steps_arrive Steps.refl trivial
    have hrefused := steps_refuse (i := 0) (steps_check (i := 0) harrived trivial rfl (by decide))
      trivial rfl
    have hcreated := steps_create (i := 0) hrefused trivial rfl
    have hdead := Steps.tail hcreated trivial (Pool.Step.die (i := 0) (e := .other))
    exact absurd (hclaim _ hdead _ rfl) (by decide)

/-! ### Six requests in order -/

/-- Every passphrase is refused. -/
def answer : (c : UnlockCmd) → Lockout → Except Exc c.Resp × Lockout
  | .getUnlockAttempts, s => (.ok s.attempts, s)
  | .verify, s => (.ok false, { s with verified := s.verified + 1 })
  | .incr, s => (.ok (s.attempts + 1),
      { s with counter := some ⟨s.attempts + 1, s.counter.bind (·.ttl)⟩ })
  | .expire seconds, s => (.ok (),
      { s with counter := s.counter.map fun c => { c with ttl := some seconds } })
  | .resetUnlockAttempts, _ => (.ok (), ⟨none, 0⟩)

theorem serve_answer (c : UnlockCmd) (s : Lockout) : Serve c s (answer c s).1 (answer c s).2 := by
  cases c <;> constructor

/-- A check that passes leaves room for those who passed it before. -/
def roomy (s : Requests) (c : UnlockCmd) : Bool :=
  decide (c ≠ .getUnlockAttempts) || decide (unlockRateLimitMaxAttempts ≤ s.shared.attempts) ||
    decide (s.shared.attempts + uncounted s.running < unlockRateLimitMaxAttempts)

/-- The requests take their turns in this order, as long as there is room. -/
def takeTurns : List Nat → Requests → Option Requests
  | [], s => some s
  | i :: turns, s => match s.running[i]? with
    | some (.call c k) =>
      if roomy s c then
        takeTurns turns ⟨(answer c s.shared).2, s.running.set i (k (answer c s.shared).1)⟩
      else none
    | _ => none

theorem orderly_of_roomy {s : Requests} {i : Nat} {c : UnlockCmd}
    {k : Except Exc c.Resp → UnlockM UnlockResponse} (hi : s.running[i]? = some (call c k))
    (h : roomy s c = true) : Orderly s (.advance i) := by
  intro hunlock hbelow
  have hsame : call c k = unlockPrivateSection := Option.some.inj (hi.symm.trans hunlock)
  have hcheck : c = .getUnlockAttempts := Option.some.inj (congrArg Prog.next hsame)
  unfold roomy at h
  rw [hcheck] at h
  simpa [not_le.2 hbelow] using h

theorem steps_takeTurns {turns : List Nat} {s u : Requests} (h : Steps Step Orderly noRequests s)
    (hrun : takeTurns turns s = some u) : Steps Step Orderly noRequests u := by
  induction turns generalizing s with
  | nil =>
    cases hrun
    exact h
  | cons i turns ih =>
    unfold takeTurns at hrun
    split at hrun
    next c k hi =>
      split at hrun
      next hroomy =>
        have hstep : Step s (.advance i)
            ⟨(answer c s.shared).2, s.running.set i (k (answer c s.shared).1)⟩ :=
          Pool.Step.advance hi (serve_answer c s.shared)
        exact ih (Steps.tail h (orderly_of_roomy hi hroomy) hstep) hrun
      next => cases hrun
    next => cases hrun

theorem steps_arrivals (n : Nat) :
    Steps Step Orderly noRequests ⟨noRequests.shared, List.replicate n unlockPrivateSection⟩ := by
  induction n with
  | zero => exact .refl
  | succ n ih =>
    rw [List.replicate_succ']
    exact steps_arrive ih trivial

/-- Five are verified side by side and counted, and then the sixth asks. -/
def sixUnlocks : Option Requests :=
  takeTurns [0, 1, 2, 3, 4, 0, 1, 2, 3, 4, 0, 1, 2, 3, 4, 5]
    ⟨noRequests.shared, List.replicate 6 unlockPrivateSection⟩

theorem sixUnlocks_runs : ∃ s, sixUnlocks = some s ∧
    s.running[5]? = some (done (.ok .tooManyAttempts)) ∧ s.shared.counter = some ⟨5, none⟩ ∧
      s.shared.verified = 5 :=
  ⟨_, rfl, rfl, rfl, rfl⟩

/-- The limit is reached: the sixth passphrase is not verified. -/
theorem lockout_holds_six : ∃ s : Requests, s.running[5]? = some (done (.ok .tooManyAttempts)) ∧
    s.shared.verified = 5 ∧ s.shared.verified ≤ unlockRateLimitMaxAttempts ∧
    ∃ p ∈ s.running, p.next = some (.expire unlockRateLimitTtlSeconds) := by
  obtain ⟨s, hrun, hsixth, hcounter, hverified⟩ := sixUnlocks_runs
  obtain ⟨hwithin, hlives⟩ := lockout_holds (steps_takeTurns (steps_arrivals 6) hrun)
  exact ⟨s, hsixth, hverified, hwithin, hlives 5 hcounter⟩

end WebStorage.UnlockLockout
