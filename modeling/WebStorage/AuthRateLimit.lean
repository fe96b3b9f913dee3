import WebStorage.ConcurrentPrograms
import WebStorage.Domain

set_option autoImplicit false

/-! The limit of requests to log in and to register: the middleware, and the counters in Redis that the
requests of all clients share. -/
namespace WebStorage.AuthRateLimit
open Effect Effect.Prog

/-- What the middleware reads of a request. The last `x-forwarded-for` header counts. -/
structure Scope where
  isHttp : Bool
  method : Str
  path : Str
  forwarded : Option Str
  client : Option Str
deriving DecidableEq

/-- `_AUTH_RATE_LIMITS`: how many requests are let through, and the seconds of a window. -/
def authRateLimits : List (Str × Nat × Nat) :=
  [("/api/auth/login".toList, 10, 60), ("/api/auth/register".toList, 5, 60)]

/-- `_client_ip_from_scope`. -/
def clientIpFromScope (scope : Scope) : Str :=
  match scope.forwarded with
  | some forwarded =>
    if forwarded ≠ [] then Text.strip (forwarded.takeWhile (· ≠ ','))
    else scope.client.getD "unknown".toList
  | none => scope.client.getD "unknown".toList

/-- The key of a counter in Redis. -/
def authRateKey (endpoint clientIp : Str) : Str :=
  "auth_rate:".toList ++ endpoint ++ ':' :: clientIp

inductive RateCmd
  | incr (key : Str) | expire (key : Str) (seconds : Nat) | ttl (key : Str)
  | app (scope : Scope)
deriving DecidableEq

abbrev RateCmd.Resp : RateCmd → Type
  | incr _ => Nat
  | expire .. => Unit
  | ttl _ => Int
  | app _ => Unit

/-- The body of a 429. -/
structure Rejection where
  errorCode : String
  message : String
  retryAfter : Int
deriving DecidableEq

def tooManyRequests (retryAfter : Int) : Rejection where
  errorCode := "TOO_MANY_ATTEMPTS"
  message := "Too many requests"
  retryAfter := retryAfter

/-- How the middleware ends: the application has answered, or it answers itself. -/
inductive RateResponse
  | forwarded
  | rejected (body : Rejection)
deriving DecidableEq

abbrev RateM := Prog RateCmd.Resp Exc

/-- The end of `increment_auth_requests`. -/
def withRetryAfter (key : Str) (windowSeconds count : Nat) : RateM (Nat × Int) := do
  let ttl ← issue (RateCmd.ttl key)
  pure (count, if 0 < ttl then ttl else windowSeconds)

/-- `increment_auth_requests`. -/
def incrementAuthRequests (key : Str) (windowSeconds : Nat) : RateM (Nat × Int) := do
  let count ← issue (RateCmd.incr key)
  if count = 1 then
    issue (RateCmd.expire key windowSeconds)
    withRetryAfter key windowSeconds count
  else withRetryAfter key windowSeconds count

/-- The call of the application. -/
def forward (scope : Scope) : RateM RateResponse := do
  issue (RateCmd.app scope)
  pure .forwarded

/-- What the middleware does once the request is counted. -/
def forwardWithin (scope : Scope) (maxRequests : Nat) (counted : Nat × Int) : RateM RateResponse :=
  if maxRequests < counted.1 then pure (.rejected (tooManyRequests counted.2)) else forward scope

/-- `AuthRateLimitMiddleware.__call__`. -/
def middleware (scope : Scope) : RateM RateResponse :=
  if scope.isHttp = false ∨ scope.method ≠ "POST".toList then forward scope
  else match authRateLimits.lookup scope.path with
    | none => forward scope
    | some (maxRequests, windowSeconds) => do
      let counted ← incrementAuthRequests (authRateKey scope.path (clientIpFromScope scope)) windowSeconds
      forwardWithin scope maxRequests counted

/-! ### Redis -/

/-- A counter, and the millisecond at which it is gone. -/
structure Counter where
  value : Nat
  deadline : Option Nat
deriving DecidableEq

/-- The counters, the milliseconds since the start, and how many of the requests that a counter counts
have reached the application. -/
structure RateStore where
  counters : Str → Option Counter
  now : Nat
  forwarded : Str → Nat

/-- The counter of a request, with its limit; other requests have none. -/
def Scope.limit (scope : Scope) : Option (Str × Nat × Nat) :=
  if scope.isHttp = false ∨ scope.method ≠ "POST".toList then none
  else (authRateLimits.lookup scope.path).map fun limit =>
    (authRateKey scope.path (clientIpFromScope scope), limit)

/-- What a request adds to the requests of a key. -/
def Scope.counts (scope : Scope) (key : Str) : Nat :=
  if scope.limit.map (·.1) = some key then 1 else 0

namespace RateStore
variable (s : RateStore)

def value (key : Str) : Nat := ((s.counters key).map (·.value)).getD 0

def set (key : Str) (counter : Option Counter) : RateStore :=
  { s with counters := fun k => if k = key then counter else s.counters k }

/-- `TTL`, to the nearest second: -2 of a key that is absent, -1 of a key that stays. -/
def ttl (key : Str) : Int :=
  match s.counters key with
  | none => -2
  | some ⟨_, none⟩ => -1
  | some ⟨_, some deadline⟩ => ((deadline - s.now + 500) / 1000 : Nat)

/-- What a command answers, and what it leaves. -/
def serve : (c : RateCmd) → c.Resp × RateStore
  | .incr key => (s.value key + 1,
      s.set key (some ⟨s.value key + 1, (s.counters key).bind (·.deadline)⟩))
  | .expire key seconds => ((),
      s.set key ((s.counters key).map fun c => { c with deadline := some (s.now + 1000 * seconds) }))
  | .ttl key => (s.ttl key, s)
  | .app scope => ((), { s with forwarded := fun key => s.forwarded key + scope.counts key })

/-- A later moment: the counters whose time is over are gone. -/
def later (now : Nat) : RateStore :=
  { s with
    now := now
    counters := fun key => (s.counters key).filter fun c => c.deadline.all fun deadline => now < deadline }

end RateStore

/-- A call is answered, or fails with or without its effect; what the application raises, it raises after
it was called. -/
inductive Serve : Handler RateCmd.Resp Exc RateStore
  | answered (s : RateStore) (c : RateCmd) : Serve c s (.ok (s.serve c).1) (s.serve c).2
  | lost (s : RateStore) (c : RateCmd) (e : Exc) : Serve c s (.error e) (s.serve c).2
  | failed (s : RateStore) (c : RateCmd) (e : Exc) : (∀ scope, c ≠ .app scope) → Serve c s (.error e) s

/-- Time goes by. -/
inductive Later (s : RateStore) : RateStore → Prop
  | intro {now} : s.now ≤ now → Later s (s.later now)

abbrev Requests := Pool RateCmd.Resp Exc RateStore RateResponse

/-- Requests of any clients, in any interleaving. A process can die at any point. -/
abbrev Step : Requests → Turn → Requests → Prop :=
  Pool.Step Serve Later fun p => ∃ scope, p = middleware scope

def noRequests : Requests := ⟨⟨fun _ => none, 0, fun _ => 0⟩, []⟩

/-! ### Who shares a counter -/

theorem authRateLimits_cases {path : Str} {limit : Nat × Nat} (h : authRateLimits.lookup path = some limit) :
    path = "/api/auth/login".toList ∧ limit = (10, 60) ∨
      path = "/api/auth/register".toList ∧ limit = (5, 60) := by
  unfold authRateLimits at h
  rw [List.lookup_cons, List.lookup_cons, List.lookup_nil] at h
  by_cases hlogin : path = "/api/auth/login".toList
  · rw [hlogin] at h
    exact .inl ⟨hlogin, (Option.some.inj h).symm⟩
  · rw [beq_eq_false_iff_ne.2 hlogin] at h
    by_cases hregister : path = "/api/auth/register".toList
    · rw [hregister] at h
      exact .inr ⟨hregister, (Option.some.inj h).symm⟩
    · rw [beq_eq_false_iff_ne.2 hregister] at h
      cases h

/-- The two endpoints have counters of their own. -/
theorem authRateKey_limit {endpoint endpoint' clientIp clientIp' : Str} {limit limit' : Nat × Nat}
    (h : authRateLimits.lookup endpoint = some limit) (h' : authRateLimits.lookup endpoint' = some limit')
    (hkey : authRateKey endpoint clientIp = authRateKey endpoint' clientIp') : limit = limit' := by
  -- the keys of the two endpoints differ at the first letter of the last segment
  have hletter : ∀ ip ip', authRateKey "/api/auth/login".toList ip ≠
      authRateKey "/api/auth/register".toList ip' := by
    intro ip ip' heq
    have hget := congrArg (fun key : Str => key[20]?) heq
    cases hget
  rcases authRateLimits_cases h with hlogin | hregister
  · rcases authRateLimits_cases h' with hlogin' | hregister'
    · rw [hlogin.2, hlogin'.2]
    · rw [hlogin.1, hregister'.1] at hkey
      exact absurd hkey (hletter _ _)
  · rcases authRateLimits_cases h' with hlogin' | hregister'
    · rw [hregister.1, hlogin'.1] at hkey
      exact absurd hkey.symm (hletter _ _)
    · rw [hregister.2, hregister'.2]

/-- The limit of a key. -/
def Limits (key : Str) (maxRequests windowSeconds : Nat) : Prop :=
  ∃ endpoint clientIp, authRateLimits.lookup endpoint = some (maxRequests, windowSeconds) ∧
    key = authRateKey endpoint clientIp

section
variable {key key' : Str} {maxRequests windowSeconds m w count : Nat} {scope : Scope}

theorem limits_unique (h : Limits key maxRequests windowSeconds) (h' : Limits key m w) :
    m = maxRequests ∧ w = windowSeconds := by
  obtain ⟨endpoint, clientIp, hlookup, hkey⟩ := h
  obtain ⟨endpoint', clientIp', hlookup', hkey'⟩ := h'
  have hlimit : (maxRequests, windowSeconds) = (m, w) := by
    apply authRateKey_limit hlookup hlookup'
    rw [← hkey, hkey']
  cases hlimit
  exact ⟨rfl, rfl⟩

theorem limits_window (h : Limits key maxRequests windowSeconds) : 0 < windowSeconds := by
  obtain ⟨endpoint, clientIp, hlookup, -⟩ := h
  rcases authRateLimits_cases hlookup with hlogin | hregister
  · cases hlogin.2
    decide
  · cases hregister.2
    decide

theorem limits_of_scope (h : scope.limit = some (key, maxRequests, windowSeconds)) :
    Limits key maxRequests windowSeconds := by
  unfold Scope.limit at h
  split at h
  · cases h
  · obtain ⟨limit, hlookup, heq⟩ := Option.map_eq_some_iff.1 h
    cases heq
    exact ⟨_, _, hlookup, rfl⟩

theorem counts_limited (h : scope.limit = some (key, maxRequests, windowSeconds)) :
    scope.counts key' = if key = key' then 1 else 0 := by
  unfold Scope.counts
  rw [h]
  by_cases heq : key = key'
  · rw [if_pos heq, heq]
    exact if_pos rfl
  · rw [if_neg heq]
    apply if_neg
    exact fun hsame => heq (Option.some.inj hsame)

/-! ### What a request can do -/

/-- The request is about to be counted. -/
def counting (scope : Scope) (key : Str) (maxRequests windowSeconds : Nat) : RateM RateResponse :=
  (incrementAuthRequests key windowSeconds).bind (forwardWithin scope maxRequests)

/-- It is counted, and asks for the time that the counter has left. -/
def asking (scope : Scope) (key : Str) (maxRequests windowSeconds count : Nat) : RateM RateResponse :=
  (withRetryAfter key windowSeconds count).bind (forwardWithin scope maxRequests)

/-- It is the first of a window, and sets the end of the window. -/
def opening (scope : Scope) (key : Str) (maxRequests windowSeconds count : Nat) : RateM RateResponse :=
  ((issue (RateCmd.expire key windowSeconds)).bind fun _ =>
    withRetryAfter key windowSeconds count).bind (forwardWithin scope maxRequests)

/-- How far a request has come. -/
inductive Stage : RateM RateResponse → Prop
  | counting {scope : Scope} {key : Str} {maxRequests windowSeconds : Nat} :
      scope.limit = some (key, maxRequests, windowSeconds) →
      Stage (counting scope key maxRequests windowSeconds)
  | opening {scope : Scope} {key : Str} {maxRequests windowSeconds count : Nat} :
      scope.limit = some (key, maxRequests, windowSeconds) →
      Stage (opening scope key maxRequests windowSeconds count)
  | asking {scope : Scope} {key : Str} {maxRequests windowSeconds count : Nat} :
      scope.limit = some (key, maxRequests, windowSeconds) →
      Stage (asking scope key maxRequests windowSeconds count)
  | forwarding (scope : Scope) : Stage (forward scope)
  | forwarded : Stage (done (.ok .forwarded))
  | rejected {key : Str} {maxRequests windowSeconds : Nat} {retryAfter : Int} :
      Limits key maxRequests windowSeconds →
      0 < retryAfter → retryAfter ≤ (windowSeconds : Int) →
      Stage (done (.ok (.rejected (tooManyRequests retryAfter))))
  | failed (e : Exc) : Stage (done (.error e))

theorem middleware_cases (scope : Scope) :
    scope.limit = none ∧ middleware scope = forward scope ∨
      ∃ key maxRequests windowSeconds, scope.limit = some (key, maxRequests, windowSeconds) ∧
        middleware scope = counting scope key maxRequests windowSeconds := by
  by_cases hother : scope.isHttp = false ∨ scope.method ≠ "POST".toList
  · exact .inl ⟨if_pos hother, if_pos hother⟩
  · unfold Scope.limit middleware
    rw [if_neg hother, if_neg hother]
    cases authRateLimits.lookup scope.path with
    | none => exact .inl ⟨rfl, rfl⟩
    | some limit => exact .inr ⟨_, limit.1, limit.2, rfl, rfl⟩

theorem stage_middleware (scope : Scope) : Stage (middleware scope) := by
  rcases middleware_cases scope with hfree | hlimited
  · rw [hfree.2]
    exact .forwarding scope
  · obtain ⟨key, maxRequests, windowSeconds, hlimit, heq⟩ := hlimited
    rw [heq]
    exact .counting hlimit

/-- The answers that let a counted request through. -/
def smooth : (c : RateCmd) → Except Exc c.Resp
  | .incr _ => .error .other
  | .expire .. => .ok ()
  | .ttl _ => .ok 1
  | .app _ => .ok ()

/-- What a command adds to the requests of a key. -/
def RateCmd.forwards (key : Str) : RateCmd → Nat
  | .app scope => scope.counts key
  | _ => 0

/-- The requests of a key that a program will still let through without a count. -/
def pending (key : Str) : RateM RateResponse → Nat
  | done _ => 0
  | call c k => c.forwards key + pending key (k (smooth c))

theorem forwardWithin_over {retryAfter : Int} (h : maxRequests < count) :
    forwardWithin scope maxRequests (count, retryAfter) =
      done (.ok (.rejected (tooManyRequests retryAfter))) := if_pos h

theorem forwardWithin_within {retryAfter : Int} (h : ¬ maxRequests < count) :
    forwardWithin scope maxRequests (count, retryAfter) = forward scope := if_neg h

theorem pending_asking (scope : Scope) : pending key (asking scope key' maxRequests windowSeconds count) =
    if maxRequests < count then 0 else scope.counts key := by
  have hnext : pending key (asking scope key' maxRequests windowSeconds count) =
      0 + pending key (forwardWithin scope maxRequests (count, 1)) := rfl
  rw [hnext, Nat.zero_add]
  unfold forwardWithin
  split
  · rfl
  · rfl

theorem pending_opening (scope : Scope) :
    pending key (opening scope key' maxRequests windowSeconds count) =
      if maxRequests < count then 0 else scope.counts key := by
  have hnext : pending key (opening scope key' maxRequests windowSeconds count) =
      0 + pending key (asking scope key' maxRequests windowSeconds count) := rfl
  rw [hnext, Nat.zero_add, pending_asking]

theorem pending_fresh (scope : Scope) : pending key (middleware scope) = 0 := by
  rcases middleware_cases scope with hfree | hlimited
  · obtain ⟨hnone, heq⟩ := hfree
    rw [heq]
    show scope.counts key + 0 = 0
    unfold Scope.counts
    rw [hnone]
    rfl
  · obtain ⟨key', maxRequests, windowSeconds, -, heq⟩ := hlimited
    rw [heq]
    rfl

/-! ### The counters -/

def RateStore.deadline (s : RateStore) (key : Str) : Option Nat := (s.counters key).bind (·.deadline)

/-- A window of a key ends at most its seconds from now, and not before the first could end. -/
def Deadlines (s : RateStore) : Prop :=
  ∀ key maxRequests windowSeconds, Limits key maxRequests windowSeconds →
    ∀ deadline, s.deadline key = some deadline →
      1000 * windowSeconds ≤ deadline ∧ deadline ≤ s.now + 1000 * windowSeconds

/-- The windows of a key that are over before the one that its counter counts. -/
def RateStore.epoch (s : RateStore) (key : Str) (windowSeconds : Nat) : Nat :=
  match s.deadline key with
  | some deadline => deadline / (1000 * windowSeconds) - 1
  | none => s.now / (1000 * windowSeconds)

/-- What may be let through: all of the windows that are over, and what the counter has counted. -/
def RateStore.allowed (s : RateStore) (key : Str) (maxRequests windowSeconds : Nat) : Nat :=
  maxRequests * s.epoch key windowSeconds + min (s.value key) maxRequests

/-- What a command adds to that. -/
def RateStore.credit (s : RateStore) (key : Str) (maxRequests : Nat) : RateCmd → Nat
  | .incr key' => if key' = key ∧ s.value key < maxRequests then 1 else 0
  | _ => 0

variable {s t : RateStore}

theorem deadline_incr : (s.serve (.incr key')).2.deadline key = s.deadline key := by
  show ((if key = key' then _ else _ : Option Counter)).bind (·.deadline) = _
  split
  · rename_i heq
    rw [heq]
    rfl
  · rfl

theorem value_incr : (s.serve (.incr key')).2.value key = s.value key + if key' = key then 1 else 0 := by
  show (((if key = key' then _ else _ : Option Counter)).map (·.value)).getD 0 = _
  by_cases heq : key = key'
  · rw [if_pos heq, if_pos heq.symm, heq]
    rfl
  · rw [if_neg heq, if_neg fun hsame => heq hsame.symm]
    rfl

theorem value_expire : (s.serve (.expire key' w)).2.value key = s.value key := by
  show (((if key = key' then _ else _ : Option Counter)).map (·.value)).getD 0 = _
  split
  · rename_i heq
    unfold RateStore.value
    rw [heq]
    cases s.counters key' with
    | none => rfl
    | some c => rfl
  · rfl

theorem deadline_expire (s : RateStore) (key key' : Str) (w : Nat) :
    (s.serve (.expire key' w)).2.deadline key = s.deadline key ∨
    key' = key ∧ (s.serve (.expire key' w)).2.deadline key = some (s.now + 1000 * w) := by
  by_cases heq : key = key'
  · subst heq
    have hcounter : (s.serve (.expire key w)).2.counters key =
        (s.counters key).map fun c => { c with deadline := some (s.now + 1000 * w) } := if_pos rfl
    unfold RateStore.deadline
    rw [hcounter]
    cases s.counters key with
    | none => exact .inl rfl
    | some c => exact .inr ⟨rfl, rfl⟩
  · have hcounter : (s.serve (.expire key' w)).2.counters key = s.counters key := if_neg heq
    unfold RateStore.deadline
    rw [hcounter]
    exact .inl rfl

/-- A window is only ever set to the seconds of its key. -/
def Fits (c : RateCmd) : Prop :=
  ∀ key seconds, c = .expire key seconds → ∃ maxRequests, Limits key maxRequests seconds

theorem deadlines_serve {c : RateCmd} (h : Deadlines s) (hc : Fits c) : Deadlines (s.serve c).2 := by
  intro key maxRequests windowSeconds hlimits deadline hdeadline
  cases c with
  | incr key' =>
    rw [deadline_incr] at hdeadline
    exact h key maxRequests windowSeconds hlimits deadline hdeadline
  | expire key' seconds =>
    have hold := h key maxRequests windowSeconds hlimits deadline
    rcases deadline_expire s key key' seconds with hsame | hset
    · rw [hsame] at hdeadline
      exact hold hdeadline
    · rw [hset.2] at hdeadline
      obtain ⟨m, hown⟩ := hc key' seconds rfl
      rw [hset.1] at hown
      have hseconds := (limits_unique hlimits hown).2
      have hnow : (s.serve (.expire key' seconds)).2.now = s.now := rfl
      have hvalue := Option.some.inj hdeadline
      rw [hnow]
      omega
  | ttl key' => exact h key maxRequests windowSeconds hlimits deadline hdeadline
  | app scope => exact h key maxRequests windowSeconds hlimits deadline hdeadline

theorem epoch_le (h : Deadlines s) (hlimits : Limits key maxRequests windowSeconds) :
    s.epoch key windowSeconds ≤ s.now / (1000 * windowSeconds) := by
  have hpos := limits_window hlimits
  unfold RateStore.epoch
  cases hdeadline : s.deadline key with
  | none => exact le_refl _
  | some deadline =>
    have hbound := (h key maxRequests windowSeconds hlimits deadline hdeadline).2
    have hdiv : deadline / (1000 * windowSeconds) ≤ s.now / (1000 * windowSeconds) + 1 :=
      calc deadline / (1000 * windowSeconds)
          ≤ (s.now + 1000 * windowSeconds) / (1000 * windowSeconds) := Nat.div_le_div_right hbound
        _ = s.now / (1000 * windowSeconds) + 1 := Nat.add_div_right _ (by omega)
    exact Nat.sub_le_of_le_add hdiv

theorem allowed_le_epoch :
    s.allowed key maxRequests windowSeconds ≤ maxRequests * (s.epoch key windowSeconds + 1) :=
  calc s.allowed key maxRequests windowSeconds
      ≤ maxRequests * s.epoch key windowSeconds + maxRequests :=
        Nat.add_le_add_left (min_le_right _ _) _
    _ = maxRequests * (s.epoch key windowSeconds + 1) := (Nat.mul_succ _ _).symm

theorem allowed_le (h : Deadlines s) (hlimits : Limits key maxRequests windowSeconds) :
    s.allowed key maxRequests windowSeconds ≤
      maxRequests * (s.now / (1000 * windowSeconds) + 1) := by
  have hepoch := epoch_le h hlimits
  calc s.allowed key maxRequests windowSeconds
      ≤ maxRequests * (s.epoch key windowSeconds + 1) := allowed_le_epoch
    _ ≤ maxRequests * (s.now / (1000 * windowSeconds) + 1) :=
        Nat.mul_le_mul_left _ (Nat.succ_le_succ hepoch)

theorem allowed_serve {c : RateCmd} (h : Deadlines s) (hc : Fits c)
    (hlimits : Limits key maxRequests windowSeconds) :
    s.allowed key maxRequests windowSeconds + s.credit key maxRequests c ≤
      (s.serve c).2.allowed key maxRequests windowSeconds := by
  cases c with
  | incr key' =>
    have hepoch : (s.serve (.incr key')).2.epoch key windowSeconds = s.epoch key windowSeconds := by
      unfold RateStore.epoch
      rw [deadline_incr]
      rfl
    have hvalue : (s.serve (.incr key')).2.value key = _ := value_incr
    have hcredit : s.credit key maxRequests (.incr key') =
        if key' = key ∧ s.value key < maxRequests then 1 else 0 := rfl
    unfold RateStore.allowed
    rw [hepoch, hvalue, hcredit]
    by_cases heq : key' = key
    · rw [if_pos heq]
      by_cases hroom : s.value key < maxRequests
      · rw [if_pos ⟨heq, hroom⟩]
        omega
      · rw [if_neg fun hboth => hroom hboth.2]
        omega
    · rw [if_neg heq, if_neg fun hboth => heq hboth.1]
      exact le_refl _
  | expire key' seconds =>
    have hvalue : (s.serve (.expire key' seconds)).2.value key = s.value key := value_expire
    have hcredit : s.credit key maxRequests (.expire key' seconds) = 0 := rfl
    have hepoch : s.epoch key windowSeconds ≤ (s.serve (.expire key' seconds)).2.epoch key windowSeconds := by
      rcases deadline_expire s key key' seconds with hsame | hset
      · unfold RateStore.epoch
        rw [hsame]
        exact le_refl _
      · -- the new deadline is a window after now
        obtain ⟨m, hown⟩ := hc key' seconds rfl
        rw [hset.1] at hown
        have hseconds := (limits_unique hlimits hown).2
        have hpos := limits_window hlimits
        have hold := epoch_le h hlimits
        have hnew : (s.serve (.expire key' seconds)).2.epoch key windowSeconds =
            (s.now + 1000 * windowSeconds) / (1000 * windowSeconds) - 1 := by
          unfold RateStore.epoch
          rw [hset.2, hseconds]
        rw [hnew, Nat.add_div_right _ (by omega)]
        omega
    unfold RateStore.allowed
    rw [hvalue, hcredit, Nat.add_zero]
    exact Nat.add_le_add_right (Nat.mul_le_mul_left _ hepoch) _
  | ttl key' => exact le_refl _
  | app scope => exact le_refl _

theorem forwarded_serve (c : RateCmd) :
    (s.serve c).2.forwarded key = s.forwarded key + c.forwards key := by
  cases c with
  | incr key' => rfl
  | expire key' seconds => rfl
  | ttl key' => rfl
  | app scope => rfl

/-- What time does to a counter. -/
theorem counter_later (now : Nat) (key : Str) :
    (s.later now).deadline key = s.deadline key ∧ (s.later now).value key = s.value key ∨
      (s.later now).deadline key = none ∧ (s.later now).value key = 0 ∧
        ∃ deadline, s.deadline key = some deadline ∧ deadline ≤ now := by
  have hcounter : (s.later now).counters key =
      (s.counters key).filter fun c => c.deadline.all fun deadline => now < deadline := rfl
  unfold RateStore.deadline RateStore.value
  rw [hcounter]
  cases s.counters key with
  | none => exact .inl ⟨rfl, rfl⟩
  | some c =>
    rw [Option.filter_some]
    split
    · exact .inl ⟨rfl, rfl⟩
    · rename_i hover
      right
      refine ⟨rfl, rfl, ?_⟩
      cases hdeadline : c.deadline with
      | none =>
        rw [hdeadline] at hover
        exact absurd rfl hover
      | some deadline =>
        rw [hdeadline] at hover
        have hle : ¬ now < deadline := fun hlt => hover (decide_eq_true hlt)
        exact ⟨deadline, hdeadline, not_lt.1 hle⟩

theorem deadlines_later {now : Nat} (h : Deadlines s) (hnow : s.now ≤ now) : Deadlines (s.later now) := by
  intro key maxRequests windowSeconds hlimits deadline hdeadline
  rcases counter_later (s := s) now key with hsame | hgone
  · rw [hsame.1] at hdeadline
    have hold := h key maxRequests windowSeconds hlimits deadline hdeadline
    have hclock : (s.later now).now = now := rfl
    rw [hclock]
    omega
  · rw [hgone.1] at hdeadline
    cases hdeadline

theorem allowed_later {now : Nat} (h : Deadlines s) (hnow : s.now ≤ now)
    (hlimits : Limits key maxRequests windowSeconds) :
    s.allowed key maxRequests windowSeconds ≤ (s.later now).allowed key maxRequests windowSeconds := by
  have hpos := limits_window hlimits
  have hclock : (s.later now).now = now := rfl
  rcases counter_later (s := s) now key with hsame | hgone
  · have hepoch : s.epoch key windowSeconds ≤ (s.later now).epoch key windowSeconds := by
      unfold RateStore.epoch
      rw [hsame.1]
      cases s.deadline key with
      | some deadline => exact le_refl _
      | none => exact Nat.div_le_div_right hnow
    unfold RateStore.allowed
    rw [hsame.2]
    exact Nat.add_le_add_right (Nat.mul_le_mul_left _ hepoch) _
  · -- the window is over: it counts as a whole from now on
    obtain ⟨hnone, hzero, deadline, hdeadline, hover⟩ := hgone
    have hfirst := (h key maxRequests windowSeconds hlimits deadline hdeadline).1
    have hold : s.epoch key windowSeconds = deadline / (1000 * windowSeconds) - 1 := by
      unfold RateStore.epoch
      rw [hdeadline]
    have hnew : (s.later now).epoch key windowSeconds = now / (1000 * windowSeconds) := by
      unfold RateStore.epoch
      rw [hnone]
      rfl
    have hone : 1 ≤ deadline / (1000 * windowSeconds) := (Nat.one_le_div_iff (by omega)).2 hfirst
    have hdiv : deadline / (1000 * windowSeconds) ≤ now / (1000 * windowSeconds) :=
      Nat.div_le_div_right hover
    have hepoch : s.epoch key windowSeconds + 1 ≤ (s.later now).epoch key windowSeconds := by
      rw [hold, hnew]
      omega
    calc s.allowed key maxRequests windowSeconds
        ≤ maxRequests * (s.epoch key windowSeconds + 1) := allowed_le_epoch
      _ ≤ maxRequests * (s.later now).epoch key windowSeconds := Nat.mul_le_mul_left _ hepoch
      _ ≤ (s.later now).allowed key maxRequests windowSeconds := Nat.le_add_right _ _

/-! ### One step of one request -/

variable {c : RateCmd} {k : Except Exc c.Resp → RateM RateResponse}

theorem stage_fits (h : Stage (call c k)) : Fits c := by
  generalize hp : call c k = p at h
  intro key seconds hexpire
  subst hexpire
  cases h with
  | opening hlimit =>
    cases hp
    exact ⟨_, limits_of_scope hlimit⟩
  | counting hlimit => cases hp
  | asking hlimit => cases hp
  | forwarding scope => cases hp
  | forwarded => cases hp
  | rejected => cases hp
  | failed e => cases hp

/-- What fails in a request ends it. -/
theorem stage_error (h : Stage (call c k)) (e : Exc) : k (.error e) = done (.error e) := by
  generalize hp : call c k = p at h
  cases h with
  | counting hlimit =>
    cases hp
    rfl
  | opening hlimit =>
    cases hp
    rfl
  | asking hlimit =>
    cases hp
    rfl
  | forwarding scope =>
    cases hp
    rfl
  | forwarded => cases hp
  | rejected => cases hp
  | failed e => cases hp

theorem next_counted (scope : Scope) (key : Str) (maxRequests windowSeconds v : Nat) :
    (if v + 1 = 1 then (issue (RateCmd.expire key windowSeconds)).bind fun _ =>
        withRetryAfter key windowSeconds (v + 1)
      else withRetryAfter key windowSeconds (v + 1)).bind (forwardWithin scope maxRequests) =
    if v = 0 then opening scope key maxRequests windowSeconds (v + 1)
      else asking scope key maxRequests windowSeconds (v + 1) := by
  by_cases hv : v = 0
  · rw [if_pos hv, if_pos (by omega)]
    rfl
  · rw [if_neg hv, if_neg (by omega)]
    rfl

/-- The seconds that a refused request is told. -/
theorem retry_bounds (h : Deadlines s) (hlimits : Limits key maxRequests windowSeconds) :
    0 < (if 0 < s.ttl key then s.ttl key else (windowSeconds : Int)) ∧
      (if 0 < s.ttl key then s.ttl key else (windowSeconds : Int)) ≤ windowSeconds := by
  have hpos := limits_window hlimits
  split
  · rename_i hleft
    refine ⟨hleft, ?_⟩
    unfold RateStore.ttl at hleft ⊢
    split
    · omega
    · omega
    · rename_i value deadline hcounter
      have hdeadline : s.deadline key = some deadline := by
        unfold RateStore.deadline
        rw [hcounter]
        rfl
      have hbound := (h key maxRequests windowSeconds hlimits deadline hdeadline).2
      omega
  · omega

theorem stage_answered (h : Stage (call c k)) (hs : Deadlines s) : Stage (k (.ok (s.serve c).1)) := by
  generalize hp : call c k = p at h
  cases h with
  | @counting scope key maxRequests windowSeconds hlimit =>
    cases hp
    have hnext := next_counted scope key maxRequests windowSeconds (s.value key)
    have hstage : Stage (if s.value key = 0 then
        opening scope key maxRequests windowSeconds (s.value key + 1)
      else asking scope key maxRequests windowSeconds (s.value key + 1)) := by
      split
      · exact .opening hlimit
      · exact .asking hlimit
    rw [← hnext] at hstage
    exact hstage
  | opening hlimit =>
    cases hp
    exact .asking hlimit
  | @asking scope key maxRequests windowSeconds count hlimit =>
    cases hp
    have hlimits := limits_of_scope hlimit
    obtain ⟨hpos, hle⟩ := retry_bounds hs hlimits
    show Stage (forwardWithin scope maxRequests
      (count, if 0 < s.ttl key then s.ttl key else (windowSeconds : Int)))
    by_cases hmany : maxRequests < count
    · rw [forwardWithin_over hmany]
      exact .rejected hlimits hpos hle
    · rw [forwardWithin_within hmany]
      exact .forwarding scope
  | forwarding scope =>
    cases hp
    exact .forwarded
  | forwarded => cases hp
  | rejected => cases hp
  | failed e => cases hp

/-- A request is let through only as far as it was counted. -/
theorem pending_answered (h : Stage (call c k)) (hlimits : Limits key maxRequests windowSeconds) :
    c.forwards key + pending key (k (.ok (s.serve c).1)) ≤
      pending key (call c k) + s.credit key maxRequests c := by
  generalize hp : call c k = p at h
  cases h with
  | @counting scope key' m w hlimit =>
    cases hp
    have hnext := next_counted scope key' m w (s.value key')
    have hleft : pending key (Prog.bind (if s.value key' + 1 = 1 then
          (issue (RateCmd.expire key' w)).bind fun _ => withRetryAfter key' w (s.value key' + 1)
        else withRetryAfter key' w (s.value key' + 1)) (forwardWithin scope m)) =
        if m < s.value key' + 1 then 0 else scope.counts key := by
      rw [hnext]
      split
      · exact pending_opening scope
      · exact pending_asking scope
    show 0 + pending key (Prog.bind (if s.value key' + 1 = 1 then
          (issue (RateCmd.expire key' w)).bind fun _ => withRetryAfter key' w (s.value key' + 1)
        else withRetryAfter key' w (s.value key' + 1)) (forwardWithin scope m)) ≤
      0 + if key' = key ∧ s.value key < maxRequests then 1 else 0
    rw [hleft, counts_limited hlimit]
    -- the count that lets the request through takes one of the places that are left
    by_cases heq : key' = key
    · have hsame := (limits_unique hlimits (heq ▸ limits_of_scope hlimit)).1
      rw [if_pos heq, heq, hsame]
      by_cases hroom : s.value key < maxRequests
      · have hcredit : (if key = key ∧ s.value key < maxRequests then 1 else 0) = 1 :=
          if_pos ⟨rfl, hroom⟩
        rw [hcredit]
        split
        · omega
        · omega
      · have hmany : maxRequests < s.value key + 1 := by omega
        rw [if_pos hmany]
        exact Nat.zero_le _
    · rw [if_neg heq]
      split
      · omega
      · omega
  | @opening scope key' m w count hlimit =>
    cases hp
    show 0 + pending key (asking scope key' m w count) ≤ pending key (opening scope key' m w count) + 0
    rw [pending_asking, pending_opening]
    omega
  | @asking scope key' m w count hlimit =>
    cases hp
    show 0 + pending key (forwardWithin scope m
      (count, if 0 < s.ttl key' then s.ttl key' else (w : Int))) ≤
        pending key (asking scope key' m w count) + 0
    rw [pending_asking]
    by_cases hmany : m < count
    · rw [forwardWithin_over hmany]
      exact Nat.zero_le _
    · rw [forwardWithin_within hmany, if_neg hmany, Nat.zero_add]
      exact le_refl _
  | forwarding scope =>
    cases hp
    exact le_refl _
  | forwarded => cases hp
  | rejected => cases hp
  | failed e => cases hp

end

/-! ### The run -/

/-- The requests of a key that are let through without a further count. -/
def pendingAll (key : Str) (running : List (RateM RateResponse)) : Int :=
  (running.map fun p => (pending key p : Int)).sum

/-- What holds of the counters and the requests in every run. -/
structure Limited (s : Requests) : Prop where
  stages : ∀ p ∈ s.running, Stage p
  deadlines : Deadlines s.shared
  within : ∀ key maxRequests windowSeconds, Limits key maxRequests windowSeconds →
    s.shared.forwarded key + pendingAll key s.running ≤ s.shared.allowed key maxRequests windowSeconds

section
variable {s s' : Requests} {i : Nat} {p q : RateM RateResponse}

theorem pendingAll_set (key : Str) (hi : s.running[i]? = some p) :
    pendingAll key (s.running.set i q) = pendingAll key s.running - pending key p + pending key q :=
  sum_set (fun p => (pending key p : Int)) hi

theorem limited_advance {c : RateCmd} {k : Except Exc c.Resp → RateM RateResponse} {x : Except Exc c.Resp}
    {t : RateStore} (h : Limited s) (hi : s.running[i]? = some (call c k)) (hserve : Serve c s.shared x t) :
    Limited ⟨t, s.running.set i (k x)⟩ := by
  have hstage := h.stages _ (List.mem_of_getElem? hi)
  have hfits := stage_fits hstage
  -- what a lost answer leaves is counted, and the request ends without its place
  have hdefinition : ∀ key, pending key (call c k) = c.forwards key + pending key (k (smooth c)) :=
    fun _ => rfl
  have hdone : ∀ key (e : Exc), pending key (done (.error e)) = 0 := fun _ _ => rfl
  cases hserve with
  | answered =>
    constructor
    case stages => exact forall_set h.stages (stage_answered hstage h.deadlines)
    case deadlines => exact deadlines_serve h.deadlines hfits
    case within =>
      intro key maxRequests windowSeconds hlimits
      have hold := h.within key maxRequests windowSeconds hlimits
      have hstep := pending_answered (s := s.shared) hstage hlimits
      have hallowed := allowed_serve h.deadlines hfits hlimits
      dsimp only
      rw [forwarded_serve, pendingAll_set key hi]
      omega
  | lost _ _ e =>
    rw [stage_error hstage e]
    constructor
    case stages => exact forall_set h.stages (.failed e)
    case deadlines => exact deadlines_serve h.deadlines hfits
    case within =>
      intro key maxRequests windowSeconds hlimits
      have hold := h.within key maxRequests windowSeconds hlimits
      have hallowed := allowed_serve h.deadlines hfits hlimits
      have hpending := hdefinition key
      dsimp only
      rw [forwarded_serve, pendingAll_set key hi, hdone]
      omega
  | failed _ _ e hother =>
    rw [stage_error hstage e]
    constructor
    case stages => exact forall_set h.stages (.failed e)
    case deadlines => exact h.deadlines
    case within =>
      intro key maxRequests windowSeconds hlimits
      have hold := h.within key maxRequests windowSeconds hlimits
      dsimp only
      rw [pendingAll_set key hi, hdone]
      omega

theorem limited_step {e : Turn} (h : Limited s) (hstep : Step s e s') : Limited s' := by
  cases hstep with
  | @start p hstart =>
    obtain ⟨scope, hscope⟩ := hstart
    rw [hscope]
    constructor
    case stages => exact forall_start h.stages (stage_middleware scope)
    case deadlines => exact h.deadlines
    case within =>
      intro key maxRequests windowSeconds hlimits
      have hold := h.within key maxRequests windowSeconds hlimits
      -- a request that nobody has counted holds no place yet
      have hsum : pendingAll key (s.running ++ [middleware scope]) = pendingAll key s.running := by
        unfold pendingAll
        rw [List.map_append, List.sum_append, List.map_singleton, List.sum_singleton, pending_fresh]
        exact Int.add_zero _
      dsimp only
      rw [hsum]
      exact hold
  | advance hi hserve => exact limited_advance h hi hserve
  | @die i e =>
    cases hp : s.running[i]? with
    | none =>
      rw [set_out_of_range hp]
      exact h
    | some p =>
      constructor
      case stages => exact forall_set h.stages (.failed e)
      case deadlines => exact h.deadlines
      case within =>
        intro key maxRequests windowSeconds hlimits
        have hold := h.within key maxRequests windowSeconds hlimits
        have hdone : pending key (raise e : RateM RateResponse) = 0 := rfl
        dsimp only
        rw [pendingAll_set key hp, hdone]
        omega
  | outside hlater =>
    cases hlater with
    | @intro now hnow =>
      constructor
      case stages => exact h.stages
      case deadlines => exact deadlines_later h.deadlines hnow
      case within =>
        intro key maxRequests windowSeconds hlimits
        have hold := h.within key maxRequests windowSeconds hlimits
        have hallowed := allowed_later h.deadlines hnow hlimits
        have hsame : (s.shared.later now).forwarded key = s.shared.forwarded key := rfl
        dsimp only
        rw [hsame]
        omega

end

/-- In every interleaving of requests, with calls that fail and processes that die, no more requests of an
address reach an endpoint than its limit for each window since the start and one more, and a refused request
is told to come back within a window. -/
theorem auth_requests_limited (s : Requests) (endpoint clientIp : Str) (maxRequests windowSeconds : Nat)
    (hlimit : authRateLimits.lookup endpoint = some (maxRequests, windowSeconds))
    (hrun : Steps Step (fun _ _ => True) noRequests s) :
    s.shared.forwarded (authRateKey endpoint clientIp) ≤
        maxRequests * (s.shared.now / (1000 * windowSeconds) + 1) ∧
      ∀ body, done (.ok (.rejected body)) ∈ s.running →
        ∃ limit ∈ authRateLimits, 0 < body.retryAfter ∧ body.retryAfter ≤ (limit.2.2 : Int) := by
  have hlimited : Limited s := by
    apply hrun.invariant
    · constructor
      case stages => exact fun _ hp => absurd hp List.not_mem_nil
      case deadlines =>
        intro key maxRequests windowSeconds _ deadline hdeadline
        cases hdeadline
      case within => exact fun _ _ _ _ => Int.natCast_nonneg _
    · exact fun _ _ _ h _ hstep => limited_step h hstep
  have hlimits : Limits (authRateKey endpoint clientIp) maxRequests windowSeconds :=
    ⟨endpoint, clientIp, hlimit, rfl⟩
  constructor
  · have hwithin := hlimited.within _ _ _ hlimits
    have hallowed := allowed_le hlimited.deadlines hlimits
    have hpending : 0 ≤ pendingAll (authRateKey endpoint clientIp) s.running := by
      apply List.sum_nonneg
      intro n hn
      obtain ⟨p, -, heq⟩ := List.mem_map.1 hn
      rw [← heq]
      exact Int.natCast_nonneg _
    omega
  · intro body hbody
    have hstage := hlimited.stages _ hbody
    cases hstage with
    | @rejected key m w retryAfter hown hpos hle =>
      obtain ⟨path, clientIp, hlookup, -⟩ := hown
      refine ⟨(path, m, w), ?_, hpos, hle⟩
      rcases authRateLimits_cases hlookup with hlogin | hregister
      · rw [hlogin.1, hlogin.2]
        exact List.mem_cons_self
      · rw [hregister.1, hregister.2]
        exact List.mem_cons_of_mem _ List.mem_cons_self

/-! ### Eleven requests to log in -/

def loginScope : Scope where
  isHttp := true
  method := "POST".toList
  path := "/api/auth/login".toList
  forwarded := some "10.0.0.1, 10.0.0.2".toList
  client := none

def loginKey : Str := authRateKey "/api/auth/login".toList "10.0.0.1".toList

/-- The call that a request waits for is answered. -/
def answerNext (s : Requests) (i : Nat) : Requests :=
  match s.running[i]? with
  | some (.call c k) => ⟨(s.shared.serve c).2, s.running.set i (k (.ok (s.shared.serve c).1))⟩
  | _ => s

theorem steps_answers (turns : List Nat) {s : Requests}
    (h : Steps Step (fun _ _ => True) noRequests s) :
    Steps Step (fun _ _ => True) noRequests (turns.foldl answerNext s) := by
  induction turns generalizing s with
  | nil => exact h
  | cons i turns ih =>
    apply ih
    unfold answerNext
    split
    next c k hi => exact Steps.tail h trivial (Pool.Step.advance hi (.answered _ c))
    next => exact h

theorem steps_arrivals (n : Nat) : Steps Step (fun _ _ => True) noRequests
    ⟨noRequests.shared, List.replicate n (middleware loginScope)⟩ := by
  induction n with
  | zero => exact .refl
  | succ n ih =>
    rw [List.replicate_succ']
    exact Steps.tail ih trivial (Pool.Step.start ⟨loginScope, rfl⟩)

/-- They take their turns one by one: all are counted before the first sets the end of the window. -/
def elevenLogins : Requests := (List.replicate 4 (List.range 11)).flatten.foldl answerNext
  ⟨noRequests.shared, List.replicate 11 (middleware loginScope)⟩

def refusal : RateM RateResponse → Option Rejection
  | done (.ok (.rejected body)) => some body
  | _ => none

theorem refused_of_refusal {p : RateM RateResponse} {body : Rejection} (h : refusal p = some body) :
    p = done (.ok (.rejected body)) := by
  unfold refusal at h
  split at h
  · rw [Option.some.inj h]
  · cases h

/-- Ten are let through, and the last is told to come back after a minute. -/
theorem login_limited : ∃ s : Requests, s.shared.forwarded loginKey = 10 ∧
    s.shared.forwarded loginKey ≤ 10 * (s.shared.now / (1000 * 60) + 1) ∧
    done (.ok (.rejected (tooManyRequests 60))) ∈ s.running ∧
    ∃ limit ∈ authRateLimits, 0 < (tooManyRequests 60).retryAfter ∧
      (tooManyRequests 60).retryAfter ≤ (limit.2.2 : Int) := by
  have hlast : elevenLogins.running.getLast?.bind refusal = some (tooManyRequests 60) := by
    decide +kernel
  have hrefused : done (.ok (.rejected (tooManyRequests 60))) ∈ elevenLogins.running := by
    obtain ⟨p, hp, hbody⟩ := Option.bind_eq_some_iff.1 hlast
    rw [← refused_of_refusal hbody]
    exact List.mem_of_getLast? hp
  obtain ⟨hwithin, hretry⟩ := auth_requests_limited elevenLogins "/api/auth/login".toList
    "10.0.0.1".toList 10 60 (by decide +kernel) (steps_answers _ (steps_arrivals 11))
  have hkey : authRateKey "/api/auth/login".toList "10.0.0.1".toList = loginKey := rfl
  rw [hkey] at hwithin
  exact ⟨elevenLogins, by decide +kernel, hwithin, hrefused, hretry _ hrefused⟩

end WebStorage.AuthRateLimit
