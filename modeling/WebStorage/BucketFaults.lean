import WebStorage.Bucket

set_option autoImplicit false

/-! The bucket when any call may fail: what is left of the objects after each operation of the
adapter, whether it returned or raised. -/
namespace WebStorage.S3
open Effect Effect.Prog

/-- The bytes at each key. -/
def Bucket.content (b : Bucket) (key : Str) : Option Bytes := (b.get key).map (·.body)

/-- A call is served, or it fails with anything but a 404; a call that fails may have been served
all the same. -/
def Calls (fails : Prop) : Handler S3Cmd.Resp Exc Bucket := fun c b x t =>
  (∃ now, (x, t) = Bucket.serve now c b) ∨
    (fails ∧ ∃ e, e ≠ .clientError true ∧ x = .error e ∧ (t = b ∨ ∃ now, t = (Bucket.serve now c b).2))

/-- A call is served, or it is one of those that may fail: then it was carried out all the same
(`true`) or not. -/
def CallsAt (fails : S3Cmd → Bool → Prop) : Handler S3Cmd.Resp Exc Bucket := fun c b x t =>
  (∃ now, (x, t) = Bucket.serve now c b) ∨
    ∃ e, e ≠ .clientError true ∧ x = .error e ∧
      ((fails c false ∧ t = b) ∨ (fails c true ∧ ∃ now, t = (Bucket.serve now c b).2))

/-- Every run of the program in the bucket ends in `Q`. -/
abbrev Ends {α : Type} (fails : Prop) (p : S3M α) (b : Bucket) (Q : Except Exc α → Bucket → Prop) :
    Prop :=
  wp (Calls fails) (fun _ => True) p Q b

abbrev EndsAt {α : Type} (fails : S3Cmd → Bool → Prop) (p : S3M α) (b : Bucket)
    (Q : Except Exc α → Bucket → Prop) : Prop :=
  wp (CallsAt fails) (fun _ => True) p Q b

section
variable {α β : Type} {H : Handler S3Cmd.Resp Exc Bucket} {fails : Prop} {b : Bucket} {key : Str}

theorem ends_done {r : Except Exc α} {Q : Except Exc α → Bucket → Prop} (h : Q r b) :
    wp H (fun _ => True) (done r) Q b := ⟨trivial, h⟩

theorem ends_mono {p : S3M α} {Q Q' : Except Exc α → Bucket → Prop}
    (h : wp H (fun _ => True) p Q b) (hq : ∀ r t, Q r t → Q' r t) : wp H (fun _ => True) p Q' b :=
  wp_mono h fun r t _ => hq r t

theorem ends_bind {p : S3M α} {f : α → S3M β} {P : Except Exc α → Bucket → Prop}
    {Q : Except Exc β → Bucket → Prop} (h : wp H (fun _ => True) p P b)
    (hok : ∀ a t, P (.ok a) t → wp H (fun _ => True) (f a) Q t)
    (herror : ∀ e t, P (.error e) t → Q (.error e) t) : wp H (fun _ => True) (p.bind f) Q b :=
  wp_bind_of h (fun a t _ => hok a t) herror

theorem ends_catch {p : S3M α} {f : Exc → S3M α} {P Q : Except Exc α → Bucket → Prop}
    (h : wp H (fun _ => True) p P b) (hok : ∀ a t, P (.ok a) t → Q (.ok a) t)
    (herror : ∀ e t, P (.error e) t → wp H (fun _ => True) (f e) Q t) :
    wp H (fun _ => True) (p.catchWith f) Q b :=
  wp_catch_of h hok fun e t _ => herror e t

theorem ends_send {c : S3Cmd} {Q : Except Exc c.Resp → Bucket → Prop}
    (hserved : ∀ now, Q (Bucket.serve now c b).1 (Bucket.serve now c b).2)
    (hfailed : fails → ∀ e, e ≠ .clientError true →
      Q (.error e) b ∧ ∀ now, Q (.error e) (Bucket.serve now c b).2) : Ends fails (send c) b Q := by
  apply (wp_issue c Q b).2
  refine ⟨trivial, ?_⟩
  intro x t h
  refine ⟨trivial, ?_⟩
  rcases h with hok | hfail
  · obtain ⟨now, heq⟩ := hok
    have h1 := congrArg (·.1) heq
    have h2 := congrArg (·.2) heq
    dsimp only at h1 h2
    rw [h1, h2]
    exact hserved now
  · obtain ⟨hfails, e, he, hx, hor⟩ := hfail
    obtain ⟨hno, hdone⟩ := hfailed hfails e he
    rw [hx]
    rcases hor with hsame | hchanged
    · rw [hsame]
      exact hno
    · obtain ⟨now, ht⟩ := hchanged
      rw [ht]
      exact hdone now

/-- A call that only asks. -/
theorem ends_ask {c : S3Cmd} {x : Except Exc c.Resp} {Q : Except Exc c.Resp → Bucket → Prop}
    (hserve : ∀ now, Bucket.serve now c b = (x, b)) (hx : Q x b)
    (hfailed : fails → ∀ e, e ≠ .clientError true → Q (.error e) b) : Ends fails (send c) b Q := by
  apply ends_send
  · intro now
    rw [hserve now]
    exact hx
  · intro hfails e he
    refine ⟨hfailed hfails e he, ?_⟩
    intro now
    rw [hserve now]
    exact hfailed hfails e he

/-- A call of which any may fail. -/
theorem at_send {c : S3Cmd} {may : S3Cmd → Bool → Prop} {Q : Except Exc c.Resp → Bucket → Prop}
    (hserved : ∀ now, Q (Bucket.serve now c b).1 (Bucket.serve now c b).2)
    (hfailed : ∀ e, e ≠ .clientError true → (may c false → Q (.error e) b) ∧
      (may c true → ∀ now, Q (.error e) (Bucket.serve now c b).2)) : EndsAt may (send c) b Q := by
  apply (wp_issue c Q b).2
  refine ⟨trivial, ?_⟩
  intro x t h
  refine ⟨trivial, ?_⟩
  rcases h with hok | hfail
  · obtain ⟨now, heq⟩ := hok
    have h1 := congrArg (·.1) heq
    have h2 := congrArg (·.2) heq
    dsimp only at h1 h2
    rw [h1, h2]
    exact hserved now
  · obtain ⟨e, he, hx, hor⟩ := hfail
    rw [hx]
    rcases hor with hlost | hdone
    · rw [hlost.2]
      exact (hfailed e he).1 hlost.1
    · obtain ⟨hmay, now, ht⟩ := hdone
      rw [ht]
      exact (hfailed e he).2 hmay now

theorem at_ask {c : S3Cmd} {may : S3Cmd → Bool → Prop} {x : Except Exc c.Resp}
    {Q : Except Exc c.Resp → Bucket → Prop} (hserve : ∀ now, Bucket.serve now c b = (x, b))
    (hx : Q x b) (hfailed : ∀ e, e ≠ .clientError true → ∀ done, may c done → Q (.error e) b) :
    EndsAt may (send c) b Q := by
  apply at_send
  · intro now
    rw [hserve now]
    exact hx
  · intro e he
    refine ⟨hfailed e he false, ?_⟩
    intro hmay now
    rw [hserve now]
    exact hfailed e he true hmay

/-- Every call may fail, whether it is carried out or not. -/
theorem ends_of_at {p : S3M α} {Q : Except Exc α → Bucket → Prop}
    (h : EndsAt (fun _ _ => fails) p b Q) : Ends fails p b Q := by
  apply wp_handler h
  intro c t x v _ hcall
  rcases hcall with hok | hfail
  · exact .inl hok
  · obtain ⟨hf, e, he, hx, hor⟩ := hfail
    refine .inr ⟨e, he, hx, ?_⟩
    rcases hor with hsame | hdone
    · exact .inl ⟨hf, hsame⟩
    · exact .inr ⟨hf, hdone⟩

/-! ### Questions -/

/-- The calls that only ask. -/
def Asks : S3Cmd → Bool
  | .headObject _ => true
  | .getObject _ => true
  | .listObjects _ _ _ => true
  | _ => false

/-- A program that only asks, and that raises when a call fails. -/
def Queries {α : Type} (P : S3Cmd → Prop) : S3M α → Prop
  | done _ => True
  | call c k => (P c ∧ Asks c = true) ∧
      (∀ e, e ≠ .clientError true → ∃ e', k (.error e) = done (.error e')) ∧ ∀ x, Queries P (k x)

theorem queries_bind {P : S3Cmd → Prop} {p : S3M α} {f : α → S3M β} (hp : Queries P p)
    (hf : ∀ a, Queries P (f a)) : Queries P (p.bind f) := by
  induction p with
  | done r =>
    cases r with
    | ok a => exact hf a
    | error e => trivial
  | call c k ih =>
    obtain ⟨hc, hstrict, hrest⟩ := hp
    refine ⟨hc, ?_, fun x => ih x (hrest x)⟩
    intro e he
    obtain ⟨e', heq⟩ := hstrict e he
    refine ⟨e', ?_⟩
    dsimp only
    rw [heq]
    rfl

theorem queries_mono {P P' : S3Cmd → Prop} {p : S3M α} (hp : Queries P p) (h : ∀ c, P c → P' c) :
    Queries P' p := by
  induction p with
  | done r => trivial
  | call c k ih => exact ⟨⟨h c hp.1.1, hp.1.2⟩, hp.2.1, fun x => ih x (hp.2.2 x)⟩

theorem serve_asks {c : S3Cmd} (h : Asks c = true) (now now' : Time) (b : Bucket) :
    (Bucket.serve now c b).1 = (Bucket.serve now' c b).1 ∧ (Bucket.serve now c b).2 = b := by
  cases c
  case headObject key => cases hget : b.get key <;> simp [Bucket.serve, hget]
  case getObject key => cases hget : b.get key <;> simp [Bucket.serve, hget]
  case listObjects => exact ⟨rfl, rfl⟩
  all_goals cases h

/-- A program that only asks returns what it returns when every call is served, or a call failed
and it raised. -/
theorem at_queries {P : S3Cmd → Prop} {may : S3Cmd → Bool → Prop} {p : S3M α} (hp : Queries P p)
    (now : Time) (b : Bucket) : EndsAt may p b fun r t => t = b ∧
      (r = (p.run (Bucket.serve now) b).1 ∨ (∃ c done, P c ∧ may c done) ∧ ∃ e, r = .error e) := by
  induction p with
  | done r => exact ends_done ⟨rfl, .inl rfl⟩
  | call c k ih =>
    obtain ⟨⟨hc, hasks⟩, hstrict, hrest⟩ := hp
    refine ⟨trivial, ?_⟩
    intro x t h
    rcases h with hok | hfail
    · obtain ⟨now', heq⟩ := hok
      have hx : x = (Bucket.serve now c b).1 :=
        (congrArg (·.1) heq).trans (serve_asks hasks now' now b).1
      have ht : t = b := (congrArg (·.2) heq).trans (serve_asks hasks now' now b).2
      have hrun : ((call c k).run (Bucket.serve now) b).1 =
          ((k x).run (Bucket.serve now) b).1 := by
        rw [run_call, (serve_asks hasks now now b).2, hx]
      rw [ht, hrun]
      exact ih x (hrest x)
    · obtain ⟨e, he, hx, hor⟩ := hfail
      have ht : t = b := by
        rcases hor with hlost | hdone
        · exact hlost.2
        · obtain ⟨-, now', ht⟩ := hdone
          rw [ht]
          exact (serve_asks hasks now' now' b).2
      have hmay : ∃ done, may c done := by
        rcases hor with hlost | hdone
        · exact ⟨_, hlost.1⟩
        · exact ⟨_, hdone.1⟩
      obtain ⟨done, hmay⟩ := hmay
      obtain ⟨e', heq⟩ := hstrict e he
      rw [hx, heq]
      exact ends_done ⟨ht, .inr ⟨⟨c, done, hc, hmay⟩, e', rfl⟩⟩

theorem queries_head {α : Type} (key : Str) (a : Nat → α) (h : Exc → S3M α)
    (hraise : ∀ e, e ≠ .clientError true → ∃ e', h e = done (.error e'))
    (hquery : ∀ e, Queries (fun c => c = .headObject key) (h e)) :
    Queries (fun c => c = .headObject key)
      (((send (.headObject key)).bind fun n => done (.ok (a n))).catchWith h) := by
  refine ⟨⟨rfl, rfl⟩, ?_, ?_⟩
  · exact fun e he => hraise e he
  · intro x
    cases x with
    | ok n => trivial
    | error e => exact hquery e

theorem queries_headExists (key : Str) :
    Queries (fun c => c = .headObject key) (S3StorageAdapter.headExists key) := by
  unfold S3StorageAdapter.headExists
  split
  · trivial
  · apply queries_head key (fun _ => true)
    · intro e he
      split
      · exact absurd rfl he
      · exact ⟨e, rfl⟩
    · intro e
      split <;> trivial

theorem queries_sendCatch {c : S3Cmd} (hasks : Asks c = true) (h : Exc → S3M c.Resp)
    (hraise : ∀ e, e ≠ .clientError true → ∃ e', h e = done (.error e'))
    (hquery : ∀ e, Queries (fun c' => c' = c) (h e)) :
    Queries (fun c' => c' = c) ((send c).catchWith h) := by
  refine ⟨⟨rfl, hasks⟩, ?_, ?_⟩
  · exact fun e he => hraise e he
  · intro x
    cases x with
    | ok n => trivial
    | error e => exact hquery e

theorem queries_orNotFound {c : S3Cmd} (hasks : Asks c = true) :
    Queries (fun c' => c' = c) (S3StorageAdapter.orNotFound (send c)) := by
  apply queries_sendCatch hasks
  · intro e he
    split
    · exact absurd rfl he
    · exact ⟨e, rfl⟩
  · intro e
    split <;> trivial

theorem queries_listObjects (keyPrefix : Str) (delimited : Bool) (maxKeys : Option Nat) :
    Queries (fun c => c = .listObjects keyPrefix delimited maxKeys)
      (send (.listObjects keyPrefix delimited maxKeys)) :=
  ⟨⟨rfl, rfl⟩, fun e _ => ⟨e, rfl⟩, fun _ => trivial⟩

/-! ### Contents -/

@[simp] theorem content_put (b : Bucket) (key : Str) (body : Bytes) (now : Time) (k : Str) :
    (b.put key body now).content k = if k = key then some body else b.content k := by
  unfold Bucket.content
  rw [Bucket.get_put]
  split <;> rfl

@[simp] theorem content_keep (b : Bucket) (p : Str → Bool) (k : Str) :
    (b.keep p).content k = if p k then b.content k else none := by
  unfold Bucket.content
  rw [Bucket.get_keep]
  split <;> rfl

theorem content_some {v : Bytes} (h : b.content key = some v) :
    ∃ o ∈ b.objects, o.key = key ∧ o.body = v ∧ b.get key = some o := by
  unfold Bucket.content at h
  obtain ⟨o, hget, hbody⟩ := Option.map_eq_some_iff.1 h
  exact ⟨o, (Bucket.get_some hget).1, (Bucket.get_some hget).2, hbody, hget⟩

theorem content_of_mem {o : StoredObject} (h : o ∈ b.objects) : b.content o.key = some o.body := by
  unfold Bucket.content
  rw [Bucket.get_of_mem h]
  rfl

/-- The contents of a bucket in which a key has been written. -/
def Written (b t : Bucket) (key : Str) (body : Bytes) : Prop :=
  ∀ k, t.content k = if k = key then some body else b.content k

/-- The contents are the same. -/
def Unchanged (b t : Bucket) : Prop := ∀ k, t.content k = b.content k

theorem Unchanged.refl (b : Bucket) : Unchanged b b := fun _ => rfl

theorem Unchanged.of_objects {t : Bucket} (h : t.objects = b.objects) : Unchanged b t := by
  intro k
  unfold Bucket.content Bucket.get
  rw [h]

/-! ### Storing one object -/

/-- The calls that store an object at a key. -/
def Stores (key : Str) : S3Cmd → Bool
  | .putObject k _ => k = key
  | .copyObject _ k => k = key
  | .completeMultipartUpload k _ _ => k = key
  | _ => false

/-- The calls that are made on the way to an object at a key. -/
def Builds (key : Str) : S3Cmd → Prop
  | .putObject k _ => k = key
  | .copyObject _ k => k = key
  | .createMultipartUpload k => k = key
  | .uploadPart k _ _ _ => k = key
  | .uploadPartCopy k _ _ _ _ _ => k = key
  | .completeMultipartUpload k _ _ => k = key
  | _ => False

/-- What is left when a call fails on the way to an object at a key. -/
def Broken (may : S3Cmd → Bool → Prop) (b : Bucket) (key : Str) (body : Bytes) (t : Bucket) : Prop :=
  ∃ c done, may c done ∧ Builds key c ∧
    ((Stores key c && done) = true ∧ Written b t key body ∨
      (Stores key c && done) = false ∧ Unchanged b t)

/-- What a program that stores one object leaves: the object is stored if it returns; if it
raises, the call that failed tells whether it is. -/
def StoresOne {α : Type} (may : S3Cmd → Bool → Prop) (b : Bucket) (key : Str) (body : Bytes)
    (r : Except Exc α) (t : Bucket) : Prop :=
  match r with
  | .ok _ => Written b t key body
  | .error _ => Broken may b key body t

/-- A copy also fails when its source cannot be asked for. -/
def CopiesOne {α : Type} (may : S3Cmd → Bool → Prop) (b : Bucket) (source key : Str) (body : Bytes)
    (r : Except Exc α) (t : Bucket) : Prop :=
  match r with
  | .ok _ => Written b t key body
  | .error _ => (∃ done, may (.headObject source) done ∧ Unchanged b t) ∨ Broken may b key body t

/-- The same where any call may fail. -/
def OneWrite {α : Type} (fails : Prop) (b : Bucket) (key : Str) (body : Bytes) (r : Except Exc α)
    (t : Bucket) : Prop :=
  match r with
  | .ok _ => Written b t key body
  | .error _ => fails ∧ (Unchanged b t ∨ Written b t key body)

variable {may : S3Cmd → Bool → Prop}

/-- A head of a key that is there. -/
theorem at_head {o : StoredObject} (hget : b.get key = some o) :
    EndsAt may (S3StorageAdapter.orNotFound (send (.headObject key))) b fun r t =>
      t = b ∧ (r = .ok o.body.length ∨ (∃ done, may (.headObject key) done) ∧ ∃ e, r = .error e) := by
  have hrun : ((S3StorageAdapter.orNotFound (send (.headObject key))).run (Bucket.serve 0) b).1 =
      .ok o.body.length := by
    simp [S3StorageAdapter.orNotFound, Prog.catchWith, send, Prog.issue, Prog.attempt, Prog.bind,
      Bucket.serve, hget]
  apply ends_mono (at_queries (queries_orNotFound rfl) 0 b)
  intro r t h
  rw [hrun] at h
  refine ⟨h.1, h.2.imp_right ?_⟩
  intro hfail
  obtain ⟨⟨c, done, hc, hmay⟩, herror⟩ := hfail
  exact ⟨⟨done, hc ▸ hmay⟩, herror⟩

theorem at_headExists (key : Str) (b : Bucket) :
    EndsAt may (S3StorageAdapter.headExists key) b fun r t =>
      t = b ∧ (r = .ok (decide (key ≠ []) && (b.get key).isSome) ∨
        (∃ done, may (.headObject key) done) ∧ ∃ e, r = .error e) := by
  apply ends_mono (at_queries (queries_headExists key) 0 b)
  intro r t h
  rw [Bucket.run_headExists] at h
  refine ⟨h.1, h.2.imp_right ?_⟩
  intro hfail
  obtain ⟨⟨c, done, hc, hmay⟩, herror⟩ := hfail
  exact ⟨⟨done, hc ▸ hmay⟩, herror⟩

theorem assemble_cons {stored : List (Nat × Bytes)} {parts : List (Nat × Str)} {n : Nat}
    {segment body : Bytes} {tag : Str} (hnew : ∀ part ∈ parts, part.1 ≠ n)
    (h : Bucket.assemble stored parts = some body) :
    Bucket.assemble ((n, segment) :: stored) (parts ++ [(n, tag)]) = some (body ++ segment) := by
  unfold Bucket.assemble at *
  obtain ⟨bodies, hbodies, hflat⟩ := Option.map_eq_some_iff.1 h
  have hold : parts.mapM (fun part => ((n, segment) :: stored).lookup part.1) = some bodies := by
    rw [← hbodies]
    clear h hbodies
    induction parts with
    | nil => rfl
    | cons part parts ih =>
      have hne : (part.1 == n) = false := by simpa using hnew part List.mem_cons_self
      have hrest := ih fun part hpart => hnew part (List.mem_cons_of_mem _ hpart)
      rw [List.mapM_cons, List.mapM_cons, hrest, List.lookup_cons, hne]
  have hlast : ((n, segment) :: stored).lookup n = some segment := by
    rw [List.lookup_cons, beq_self_eq_true]
  rw [List.mapM_append, hold]
  simp [hlast, hflat]

/-- An upload that has assembled the first `n` bytes. -/
structure Assembling (b t : Bucket) (slot : Nat) (parts : List (Nat × Str)) (partNumber : Nat)
    (assembled : Bytes) : Prop where
  unchanged : Unchanged b t
  same : ∀ k, t.get k = b.get k
  earlier : ∀ part ∈ parts, part.1 < partNumber
  stored : ∃ stored, t.uploads[slot]? = some stored ∧
    Bucket.assemble stored parts = some assembled

/-- One more part is stored. -/
theorem storePart_assembling {t : Bucket} {slot partNumber : Nat} {parts : List (Nat × Str)}
    {assembled : Bytes} (segment : Bytes) (h : Assembling b t slot parts partNumber assembled) :
    ∃ t', t.storePart (List.replicate slot 'u') partNumber segment = (.ok [], t') ∧
      Assembling b t' slot (parts ++ [(partNumber, [])]) (partNumber + 1) (assembled ++ segment) := by
  obtain ⟨stored, hslot, hstored⟩ := h.stored
  have hbound : slot < t.uploads.length := (List.getElem?_eq_some_iff.1 hslot).1
  refine ⟨⟨t.objects, t.key_unique, t.uploads.set slot ((partNumber, segment) :: stored)⟩, ?_, ?_⟩
  · simp only [Bucket.storePart, List.length_replicate, hslot]
  · constructor
    case unchanged => exact h.unchanged
    case same => exact h.same
    case earlier =>
      intro part hmem
      rcases List.mem_append.1 hmem with hmem | hmem
      · have hold := h.earlier part hmem
        omega
      · rw [List.mem_singleton.1 hmem]
        exact Nat.lt_succ_self _
    case stored =>
      refine ⟨(partNumber, segment) :: stored, ?_, ?_⟩
      · show (t.uploads.set slot _)[slot]? = _
        rw [List.getElem?_set_self hbound]
      · apply assemble_cons _ hstored
        intro part hmem
        exact Nat.ne_of_lt (h.earlier part hmem)

/-- What is left after a part of an upload. -/
def PartStored (may : S3Cmd → Bool → Prop) (b : Bucket) (key : Str) (body : Bytes) (slot : Nat)
    (parts : List (Nat × Str)) (partNumber : Nat) (assembled : Bytes) (r : Except Exc Str)
    (t : Bucket) : Prop :=
  match r with
  | .ok tag => Assembling b t slot (parts ++ [(partNumber, tag)]) (partNumber + 1) assembled
  | .error _ => Broken may b key body t

theorem at_uploadPart {t : Bucket} {slot partNumber : Nat} {parts : List (Nat × Str)}
    {assembled : Bytes} (body segment : Bytes) (h : Assembling b t slot parts partNumber assembled) :
    EndsAt may (send (.uploadPart key (List.replicate slot 'u') partNumber segment)) t
      (PartStored may b key body slot parts partNumber (assembled ++ segment)) := by
  obtain ⟨t', hstore, hnext⟩ := storePart_assembling segment h
  have hserve : ∀ now, Bucket.serve now (.uploadPart key (List.replicate slot 'u') partNumber segment) t =
      (.ok [], t') := fun _ => hstore
  apply at_send
  · intro now
    rw [hserve now]
    exact hnext
  · intro e _
    constructor
    · exact fun hmay => ⟨_, false, hmay, rfl, .inr ⟨rfl, h.unchanged⟩⟩
    · intro hmay now
      rw [hserve now]
      exact ⟨_, true, hmay, rfl, .inr ⟨rfl, hnext.unchanged⟩⟩

theorem at_uploadPartCopy {source : Str} {o : StoredObject} {t : Bucket} {slot partNumber : Nat}
    {parts : List (Nat × Str)} {assembled : Bytes} (first last : Nat) (hget : b.get source = some o)
    (h : Assembling b t slot parts partNumber assembled) :
    EndsAt may (send (.uploadPartCopy key (List.replicate slot 'u') partNumber source first last)) t
      (PartStored may b key o.body slot parts partNumber
        (assembled ++ (o.body.drop first).take (last + 1 - first))) := by
  obtain ⟨t', hstore, hnext⟩ := storePart_assembling ((o.body.drop first).take (last + 1 - first)) h
  have hserve : ∀ now, Bucket.serve now
      (.uploadPartCopy key (List.replicate slot 'u') partNumber source first last) t = (.ok [], t') := by
    intro now
    simp only [Bucket.serve, h.same, hget, hstore]
  apply at_send
  · intro now
    rw [hserve now]
    exact hnext
  · intro e _
    constructor
    · exact fun hmay => ⟨_, false, hmay, rfl, .inr ⟨rfl, h.unchanged⟩⟩
    · intro hmay now
      rw [hserve now]
      exact ⟨_, true, hmay, rfl, .inr ⟨rfl, hnext.unchanged⟩⟩

theorem at_completeUpload {t : Bucket} {slot partNumber : Nat} {parts : List (Nat × Str)}
    {body : Bytes} (h : Assembling b t slot parts partNumber body) :
    EndsAt may (send (.completeMultipartUpload key (List.replicate slot 'u') parts)) t
      (StoresOne may b key body) := by
  obtain ⟨stored, hslot, hbody⟩ := h.stored
  have hserve : ∀ now, Bucket.serve now
      (.completeMultipartUpload key (List.replicate slot 'u') parts) t = (.ok (), t.put key body now) := by
    intro now
    simp only [Bucket.serve, List.length_replicate, hslot, Option.bind_some, hbody]
  have hwritten : ∀ now, Written b (t.put key body now) key body := by
    intro now k
    rw [content_put, h.unchanged k]
  apply at_send
  · intro now
    rw [hserve now]
    exact hwritten now
  · intro e _
    constructor
    · exact fun hmay => ⟨_, false, hmay, rfl, .inr ⟨Bool.and_false _, h.unchanged⟩⟩
    · intro hmay now
      rw [hserve now]
      exact ⟨_, true, hmay, rfl, .inl ⟨by simp [Stores], hwritten now⟩⟩

/-- A new upload in its slot. -/
theorem at_createUpload (body : Bytes) : EndsAt may (send (.createMultipartUpload key)) b fun r t =>
    (r = .ok (List.replicate b.uploads.length 'u') ∧ Assembling b t b.uploads.length [] 1 []) ∨
      (∃ e, r = .error e ∧ Broken may b key body t) := by
  have hnew : Assembling b ⟨b.objects, b.key_unique, b.uploads ++ [[]]⟩ b.uploads.length [] 1 [] := by
    constructor
    case unchanged => exact .of_objects rfl
    case same => exact fun _ => rfl
    case earlier => exact fun _ h => by cases h
    case stored =>
      refine ⟨[], ?_, rfl⟩
      show (b.uploads ++ [[]])[b.uploads.length]? = _
      rw [List.getElem?_append_right (Nat.le_refl _), Nat.sub_self]
      rfl
  apply at_send
  · exact fun _ => .inl ⟨rfl, hnew⟩
  · intro e _
    constructor
    · exact fun hmay => .inr ⟨e, rfl, _, false, hmay, rfl, .inr ⟨rfl, .refl b⟩⟩
    · exact fun hmay _ => .inr ⟨e, rfl, _, true, hmay, rfl, .inr ⟨rfl, hnew.unchanged⟩⟩

theorem at_abort {uploadId : Str} : EndsAt may (S3StorageAdapter.abortMultipart key uploadId) b
    fun r t => r = .ok () ∧ t = b := by
  unfold S3StorageAdapter.abortMultipart
  have hask : EndsAt may (send (.abortMultipartUpload key uploadId)) b fun _ t => t = b :=
    at_ask (fun _ => rfl) rfl fun _ _ _ _ => rfl
  apply ends_catch hask
  · exact fun _ _ ht => ⟨rfl, ht⟩
  · exact fun _ _ ht => ends_done ⟨rfl, ht⟩

/-! ### Copies -/

/-- The parts that are left copy the rest of the object. -/
theorem at_copyParts {source : Str} {o : StoredObject} (hget : b.get source = some o) (slot count : Nat) :
    ∀ (done : Nat) (t : Bucket) (parts : List (Nat × Str)),
      o.body.length ≤ (done + count) * multipartPartSize →
      (count ≠ 0 → (done + count - 1) * multipartPartSize < o.body.length) →
      Assembling b t slot parts (done + 1) (o.body.take (done * multipartPartSize)) →
      EndsAt may (S3StorageAdapter.copyParts source key (List.replicate slot 'u') o.body.length
        ((List.range' done count).map (· * multipartPartSize)) (done + 1) parts) t
        (StoresOne may b key o.body) := by
  induction count with
  | zero =>
    intro done t parts hall _ h
    have hwhole : o.body.take (done * multipartPartSize) = o.body := by
      apply List.take_of_length_le
      simpa using hall
    rw [hwhole] at h
    exact at_completeUpload h
  | succ count ih =>
    intro done t parts hall hlast h
    have hpart := multipartPartSize_pos
    have hlt : done * multipartPartSize < o.body.length := by
      have hle : done * multipartPartSize ≤ (done + (count + 1) - 1) * multipartPartSize :=
        Nat.mul_le_mul_right _ (by omega)
      exact lt_of_le_of_lt hle (hlast (Nat.succ_ne_zero count))
    have hnext : (done + 1) * multipartPartSize = done * multipartPartSize + multipartPartSize :=
      Nat.succ_mul done _
    -- the part ends where the next one begins, or at the end of the object
    have hjoin : o.body.take (done * multipartPartSize) ++
        (o.body.drop (done * multipartPartSize)).take
          (min (done * multipartPartSize + multipartPartSize) o.body.length - 1 + 1 -
            done * multipartPartSize) =
        o.body.take ((done + 1) * multipartPartSize) := by
      have hcut : min (done * multipartPartSize + multipartPartSize) o.body.length - 1 + 1 =
          min (done * multipartPartSize + multipartPartSize) o.body.length := by omega
      have htake : o.body.take ((done + 1) * multipartPartSize) =
          o.body.take (min (done * multipartPartSize + multipartPartSize) o.body.length) := by
        rw [hnext, List.take_eq_take_iff]
        omega
      rw [hcut, htake]
      have hsum : min (done * multipartPartSize + multipartPartSize) o.body.length =
          done * multipartPartSize + (min (done * multipartPartSize + multipartPartSize)
            o.body.length - done * multipartPartSize) := by omega
      nth_rewrite 2 [hsum]
      rw [List.take_add]
    rw [List.range'_succ, List.map_cons]
    unfold S3StorageAdapter.copyParts
    dsimp only
    apply ends_bind (at_uploadPartCopy _ _ hget h)
    · intro tag v hv
      have hassembled : Assembling b v slot (parts ++ [(done + 1, tag)]) (done + 1 + 1)
          (o.body.take ((done + 1) * multipartPartSize)) := by
        rw [← hjoin]
        exact hv
      apply ih (done + 1) v _ _ _ hassembled
      · have heq : done + 1 + count = done + (count + 1) := by omega
        rw [heq]
        exact hall
      · intro _
        have heq : done + 1 + count - 1 = done + (count + 1) - 1 := by omega
        rw [heq]
        exact hlast (Nat.succ_ne_zero count)
    · exact fun _ _ hv => hv

/-- An upload that raises is given up, which changes no object. -/
theorem at_orAbort {uploadId : Str} {p : S3M Unit} {body : Bytes} {t : Bucket}
    (h : EndsAt may p t (StoresOne may b key body)) :
    EndsAt may (p.catchWith fun e => (S3StorageAdapter.abortMultipart key uploadId).bind
      fun _ => Prog.raise e) t (StoresOne may b key body) := by
  apply ends_catch h
  · exact fun _ _ hw => hw
  · intro e v hv
    apply ends_bind at_abort
    · intro _ v' hv'
      rw [hv'.2]
      exact ends_done hv
    · intro e' v' hv'
      cases hv'.1

/-- A copy writes the target with the bytes of the source, in one call or in parts. -/
theorem at_copyObject {source : Str} {o : StoredObject} (hget : b.get source = some o) :
    EndsAt may (S3StorageAdapter.copyObject source key) b
      (CopiesOne may b source key o.body) := by
  unfold S3StorageAdapter.copyObject
  apply ends_bind (at_head hget)
  · intro size t h
    obtain ⟨ht, hor⟩ := h
    have hsize : size = o.body.length := by
      rcases hor with hok | hfail
      · exact Except.ok.inj hok
      · obtain ⟨-, e, heq⟩ := hfail
        cases heq
    subst ht
    subst hsize
    split
    next =>
      have hserve : ∀ now, Bucket.serve now (.copyObject source key) t =
          (.ok (), t.put key o.body now) := by
        intro now
        simp only [Bucket.serve, hget]
      have hwritten : ∀ now, Written t (t.put key o.body now) key o.body :=
        fun now k => content_put t key o.body now k
      apply at_send
      · intro now
        rw [hserve now]
        exact hwritten now
      · intro e _
        constructor
        · exact fun hmay => .inr ⟨_, false, hmay, rfl, .inr ⟨Bool.and_false _, .refl t⟩⟩
        · intro hmay now
          rw [hserve now]
          exact .inr ⟨_, true, hmay, rfl, .inl ⟨by simp [Stores], hwritten now⟩⟩
    next =>
      apply ends_bind (at_createUpload o.body)
      · intro uploadId v hv
        rcases hv with hok | hfail
        · obtain ⟨hid, hassembling⟩ := hok
          cases hid
          have hpart := multipartPartSize_pos
          have hcount : (o.body.length + multipartPartSize - 1) / multipartPartSize *
              multipartPartSize ≤ o.body.length + multipartPartSize - 1 := Nat.div_mul_le_self _ _
          have hstart : Assembling t v t.uploads.length [] (0 + 1)
              (o.body.take (0 * multipartPartSize)) := by
            rw [Nat.zero_mul]
            exact hassembling
          have hcopy : EndsAt may ((S3StorageAdapter.copyParts source key
              (List.replicate t.uploads.length 'u') o.body.length
              (S3StorageAdapter.partOffsets o.body.length) 1 []).catchWith fun e =>
                (S3StorageAdapter.abortMultipart key (List.replicate t.uploads.length 'u')).bind
                  fun _ => Prog.raise e) v (StoresOne may t key o.body) := by
            apply at_orAbort
            unfold S3StorageAdapter.partOffsets
            rw [List.range_eq_range']
            apply at_copyParts hget t.uploads.length _ 0 v [] _ _ hstart
            · -- the last part reaches the end of the object
              have hmod := Nat.div_add_mod (o.body.length + multipartPartSize - 1) multipartPartSize
              have hrest := Nat.mod_lt (o.body.length + multipartPartSize - 1) hpart
              have hcomm := Nat.mul_comm multipartPartSize
                ((o.body.length + multipartPartSize - 1) / multipartPartSize)
              rw [Nat.zero_add]
              omega
            · intro hsome
              have hleast := Nat.le_mul_of_pos_left multipartPartSize (Nat.pos_of_ne_zero hsome)
              rw [Nat.zero_add, Nat.sub_one_mul]
              omega
          apply ends_mono hcopy
          intro r u hu
          cases r with
          | ok a => exact hu
          | error e => exact .inr hu
        · obtain ⟨e, heq, -⟩ := hfail
          cases heq
      · intro e v hv
        rcases hv with hok | hfail
        · cases hok.1
        · obtain ⟨-, -, hbroken⟩ := hfail
          exact .inr hbroken
  · intro e t h
    obtain ⟨ht, hor⟩ := h
    rcases hor with hok | hfail
    · cases hok
    · obtain ⟨⟨done, hmay⟩, -⟩ := hfail
      exact .inl ⟨done, hmay, ht ▸ .refl b⟩

/-! ### Deletions -/

theorem at_deleteObjects (keys : List Str) (b : Bucket) :
    EndsAt may (send (.deleteObjects keys)) b fun r t =>
      (∀ k, k ∉ keys → t.content k = b.content k) ∧
        (((∃ a, r = .ok a) ∧ ∀ k ∈ keys, t.content k = none) ∨
          ((∃ e, r = .error e) ∧ ((may (.deleteObjects keys) false ∧ t = b) ∨
            (may (.deleteObjects keys) true ∧ ∀ k ∈ keys, t.content k = none)))) := by
  have hkeep : ∀ k, k ∉ keys → (b.keep fun k => decide (k ∉ keys)).content k = b.content k := by
    intro k hk
    rw [content_keep, if_pos (decide_eq_true hk)]
  have hgone : ∀ k ∈ keys, (b.keep fun k => decide (k ∉ keys)).content k = none := by
    intro k hk
    rw [content_keep, if_neg]
    simpa using hk
  apply at_send
  · exact fun _ => ⟨hkeep, .inl ⟨⟨_, rfl⟩, hgone⟩⟩
  · intro e _
    constructor
    · exact fun hmay => ⟨fun _ _ => rfl, .inr ⟨⟨e, rfl⟩, .inl ⟨hmay, rfl⟩⟩⟩
    · exact fun hmay _ => ⟨hkeep, .inr ⟨⟨e, rfl⟩, .inr ⟨hmay, hgone⟩⟩⟩

/-- Deletions in batches: what is not listed stays, and what is gone stays away. -/
theorem at_deleteBatches (batches : List (List Str)) : ∀ t : Bucket,
    EndsAt may (S3StorageAdapter.deleteBatches batches) t fun r v =>
      (∀ k, k ∉ batches.flatten → v.content k = t.content k) ∧
        (∀ k, t.content k = none → v.content k = none) ∧
        (((∃ a, r = .ok a) ∧ ∀ k ∈ batches.flatten, v.content k = none) ∨
          ((∃ e, r = .error e) ∧ ∃ batch ∈ batches, ∃ done, may (.deleteObjects batch) done)) := by
  induction batches with
  | nil => exact fun t => ends_done ⟨fun _ _ => rfl, fun _ hk => hk, .inl ⟨⟨_, rfl⟩, fun _ hk => by cases hk⟩⟩
  | cons batch rest ih =>
    intro t
    unfold S3StorageAdapter.deleteBatches
    have hstill : ∀ v : Bucket, (∀ k, k ∉ batch → v.content k = t.content k) →
        (v = t ∨ ∀ k ∈ batch, v.content k = none) → ∀ k, t.content k = none → v.content k = none := by
      intro v hother hor k hk
      rcases hor with hsame | hgone
      · rw [hsame]
        exact hk
      · by_cases hmem : k ∈ batch
        · exact hgone k hmem
        · rw [hother k hmem]
          exact hk
    apply ends_bind (at_deleteObjects batch t)
    · intro _ v hv
      obtain ⟨hother, hor⟩ := hv
      have hgone : ∀ k ∈ batch, v.content k = none := by
        rcases hor with hok | hfail
        · exact hok.2
        · obtain ⟨⟨e, heq⟩, -⟩ := hfail
          cases heq
      apply ends_mono (ih v)
      intro r u hu
      obtain ⟨hother', hstill', hor'⟩ := hu
      refine ⟨?_, ?_, ?_⟩
      · intro k hk
        rw [List.flatten_cons, List.mem_append, not_or] at hk
        rw [hother' k hk.2, hother k hk.1]
      · exact fun k hk => hstill' k (hstill v hother (.inr hgone) k hk)
      · rcases hor' with hok | hfail
        · refine .inl ⟨hok.1, ?_⟩
          intro k hk
          rw [List.flatten_cons, List.mem_append] at hk
          rcases hk with hfirst | hlater
          · exact hstill' k (hgone k hfirst)
          · exact hok.2 k hlater
        · obtain ⟨herror, later, hlater, hmay⟩ := hfail
          exact .inr ⟨herror, later, List.mem_cons_of_mem _ hlater, hmay⟩
    · intro e v hv
      obtain ⟨hother, hor⟩ := hv
      refine ⟨?_, ?_, ?_⟩
      · intro k hk
        rw [List.flatten_cons, List.mem_append, not_or] at hk
        exact hother k hk.1
      · rcases hor with hok | hfail
        · obtain ⟨⟨a, heq⟩, -⟩ := hok
          cases heq
        · rcases hfail.2 with hlost | hdone
          · exact hstill v hother (.inl hlost.2)
          · exact hstill v hother (.inr hdone.2)
      · rcases hor with hok | hfail
        · obtain ⟨⟨a, heq⟩, -⟩ := hok
          cases heq
        · rcases hfail.2 with hlost | hdone
          · exact .inr ⟨⟨e, rfl⟩, batch, List.mem_cons_self, _, hlost.1⟩
          · exact .inr ⟨⟨e, rfl⟩, batch, List.mem_cons_self, _, hdone.1⟩

/-! ### Any call -/

/-- Where every call may fail, this leaves two outcomes. -/
theorem ends_copyObject {source : Str} {o : StoredObject} (hget : b.get source = some o) :
    Ends fails (S3StorageAdapter.copyObject source key) b (OneWrite fails b key o.body) := by
  apply ends_mono (ends_of_at (at_copyObject hget))
  intro r t h
  cases r with
  | ok a => exact h
  | error e =>
    rcases h with hhead | hbroken
    · obtain ⟨-, hf, hsame⟩ := hhead
      exact ⟨hf, .inl hsame⟩
    · obtain ⟨c, done, hf, hbuilds, hor⟩ := hbroken
      rcases hor with hwritten | hsame
      · exact ⟨hf, .inr hwritten.2⟩
      · exact ⟨hf, .inl hsame.2⟩

theorem ends_headExists (key : Str) (b : Bucket) :
    Ends fails (S3StorageAdapter.headExists key) b fun r t =>
      t = b ∧ (r = .ok (decide (key ≠ []) && (b.get key).isSome) ∨ (fails ∧ ∃ e, r = .error e)) := by
  apply ends_mono (ends_of_at (at_headExists key b))
  intro r t h
  refine ⟨h.1, h.2.imp_right ?_⟩
  intro hfail
  obtain ⟨⟨done, hf⟩, herror⟩ := hfail
  exact ⟨hf, herror⟩

theorem ends_deleteBatches (batches : List (List Str)) (t : Bucket) :
    Ends fails (S3StorageAdapter.deleteBatches batches) t fun r v =>
      (∀ k, k ∉ batches.flatten → v.content k = t.content k) ∧
      match r with
      | .ok _ => ∀ k ∈ batches.flatten, v.content k = none
      | .error _ => fails := by
  apply ends_mono (ends_of_at (at_deleteBatches batches t))
  intro r v h
  obtain ⟨hother, -, hor⟩ := h
  refine ⟨hother, ?_⟩
  cases r with
  | ok a =>
    rcases hor with hok | hfail
    · exact hok.2
    · obtain ⟨⟨e, heq⟩, -⟩ := hfail
      cases heq
  | error e =>
    rcases hor with hok | hfail
    · obtain ⟨⟨a, heq⟩, -⟩ := hok
      cases heq
    · obtain ⟨-, -, -, -, hf⟩ := hfail
      exact hf

end
end WebStorage.S3
