import WebStorage.FailingCalls
import WebStorage.Installation

set_option autoImplicit false

/-! Requests in which a call raises: the step at which it does, and what the storage and the tables
are left with. -/
namespace WebStorage
open Effect Effect.Prog S3

/-- Where a request is stopped: at a call to the tables, that many storage operations having been
made before; at a call of a storage operation, which was carried out all the same or was not; or
by the stream of the upload. -/
inductive Step
  | table (operations : Nat)
  | call (c : S3Cmd) (done : Bool)
  | stream
deriving DecidableEq

/-- A request under way, with the first step that has raised. -/
structure Attempt where
  db : Db
  bucket : Bucket
  operations : Nat
  raised : Option Step

namespace Attempt

def start (w : Installation) : Attempt := ⟨w.db, w.bucket, 0, none⟩

/-- What a request leaves that raises: its transaction is rolled back, the objects are as they
are. -/
def rolledBack (w : Installation) (a : Attempt) : Installation := ⟨w.db, a.bucket⟩

/-- What a request leaves that returns. -/
def committed (a : Attempt) : Installation := ⟨a.db, a.bucket⟩

end Attempt

/-- The first step that raised, after one more answer. -/
def noted {α : Type} (raised : Option Step) (step : Step) : Except Exc α → Option Step
  | .ok _ => raised
  | .error _ => raised <|> some step

/-- The call of the step may fail, and any call once something has raised. -/
def MayFail (raised : Option Step) (step : Step) (c : S3Cmd) (done : Bool) : Prop :=
  raised.isSome = true ∨ step = .call c done

/-- The stream hands over the data, or raises on the way. -/
def Delivers (raised : Option Step) (step : Step) (data : Bytes) (stream : ByteStream) : Prop :=
  (stream.failure = none ∧ stream.chunks.flatten = data) ∨
    (stream.failure.isSome = true ∧ stream.chunks.flatten <+: data ∧
      (raised.isSome = true ∨ step = .stream))

/-- A run of a storage operation that may raise at the step. -/
def Performed (s : S3StorageAdapter) (raised : Option Step) (step : Step) :
    (op : StoreOp) → Bucket → Except Exc op.Resp → Bucket → Prop
  | .write path data _, b, x, t => ∃ stream, Delivers raised step data stream ∧
      Exec (CallsAt (MayFail raised step)) (s.write path stream) b x t
  | op, b, x, t => Exec (CallsAt (MayFail raised step)) (s.perform op) b x t

/-- The tables and the bucket when calls may raise. A call to the tables raises before its statement is
sent, which leaves the transaction as it was. The adapter of a private section is not served here
either. -/
def Outage (host : Host) : Handler FileCmd.Resp Exc Attempt := fun c a x t =>
  match c with
  | .uuid4 => t = a ∧ ∃ id, x = .ok id
  | .db f => t.bucket = a.bucket ∧ t.operations = a.operations ∧
      t.raised = noted a.raised (.table a.operations) x ∧
      ((x = (f a.db).1 ∧ t.db = (f a.db).2) ∨ (∃ e, x = .error e) ∧ t.db = a.db)
  | .store adapter op =>
    if adapter.decryptBlob.isSome then x = .error .storageUnavailable ∧ t = a
    else t.db = a.db ∧ t.operations = a.operations + 1 ∧ ∃ step, t.raised = noted a.raised step x ∧
      Performed (host.storage adapter) a.raised step op a.bucket x t.bucket

/-- The service when the calls of one step fail. -/
def interrupted (now : Time) (stop : Step) (c : S3Cmd) (b : Bucket) : Except Exc c.Resp × Bucket :=
  if stop = .call c false then (.error .other, b)
  else if stop = .call c true then (.error .other, (Bucket.serve now c b).2)
  else Bucket.serve now c b

/-- The tables and the bucket when one step raises. -/
def Host.stopAt (host : Host) (now : Time) (stop : Step) : (c : FileCmd) → Attempt →
    Except Exc c.Resp × Attempt
  | .uuid4, a => (.ok (host.newId a.db), a)
  | .db f, a =>
    if stop = .table a.operations then
      (.error .other, ⟨a.db, a.bucket, a.operations, a.raised <|> some (.table a.operations)⟩)
    else ((f a.db).1,
      ⟨(f a.db).2, a.bucket, a.operations, noted a.raised (.table a.operations) (f a.db).1⟩)
  | .store adapter op, a =>
    if adapter.decryptBlob.isSome then (.error .storageUnavailable, a)
    else
      let served := ((host.storage adapter).perform op).run (interrupted now stop) a.bucket
      (served.1, ⟨a.db, served.2, a.operations + 1, noted a.raised stop served.1⟩)

/-- Every run of the request ends in `Q`. -/
abbrev Survives {α : Type} (host : Host) (p : FileM α) (a : Attempt)
    (Q : Except Exc α → Attempt → Prop) : Prop :=
  wp (Outage host) (fun _ => True) p Q a

section
variable {α β : Type} {host : Host} {a : Attempt}

theorem survives_done {r : Except Exc α} {Q : Except Exc α → Attempt → Prop} (h : Q r a) :
    Survives host (done r) a Q := ⟨trivial, h⟩

theorem survives_mono {p : FileM α} {Q Q' : Except Exc α → Attempt → Prop}
    (h : Survives host p a Q) (hq : ∀ r t, Q r t → Q' r t) : Survives host p a Q' :=
  wp_mono h fun r t _ => hq r t

theorem survives_bind {p : FileM α} {f : α → FileM β} {P : Except Exc α → Attempt → Prop}
    {Q : Except Exc β → Attempt → Prop} (h : Survives host p a P)
    (hok : ∀ x t, P (.ok x) t → Survives host (f x) t Q)
    (herror : ∀ e t, P (.error e) t → Q (.error e) t) : Survives host (p.bind f) a Q :=
  wp_bind_of h (fun x t _ => hok x t) herror

theorem survives_catch {p : FileM α} {f : Exc → FileM α} {P Q : Except Exc α → Attempt → Prop}
    (h : Survives host p a P) (hok : ∀ x t, P (.ok x) t → Q (.ok x) t)
    (herror : ∀ e t, P (.error e) t → Survives host (f e) t Q) :
    Survives host (p.catchWith f) a Q :=
  wp_catch_of h hok fun e t _ => herror e t

theorem survives_uuid4 {f : Uuid → FileM β} {Q : Except Exc β → Attempt → Prop}
    (h : ∀ id, Survives host (f id) a Q) : Survives host (uuid4.bind f) a Q := by
  have hfresh : Survives host uuid4 a fun r t => t = a ∧ ∃ id, r = .ok id := by
    refine ⟨trivial, ?_⟩
    intro x t hx
    obtain ⟨ht, hid⟩ := hx
    exact ⟨trivial, ht, hid⟩
  apply survives_bind hfresh
  · intro id t ht
    rw [ht.1]
    exact h id
  · intro e t ht
    obtain ⟨-, id, heq⟩ := ht
    cases heq

/-- A call to the tables is served or raises. -/
theorem survives_db {f : DbOp α} {Q : Except Exc α → Attempt → Prop}
    (hserved : ∀ t : Attempt, t.bucket = a.bucket → t.operations = a.operations →
      t.raised = noted a.raised (.table a.operations) (f a.db).1 → t.db = (f a.db).2 →
      Q (f a.db).1 t)
    (hraised : ∀ e (t : Attempt), t.bucket = a.bucket → t.operations = a.operations →
      t.raised = (a.raised <|> some (.table a.operations)) → t.db = a.db → Q (.error e) t) :
    Survives host (db f) a Q := by
  refine ⟨trivial, ?_⟩
  intro x t hx
  refine ⟨trivial, ?_⟩
  obtain ⟨hbucket, hoperations, hstep, hor⟩ := hx
  rcases hor with hok | hfail
  · rw [hok.1] at hstep
    rw [hok.1]
    exact hserved t hbucket hoperations hstep hok.2
  · obtain ⟨⟨e, he⟩, hdb⟩ := hfail
    rw [he] at hstep
    rw [he]
    exact hraised e t hbucket hoperations hstep hdb

/-- A call of which only the tables and the step are looked at. -/
theorem survives_table (f : DbOp α) (a : Attempt) : Survives host (db f) a fun r t =>
    t.bucket = a.bucket ∧ t.operations = a.operations ∧
      t.raised = noted a.raised (.table a.operations) r ∧ ∀ x, r = .ok x → t.db = (f a.db).2 ∧
        (f a.db).1 = .ok x := by
  apply survives_db
  · intro t hbucket hoperations hraised hdb
    exact ⟨hbucket, hoperations, hraised, fun x hx => ⟨hdb, hx⟩⟩
  · intro e t hbucket hoperations hraised _
    exact ⟨hbucket, hoperations, hraised, fun x hx => by cases hx⟩

/-- A call that leaves the records alone. -/
theorem survives_keeping {f : DbOp α} (hkeeps : (f a.db).2.records = a.db.records) :
    Survives host (db f) a fun r t => t.bucket = a.bucket ∧ t.operations = a.operations ∧
      t.db.records = a.db.records ∧ t.raised = noted a.raised (.table a.operations) r := by
  apply survives_db
  · intro t hbucket hoperations hraised hdb
    refine ⟨hbucket, hoperations, ?_, hraised⟩
    rw [hdb]
    exact hkeeps
  · intro e t hbucket hoperations hraised hdb
    exact ⟨hbucket, hoperations, by rw [hdb], hraised⟩

theorem onLinks_records (f : LinkTable → Except Exc (α × LinkTable)) (d : Db) :
    (onLinks f d).2.records = d.records := by
  unfold onLinks
  split <;> rfl

/-- A call of the queue: a refused private link is dropped. -/
theorem survives_links (f : LinkTable → Except Exc (α × LinkTable)) (refused : α) (a : Attempt) :
    Survives host (Enqueue.links f refused) a fun r t => t.bucket = a.bucket ∧
      t.operations = a.operations ∧ t.db.records = a.db.records ∧
      ∀ e, r = .error e → t.raised = (a.raised <|> some (.table a.operations)) := by
  unfold Enqueue.links
  have hcall : Survives host (db (onLinks f)) a fun r t => t.bucket = a.bucket ∧
      t.operations = a.operations ∧ t.db.records = a.db.records ∧
      ∀ e, r = .error e → t.raised = (a.raised <|> some (.table a.operations)) := by
    apply survives_mono (survives_keeping (onLinks_records f a.db))
    intro r t ht
    refine ⟨ht.1, ht.2.1, ht.2.2.1, ?_⟩
    intro e he
    rw [ht.2.2.2, he]
    rfl
  apply survives_catch hcall
  · exact fun x t ht => ht
  · intro e t ht
    obtain ⟨hbucket, hoperations, hrecords, hraised⟩ := ht
    have hdropped : Survives host (pure refused) t fun r t => t.bucket = a.bucket ∧
        t.operations = a.operations ∧ t.db.records = a.db.records ∧
        ∀ e, r = .error e → t.raised = (a.raised <|> some (.table a.operations)) :=
      survives_done ⟨hbucket, hoperations, hrecords, fun e he => by cases he⟩
    have hraise : Survives host (Prog.raise e : FileM α) t fun r t => t.bucket = a.bucket ∧
        t.operations = a.operations ∧ t.db.records = a.db.records ∧
        ∀ e, r = .error e → t.raised = (a.raised <|> some (.table a.operations)) :=
      survives_done ⟨hbucket, hoperations, hrecords, fun _ _ => hraised e rfl⟩
    split
    · exact hdropped
    · exact hraise

theorem served_plain {adapter : Adapter} {op : StoreOp} {x : Except Exc op.Resp} {t : Attempt}
    (hplain : adapter.Plain) : Outage host (.store adapter op) a x t ↔
      t.db = a.db ∧ t.operations = a.operations + 1 ∧ ∃ step, t.raised = noted a.raised step x ∧
        Performed (host.storage adapter) a.raised step op a.bucket x t.bucket := by
  have hnone : ¬ adapter.decryptBlob.isSome = true := by
    unfold Adapter.decryptBlob
    rw [hplain.unencrypted]
    exact Bool.false_ne_true
  show (if adapter.decryptBlob.isSome = true then _ else _) ↔ _
  rw [if_neg hnone]

/-- One step that raises is one of the runs. -/
theorem outage_stopAt (host : Host) (now : Time) (stop : Step) (c : FileCmd) (a : Attempt) :
    Outage host c a (host.stopAt now stop c a).1 (host.stopAt now stop c a).2 := by
  cases c with
  | uuid4 => exact ⟨rfl, _, rfl⟩
  | db f =>
    rw [Host.stopAt]
    split
    · exact ⟨rfl, rfl, rfl, .inr ⟨⟨_, rfl⟩, rfl⟩⟩
    · exact ⟨rfl, rfl, rfl, .inl ⟨rfl, rfl⟩⟩
  | store adapter op =>
    have hcalls : ∀ c b, CallsAt (MayFail a.raised stop) c b (interrupted now stop c b).1
        (interrupted now stop c b).2 := by
      intro c b
      unfold interrupted
      split
      next hlost => exact .inr ⟨_, by simp, rfl, .inl ⟨.inr hlost, rfl⟩⟩
      next =>
        split
        next hdone => exact .inr ⟨_, by simp, rfl, .inr ⟨.inr hdone, now, rfl⟩⟩
        next => exact .inl ⟨now, rfl⟩
    have hrun := exec_run hcalls ((host.storage adapter).perform op) a.bucket
    rw [Host.stopAt]
    unfold Outage
    dsimp only
    split
    · exact ⟨rfl, rfl⟩
    · refine ⟨rfl, rfl, stop, rfl, ?_⟩
      cases op
      case write path data size =>
        refine ⟨⟨[data], none⟩, .inl ⟨rfl, ?_⟩, hrun⟩
        simp
      all_goals exact hrun

/-- A storage operation other than a write. -/
theorem survives_store {adapter : Adapter} {op : StoreOp} {Q : Except Exc op.Resp → Attempt → Prop}
    (hplain : adapter.Plain) (hop : ∀ path data size, op ≠ .write path data size)
    (h : ∀ step, EndsAt (MayFail a.raised step) ((host.storage adapter).perform op) a.bucket
      fun x t => Q x ⟨a.db, t, a.operations + 1, noted a.raised step x⟩) :
    Survives host (store adapter op) a Q := by
  refine ⟨trivial, ?_⟩
  intro x t hx
  refine ⟨trivial, ?_⟩
  have hx' := (served_plain hplain).1 hx
  obtain ⟨hdb, hoperations, step, hstep, hrun⟩ := hx'
  have hexec : Exec (CallsAt (MayFail a.raised step)) ((host.storage adapter).perform op) a.bucket x
      t.bucket := by
    cases op
    case write path data size => exact absurd rfl (hop path data size)
    all_goals exact hrun
  have hq := (wp_sound (h step) hexec).2
  rw [← hdb, ← hoperations, ← hstep] at hq
  exact hq

theorem survives_write {adapter : Adapter} {path : Str} {data : Bytes} {size : Nat}
    {Q : Except Exc Digest → Attempt → Prop} (hplain : adapter.Plain)
    (h : ∀ step stream, Delivers a.raised step data stream →
      EndsAt (MayFail a.raised step) ((host.storage adapter).write path stream) a.bucket
        fun x t => Q x ⟨a.db, t, a.operations + 1, noted a.raised step x⟩) :
    Survives host (store adapter (.write path data size)) a Q := by
  refine ⟨trivial, ?_⟩
  intro x t hx
  refine ⟨trivial, ?_⟩
  have hx' := (served_plain hplain).1 hx
  obtain ⟨hdb, hoperations, step, hstep, stream, hdelivers, hexec⟩ := hx'
  have hq := (wp_sound (h step stream hdelivers) hexec).2
  rw [← hdb, ← hoperations, ← hstep] at hq
  exact hq

/-! ### Storage operations that nothing precedes -/

theorem mayFail_none {step : Step} {c : S3Cmd} {carried : Bool} (h : MayFail none step c carried) :
    step = .call c carried := by
  rcases h with hraised | hstep
  · cases hraised
  · exact hstep

/-- What a write that raised has left. -/
def WriteStopped (b : Bucket) (key : Str) (data : Bytes) (step : Step) (t : Bucket) : Prop :=
  (step = .stream ∧ Unchanged b t) ∨ ∃ c carried, step = .call c carried ∧ Builds key c ∧
    ((Stores key c && carried) = true ∧ Written b t key data ∨
      (Stores key c && carried) = false ∧ Unchanged b t)

theorem survives_firstWrite {adapter : Adapter} {path key : Str} {data : Bytes} {size : Nat}
    (hplain : adapter.Plain) (hkey : objectKey adapter path = .ok key) (hne : key ≠ [])
    (hraised : a.raised = none) :
    Survives host (store adapter (.write path data size)) a fun r t =>
      t.db = a.db ∧ t.operations = a.operations + 1 ∧
        (r = .ok (host.sha256 data) ∧ t.raised = none ∧ Written a.bucket t.bucket key data ∨
          (∃ e, r = .error e) ∧ ∃ step, t.raised = some step ∧
            ∃ written, written <+: data ∧ WriteStopped a.bucket key written step t.bucket) := by
  have hkey' := (hplain.objectKey_storage host _).trans hkey
  apply survives_write hplain
  intro step stream hdelivers
  rw [hraised] at hdelivers ⊢
  apply ends_mono (at_write hkey' hne stream)
  intro r t h
  obtain ⟨hwrote, hdigest⟩ := h
  refine ⟨rfl, rfl, ?_⟩
  cases r with
  | ok digest =>
    left
    have hdata : stream.chunks.flatten = data := by
      rcases hdelivers with hall | hbroken
      · exact hall.2
      · rw [hwrote.1] at hbroken
        cases hbroken.1
    refine ⟨?_, rfl, ?_⟩
    · rw [hdigest digest rfl, hdata]
      rfl
    · rw [← hdata]
      exact hwrote.2
  | error e =>
    right
    refine ⟨⟨e, rfl⟩, step, rfl, stream.chunks.flatten, ?_, ?_⟩
    · rcases hdelivers with hall | hbroken
      · rw [hall.2]
      · exact hbroken.2.1
    · rcases hwrote with hstream | hcall
      · left
        rcases hdelivers with hall | hbroken
        · rw [hall.1] at hstream
          cases hstream.1
        · rcases hbroken.2.2 with hraised' | hstep
          · cases hraised'
          · exact ⟨hstep, hstream.2⟩
      · right
        obtain ⟨c, carried, hmay, hbuilds, hor⟩ := hcall
        exact ⟨c, carried, mayFail_none hmay, hbuilds, hor⟩

/-- What the rename of an object that raised has left. -/
def RenameStopped (b : Bucket) (old new : Str) (body : Bytes) (step : Step) (t : Bucket) : Prop :=
  (∃ carried, step = .call (.headObject old) carried ∧ Unchanged b t) ∨
    (∃ c carried, step = .call c carried ∧ Builds new c ∧
      ((Stores new c && carried) = true ∧ Written b t new body ∨
        (Stores new c && carried) = false ∧ Unchanged b t)) ∨
    ∃ carried, step = .call (.deleteObject old) carried ∧
      ∀ k, k ≠ old → t.content k = if k = new then some body else b.content k

theorem survives_firstRename {adapter : Adapter} {oldPath newPath old new : Str} {body : Bytes}
    (hplain : adapter.Plain) (hold : objectKey adapter oldPath = .ok old)
    (hnew : objectKey adapter newPath = .ok new) (hne : old ≠ [])
    (hbody : a.bucket.content old = some body) (hraised : a.raised = none) :
    Survives host (store adapter (.rename oldPath newPath)) a fun r t =>
      t.db = a.db ∧ t.operations = a.operations + 1 ∧
        ((∃ x, r = .ok x) ∧ t.raised = none ∧ (∀ k, t.bucket.content k = if k = old then none
            else if k = new then some body else a.bucket.content k) ∨
          (∃ e, r = .error e) ∧ ∃ step, t.raised = some step ∧
            RenameStopped a.bucket old new body step t.bucket) := by
  have hold' := (hplain.objectKey_storage host _).trans hold
  have hnew' := (hplain.objectKey_storage host _).trans hnew
  obtain ⟨o, -, -, hsame, hget⟩ := content_some hbody
  have hop : ∀ path data size, StoreOp.rename oldPath newPath ≠ .write path data size := by
    intro path data size heq
    cases heq
  apply survives_store hplain hop
  intro step
  rw [hraised]
  apply ends_mono (at_renameFile hold' hnew' hne hget)
  intro r t h
  rw [hsame] at h
  refine ⟨rfl, rfl, ?_⟩
  cases r with
  | ok x => exact .inl ⟨⟨x, rfl⟩, rfl, h⟩
  | error e =>
    right
    refine ⟨⟨e, rfl⟩, step, rfl, ?_⟩
    rcases h with hhead | hbroken | hdelete
    · obtain ⟨carried, hmay, hunchanged⟩ := hhead
      exact .inl ⟨carried, mayFail_none hmay, hunchanged⟩
    · obtain ⟨c, carried, hmay, hbuilds, hor⟩ := hbroken
      exact .inr (.inl ⟨c, carried, mayFail_none hmay, hbuilds, hor⟩)
    · obtain ⟨carried, hmay, hcontent⟩ := hdelete
      exact .inr (.inr ⟨carried, mayFail_none hmay, hcontent⟩)

theorem survives_firstExists {adapter : Adapter} {path key : Str} (hplain : adapter.Plain)
    (hkey : objectKey adapter path = .ok key) (hraised : a.raised = none) :
    Survives host (store adapter (.exists path)) a fun r t =>
      t.db = a.db ∧ t.bucket = a.bucket ∧ t.operations = a.operations + 1 ∧
        (r = .ok (a.bucket.occupied key) ∧ t.raised = none ∨
          (∃ e, r = .error e) ∧ ∃ c carried, t.raised = some (.call c carried) ∧ Checks key c) := by
  have hkey' := (hplain.objectKey_storage host _).trans hkey
  apply survives_store hplain (fun path data size heq => by cases heq)
  intro step
  rw [hraised]
  apply ends_mono (at_exists hkey' a.bucket)
  intro r t h
  refine ⟨rfl, h.1, rfl, ?_⟩
  rcases h.2 with hok | hfail
  · rw [hok]
    exact .inl ⟨rfl, rfl⟩
  · obtain ⟨⟨c, carried, hchecks, hmay⟩, e, he⟩ := hfail
    rw [he]
    refine .inr ⟨⟨e, rfl⟩, c, carried, ?_, hchecks⟩
    rw [mayFail_none hmay]
    rfl

/-- What a deletion that raised has left at its key. -/
def DeleteStopped (b : Bucket) (key : Str) (step : Step) (t : Bucket) : Prop :=
  (∃ c carried, step = .call c carried ∧
      (c = .headObject key ∨ c = .listObjects (asDir key) false none) ∧ t = b) ∨
    ∃ keys carried, step = .call (.deleteObjects keys) carried ∧
      t.content key = if key ∈ keys ∧ carried = false then b.content key else none

theorem survives_firstDelete {adapter : Adapter} {path key : Str} (hplain : adapter.Plain)
    (hkey : objectKey adapter path = .ok key) (hne : key ≠ []) (hocc : a.bucket.occupied key = true)
    (hraised : a.raised = none) :
    Survives host (store adapter (.delete path)) a fun r t =>
      t.db = a.db ∧ t.operations = a.operations + 1 ∧
        (∀ k, ¬ Bucket.Covers key k → t.bucket.content k = a.bucket.content k) ∧
        ((∃ x, r = .ok x) ∧ t.raised = none ∧ (∀ k, Bucket.Covers key k → t.bucket.content k = none) ∨
          (∃ e, r = .error e) ∧ ∃ step, t.raised = some step ∧
            DeleteStopped a.bucket key step t.bucket) := by
  have hkey' := (hplain.objectKey_storage host _).trans hkey
  apply survives_store hplain (fun path data size heq => by cases heq)
  intro step
  rw [hraised]
  apply ends_mono (at_delete hkey' hne a.bucket)
  intro r t h
  obtain ⟨hother, hor⟩ := h
  refine ⟨rfl, rfl, hother, ?_⟩
  rcases hor with hok | hfail
  · obtain ⟨⟨x, hx⟩, hgone⟩ := hok
    rw [hx]
    exact .inl ⟨⟨x, rfl⟩, rfl, hgone⟩
  · obtain ⟨⟨e, he⟩, hcase⟩ := hfail
    rw [he]
    refine .inr ⟨⟨e, rfl⟩, step, rfl, ?_⟩
    rcases hcase with hmissing | hasked | hhalf
    · rw [hmissing.1] at hocc
      cases hocc
    · obtain ⟨c, carried, hc, hmay, hsame⟩ := hasked
      exact .inl ⟨c, carried, mayFail_none hmay, hc, hsame⟩
    · obtain ⟨keys, carried, hmay, hcontent⟩ := hhalf
      exact .inr ⟨keys, carried, mayFail_none hmay, hcontent⟩

/-! ### Storage operations afterwards -/

/-- A clean-up touches nothing but what its key covers. -/
theorem survives_deleteIfExists {adapter : Adapter} {path key : Str} (hplain : adapter.Plain)
    (hkey : objectKey adapter path = .ok key) (hne : key ≠ []) :
    Survives host (deleteIfExists adapter path) a fun _ t =>
      (∀ k, ¬ Bucket.Covers key k → t.bucket.content k = a.bucket.content k) ∧
        ∀ step, a.raised = some step → t.raised = some step := by
  have hkey' := (hplain.objectKey_storage host _).trans hkey
  have hkept : ∀ {α : Type} (a t : Attempt) (x : Except Exc α) (step : Step),
      t.raised = noted a.raised step x → ∀ step, a.raised = some step → t.raised = some step := by
    intro α a t x step hnoted step' hstep
    rw [hnoted, hstep]
    cases x <;> rfl
  have hexists : Survives host (store adapter (.exists path)) a fun _ t =>
      t.bucket = a.bucket ∧ ∀ step, a.raised = some step → t.raised = some step := by
    apply survives_store hplain (fun path data size heq => by cases heq)
    intro step
    apply ends_mono (at_exists hkey' a.bucket)
    intro r t h
    exact ⟨h.1, hkept a ⟨a.db, t, _, _⟩ r step rfl⟩
  unfold deleteIfExists
  apply survives_bind hexists
  · intro found u hu
    split
    · apply survives_store hplain (fun path data size heq => by cases heq)
      intro step
      apply ends_mono (at_delete hkey' hne u.bucket)
      intro r t h
      refine ⟨?_, ?_⟩
      · intro k hk
        rw [← hu.1]
        exact h.1 k hk
      · intro step' hstep
        exact hkept u ⟨u.db, t, _, _⟩ r step rfl step' (hu.2 step' hstep)
    · exact survives_done ⟨fun k _ => by rw [hu.1], hu.2⟩
  · intro e u hu
    exact ⟨fun k _ => by rw [hu.1], hu.2⟩

end
end WebStorage
