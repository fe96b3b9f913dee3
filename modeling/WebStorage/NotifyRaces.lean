import WebStorage.SyncJob

set_option autoImplicit false

/-! Notifications run without a row lock next to each other, to user requests and to the tick.
One link is watched: what the last request asked for, and whether the row or RAG still has it. -/
namespace WebStorage.NotifyRaces
open Effect Effect.Prog IndexSyncJob

/-- The committed queue, and the keys and hashes RAG has received since the last request. -/
structure Queue where
  table : LinkTable
  received : List (Str × Digest)

/-- RAG has the object of a registration, from this call or from an earlier one. -/
def tookRegistration : Except Exc RagFileCard → Bool
  | .ok _ => true
  | .error (.ragHttp statusCode errorCode _) =>
    statusCode = 409 && errorCode = some errorDuplicateFile
  | .error _ => false

def tookRekey : Except Exc RagFileCard → Bool
  | .ok _ => true
  | .error _ => false

/-- The queue answers exactly. What comes from outside is limited by `serve` only. -/
def Answers (serve : (c : SyncCmd) → Except Exc c.Resp → Prop) :
    Handler SyncCmd.Resp Exc Queue
  | .applyTransition linkId tr now, q, x, q' =>
    match q.table.applyTransition linkId tr now with
    | .ok (found, table) => x = .ok found ∧ q' = { q with table := table }
    | .error e => x = .error e ∧ q' = q
  | .claimDue limit now, q, x, q' => x = q.table.claimDue limit now ∧ q' = q
  | .getByFileRecordId fileRecordId, q, x, q' =>
    x = .ok (q.table.byFileRecordId fileRecordId) ∧ q' = q
  | .register collection manifest userId, q, x, q' =>
    serve (.register collection manifest userId) x ∧ q' = if tookRegistration x then
      { q with received := (manifest.s3Key, manifest.contentSha256) :: q.received } else q
  | .rekey ragFileId target userId, q, x, q' =>
    serve (.rekey ragFileId target userId) x ∧ q' = if tookRekey x then
      { q with received := (target.s3Key, target.contentSha256) :: q.received } else q
  | c, q, x, q' => serve c x ∧ q' = q

/-- Any answer. -/
def Any (c : SyncCmd) (_ : Except Exc c.Resp) : Prop := True

/-- The answers that do not make the worker give the work up: the object is readable, and RAG
accepts the call, cannot be reached, or sends the worker on to the next call. -/
def Served : (c : SyncCmd) → Except Exc c.Resp → Prop
  | .objectExists _, x => x = .ok true ∨ x = .error .other
  | .objectRead _, x => (∃ payload : Bytes, x = .ok payload) ∨ x = .error .other
  | .objectSize _, x => (∃ size : Nat, x = .ok size) ∨ x = .error .other
  | .originalName _, x => (∃ name : Option Str, x = .ok name) ∨ x = .error .other
  | .register .., x => (∃ card : RagFileCard, x = .ok card) ∨
    (∃ file : Uuid, x = .error (.ragHttp 409 (some errorDuplicateFile) (some file))) ∨
    (∃ code, x = .error (.ragUnavailable code)) ∨ x = .error .other
  | .rekey .., x => (∃ card : RagFileCard, x = .ok card) ∨
    (∃ file, x = .error (.ragHttp 409 (some errorContentChanged) file)) ∨
    (∃ code, x = .error (.ragUnavailable code)) ∨ x = .error .other
  | .deleteVectors .., x => x = .ok () ∨
    (∃ statusCode errorCode file, vectorsAlreadyGone statusCode errorCode ∧
      x = .error (.ragHttp statusCode errorCode file)) ∨
    (∃ code, x = .error (.ragUnavailable code)) ∨ x = .error .other
  | _, _ => True

/-- A notification between its load of a row and its last write. -/
structure Notification where
  linkId : Uuid
  rest : Sync Outcome

def Notification.Finished (n : Notification) : Prop := ∃ r, n.rest = done r

/-- The last request about the watched link: its deletion, with the RAG id the row had, or new
content or a new key. -/
inductive Mark
  | removed (ragFileId : Option Uuid)
  | changed (s3Key : Str) (contentSha256 : Option Digest)

structure World where
  queue : Queue
  running : List Notification
  mark : Option Mark

/-- The link under watch and its file record. -/
structure Watched where
  linkId : Uuid
  fileRecordId : Uuid

inductive Event
  | load (fileRecordId : Uuid) (now : Time)
  | resume (i : Nat)
  | leave (i : Nat)
  | tick (now : Time)
  | removed (fileRecordIds : List Uuid) (now : Time)
  | contentChanged (fileRecordId : Uuid) (decision : RegistrationDecision) (now : Time)
  | rekey (fileRecordId : Uuid) (s3Key : Str) (now : Time)

/-- Nothing is requested for a deleted record any more. -/
def World.Deleted (w : World) : Prop := ∃ ragFileId, w.mark = some (.removed ragFileId)

/-- A request on the watched link starts a new account of what RAG has received. -/
def World.requested (w : World) (table : LinkTable) (mark : Mark) : World :=
  { w with queue := ⟨table, []⟩, mark := some mark }

/-- A request on another link. -/
def World.elsewhere (w : World) (table : LinkTable) : World :=
  { w with queue := { w.queue with table := table } }

variable (job : IndexSyncJob) (serve : (c : SyncCmd) → Except Exc c.Resp → Prop) (v : Watched)

inductive Step (w : World) : Event → World → Prop
  | load {id now link} : w.queue.table.byFileRecordId id = some link → shouldNotify link →
      Step w (.load id now)
        { w with running := ⟨link.id, job.process link now⟩ :: w.running }
  | resume {i linkId c k x q} : w.running[i]? = some ⟨linkId, .call c k⟩ →
      Answers serve c w.queue x q →
      Step w (.resume i) { w with queue := q, running := w.running.set i ⟨linkId, k x⟩ }
  | leave {i} : Step w (.leave i) { w with running := w.running.eraseIdx i }
  | tick {now result q} : Exec (Answers serve) (job.run now) w.queue (.ok result) q →
      Step w (.tick now) { w with queue := q }
  | tickRolledBack {now q} : Reaches (Answers serve) (job.run now) w.queue q →
      Step w (.tick now) { w with queue := ⟨w.queue.table, q.received⟩ }
  | removed {ids now links table row} : w.queue.table.markRemoved ids now = .ok (links, table) →
      v.fileRecordId ∈ ids → ¬ w.Deleted → w.queue.table.get v.linkId = some row →
      Step w (.removed ids now) (w.requested table (.removed row.ragFileId))
  | removedElsewhere {ids now links table} :
      w.queue.table.markRemoved ids now = .ok (links, table) → v.fileRecordId ∉ ids →
      Step w (.removed ids now) (w.elsewhere table)
  | contentChanged {decision now link table} :
      w.queue.table.markContentChanged v.fileRecordId decision now = .ok (link, table) →
      ¬ w.Deleted → Step w (.contentChanged v.fileRecordId decision now)
        (w.requested table (.changed decision.s3Key decision.contentSha256))
  | contentChangedElsewhere {id decision now link table} :
      w.queue.table.markContentChanged id decision now = .ok (link, table) →
      id ≠ v.fileRecordId → Step w (.contentChanged id decision now) (w.elsewhere table)
  | rekey {s3Key now link table row} :
      w.queue.table.markRekey v.fileRecordId s3Key now = .ok (link, table) →
      ¬ w.Deleted → w.queue.table.get v.linkId = some row →
      Step w (.rekey v.fileRecordId s3Key now)
        (w.requested table (.changed s3Key row.contentSha256))
  | rekeyElsewhere {id s3Key now link table} :
      w.queue.table.markRekey id s3Key now = .ok (link, table) → id ≠ v.fileRecordId →
      Step w (.rekey id s3Key now) (w.elsewhere table)

/-- The watched link is in the queue and nothing has happened yet. -/
structure Start (w : World) : Prop where
  watched : ∃ row, w.queue.table.get v.linkId = some row ∧ row.fileRecordId = some v.fileRecordId
  running : w.running = []
  mark : w.mark = none

def Mark.Received : Mark → Queue → Prop
  | .removed _, _ => False
  | .changed s3Key contentSha256, q => ∃ object ∈ q.received,
    object.1 = s3Key ∧ (contentSha256 = none ∨ contentSha256 = some object.2)

/-- The row still says what was requested. -/
def Mark.Kept : Mark → IndexLink → Prop
  | .removed ragFileId, row =>
    (row.state = .removed ∨ row.state = .failed) ∧ row.ragFileId = ragFileId
  | .changed s3Key contentSha256, row =>
    (row.state = .pending ∨ row.state = .reindexPending) ∧ row.s3Key = s3Key ∧
      row.contentSha256 = contentSha256

def RequestKept (m : Mark) (q : Queue) : Prop :=
  m.Received q ∨ ∃ row, q.table.get v.linkId = some row ∧ m.Kept row

/-- No request is made on the watched file while a notification of its link is still running. -/
def RaceFree (w : World) (e : Event) : Prop :=
  (match e with
    | .removed ids _ => v.fileRecordId ∈ ids
    | .contentChanged id _ _ => id = v.fileRecordId
    | .rekey id _ _ => id = v.fileRecordId
    | _ => False) →
  ∀ n ∈ w.running, n.linkId = v.linkId → n.Finished

/-- The work on the watched link can go on: RAG takes objects of its type, a renamed file has
been registered or is waiting to be, and a pending row has an attempt left. -/
def Patient (w : World) : Event → Prop
  | .contentChanged id decision _ =>
    id = v.fileRecordId → collectionFor decision.contentType ≠ none
  | .rekey id _ _ => id = v.fileRecordId → ∀ row, w.queue.table.get v.linkId = some row →
    registerCollection row ≠ none ∧
      (row.ragFileId ≠ none ∨ row.state = .pending ∨ row.state = .reindexPending)
  | .load .. | .tick _ => ∀ row, w.queue.table.get v.linkId = some row →
    row.state = .pending ∨ row.state = .reindexPending → row.attempts + 1 < job.maxAttempts
  | _ => True

end WebStorage.NotifyRaces
