import WebStorage.EffectProgram
import WebStorage.IndexLinks

set_option autoImplicit false

/-! The sync job that drains due queue rows into RAG, and the notification that a request
runs after its commit. Both are programs over the queue, the object reader and RAG. -/
namespace WebStorage
open Effect

structure RagManifest where
  s3Key : Str
  fileName : Str
  contentSha256 : Digest
  fileSize : Nat
  contentType : String
deriving DecidableEq

structure RagObjectKey where
  s3Key : Str
  fileSize : Nat
  contentSha256 : Digest
deriving DecidableEq

structure RagFileCard where
  fileId : Uuid
  status : Str
  error : Option String
deriving DecidableEq

inductive RagCollection
  | documents | images
deriving DecidableEq

inductive SyncCmd
  | applyTransition (linkId : Uuid) (tr : Transition) (now : Time)
  | claimDue (limit : Int) (now : Time)
  | getByFileRecordId (fileRecordId : Uuid)
  | originalName (fileRecordId : Uuid)
  | objectExists (key : Str)
  | objectRead (key : Str)
  | objectSize (key : Str)
  | register (collection : RagCollection) (manifest : RagManifest) (userId : Uuid)
  | rekey (ragFileId : Uuid) (target : RagObjectKey) (userId : Uuid)
  | deleteVectors (ragFileId userId : Uuid)
  | getFile (ragFileId userId : Uuid)
deriving DecidableEq

abbrev SyncCmd.Resp : SyncCmd → Type
  | applyTransition .. => Option IndexLink
  | claimDue .. => List IndexLink
  | getByFileRecordId _ => Option IndexLink
  | originalName _ => Option Str
  | objectExists _ => Bool
  | objectRead _ => Bytes
  | objectSize _ => Nat
  | register .. => RagFileCard
  | rekey .. => RagFileCard
  | deleteVectors .. => Unit
  | getFile .. => RagFileCard

abbrev Sync := Prog SyncCmd.Resp Exc

def send (c : SyncCmd) : Sync c.Resp := Prog.issue c

/-- `_Outcome`. -/
inductive Outcome
  | transitioned | retried | failed | skipped
deriving DecidableEq

/-- Counts for one tick. -/
structure IndexSyncResult where
  claimed : Nat
  transitioned : Nat
  retried : Nat
  failed : Nat
  skipped : Nat
deriving DecidableEq

/-- The tuning of a job, and the digest function of the standard library. -/
structure IndexSyncJob where
  batchSize : Int
  maxAttempts : Int
  maxWaitSeconds : Int
  sha256 : Bytes → Digest

def errorTimeout : String := "timeout"
def errorDependencyUnavailable : String := "dependency_unavailable"
def errorDuplicateFile : String := "duplicate_file"
def errorFileBusy : String := "file_busy"
def errorContentChanged : String := "content_changed"
def objectNotFound : String := "object_not_found"
def duplicateConflict : String := "duplicate_conflict"

/-- `datetime(9999, 1, 1)`: the stamp that takes a confirmed removal out of the queue. -/
def confirmedRemovalAt : Int := 253370764800 * 1000000

/-- `value or fallback` on an optional text. -/
def orText (value : Option String) (fallback : String) : String :=
  match value with
  | some v => if v = "" then fallback else v
  | none => fallback

def httpErrorCode (statusCode : Nat) (errorCode : Option String) : String :=
  orText errorCode ("http_" ++ toString statusCode)

def vectorsAlreadyGone (statusCode : Nat) (errorCode : Option String) : Bool :=
  statusCode = 404 || (statusCode = 409 && errorCode = some errorFileBusy)

def backoff (attempts : Nat) : Int := min 3600 (30 * 2 ^ attempts) * 1000000

def hashUpdate (link : IndexLink) (digest : Digest) : Option (Option Digest) :=
  if link.contentSha256 = some digest then none else some (some digest)

/-- The collection RAG keeps objects of this type in. -/
def collectionFor (contentType : String) : Option RagCollection :=
  if contentType ∈ [pdfContentType, docxContentType, xlsxContentType] then some .documents
  else if contentType ∈ [jpegContentType, pngContentType, webpContentType, gifContentType]
    then some .images
  else none

/-- `_is_document` and `_is_image`. -/
def registerCollection (link : IndexLink) : Option RagCollection := collectionFor link.contentType

def isPreviewKey (s3Key : Str) : Bool :=
  Text.isInfix "/photos/previews/".toList s3Key && "_thumb.jpg".toList.isSuffixOf s3Key

/-- `_file_name`: the stored name, or else the last component of the key. -/
def manifestFileName (s3Key : Str) (originalName : Option Str) : Str :=
  let dots := [".".toList, "..".toList]
  let cleaned := (originalName.map Text.strip).getD []
  if cleaned ≠ [] ∧ cleaned ∉ dots then cleaned
  else if Text.name s3Key = [] ∨ Text.name s3Key ∈ dots then "file".toList
  else Text.name s3Key

namespace IndexSyncJob
variable (job : IndexSyncJob)

/-- `_write`. -/
def write (link : IndexLink) (now : Time) (tr : Transition) : Sync (Option IndexLink) :=
  send (.applyTransition link.id tr now)

def succeed (link : IndexLink) (now : Time) (state : IndexLinkState)
    (ragFileId : Option (Option Uuid)) (contentSha256 : Option (Option Digest)) :
    Sync Outcome := do
  let _ ← write link now
    { state := some state, attempts := some 0, nextAttemptAt := some none,
      ragFileId := ragFileId, lastErrorCode := some none, contentSha256 := contentSha256 }
  pure .transitioned

def settle (link : IndexLink) (now : Time) (terminal : IndexLinkState) : Sync Outcome := do
  let _ ← write link now
    { state := some terminal, attempts := some 0,
      nextAttemptAt := some (some confirmedRemovalAt), lastErrorCode := some none }
  pure .transitioned

def skip (link : IndexLink) (now : Time) (code : String) : Sync Outcome := do
  let _ ← write link now
    { state := some .skipped, nextAttemptAt := some none, lastErrorCode := some (some code) }
  pure .skipped

def fail (link : IndexLink) (now : Time) (code : String) : Sync Outcome := do
  let _ ← write link now
    { state := some .failed, nextAttemptAt := some none, lastErrorCode := some (some code) }
  pure .failed

/-- `_schedule_retry`. A `SUBMITTED` row keeps its error code, so that the retry does not
reset the clock its wait is measured from. -/
def scheduleRetry (link : IndexLink) (now : Time) (code : String) : Sync Outcome := do
  let attempts := link.attempts + 1
  if job.maxAttempts ≤ attempts then
    let _ ← write link now
      { state := some .failed, attempts := some attempts, nextAttemptAt := some none,
        lastErrorCode := some (some code) }
    pure .failed
  else
    let _ ← write link now
      { attempts := some attempts, nextAttemptAt := some (some (now + backoff attempts)),
        lastErrorCode := if link.state = .submitted then none else some (some code) }
    pure .retried

def missObject (link : IndexLink) (now : Time) : Sync Outcome := do
  if isPreviewKey link.s3Key = false then
    fail link now objectNotFound
  else
    let attempts := link.attempts + 1
    if job.maxAttempts ≤ attempts then
      let _ ← write link now
        { state := some .skipped, attempts := some attempts, nextAttemptAt := some none,
          lastErrorCode := some (some IndexSkipCode.previewMissing.value) }
      pure .skipped
    else
      let _ ← write link now
        { attempts := some attempts, nextAttemptAt := some (some (now + backoff attempts)),
          lastErrorCode := some (some IndexSkipCode.previewMissing.value) }
      pure .retried

/-- The second `try` of `_read_object_hash`; the left summand is an outcome that ends the
processing. -/
def readPayloadHash (link : IndexLink) (now : Time) : Sync (Outcome ⊕ (Digest × Nat)) := do
  match ← (send (.objectRead link.s3Key) : Sync Bytes).attempt with
  | .ok payload => pure (.inr (job.sha256 payload, payload.length))
  | .error .fileNotFound => return .inl (← missObject job link now)
  | .error e => Prog.raise e

/-- The first `try` of `_read_object_hash`: a missing object is not present. -/
def objectPresent (link : IndexLink) : Sync Bool :=
  (send (.objectExists link.s3Key) : Sync Bool).catchWith fun
    | .fileNotFound => pure false
    | e => Prog.raise e

def readObjectHash (link : IndexLink) (now : Time) : Sync (Outcome ⊕ (Digest × Nat)) := do
  let present ← objectPresent link
  if present = false then
    return .inl (← missObject job link now)
  else
    readPayloadHash job link now

def locate (link : IndexLink) (now : Time) : Sync (Outcome ⊕ (Digest × Nat)) :=
  match link.contentSha256 with
  | none => readObjectHash job link now
  | some digest => do
    match ← (send (.objectSize link.s3Key) : Sync Nat).attempt with
    | .ok size => pure (.inr (digest, size))
    | .error .fileNotFound => return .inl (← fail link now objectNotFound)
    | .error e => Prog.raise e

def displayName (link : IndexLink) : Sync (Option Str) :=
  match link.fileRecordId with
  | none => pure none
  | some fileRecordId => send (.originalName fileRecordId)

def manifest (link : IndexLink) (now : Time) : Sync (Outcome ⊕ RagManifest) := do
  match ← locate job link now with
  | .inl outcome => pure (.inl outcome)
  | .inr (digest, size) =>
    let originalName ← displayName link
    pure (.inr
      { s3Key := link.s3Key
        fileName := manifestFileName link.s3Key originalName
        contentSha256 := digest
        fileSize := size
        contentType := link.contentType })

def adoptDuplicate (link : IndexLink) (now : Time) (detailFileId : Option Uuid)
    (contentSha256 : Digest) : Sync Outcome :=
  match detailFileId with
  | none => fail link now duplicateConflict
  | some adopted =>
    if link.ragFileId.isSome ∧ link.ragFileId ≠ some adopted then
      fail link now duplicateConflict
    else succeed link now .submitted (some (some adopted)) (hashUpdate link contentSha256)

def onRegisterHttp (link : IndexLink) (now : Time) (statusCode : Nat)
    (errorCode : Option String) (detailFileId : Option Uuid) (manifest : RagManifest) :
    Sync Outcome :=
  if statusCode = 409 ∧ errorCode = some errorDuplicateFile then
    adoptDuplicate link now detailFileId manifest.contentSha256
  else fail link now (httpErrorCode statusCode errorCode)

def acceptRegistration (link : IndexLink) (now : Time) (ragFileId : Uuid)
    (manifest : RagManifest) : Sync Outcome :=
  succeed link now .submitted (some (some ragFileId)) (hashUpdate link manifest.contentSha256)

def register (link : IndexLink) (now : Time) : Sync Outcome :=
  match registerCollection link with
  | none => skip link now IndexSkipCode.unsupportedType.value
  | some collection => do
    match ← manifest job link now with
    | .inl outcome => pure outcome
    | .inr prepared =>
      match ← (send (.register collection prepared link.userId) : Sync RagFileCard).attempt with
      | .ok card => acceptRegistration link now card.fileId prepared
      | .error (.ragHttp statusCode errorCode detailFileId) =>
        onRegisterHttp link now statusCode errorCode detailFileId prepared
      | .error e => Prog.raise e

/-- `_delete_vectors`; `none` when the vectors are gone. -/
def deleteVectors (link : IndexLink) (now : Time) : Sync (Option Outcome) :=
  match link.ragFileId with
  | none => pure none
  | some ragFileId => do
    match ← (send (.deleteVectors ragFileId link.userId) : Sync Unit).attempt with
    | .ok _ => pure none
    | .error (.ragHttp statusCode errorCode _) =>
      if vectorsAlreadyGone statusCode errorCode then pure none
      else if link.state = .removed ∨ link.state = .archived then
        return some (← scheduleRetry job link now (httpErrorCode statusCode errorCode))
      else
        let _ ← fail link now (httpErrorCode statusCode errorCode)
        pure (some .failed)
    | .error e => Prog.raise e

def reindex (link : IndexLink) (now : Time) : Sync Outcome :=
  match link.ragFileId with
  | none => register job link now
  | some _ => do
    match ← deleteVectors job link now with
    | some outcome => pure outcome
    | none =>
      match ← write link now { ragFileId := some none } with
      | none => pure .failed
      | some cleared => register job cleared now

def onRekeyHttp (link : IndexLink) (now : Time) (statusCode : Nat)
    (errorCode : Option String) : Sync Outcome := do
  if statusCode = 409 ∧ errorCode = some errorContentChanged then
    match ← write link now
      { state := some .reindexPending, nextAttemptAt := some none,
        lastErrorCode := some (some errorContentChanged) } with
    | none => pure .failed
    | some updated => reindex job updated now
  else if statusCode = 404 then
    fail link now (orText errorCode objectNotFound)
  else
    fail link now (httpErrorCode statusCode errorCode)

/-- `_rekey`. A card always carries a file id, so that is the id the row keeps. -/
def rekey (link : IndexLink) (now : Time) : Sync Outcome :=
  match link.ragFileId with
  | none => register job link now
  | some ragFileId => do
    match ← locate job link now with
    | .inl outcome => pure outcome
    | .inr (digest, size) =>
      let target : RagObjectKey := ⟨link.s3Key, size, digest⟩
      match ← (send (.rekey ragFileId target link.userId) : Sync RagFileCard).attempt with
      | .ok card =>
        succeed link now .indexed (some (some card.fileId)) (hashUpdate link digest)
      | .error (.ragHttp statusCode errorCode _) =>
        onRekeyHttp job link now statusCode errorCode
      | .error e => Prog.raise e

def onPolledCard (link : IndexLink) (now : Time) (card : RagFileCard) : Sync Outcome := do
  let status := Text.lower (Text.strip card.status)
  if status = "ready".toList then
    succeed link now .indexed (some (some card.fileId)) none
  else if status = "error".toList then
    fail link now (orText card.error "error")
  else if status = "deleting".toList ∨ status = "deleted".toList then
    settle link now .removed
  else if job.maxWaitSeconds * 1000000 ≤ now - link.updatedAt then
    fail link now errorTimeout
  else
    let _ ← write link now { nextAttemptAt := some (some (now + backoff link.attempts)) }
    pure .retried

/-- What `_poll` does with the answer of `get_file`. -/
def onPollAnswer (link : IndexLink) (now : Time) : Except Exc RagFileCard → Sync Outcome
  | .ok card => onPolledCard job link now card
  | .error (.ragHttp statusCode errorCode _) =>
    if statusCode = 404 then settle link now .removed
    else fail link now (httpErrorCode statusCode errorCode)
  | .error e => Prog.raise e

def poll (link : IndexLink) (now : Time) : Sync Outcome :=
  match link.ragFileId with
  | none => register job link now
  | some ragFileId => do
    onPollAnswer job link now
      (← (send (.getFile ragFileId link.userId) : Sync RagFileCard).attempt)

def remove (link : IndexLink) (now : Time) (terminal : IndexLinkState) : Sync Outcome :=
  match link.ragFileId with
  | none => settle link now terminal
  | some _ => do
    match ← deleteVectors job link now with
    | some outcome => pure outcome
    | none => settle link now terminal

def dispatch (link : IndexLink) (now : Time) : Sync Outcome :=
  match link.state with
  | .skipped => pure .skipped
  | .submitted => poll job link now
  | .removed => remove job link now .removed
  | .archived => remove job link now .archived
  | .reindexPending => reindex job link now
  | .pending =>
    match link.ragFileId with
    | some _ => rekey job link now
    | none => register job link now
  | .indexed | .failed => pure .skipped

/-- The handlers of the inner `try` of `_process`. -/
def onProcessError (link : IndexLink) (now : Time) : Exc → Sync Outcome
  | .ragUnavailable code => scheduleRetry job link now (orText code errorDependencyUnavailable)
  | .ragHttp statusCode errorCode _ => fail link now (httpErrorCode statusCode errorCode)
  | e => Prog.raise e

/-- `_process`: no exception of one row leaves it. -/
def process (link : IndexLink) (now : Time) : Sync Outcome :=
  ((dispatch job link now).catchWith (onProcessError job link now)).catchWith
    fun _ => pure .failed

def processAll (now : Time) : List IndexLink → Sync (List Outcome)
  | [] => pure []
  | link :: rest => do
    let outcome ← process job link now
    let outcomes ← processAll now rest
    pure (outcome :: outcomes)

/-- `run`: one tick over the batch it claims. -/
def run (now : Time) : Sync IndexSyncResult :=
  if job.batchSize < 1 ∨ job.maxAttempts < 1 then Prog.raise .valueError
  else do
    let claimed ← (send (.claimDue job.batchSize now) : Sync (List IndexLink))
    let outcomes ← processAll job now claimed
    pure
      { claimed := claimed.length
        transitioned := outcomes.count .transitioned
        retried := outcomes.count .retried
        failed := outcomes.count .failed
        skipped := outcomes.count .skipped }

end IndexSyncJob

/-- `_should_notify`. -/
def shouldNotify (link : IndexLink) : Bool :=
  (link.fileSection = .files || link.fileSection = .photos) &&
    (link.state = .removed || (link.state = .pending && link.ragFileId = none))

def notifyAll (job : IndexSyncJob) (now : Time) : List Uuid → Sync Unit
  | [] => pure ()
  | fileRecordId :: rest => do
    let found ← (send (.getByFileRecordId fileRecordId) : Sync (Option IndexLink))
    match found with
    | some link =>
      if shouldNotify link then
        let _ ← (job.process link now).attempt
        notifyAll job now rest
      else notifyAll job now rest
    | none => notifyAll job now rest

/-- `notify_index_links`; `enabled` is the setting `rag.enabled`. -/
def notifyIndexLinks (job : IndexSyncJob) (enabled : Bool) (fileRecordIds : List Uuid)
    (now : Time) : Sync Unit :=
  if enabled then notifyAll job now (dictFromKeys fileRecordIds) else pure ()

/-- The commands that the processing of one link may issue: of the queue it writes no row but
its own. -/
def SyncCmd.Touches (linkId : Uuid) : SyncCmd → Prop
  | .applyTransition id _ _ => id = linkId
  | .claimDue .. => False
  | .getByFileRecordId _ => False
  | _ => True

/-- The queue answers a transition with the row it names. -/
def SyncCmd.Own : (c : SyncCmd) → c.Resp → Prop
  | .applyTransition id _ _, found => ∀ row : IndexLink, found = some row → row.id = id
  | _, _ => True

/-- The commands that take a link out of the index: the row ends in `terminal` or `FAILED`, its
RAG id stays, and nothing is sent to RAG that would index it. -/
def SyncCmd.Retires (linkId : Uuid) (terminal : IndexLinkState) : SyncCmd → Prop
  | .applyTransition id tr _ => id = linkId ∧ tr.ragFileId = none ∧
    (tr.state = none ∨ tr.state = some terminal ∨ tr.state = some .failed)
  | .deleteVectors .. => True
  | _ => False

namespace IndexSyncJob
open Prog

variable {job : IndexSyncJob} {linkId : Uuid} {link : IndexLink} {now : Time}

/-- The processing of a link writes only that row. -/
abbrev Stays (linkId : Uuid) {α : Type} (p : Sync α) : Prop :=
  p.All (SyncCmd.Touches linkId) SyncCmd.Own

theorem stays_write {α : Type} {tr : Transition} {f : Option IndexLink → Sync α}
    (hid : link.id = linkId) (hf : ∀ found, (∀ row, found = some row → row.id = linkId) →
      Stays linkId (f found)) : Stays linkId ((write link now tr).bind f) := by
  refine all_issue_bind hid fun found hown => hf found fun row hrow => ?_
  rw [← hid]
  exact hown row hrow

theorem stays_outcome {tr : Transition} {o : Outcome} (hid : link.id = linkId) :
    Stays linkId ((write link now tr).bind fun _ => done (.ok o)) :=
  stays_write hid fun _ _ => all_done _

/-- A command to RAG, the object store or the records, tried and answered. -/
theorem stays_attempt {α : Type} {c : SyncCmd} {f : Except Exc c.Resp → Sync α}
    (hc : c.Touches linkId) (hf : ∀ x, Stays linkId (f x)) :
    Stays linkId ((send c).attempt.bind f) :=
  all_bind (all_attempt ⟨hc, fun _ _ => trivial⟩) hf

theorem stays_scheduleRetry (code : String) (hid : link.id = linkId) :
    Stays linkId (scheduleRetry job link now code) := by
  simp only [scheduleRetry]
  split <;> exact stays_outcome hid

theorem stays_fail (code : String) (hid : link.id = linkId) :
    Stays linkId (fail link now code) := stays_outcome hid

theorem stays_missObject (hid : link.id = linkId) : Stays linkId (missObject job link now) := by
  simp only [missObject]
  split
  · exact stays_fail _ hid
  · split <;> exact stays_outcome hid

theorem stays_readObjectHash (hid : link.id = linkId) :
    Stays linkId (readObjectHash job link now) := by
  have hmiss : Stays linkId ((missObject job link now).bind fun o =>
      done (.ok (.inl o : Outcome ⊕ (Digest × Nat)))) :=
    all_bind (stays_missObject hid) fun _ => all_done _
  have hread : Stays linkId (readPayloadHash job link now) := by
    refine stays_attempt trivial fun x => ?_
    split
    · trivial
    · exact hmiss
    · trivial
  refine all_bind (all_catchWith ⟨trivial, fun _ _ => trivial⟩ ?_) fun present => ?_
  · intro e
    split <;> trivial
  · split
    · exact hmiss
    · exact hread

theorem stays_locate (hid : link.id = linkId) : Stays linkId (locate job link now) := by
  unfold locate
  split
  · exact stays_readObjectHash hid
  · simp only [bind_eq, pure_eq]
    refine stays_attempt trivial fun x => ?_
    split
    · trivial
    · exact all_bind (stays_fail _ hid) fun _ => all_done _
    · trivial

theorem stays_manifest (hid : link.id = linkId) : Stays linkId (manifest job link now) := by
  simp only [manifest, bind_eq, pure_eq]
  refine all_bind (stays_locate hid) fun located => ?_
  split
  · trivial
  · refine all_bind ?_ fun _ => all_done _
    unfold displayName
    split
    · trivial
    · exact ⟨trivial, fun _ _ => trivial⟩

theorem stays_register (hid : link.id = linkId) : Stays linkId (register job link now) := by
  unfold register
  split
  · exact stays_outcome hid
  simp only [bind_eq, pure_eq]
  refine all_bind (stays_manifest hid) fun prepared => ?_
  split
  · trivial
  · refine stays_attempt trivial fun x => ?_
    split
    · exact stays_outcome hid
    · unfold onRegisterHttp adoptDuplicate
      split
      · split
        · exact stays_fail _ hid
        · split <;> exact stays_outcome hid
      · exact stays_fail _ hid
    · trivial

theorem stays_deleteVectors (hid : link.id = linkId) :
    Stays linkId (deleteVectors job link now) := by
  unfold deleteVectors
  split
  · trivial
  · simp only [bind_eq, pure_eq]
    refine stays_attempt trivial fun x => ?_
    split
    · trivial
    · split
      · trivial
      · split
        · exact all_bind (stays_scheduleRetry _ hid) fun _ => all_done _
        · exact all_bind (stays_fail _ hid) fun _ => all_done _
    · trivial

theorem stays_reindex (hid : link.id = linkId) : Stays linkId (reindex job link now) := by
  unfold reindex
  split
  · exact stays_register hid
  · simp only [bind_eq, pure_eq]
    refine all_bind (stays_deleteVectors hid) fun outcome => ?_
    split
    · trivial
    · refine stays_write hid fun found hown => ?_
      split
      · trivial
      · exact stays_register (hown _ rfl)

theorem stays_rekey (hid : link.id = linkId) : Stays linkId (rekey job link now) := by
  unfold rekey
  split
  · exact stays_register hid
  simp only [bind_eq, pure_eq]
  refine all_bind (stays_locate hid) fun located => ?_
  split
  · trivial
  · refine stays_attempt trivial fun x => ?_
    split
    · exact stays_outcome hid
    · simp only [onRekeyHttp, bind_eq, pure_eq]
      split
      · refine stays_write hid fun found hown => ?_
        split
        · trivial
        · exact stays_reindex (hown _ rfl)
      · split <;> exact stays_fail _ hid
    · trivial

theorem stays_poll (hid : link.id = linkId) : Stays linkId (poll job link now) := by
  unfold poll
  split
  · exact stays_register hid
  simp only [bind_eq]
  refine stays_attempt trivial fun x => ?_
  unfold onPollAnswer
  split
  · simp only [onPolledCard]
    split_ifs <;> exact stays_outcome hid
  · split <;> exact stays_outcome hid
  · trivial

theorem stays_remove (hid : link.id = linkId) (terminal : IndexLinkState) :
    Stays linkId (remove job link now terminal) := by
  unfold remove
  split
  · exact stays_outcome hid
  · simp only [bind_eq, pure_eq]
    refine all_bind (stays_deleteVectors hid) fun outcome => ?_
    split
    · trivial
    · exact stays_outcome hid

theorem stays_process (job : IndexSyncJob) (link : IndexLink) (now : Time) :
    Stays link.id (process job link now) := by
  refine all_catchWith (all_catchWith ?_ ?_) fun _ => all_done _
  · unfold dispatch
    split
    · trivial
    · exact stays_poll rfl
    · exact stays_remove rfl _
    · exact stays_remove rfl _
    · exact stays_reindex rfl
    · split
      · exact stays_rekey rfl
      · exact stays_register rfl
    · trivial
    · trivial
  · intro e
    unfold onProcessError
    split
    · exact stays_scheduleRetry _ rfl
    · exact stays_fail _ rfl
    · trivial

section
variable {terminal : IndexLinkState} {R : (c : SyncCmd) → c.Resp → Prop}

theorem retires_write {tr : Transition} {o : Outcome} (hr : tr.ragFileId = none)
    (ht : tr.state = none ∨ tr.state = some terminal ∨ tr.state = some .failed) :
    ((write link now tr).bind fun _ => done (.ok o)).All (SyncCmd.Retires link.id terminal) R :=
  all_issue_bind ⟨rfl, hr, ht⟩ fun _ _ => all_done _

theorem retires_scheduleRetry (code : String) :
    (scheduleRetry job link now code).All (SyncCmd.Retires link.id terminal) R := by
  simp only [scheduleRetry]
  split
  · exact retires_write rfl (.inr (.inr rfl))
  · exact retires_write rfl (.inl rfl)

theorem retires_fail (code : String) :
    (fail link now code).All (SyncCmd.Retires link.id terminal) R :=
  retires_write rfl (.inr (.inr rfl))

theorem retires_remove :
    (remove job link now terminal).All (SyncCmd.Retires link.id terminal) R := by
  have hsettle : (settle link now terminal).All (SyncCmd.Retires link.id terminal) R :=
    retires_write rfl (.inr (.inl rfl))
  unfold remove
  split
  · exact hsettle
  rename_i ragFileId hrag
  have hdelete : (deleteVectors job link now).All (SyncCmd.Retires link.id terminal) R := by
    simp only [deleteVectors, hrag, bind_eq, pure_eq]
    refine all_bind (all_attempt ⟨trivial, fun _ _ => trivial⟩) fun x => ?_
    split
    · trivial
    · split
      · trivial
      · split
        · exact all_bind (retires_scheduleRetry _) fun _ => all_done _
        · exact all_bind (retires_fail _) fun _ => all_done _
    · trivial
  simp only [bind_eq, pure_eq]
  refine all_bind hdelete fun outcome => ?_
  split
  · trivial
  · exact hsettle

/-- A removed or archived link is processed towards its removal only. -/
theorem retires_process (hterminal : terminal = .removed ∨ terminal = .archived)
    (hstate : link.state = terminal) :
    (process job link now).All (SyncCmd.Retires link.id terminal) R := by
  have hdispatch : dispatch job link now = remove job link now terminal := by
    rcases hterminal with rfl | rfl <;> simp only [dispatch, hstate]
  refine all_catchWith (all_catchWith (hdispatch ▸ retires_remove) ?_) fun _ => all_done _
  intro e
  unfold onProcessError
  split
  · exact retires_scheduleRetry _
  · exact retires_fail _
  · trivial

end

end IndexSyncJob
end WebStorage
