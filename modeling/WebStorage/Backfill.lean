import WebStorage.Requests

set_option autoImplicit false

/-! The two ways into the queue that no upload goes through: one page of backfill, and the retry
of failed links that an administrator asks for. -/
namespace WebStorage
open Effect

/-- The record a page ended with. -/
structure BackfillCursor where
  createdAt : Time
  recordId : Uuid
deriving DecidableEq

inductive BackfillStatus
  | completed | skipped
deriving DecidableEq

structure BackfillResult where
  examined : Nat
  enqueued : Nat
  skipped : Nat
  nextCursor : Option BackfillCursor
  remaining : Nat
  status : BackfillStatus
deriving DecidableEq

/-- `ORDER BY created_at, id`. -/
def recordsOldestFirst (a b : FileRecord) : Prop :=
  a.createdAt < b.createdAt ∨ (a.createdAt = b.createdAt ∧ Text.le a.id.text b.id.text)

instance : DecidableRel recordsOldestFirst := fun _ _ => inferInstanceAs (Decidable (_ ∨ _))

/-- The records that the query takes after a cursor. -/
def BackfillCursor.before (cursor : BackfillCursor) (r : FileRecord) : Bool :=
  decide (cursor.createdAt < r.createdAt) ||
    (decide (r.createdAt = cursor.createdAt) && !decide (Text.le r.id.text cursor.recordId.text))

namespace LinkRepo

/-- `_backfill_select`: the stored records of the indexed sections that have no queue row. -/
def backfillSelect (after : Option BackfillCursor) (d : Db) : List FileRecord :=
  d.records.rows.filter fun r =>
    !d.links.rows.any (·.fileRecordId = some r.id) && isDownloadable r &&
      (r.fileSection = .files || r.fileSection = .photos) && after.all (·.before r)

def backfillCandidates (limit : Int) (after : Option BackfillCursor) : DbOp (List FileRecord) :=
  fun d =>
  if limit < 1 then (.error .valueError, d)
  else (.ok (((backfillSelect after d).insertionSort recordsOldestFirst).take limit.toNat), d)

def countRemaining (afterEnqueued : Option BackfillCursor) : DbOp Nat := fun d =>
  (.ok (backfillSelect afterEnqueued d).length, d)

end LinkRepo

namespace Backfill

/-- `_LIMIT_BATCH_FACTOR`. -/
def limitBatchFactor : Int := 10

/-- `_page_limit`. -/
def pageLimit (limit : Option Int) (indexBatchSize : Int) : Except Exc Int :=
  if indexBatchSize < 1 then .error .valueError
  else if limit.getD (indexBatchSize * limitBatchFactor) < 1 then .error .valueError
  else .ok (limit.getD (indexBatchSize * limitBatchFactor))

/-- `_skipped_result`. -/
def skippedResult : BackfillResult := ⟨0, 0, 0, none, 0, .skipped⟩

/-- `_cursor_after`. -/
def cursorAfter (candidates : List FileRecord) : Option BackfillCursor :=
  candidates.getLast?.map fun last => ⟨last.createdAt, last.id⟩

/-- `_enqueue_record`: whether the queue took a `PENDING` row. No exception leaves it. -/
def enqueueRecord (record : FileRecord) (maxImageBytes : Int) (now : Time) : FileM Bool :=
  (do
    let decision ← ofExcept (decideRegistrationTarget record maxImageBytes)
    let id ← uuid4
    let link ← db (onLinks fun t => t.upsertPending id record decision now)
    pure (Option.any (fun row : IndexLink => decide (row.state = IndexLinkState.pending)) link)).catchWith
      fun _ => pure false

/-- `_enqueue_page`; the counts are `enqueued` and `skipped`. -/
def enqueuePage (maxImageBytes : Int) (now : Time) : List FileRecord → Nat × Nat → FileM (Nat × Nat)
  | [], counts => pure counts
  | record :: records, (enqueued, skipped) => do
    if ← enqueueRecord record maxImageBytes now then
      enqueuePage maxImageBytes now records (enqueued + 1, skipped)
    else enqueuePage maxImageBytes now records (enqueued, skipped + 1)

/-- `backfill`, with the options it was called with or took from the settings. -/
def backfill (enabled : Bool) (limit : Option Int) (after : Option BackfillCursor)
    (indexBatchSize maxImageBytes : Int) (now : Time) : FileM BackfillResult :=
  if enabled = false then pure skippedResult
  else do
    let limit ← ofExcept (pageLimit limit indexBatchSize)
    let candidates ← db (LinkRepo.backfillCandidates limit after)
    let (enqueued, skipped) ← enqueuePage maxImageBytes now candidates (0, 0)
    let nextCursor := cursorAfter candidates
    let remaining ← db (LinkRepo.countRemaining (nextCursor <|> after))
    pure ⟨candidates.length, enqueued, skipped, nextCursor, remaining, .completed⟩

end Backfill

/-- `retry_failed_index`: only `FAILED` can be asked for. -/
def retryFailedIndex (state : Option Str) (batchSize : Int) (now : Time) : FileM Nat :=
  if state.any (· ≠ "FAILED".toList) then Prog.raise .valueError
  else if batchSize < 1 then Prog.raise .valueError
  else db (onLinks fun t => t.retryFailed batchSize now)

end WebStorage
