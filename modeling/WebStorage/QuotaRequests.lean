import WebStorage.QuotaExact
import WebStorage.ConcurrentPrograms

set_option autoImplicit false

/-! Requests of one user that run side by side: each reads and writes the tables in steps of its
own, with the steps of others in between. -/
namespace WebStorage.QuotaRaces
open Effect Effect.Prog QuotaBooks

/-- The steps of a request. A step carries the record that the request has in hand, and a charge
what the request has checked it against, if it has: the total that it saw, and what it has
charged since. -/
inductive QuotaCmd
  | getByUserId
  | create (fileSection : FileSection) (size : Nat)
  | write (record : FileRecord)
  | commit (record : FileRecord)
  | discard (record : FileRecord)
  | findByPath (fileSection : FileSection)
  | replace (existing : FileRecord)
  | updateSize (existing : FileRecord) (size : Nat)
  | getById (id : Uuid)
  | deleteObject (record : FileRecord)
  | delete (record : FileRecord)
  | increment (bytes : Int) (fileSection : FileSection) (checked : Option Int)
  | decrement (bytes : Int) (fileSection : FileSection)
deriving DecidableEq

abbrev QuotaCmd.Resp : QuotaCmd → Type
  | getByUserId => QuotaUsage
  | create .. => FileRecord
  | write _ => Unit
  | commit _ => Option FileRecord
  | discard _ => Option FileRecord
  | findByPath _ => Option FileRecord
  | replace _ => Unit
  | updateSize .. => Option FileRecord
  | getById _ => Option FileRecord
  | deleteObject _ => Unit
  | delete _ => Option FileRecord
  | increment .. => QuotaUsage
  | decrement .. => QuotaUsage

abbrev QuotaM := Prog QuotaCmd.Resp Exc

def ask (c : QuotaCmd) : QuotaM c.Resp := issue c

/-- `_ensure_upload_quota` of the router and `_ensure_quota` of a generated run. -/
def ensureUploadQuota (size : Nat) : QuotaM Int := do
  let usage ← (ask .getByUserId : QuotaM QuotaUsage)
  if wouldExceed usage.totalBytes usage.limitBytes size then
    raise (.quotaExceeded (some (availableBytes usage.totalBytes usage.limitBytes)))
  else pure usage.totalBytes

def charge (bytes : Int) (fileSection : FileSection) (checked : Option Int) : QuotaM Unit := do
  let _ ← (ask (.increment bytes fileSection checked) : QuotaM QuotaUsage)
  pure ()

def release (bytes : Int) (fileSection : FileSection) : QuotaM Unit := do
  let _ ← (ask (.decrement bytes fileSection) : QuotaM QuotaUsage)
  pure ()

/-- The handler of `upload_file`. -/
def failUpload (record : FileRecord) (e : Exc) : QuotaM Unit := do
  let _ ← (ask (.discard record) : QuotaM (Option FileRecord))
  raise e

/-- `upload_file` once the object is in place. -/
def commitUpload (record : FileRecord) (fileSection : FileSection) (size : Nat)
    (checked : Option Int) : QuotaM Unit := do
  match ← (ask (.commit record) : QuotaM (Option FileRecord)) with
  | none => failUpload record .fileNotFound
  | some _ => charge size fileSection checked

/-- `upload_file` once the record is there. -/
def storeUpload (record : FileRecord) (fileSection : FileSection) (size : Nat)
    (checked : Option Int) : QuotaM Unit := do
  match ← (ask (.write record) : QuotaM Unit).attempt with
  | .error e => failUpload record e
  | .ok _ => commitUpload record fileSection size checked

def uploadFile (fileSection : FileSection) (size : Nat) (checked : Option Int) : QuotaM Unit := do
  let record ← (ask (.create fileSection size) : QuotaM FileRecord)
  storeUpload record fileSection size checked

/-- The files of a generated run, checked together. -/
def uploadAll (fileSection : FileSection) (checked : Int) : List Nat → QuotaM Unit
  | [] => pure ()
  | size :: sizes => do
    uploadFile fileSection size (some checked)
    uploadAll fileSection (checked + size) sizes

/-- `_ensure_overwrite_quota`, for an overwrite that needs more bytes. -/
def ensureOverwriteQuota (extraBytes : Int) (fileSection : FileSection) :
    QuotaM (Option Int) :=
  if extraBytes ≤ 0 then pure none else do
  let usage ← (ask .getByUserId : QuotaM QuotaUsage)
  if wouldExceed usage.totalBytes usage.limitBytes extraBytes then
    raise (.quotaExceeded (some (availableBytes usage.totalBytes usage.limitBytes)))
  else if fileSection = .private ∧
      wouldExceed usage.privateBytes usage.privateLimitBytes extraBytes then
    raise (.quotaExceeded (some (availableBytes usage.privateBytes usage.privateLimitBytes)))
  else pure (some usage.totalBytes)

def chargeDelta (delta : Int) (fileSection : FileSection) (checked : Option Int) : QuotaM Unit :=
  if 0 < delta then charge delta fileSection checked
  else if delta < 0 then release (-delta) fileSection
  else pure ()

/-- `overwrite_file` once the new object is in place. -/
def resizeFile (existing : FileRecord) (fileSection : FileSection) (size : Nat)
    (checked : Option Int) : QuotaM Unit := do
  match ← (ask (.updateSize existing size) : QuotaM (Option FileRecord)) with
  | none => raise .fileNotFound
  | some _ => chargeDelta (size - existing.sizeBytes) fileSection checked

def replaceFile (existing : FileRecord) (fileSection : FileSection) (size : Nat)
    (checked : Option Int) : QuotaM Unit := do
  let _ ← (ask (.replace existing) : QuotaM Unit)
  resizeFile existing fileSection size checked

/-- `overwrite_file`. The first write of a resume or of a key is an `upload_file` without the
check of the router. -/
def overwriteFile (fileSection : FileSection) (size : Nat) : QuotaM Unit := do
  match ← (ask (.findByPath fileSection) : QuotaM (Option FileRecord)) with
  | none => uploadFile fileSection size none
  | some existing => do
    let checked ← ensureOverwriteQuota (size - existing.sizeBytes) fileSection
    replaceFile existing fileSection size checked

/-- `delete_file` once the object is gone. -/
def markDeleted (record : FileRecord) : QuotaM Unit := do
  let _ ← (ask (.delete record) : QuotaM (Option FileRecord))
  release record.sizeBytes record.fileSection

def removeFile (record : FileRecord) : QuotaM Unit := do
  let _ ← (ask (.deleteObject record) : QuotaM Unit)
  markDeleted record

def deleteFile (actorId id : Uuid) : QuotaM Unit := do
  match ← (ask (.getById id) : QuotaM (Option FileRecord)) with
  | none => raise .fileNotFound
  | some record =>
    if isDownloadable record = false then raise .fileNotFound
    else if record.userId ≠ actorId then raise .accessDenied
    else removeFile record

/-- What the user can ask for. -/
inductive Request : QuotaM Unit → Prop
  | upload (fileSection : FileSection) (size : Nat) : Request do
      let checked ← ensureUploadQuota size
      uploadFile fileSection size (some checked)
  | generate (fileSection : FileSection) (sizes : List Nat) : Request do
      let checked ← ensureUploadQuota sizes.sum
      uploadAll fileSection checked sizes
  | overwrite (fileSection : FileSection) (size : Nat) : Request (overwriteFile fileSection size)
  | delete (actorId id : Uuid) : Request (deleteFile actorId id)

/-- The user, and the limit that a new quota row gets. -/
structure Account where
  userId : Uuid
  defaultLimit : Int

namespace Account
variable (a : Account)

/-- What each step answers and does. The lookup by path may find any of the user's stored
records; objects can fail. -/
def Serve : Handler QuotaCmd.Resp Exc Db
  | .getByUserId, d, x, t => QuotaRepo.getByUserId a.defaultLimit a.userId d = (x, t)
  | .create fileSection size, d, x, t => ∃ id relativePath originalName now,
    d.records.get id = none ∧ FileRepo.create id a.userId relativePath originalName size
      (fileSection = .private) fileSection .pending now d = (x, t)
  | .write _, d, _, t => t = d
  | .commit record, d, x, t => ∃ checksum relativePath,
    FileRepo.updateStatus record.id .committed checksum relativePath none d = (x, t)
  | .discard record, d, x, t => FileRepo.delete record.id d = (x, t)
  | .findByPath fileSection, d, x, t => t = d ∧ ∀ existing, x = .ok (some existing) →
    existing ∈ d.records.rows ∧ existing.userId = a.userId ∧
      existing.fileSection = fileSection ∧ isDownloadable existing
  | .replace _, d, _, t => t = d
  | .updateSize existing size, d, x, t => ∃ checksum,
    FileRepo.updateSize existing.id size checksum d = (x, t)
  | .getById id, d, x, t => FileRepo.getById id d = (x, t)
  | .deleteObject _, d, _, t => t = d
  | .delete record, d, x, t => FileRepo.delete record.id d = (x, t)
  | .increment bytes fileSection _, d, x, t =>
    QuotaRepo.increment a.defaultLimit a.userId bytes fileSection d = (x, t)
  | .decrement bytes fileSection, d, x, t =>
    QuotaRepo.decrement a.defaultLimit a.userId bytes fileSection d = (x, t)

end Account

abbrev Requests := Pool QuotaCmd.Resp Exc Db Unit

/-- The bytes that a request is about to charge, or to release. -/
def QuotaCmd.dueBytes : QuotaCmd → Int
  | .increment bytes _ _ => bytes
  | .decrement bytes _ => -bytes
  | _ => 0

/-- What the request has yet to enter for the records it has changed. -/
def unentered (p : QuotaM Unit) : Int := (p.next.map QuotaCmd.dueBytes).getD 0

namespace Account
variable (a : Account)

/-- Any number of requests of the user, in any interleaving. A process can die, but the changes
of a record and of the total are one transaction: not between them. -/
def Step (s : Requests) (e : Turn) (t : Requests) : Prop :=
  Pool.Step a.Serve (fun _ _ => False) Request s e t ∧
    ∀ i p, e = .die i → s.running[i]? = some p → unentered p = 0

def total (d : Db) : Int := recordedBytes d a.userId .total

def limit (d : Db) : Int :=
  ((d.quotas.lookup a.userId).getD (QuotaRepo.newUsage a.defaultLimit)).limitBytes

/-- The sum of the sizes of the user's active records. -/
def stored (d : Db) : Int := storedBytes d a.userId .total

/-- The record is still an active file of the user, of the size that the request has read. -/
def Unchanged (d : Db) (record : FileRecord) : Prop :=
  ∃ r, d.records.get record.id = some r ∧ r.userId = a.userId ∧ isDownloadable r ∧
    r.sizeBytes = record.sizeBytes

/-- The record that a step overwrites or deletes is as the request has read it. -/
def AsRead (d : Db) : QuotaCmd → Prop
  | .updateSize existing _ => a.Unchanged d existing
  | .delete record => a.Unchanged d record
  | _ => True

def RecordsAsRead (s : Requests) : Turn → Prop
  | .advance i => ∀ p c, s.running[i]? = some p → p.next = some c → a.AsRead s.shared c
  | _ => True

/-- What a request relies on when it takes a step: the record that it overwrites or deletes is as
it was read, and the bytes that it charges were checked against a total that has not risen
since. The write that nobody checks has to fit. -/
def Undisturbed (d : Db) : QuotaCmd → Prop
  | .updateSize existing _ => a.Unchanged d existing
  | .delete record => a.Unchanged d record
  | .increment _ _ (some checked) => a.total d ≤ checked
  | .increment bytes _ none => wouldExceed (a.total d) (a.limit d) bytes = false
  | _ => True

def Orderly (s : Requests) : Turn → Prop
  | .advance i => ∀ p c, s.running[i]? = some p → p.next = some c → a.Undisturbed s.shared c
  | _ => True

variable {a} {d : Db} {c : QuotaCmd} {s : Requests} {e : Turn}

theorem Undisturbed.asRead (h : a.Undisturbed d c) : a.AsRead d c := by
  cases c with
  | updateSize existing size => exact h
  | delete record => exact h
  | _ => trivial

theorem Orderly.recordsAsRead (h : a.Orderly s e) : a.RecordsAsRead s e := by
  cases e with
  | advance i => exact fun p c hp hc => (h p c hp hc).asRead
  | _ => trivial

end Account
end WebStorage.QuotaRaces
