import WebStorage.Bucket
import WebStorage.EncryptedStorage

set_option autoImplicit false

/-! The tables and the bucket together, as the services meet them when every call is answered. -/
namespace WebStorage
open Effect Effect.Prog S3

structure Installation where
  db : Db
  bucket : Bucket

/-- What the services take from outside: the digest, the lower case, and the random ids. -/
structure Host where
  sha256 : Bytes → Digest
  lower : Str → Str
  newId : Db → Uuid

/-- The S3 adapter that stands behind an adapter of the services. -/
def Host.storage (host : Host) (a : Adapter) : S3StorageAdapter :=
  .new a.diskRelativePrefix host.sha256 host.lower

/-- A storage operation, through the encryption of a private section or without it. -/
def Host.perform (host : Host) (a : Adapter) (nonce : Uuid) (op : StoreOp) : S3M op.Resp :=
  match a.cipher with
  | none => (host.storage a).perform op
  | some cipher => (EncryptedStorageAdapter.mk (host.storage a) cipher nonce).perform op

/-- A command is answered from the tables or from the bucket. -/
def Host.serve (host : Host) (now : Time) : (c : FileCmd) → Installation →
    Except Exc c.Resp × Installation
  | .uuid4, w => (.ok (host.newId w.db), w)
  | .db f, w => ((f w.db).1, ⟨(f w.db).2, w.bucket⟩)
  | .store a op, w =>
    let served := (host.perform a (host.newId w.db) op).run (Bucket.serve now) w.bucket
    (served.1, ⟨w.db, served.2⟩)

namespace Adapter

/-- An adapter that hands its paths to S3 as they are. -/
structure Plain (a : Adapter) : Prop where
  unencrypted : a.cipher = none
  stripped : Text.stripSlash (Text.strip a.diskRelativePrefix) = a.diskRelativePrefix

end Adapter

theorem plain_diskRoot : diskRootAdapter.Plain := ⟨rfl, rfl⟩

section
variable {host : Host} {now : Time} {a : Adapter} {path key : Str} {w : Installation}

theorem Adapter.Plain.storage_adapter (h : a.Plain) (host : Host) : (host.storage a).adapter = a := by
  obtain ⟨root, cipher⟩ := a
  have hnone : cipher = none := h.unencrypted
  have hroot : Text.stripSlash (Text.strip root) = root := h.stripped
  subst hnone
  unfold Host.storage S3StorageAdapter.adapter S3StorageAdapter.new
  dsimp only
  rw [hroot]

theorem Adapter.Plain.objectKey_storage (h : a.Plain) (host : Host) (path : Str) :
    objectKey (host.storage a).adapter path = objectKey a path := by
  rw [h.storage_adapter host]

theorem run_db {α : Type} (f : DbOp α) (w : Installation) :
    (db f).run (host.serve now) w = ((f w.db).1, ⟨(f w.db).2, w.bucket⟩) := rfl

theorem run_store (h : a.Plain) (op : StoreOp) (w : Installation) :
    (store a op).run (host.serve now) w =
      ((((host.storage a).perform op).run (Bucket.serve now) w.bucket).1,
        ⟨w.db, (((host.storage a).perform op).run (Bucket.serve now) w.bucket).2⟩) := by
  have hplain : host.perform a (host.newId w.db) op = (host.storage a).perform op := by
    unfold Host.perform
    rw [h.unencrypted]
  unfold store
  rw [run_issue, Host.serve, hplain]

theorem run_exists (h : a.Plain) (hkey : objectKey a path = .ok key) (w : Installation) :
    (store a (.exists path)).run (host.serve now) w = (.ok (w.bucket.occupied key), w) := by
  have hperform : ((host.storage a).exists path).run (Bucket.serve now) w.bucket =
      (.ok (w.bucket.occupied key), w.bucket) :=
    Bucket.run_exists ((h.objectKey_storage host path).trans hkey) _
  rw [run_store h, S3StorageAdapter.perform, hperform]

theorem run_exists_error {e : Exc} (h : a.Plain) (hkey : objectKey a path = .error e)
    (w : Installation) : (store a (.exists path)).run (host.serve now) w = (.error e, w) := by
  have hperform : ((host.storage a).exists path).run (Bucket.serve now) w.bucket =
      (.error e, w.bucket) :=
    Bucket.run_exists_error ((h.objectKey_storage host path).trans hkey) _
  rw [run_store h, S3StorageAdapter.perform, hperform]

theorem run_delete (h : a.Plain) (hkey : objectKey a path = .ok key) (hne : key ≠ [])
    (w : Installation) : (store a (.delete path)).run (host.serve now) w =
      (if w.bucket.occupied key then .ok () else .error .fileNotFound,
        ⟨w.db, w.bucket.keep fun k => !decide (Bucket.Covers key k)⟩) := by
  have hperform : ((host.storage a).delete path).run (Bucket.serve now) w.bucket =
      (if w.bucket.occupied key then .ok () else .error .fileNotFound,
        w.bucket.keep fun k => !decide (Bucket.Covers key k)) :=
    Bucket.run_delete ((h.objectKey_storage host path).trans hkey) hne _
  rw [run_store h, S3StorageAdapter.perform, hperform]

theorem run_delete_root (h : a.Plain) (hkey : objectKey a path = .ok []) (w : Installation) :
    (store a (.delete path)).run (host.serve now) w = (.error .pathTraversal, w) := by
  have hperform : ((host.storage a).delete path).run (Bucket.serve now) w.bucket =
      (.error .pathTraversal, w.bucket) :=
    Bucket.run_delete_root ((h.objectKey_storage host path).trans hkey) _
  rw [run_store h, S3StorageAdapter.perform, hperform]

theorem run_read (h : a.Plain) (hkey : objectKey a path = .ok key) (hne : key ≠ [])
    (hslash : ¬ ['/'] <:+ key) (w : Installation) :
    (store a (.read path)).run (host.serve now) w =
      (match w.bucket.get key with
        | some o => .ok o.body
        | none => .error .fileNotFound, w) := by
  have hperform : ((host.storage a).read path).run (Bucket.serve now) w.bucket =
      (match w.bucket.get key with
        | some o => .ok o.body
        | none => .error .fileNotFound, w.bucket) :=
    Bucket.run_read ((h.objectKey_storage host path).trans hkey) hne hslash _
  rw [run_store h, S3StorageAdapter.perform, hperform]

theorem run_list (h : a.Plain) (hkey : objectKey a path = .ok key) (w : Installation) :
    (store a (.list path)).run (host.serve now) w =
      (if Text.stripSlash (Text.strip path) = [] ∨ w.bucket.populated key = true
        then .ok (w.bucket.nodesUnder host.lower key) else .error .fileNotFound, w) := by
  have hperform : ((host.storage a).list path).run (Bucket.serve now) w.bucket =
      (if Text.stripSlash (Text.strip path) = [] ∨ w.bucket.populated key = true
        then .ok (w.bucket.nodesUnder (host.storage a).lower key) else .error .fileNotFound, w.bucket) :=
    Bucket.run_list ((h.objectKey_storage host path).trans hkey) _
  rw [run_store h, S3StorageAdapter.perform, hperform]
  rfl

/-- Whatever was there, afterwards nothing is at the key or below it. -/
theorem run_deleteIfExists (h : a.Plain) (hkey : objectKey a path = .ok key) (hne : key ≠ [])
    (w : Installation) : (deleteIfExists a path).run (host.serve now) w =
      (.ok (), ⟨w.db, w.bucket.keep fun k => !decide (Bucket.Covers key k)⟩) := by
  rw [deleteIfExists, bind_eq, run_bind_ok (run_exists h hkey w)]
  split
  next hocc =>
    rw [run_delete h hkey hne, hocc]
    rfl
  next hfree =>
    have hall : w.bucket.keep (fun k => !decide (Bucket.Covers key k)) = w.bucket := by
      apply Bucket.keep_all
      intro o ho
      have hnot : ¬ Bucket.Covers key o.key :=
        fun hcovers => hfree (Bucket.occupied_iff.2 ⟨o, ho, hcovers⟩)
      simp [hnot]
    rw [hall]
    rfl

end
end WebStorage
