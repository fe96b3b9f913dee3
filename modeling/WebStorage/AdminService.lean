import WebStorage.StorageJobs

set_option autoImplicit false

/-! The deletion of a user by an administrator: the user's objects, and the row of the user with
all that the database deletes along with it. -/
namespace WebStorage
open Effect

/-- The service, over the ids in the local `users` table. -/
structure AdminService where
  users : List Uuid

namespace UserRepo

/-- `delete`. Records and quota row go with the user (`ON DELETE CASCADE`), and the queue rows of
those records lose their reference (`ON DELETE SET NULL`). -/
def delete (users : List Uuid) (userId : Uuid) : DbOp Bool := fun d =>
  if userId ∈ users then
    (.ok true,
      { records := d.records.drop (·.userId = userId)
        quotas := d.quotas.erase userId
        links := d.links.forget fun id => d.records.rows.any fun r => r.id = id && r.userId = userId })
  else (.ok false, d)

end UserRepo

namespace AdminService

/-- A path that cannot be deleted is logged and passed over. -/
def removeStorage (path : Str) : FileM Unit :=
  (deleteIfExists diskRootAdapter path).catchWith fun _ => pure ()

def userPrefix (userId : Uuid) : Str := "users/".toList ++ userId.text

/-- `record.archive_path or record.relative_path`. -/
def sharedPath (record : FileRecord) : Str :=
  match record.archivePath with
  | some archivePath => if archivePath = [] then record.relativePath else archivePath
  | none => record.relativePath

def removeShared : List FileRecord → FileM Unit
  | [] => pure ()
  | record :: records =>
    if record.fileSection = .shared then do
      removeStorage (sharedPath record)
      removeShared records
    else removeShared records

/-- `_cleanup_user_storage` on the one volume. -/
def cleanupUserStorage (userId : Uuid) (records : List FileRecord) : FileM Unit := do
  removeStorage (userPrefix userId)
  removeShared records

def deleteUser (s : AdminService) (adminId targetUserId : Uuid) : FileM Unit :=
  if adminId = targetUserId then Prog.raise .selfUserDeletion
  else if targetUserId ∉ s.users then Prog.raise .userNotFound
  else do
    let records ← db (FileRepo.listAllByUser targetUserId)
    cleanupUserStorage targetUserId records
    if ← db (UserRepo.delete s.users targetUserId) then pure ()
    else Prog.raise .userNotFound

end AdminService
end WebStorage
