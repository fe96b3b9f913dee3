import WebStorage.AdminService
import WebStorage.CleanPaths
import WebStorage.Installation

set_option autoImplicit false

/-! What the deletion of a user does to the stored objects: which keys it sweeps, and when that
leaves the objects of everybody else alone. -/
namespace WebStorage.UserRemoval
open Effect Effect.Prog S3

/-! ### What is swept -/

/-- The keys that the removal of a path takes. The root of the bucket is refused. -/
def sweeps (path key : Str) : Bool :=
  match objectKey diskRootAdapter path with
  | .ok swept => decide (swept ≠ []) && decide (Bucket.Covers swept key)
  | .error _ => false

/-- The keys that go with the `SHARED` records among these. -/
def sharedSweeps (records : List FileRecord) (key : Str) : Bool :=
  records.any fun r => decide (r.fileSection = .shared) && sweeps (AdminService.sharedPath r) key

/-- The keys that go with a user. -/
def userSweeps (d : Db) (userId : Uuid) (key : Str) : Bool :=
  sweeps (AdminService.userPrefix userId) key ||
    sharedSweeps (d.records.rows.filter (·.userId = userId)) key

theorem clean_userPrefix (userId : Uuid) : Clean ["users".toList, userId.text] := by
  intro w hw
  rcases List.mem_cons.1 hw with hw | hw
  · rw [hw]
    decide +kernel
  · rw [List.mem_singleton.1 hw]
    exact userId.clean

/-! ### Runs -/

section
variable {host : Host} {now : Time} {w : Installation}

theorem run_removeStorage (path : Str) (w : Installation) :
    (AdminService.removeStorage path).run (host.serve now) w =
      (.ok (), ⟨w.db, w.bucket.keep fun k => !sweeps path k⟩) := by
  have hnothing : (∀ k, sweeps path k = false) →
      w.bucket.keep (fun k => !sweeps path k) = w.bucket := by
    intro h
    apply Bucket.keep_all
    intro o _
    rw [h]
    rfl
  unfold AdminService.removeStorage
  cases hkey : objectKey diskRootAdapter path with
  | error e =>
    have hnone : ∀ k, sweeps path k = false := by
      intro k
      rw [sweeps, hkey]
    have hexists : (deleteIfExists diskRootAdapter path).run (host.serve now) w = (.error e, w) := by
      rw [deleteIfExists, bind_eq, run_bind_error (run_exists_error plain_diskRoot hkey w)]
    rw [run_catch_error hexists, hnothing hnone]
    rfl
  | ok key =>
    by_cases hroot : key = []
    · -- the root of the bucket cannot be deleted, and the refusal is caught
      have hnone : ∀ k, sweeps path k = false := by
        intro k
        rw [sweeps, hkey]
        simp [hroot]
      rw [hnothing hnone]
      rw [hroot] at hkey
      cases hocc : w.bucket.occupied [] with
      | false =>
        have hrun : (deleteIfExists diskRootAdapter path).run (host.serve now) w = (.ok (), w) := by
          rw [deleteIfExists, bind_eq, run_bind_ok (run_exists plain_diskRoot hkey w), hocc]
          rfl
        rw [run_catch_ok hrun]
      | true =>
        have hrun : (deleteIfExists diskRootAdapter path).run (host.serve now) w =
            (.error .pathTraversal, w) := by
          rw [deleteIfExists, bind_eq, run_bind_ok (run_exists plain_diskRoot hkey w), hocc, if_pos rfl,
            run_delete_root plain_diskRoot hkey]
        rw [run_catch_error hrun]
        rfl
    · rw [run_catch_ok (run_deleteIfExists plain_diskRoot hkey hroot w)]
      congr 2
      apply Bucket.keep_congr
      intro k
      simp [sweeps, hkey, hroot]

theorem run_removeShared (records : List FileRecord) (w : Installation) :
    (AdminService.removeShared records).run (host.serve now) w =
      (.ok (), ⟨w.db, w.bucket.keep fun k => !sharedSweeps records k⟩) := by
  induction records generalizing w with
  | nil =>
    have hall : w.bucket.keep (fun k => !sharedSweeps [] k) = w.bucket :=
      Bucket.keep_all fun _ _ => rfl
    rw [hall]
    rfl
  | cons record records ih =>
    unfold AdminService.removeShared
    split
    next hshared =>
      rw [bind_eq, run_bind_ok (run_removeStorage _ w), ih]
      dsimp only
      rw [Bucket.keep_keep]
      congr 2
      apply Bucket.keep_congr
      intro k
      simp [sharedSweeps, hshared]
    next hother =>
      rw [ih]
      congr 2
      apply Bucket.keep_congr
      intro k
      simp [sharedSweeps, hother]

/-- The tables after the row of a user is gone. -/
def dropUser (d : Db) (userId : Uuid) : Db where
  records := d.records.drop (·.userId = userId)
  quotas := d.quotas.erase userId
  links := d.links.forget fun id => d.records.rows.any fun r => r.id = id && r.userId = userId

theorem run_deleteUser {users : List Uuid} {adminId userId : Uuid} (hadmin : adminId ≠ userId)
    (hknown : userId ∈ users) (w : Installation) :
    ((AdminService.mk users).deleteUser adminId userId).run (host.serve now) w =
      (.ok (), ⟨dropUser w.db userId, w.bucket.keep fun k => !userSweeps w.db userId k⟩) := by
  have hlisted : (db (FileRepo.listAllByUser userId)).run (host.serve now) w =
      (.ok (w.db.records.rows.filter (·.userId = userId)), w) := rfl
  have hclean : ∀ records, (AdminService.cleanupUserStorage userId records).run (host.serve now) w =
      (.ok (), ⟨w.db, w.bucket.keep fun k =>
        !(sweeps (AdminService.userPrefix userId) k || sharedSweeps records k)⟩) := by
    intro records
    rw [AdminService.cleanupUserStorage, bind_eq, run_bind_ok (run_removeStorage _ w),
      run_removeShared]
    dsimp only
    rw [Bucket.keep_keep]
    congr 2
    apply Bucket.keep_congr
    intro k
    rw [Bool.not_or]
  have hdrop : ∀ v : Installation, (db (UserRepo.delete users userId)).run (host.serve now) v =
      (.ok true, ⟨dropUser v.db userId, v.bucket⟩) := by
    intro v
    rw [run_db, UserRepo.delete, if_pos hknown]
    rfl
  rw [AdminService.deleteUser, if_neg hadmin, if_neg (not_not_intro hknown), bind_eq,
    run_bind_ok hlisted, bind_eq, run_bind_ok (hclean _), bind_eq, run_bind_ok (hdrop _)]
  rfl

end

/-! ### What belongs to whom -/

/-- The path that the content of a record is read from. -/
def storedPath (r : FileRecord) : Str := if r.isArchived then r.archivePath.getD [] else r.relativePath

/-- The key of a record's object. The encrypted name of a private file is not known to the tables:
it is what `privateKey` says. -/
def objectKeyOf (privateKey : FileRecord → Option Str) (r : FileRecord) : Option Str :=
  if r.fileSection = .private ∧ r.isArchived = false then privateKey r
  else match objectKey diskRootAdapter (storedPath r) with
    | .ok key => if key = [] then none else some key
    | .error _ => none

variable (privateKey : FileRecord → Option Str)

/-- The object of a record, if there is one. -/
def Holds (w : Installation) (r : FileRecord) (o : StoredObject) : Prop :=
  ∃ key, objectKeyOf privateKey r = some key ∧ w.bucket.get key = some o

/-- The files of everybody else are as they were. -/
def OthersKept (userId : Uuid) (before after : Installation) : Prop :=
  ∀ r ∈ before.db.records.rows, r.userId ≠ userId → isDownloadable r = true →
    r ∈ after.db.records.rows ∧
      ∀ o, Holds privateKey before r o → Holds privateKey after r o

/-- No file of the user is left. -/
def UserCleared (userId : Uuid) (before after : Installation) : Prop :=
  ∀ r ∈ before.db.records.rows, r.userId = userId → isDownloadable r = true →
    ∀ o, ¬ Holds privateKey after r o

/-- The sweep for a user meets the objects of that user's files, and those of no other file. -/
def Apart (userId : Uuid) (w : Installation) : Prop :=
  ∀ r ∈ w.db.records.rows, isDownloadable r = true → ∀ o, Holds privateKey w r o →
    (userSweeps w.db userId o.key = true ↔ r.userId = userId)

/-- The deletion of a user touches that user's files only, and takes all of them, exactly if the
sweep keeps them apart. -/
theorem deletion_touches_own (host : Host) (now : Time) (users : List Uuid) (adminId userId : Uuid)
    (hadmin : adminId ≠ userId) (hknown : userId ∈ users) (w : Installation) :
    (((AdminService.mk users).deleteUser adminId userId).run (host.serve now) w).1 = .ok () ∧
    ((OthersKept privateKey userId w
        (((AdminService.mk users).deleteUser adminId userId).run (host.serve now) w).2 ∧
      UserCleared privateKey userId w
        (((AdminService.mk users).deleteUser adminId userId).run (host.serve now) w).2) ↔
      Apart privateKey userId w) := by
  rw [run_deleteUser hadmin hknown]
  refine ⟨rfl, ?_⟩
  dsimp only
  have hholds : ∀ r o, Holds privateKey ⟨dropUser w.db userId,
      w.bucket.keep fun k => !userSweeps w.db userId k⟩ r o ↔
        Holds privateKey w r o ∧ userSweeps w.db userId o.key = false := by
    intro r o
    unfold Holds
    constructor
    · intro h
      obtain ⟨key, hkey, hget⟩ := h
      rw [Bucket.get_keep] at hget
      split at hget
      next hkept =>
        have hat := (Bucket.get_some hget).2
        exact ⟨⟨key, hkey, hget⟩, by simpa [hat] using hkept⟩
      next => cases hget
    · intro h
      obtain ⟨⟨key, hkey, hget⟩, hkept⟩ := h
      refine ⟨key, hkey, ?_⟩
      rw [(Bucket.get_some hget).2] at hkept
      rw [Bucket.get_keep, hkept, hget]
      rfl
  have hrow : ∀ r ∈ w.db.records.rows, r.userId ≠ userId → r ∈ (dropUser w.db userId).records.rows := by
    intro r hr hother
    apply List.mem_filter.2
    exact ⟨hr, by simpa using hother⟩
  constructor
  · intro h
    obtain ⟨hkept, hcleared⟩ := h
    intro r hr hdown o ho
    constructor
    · intro hswept
      by_contra hother
      have hafter := (hholds r o).1 ((hkept r hr hother hdown).2 o ho)
      rw [hswept] at hafter
      cases hafter.2
    · intro howner
      by_contra hnot
      exact hcleared r hr howner hdown o ((hholds r o).2 ⟨ho, Bool.eq_false_iff.2 hnot⟩)
  · intro hapart
    constructor
    · intro r hr hother hdown
      refine ⟨hrow r hr hother, ?_⟩
      intro o ho
      apply (hholds r o).2
      refine ⟨ho, Bool.eq_false_iff.2 ?_⟩
      exact fun hswept => hother ((hapart r hr hdown o ho).1 hswept)
    · intro r hr howner hdown o hafter
      obtain ⟨ho, hkept⟩ := (hholds r o).1 hafter
      rw [(hapart r hr hdown o ho).2 howner] at hkept
      cases hkept

/-! ### Two installations -/

def host : Host where
  sha256 := fun _ => ""
  lower := fun s => s
  newId := fun _ => .ofDigit 0

def sharedFile (id userId : Nat) (relativePath : String) (status : FileStatus) : FileRecord where
  id := .ofDigit id
  userId := .ofDigit userId
  relativePath := relativePath.toList
  originalName := "a.txt".toList
  sizeBytes := 1
  isEncrypted := false
  fileSection := .shared
  status := status
  checksumSha256 := none
  createdAt := 0
  lastAccessedAt := 0
  isArchived := false
  archivePath := none

def stored (key : String) : StoredObject := ⟨key.toList, [97], 0⟩

/-- The first user's file was deleted, and the second user has uploaded one of that name. -/
def reusedPath : Installation where
  db :=
    { records := ⟨[sharedFile 3 1 "shared/a.txt" .deleted, sharedFile 4 2 "shared/a.txt" .committed],
        by decide⟩
      quotas := ∅
      links := LinkTable.empty }
  bucket := ⟨[stored "shared/a.txt"], by decide, []⟩

/-- The two files have paths of their own. -/
def ownPaths : Installation where
  db :=
    { records := ⟨[sharedFile 3 1 "shared/b.txt" .committed, sharedFile 4 2 "shared/a.txt" .committed],
        by decide⟩
      quotas := ∅
      links := LinkTable.empty }
  bucket := ⟨[stored "shared/b.txt", stored "shared/a.txt"], by decide, []⟩

def byAdmin (userId : Nat) (w : Installation) : Installation :=
  ((((AdminService.mk [.ofDigit 1, .ofDigit 2]).deleteUser (.ofDigit 9) (.ofDigit userId)).run
    (host.serve 0) w)).2

/-- The file of the second user goes with the first user. -/
theorem reused_path_lost : ¬ OthersKept (fun _ => none) (.ofDigit 1) reusedPath (byAdmin 1 reusedPath) := by
  intro h
  have hrow := h (sharedFile 4 2 "shared/a.txt" .committed) (by simp [reusedPath]) (by decide) rfl
  have hheld : Holds (fun _ => none) reusedPath (sharedFile 4 2 "shared/a.txt" .committed)
      (stored "shared/a.txt") := by
    refine ⟨"shared/a.txt".toList, by decide +kernel, by decide⟩
  obtain ⟨key, hkey, hget⟩ := hrow.2 _ hheld
  have hat : key = "shared/a.txt".toList := by
    have hown : objectKeyOf (fun _ => none) (sharedFile 4 2 "shared/a.txt" .committed) =
        some "shared/a.txt".toList := by decide +kernel
    exact (Option.some.inj (hkey.symm.trans hown))
  have hswept : userSweeps reusedPath.db (.ofDigit 1) "shared/a.txt".toList = true := by
    decide +kernel
  have hafter : byAdmin 1 reusedPath = ⟨dropUser reusedPath.db (.ofDigit 1),
      reusedPath.bucket.keep fun k => !userSweeps reusedPath.db (.ofDigit 1) k⟩ :=
    congrArg (·.2) (run_deleteUser (by decide) (by decide) reusedPath)
  rw [hafter, hat, Bucket.get_keep, hswept] at hget
  cases hget

theorem own_paths_apart :
    OthersKept (fun _ => none) (.ofDigit 1) ownPaths (byAdmin 1 ownPaths) ∧
    UserCleared (fun _ => none) (.ofDigit 1) ownPaths (byAdmin 1 ownPaths) := by
  apply (deletion_touches_own (fun _ => none) host 0 [.ofDigit 1, .ofDigit 2] (.ofDigit 9)
    (.ofDigit 1) (by decide) (by decide) ownPaths).2.2
  intro r hr hdown o ho
  obtain ⟨key, hkey, hget⟩ := ho
  rw [(Bucket.get_some hget).2]
  have hrows : r = sharedFile 3 1 "shared/b.txt" .committed ∨
      r = sharedFile 4 2 "shared/a.txt" .committed := by
    simpa [ownPaths] using hr
  rcases hrows with heq | heq
  · have hown : objectKeyOf (fun _ => none) (sharedFile 3 1 "shared/b.txt" .committed) =
        some "shared/b.txt".toList := by decide +kernel
    rw [heq, hown] at hkey
    rw [← Option.some.inj hkey, heq]
    decide +kernel
  · have hown : objectKeyOf (fun _ => none) (sharedFile 4 2 "shared/a.txt" .committed) =
        some "shared/a.txt".toList := by decide +kernel
    rw [heq, hown] at hkey
    rw [← Option.some.inj hkey, heq]
    decide +kernel

end WebStorage.UserRemoval
