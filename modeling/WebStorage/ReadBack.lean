import WebStorage.FileService
import WebStorage.Installation
import WebStorage.PathLookup
import WebStorage.StorageRename

set_option autoImplicit false

/-! What a path reads as, when every call is answered. -/
namespace WebStorage
open Effect Effect.Prog S3 FileService

attribute [local irreducible] Adapter.toDiskRelativePath normalizePath objectKey

section
variable {host : Host} {s : FileService} {userId : Uuid} {now : Time} {w v : Installation}
  {path relative key : Str} {fileSection : FileSection} {r : FileRecord}

/-- `_get_record_by_section_path` of a path with a record. -/
theorem run_lookup_found (hrelative : s.adapter.toDiskRelativePath path = .ok relative)
    (hfound : (FileRepo.getDownloadable (lookupOwner userId fileSection) relative fileSection w.db).1 =
      .ok (some r)) :
    (getRecordBySectionPath s userId path fileSection).run (host.serve now) w = (.ok (some r), w) := by
  unfold getRecordBySectionPath toDisk lookupOwner at *
  have hdisk : (ofExcept (s.adapter.toDiskRelativePath path)).run (host.serve now) w =
      (.ok relative, w) := by
    rw [hrelative]
    rfl
  rw [bind_eq, run_bind_ok hdisk]
  by_cases hshared : fileSection = .shared
  · rw [if_pos hshared] at hfound
    have hquery : (db (FileRepo.getDownloadableByRelativePathInSection relative fileSection)).run
        (host.serve now) w = (.ok (some r), w) := by
      rw [run_db]
      exact Prod.ext hfound rfl
    dsimp only
    rw [if_pos hshared, bind_eq, run_bind_ok hquery]
    rfl
  · rw [if_neg hshared] at hfound
    have hquery : (db (FileRepo.getDownloadableByRelativePath userId relative fileSection)).run
        (host.serve now) w = (.ok (some r), w) := by
      rw [run_db]
      exact Prod.ext hfound rfl
    dsimp only
    rw [if_neg hshared, bind_eq, run_bind_ok hquery]
    rfl

/-- What a user reads at a path. -/
def reads (host : Host) (s : FileService) (userId : Uuid) (now : Time) (w : Installation)
    (path : Str) : Except Exc Bytes :=
  ((s.readByPath userId path now).run (host.serve now) w).1

/-- A path with a record reads as the content of the record. -/
theorem reads_found (hrelative : s.adapter.toDiskRelativePath (normalizePath path) = .ok relative)
    (hfound : (FileRepo.getDownloadable (lookupOwner userId s.fileSection) relative s.fileSection
      w.db).1 = .ok (some r)) :
    reads host s userId now w path =
      ((readRecord s r (normalizePath path)).run (host.serve now) w).1 := by
  have hlookup : (recordToRead s userId (normalizePath path)).run (host.serve now) w =
      (.ok (some r), w) := by
    unfold recordToRead
    rw [bind_eq, run_bind_ok (run_lookup_found hrelative hfound)]
    rfl
  unfold reads readByPath
  dsimp only
  rw [bind_eq, run_bind_ok hlookup]
  dsimp only
  rcases hread : (readRecord s r (normalizePath path)).run (host.serve now) w with ⟨x, u⟩
  cases x with
  | error e => rw [bind_eq, run_bind_error hread]
  | ok content =>
    rw [bind_eq, run_bind_ok hread]
    rfl

theorem key_ne_nil_of_root {a : Adapter} (hroot : a.diskRelativePrefix ≠ [])
    (hkey : objectKey a path = .ok key) : key ≠ [] := by
  obtain ⟨logical, -, hform⟩ := Bucket.objectKey_ok hkey
  rw [hform, if_neg hroot]
  split
  · exact hroot
  · exact List.append_ne_nil_of_right_ne_nil _ (List.cons_ne_nil _ _)

theorem get_of_content {b : Bucket} {body : Bytes} (h : b.content key = some body) :
    ∃ o, b.get key = some o ∧ o.body = body := by
  obtain ⟨o, -, -, hbody, hget⟩ := content_some h
  exact ⟨o, hget, hbody⟩

theorem get_of_no_content {b : Bucket} (h : b.content key = none) : b.get key = none := by
  unfold Bucket.content at h
  exact Option.map_eq_none_iff.1 h

theorem run_read_some {a : Adapter} {body : Bytes} (hplain : a.Plain)
    (hkey : objectKey a path = .ok key) (hne : key ≠ []) (h : w.bucket.content key = some body) :
    (store a (.read path)).run (host.serve now) w = (.ok body, w) := by
  have hslash := Rename.key_not_slash ((hplain.objectKey_storage host path).trans hkey)
  obtain ⟨o, hget, hbody⟩ := get_of_content h
  rw [run_read hplain hkey hne hslash, hget, ← hbody]

theorem run_read_none {a : Adapter} (hplain : a.Plain) (hkey : objectKey a path = .ok key)
    (hne : key ≠ []) (h : w.bucket.content key = none) :
    (store a (.read path)).run (host.serve now) w = (.error .fileNotFound, w) := by
  have hslash := Rename.key_not_slash ((hplain.objectKey_storage host path).trans hkey)
  rw [run_read hplain hkey hne hslash, get_of_no_content h]

/-- A read depends on the content of its key only. -/
theorem run_read_content {a : Adapter} (hplain : a.Plain)
    (h : ∀ key, objectKey a path = .ok key → v.bucket.content key = w.bucket.content key) :
    ((store a (.read path)).run (host.serve now) v).1 =
      ((store a (.read path)).run (host.serve now) w).1 := by
  have hobject := hplain.objectKey_storage host path
  cases hkey : objectKey a path with
  | error e =>
    have hraise : ∀ u : Installation, ((store a (.read path)).run (host.serve now) u).1 = .error e := by
      intro u
      rw [run_store hplain, S3StorageAdapter.perform, S3StorageAdapter.read, S3StorageAdapter.key,
        hobject, hkey]
      rfl
    rw [hraise v, hraise w]
  | ok key =>
    by_cases hne : key = []
    · subst hne
      have hraise : ∀ u : Installation,
          ((store a (.read path)).run (host.serve now) u).1 = .error .fileNotFound := by
        intro u
        rw [run_store hplain, S3StorageAdapter.perform, S3StorageAdapter.read, S3StorageAdapter.key,
          hobject, hkey]
        rfl
      rw [hraise v, hraise w]
    · cases hcontent : w.bucket.content key with
      | none => rw [run_read_none hplain hkey hne ((h key hkey).trans hcontent), run_read_none hplain hkey hne hcontent]
      | some body =>
        rw [run_read_some hplain hkey hne ((h key hkey).trans hcontent),
          run_read_some hplain hkey hne hcontent]

/-- An archived record reads as its archive, wherever it is read. -/
theorem run_readRecord_archived {r' : FileRecord} (harchived : r.isArchived = true)
    (hflag : r'.isArchived = r.isArchived) (hencrypted : r'.isEncrypted = r.isEncrypted)
    (hpath : r'.archivePath = r.archivePath)
    (h : ∀ archivePath key, r.archivePath = some archivePath → archivePath ≠ [] →
      objectKey diskRootAdapter archivePath = .ok key →
      v.bucket.content key = w.bucket.content key) :
    ((readRecord s r' path).run (host.serve now) v).1 =
      ((readRecord s r path).run (host.serve now) w).1 := by
  unfold readRecord streamArchived streamDecompressedArchived
  rw [hflag, harchived, hpath, hencrypted]
  simp only [if_true]
  cases s.archiveManager with
  | none => rfl
  | some manager =>
    dsimp only
    cases harchive : r.archivePath with
    | none => rfl
    | some archivePath =>
      dsimp only
      split
      next => rfl
      next hsome =>
        have hread : ((store diskRootAdapter (.read archivePath)).run (host.serve now) v).1 =
            ((store diskRootAdapter (.read archivePath)).run (host.serve now) w).1 :=
          run_read_content plain_diskRoot fun key hkey => h archivePath key harchive hsome hkey
        rw [bind_eq, run_bind, run_bind]
        rcases hv : (store diskRootAdapter (.read archivePath)).run (host.serve now) v with ⟨x, v'⟩
        rcases hw : (store diskRootAdapter (.read archivePath)).run (host.serve now) w with ⟨y, w'⟩
        rw [hv, hw] at hread
        dsimp only at hread
        subst hread
        cases x with
        | error e => rfl
        | ok archive =>
          -- what follows asks neither the tables nor the bucket
          dsimp only
          cases manager.decompress archive with
          | error e => rfl
          | ok decompressed =>
            cases r.isEncrypted with
            | false => rfl
            | true => cases s.adapter.decryptBlob <;> rfl

end
end WebStorage
