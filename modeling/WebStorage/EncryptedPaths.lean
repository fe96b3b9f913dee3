import WebStorage.ReturningRuns

set_option autoImplicit false

/-! How the adapter of the private section finds a path in the bucket, and what it deletes there. -/
namespace WebStorage.S3
open Effect Effect.Prog

/-! ### Programs that only look -/

/-- A call that changes nothing. -/
def S3Cmd.Looks : S3Cmd → Prop
  | headObject _ => True
  | getObject _ => True
  | listObjects .. => True
  | _ => False

abbrev Looks {α : Type} (p : S3M α) : Prop := p.All S3Cmd.Looks fun _ _ => True

section
variable {α : Type} {s : S3StorageAdapter} {e : EncryptedStorageAdapter} {now : Time} {b : Bucket}
  {path key : Str}

theorem run_looks {p : S3M α} (hp : Looks p) (b : Bucket) :
    (p.run (Bucket.serve now) b).2 = b := by
  induction p generalizing b with
  | done r => rfl
  | call c k ih =>
    have hsame : (Bucket.serve now c b).2 = b := by
      have hc : c.Looks := hp.1
      cases c with
      | headObject key =>
        unfold Bucket.serve
        dsimp only
        split <;> rfl
      | getObject key =>
        unfold Bucket.serve
        dsimp only
        split <;> rfl
      | listObjects keyPrefix delimited maxKeys => rfl
      | _ => exact hc.elim
    rw [run_call, hsame]
    exact ih _ (hp.2 _ fun _ _ => trivial) b

theorem looks_send {c : S3Cmd} (hc : c.Looks) : Looks (send c) := ⟨hc, fun _ _ => all_done _⟩

theorem looks_key (path : Str) : Looks (s.key path) := all_done _

theorem looks_listPrefix (path : Str) : Looks (s.listPrefix path) :=
  all_bind (looks_key path) fun _ => all_done _

theorem looks_headExists (key : Str) : Looks (S3StorageAdapter.headExists key) := by
  unfold S3StorageAdapter.headExists
  split
  · trivial
  · refine all_catchWith (all_bind (looks_send trivial) fun _ => all_done _) fun err => ?_
    split <;> trivial

theorem looks_list (path : Str) : Looks (s.list path) := by
  have hfound : Looks (s.directoryFound path) := by
    unfold S3StorageAdapter.directoryFound S3StorageAdapter.existsPrefixOrMarker
    split
    · trivial
    · refine all_bind (looks_listPrefix path) fun markerKey => ?_
      refine all_bind (looks_headExists markerKey) fun found => ?_
      split
      · trivial
      · exact all_bind (looks_send trivial) fun _ => all_done _
  refine all_bind (looks_listPrefix path) fun keyPrefix => all_bind hfound fun found => ?_
  split
  · exact all_bind (looks_send trivial) fun _ => all_done _
  · trivial

theorem looks_read (path : Str) : Looks (s.read path) := by
  refine all_bind (looks_key path) fun key => ?_
  split
  · trivial
  · refine all_catchWith (looks_send trivial) fun err => ?_
    split <;> trivial

attribute [local irreducible] normalizePath isPlainStoragePath Text.split

theorem looks_resolveSegments (parent : Str) (segments : List Str) :
    Looks (e.resolveSegments parent segments) := by
  induction segments generalizing parent with
  | nil => trivial
  | cons segment rest ih =>
    refine all_bind (looks_list parent) fun entries => ?_
    split
    · trivial
    · exact ih _

theorem looks_resolvePath (path : Str) : Looks (e.resolvePath path) := by
  unfold EncryptedStorageAdapter.resolvePath
  split
  · exact all_done _
  · split
    · exact all_done _
    · exact looks_resolveSegments _ _

/-- Listing reads every file, for its size, and changes none. -/
theorem looks_listEncrypted (path : Str) : Looks (e.list path) := by
  have hnodes : ∀ encryptedPath nodes, Looks (e.listNodes encryptedPath nodes) := by
    intro encryptedPath nodes
    induction nodes with
    | nil => trivial
    | cons node rest ih =>
      unfold EncryptedStorageAdapter.listNodes
      split
      · exact ih
      · dsimp only
        split
        · apply all_done_bind
          intro size _
          exact all_bind ih fun _ => all_done _
        · apply all_bind
          · exact all_bind (looks_read _) fun _ => all_done_bind fun _ _ => all_done _
          · intro size
            apply all_done_bind
            intro size _
            exact all_bind ih fun _ => all_done _
  refine all_bind (looks_resolvePath path) fun encryptedPath => ?_
  exact all_bind (looks_list encryptedPath) fun nodes => hnodes encryptedPath nodes

/-! ### Where a path is found -/

/-- What `list` answers. -/
def Bucket.listed (b : Bucket) (s : S3StorageAdapter) (path : Str) : Except Exc (List FileNode) :=
  match objectKey s.adapter path with
  | .error err => .error err
  | .ok key =>
    if Text.stripSlash (Text.strip path) = [] ∨ b.populated key = true
      then .ok (b.nodesUnder s.lower key) else .error .fileNotFound

theorem run_listed (now : Time) (s : S3StorageAdapter) (path : Str) (b : Bucket) :
    (s.list path).run (Bucket.serve now) b = (b.listed s path, b) := by
  unfold Bucket.listed
  cases hkey : objectKey s.adapter path with
  | error err =>
    rw [S3StorageAdapter.list, S3StorageAdapter.listPrefix, S3StorageAdapter.key, hkey]
    rfl
  | ok key => exact Bucket.run_list hkey b

variable (s) (cipher : SectionCipher) (b) in
/-- Of the listed names the first that decrypts to the segment, level by level. -/
def Bucket.pathFrom : Str → List Str → Except Exc Str
  | parent, [] => .ok parent
  | parent, segment :: rest =>
    match b.listed s parent with
    | .error err => .error err
    | .ok entries =>
      match entries.find? fun entry => decide (cipher.decryptName entry.name = some segment) with
      | none => .error .fileNotFound
      | some entry => Bucket.pathFrom (joinPath parent entry.name) rest

/-- The encrypted path of a path. -/
def Bucket.resolvedPath (b : Bucket) (s : S3StorageAdapter) (cipher : SectionCipher) (path : Str) :
    Except Exc Str :=
  if normalizePath path = [] then .ok []
  else if isPlainStoragePath (normalizePath path) then .ok (normalizePath path)
  else b.pathFrom s cipher [] (Text.split (normalizePath path))

theorem run_resolveSegments (parent : Str) (segments : List Str) (b : Bucket) :
    (e.resolveSegments parent segments).run (Bucket.serve now) b =
      (b.pathFrom e.inner e.cipher parent segments, b) := by
  induction segments generalizing parent with
  | nil => rfl
  | cons segment rest ih =>
    have hlist := run_listed now e.inner parent b
    unfold EncryptedStorageAdapter.resolveSegments Bucket.pathFrom
    cases hentries : b.listed e.inner parent with
    | error err =>
      rw [hentries] at hlist
      exact run_bind_error hlist _
    | ok entries =>
      rw [hentries] at hlist
      rw [bind_eq, run_bind_ok hlist]
      dsimp only
      cases entries.find? fun entry => decide (e.cipher.decryptName entry.name = some segment) with
      | none => rfl
      | some entry => exact ih _

theorem run_resolvePath (e : EncryptedStorageAdapter) (now : Time) (path : Str) (b : Bucket) :
    (e.resolvePath path).run (Bucket.serve now) b = (b.resolvedPath e.inner e.cipher path, b) := by
  unfold EncryptedStorageAdapter.resolvePath Bucket.resolvedPath
  split
  · rfl
  · split
    · rfl
    · exact run_resolveSegments [] _ b

/-- The key of an inner path is occupied. -/
def Bucket.occupiedAt (b : Bucket) (s : S3StorageAdapter) (path : Str) : Except Exc Bool :=
  (objectKey s.adapter path).map b.occupied

theorem run_occupiedAt (s : S3StorageAdapter) (path : Str) (b : Bucket) :
    (s.exists path).run (Bucket.serve now) b = (b.occupiedAt s path, b) := by
  unfold Bucket.occupiedAt
  cases hkey : objectKey s.adapter path with
  | error err => exact Bucket.run_exists_error hkey b
  | ok key => exact Bucket.run_exists hkey b

/-- What `exists` answers. -/
def Bucket.existsAt (b : Bucket) (s : S3StorageAdapter) (cipher : SectionCipher) (path : Str) :
    Except Exc Bool :=
  if isPlainStoragePath path then b.occupiedAt s path
  else match b.resolvedPath s cipher path with
    | .ok encryptedPath => b.occupiedAt s encryptedPath
    | .error err => if err = .fileNotFound then .ok false else .error err

theorem run_resolved_ok {encryptedPath : Str} {b : Bucket}
    (hpath : b.resolvedPath e.inner e.cipher path = .ok encryptedPath) :
    (e.resolved path).run (Bucket.serve now) b = (.ok (some encryptedPath), b) := by
  have hresolve := run_resolvePath e now path b
  rw [hpath] at hresolve
  have hbody : ((e.resolvePath path).bind fun encryptedPath =>
      (pure (some encryptedPath) : S3M (Option Str))).run (Bucket.serve now) b =
      (.ok (some encryptedPath), b) := run_bind_ok hresolve _
  exact run_catch_ok hbody _

theorem run_resolved_error {err : Exc} {b : Bucket}
    (hpath : b.resolvedPath e.inner e.cipher path = .error err) :
    (e.resolved path).run (Bucket.serve now) b =
      (if err = .fileNotFound then .ok none else .error err, b) := by
  have hresolve := run_resolvePath e now path b
  rw [hpath] at hresolve
  have hbody : ((e.resolvePath path).bind fun encryptedPath =>
      (pure (some encryptedPath) : S3M (Option Str))).run (Bucket.serve now) b =
      (.error err, b) := run_bind_error hresolve _
  unfold EncryptedStorageAdapter.resolved
  rw [bind_eq, run_catch_error hbody]
  split
  next => rfl
  next hother => rw [if_neg hother, run_raise]

theorem run_existsAt (e : EncryptedStorageAdapter) (now : Time) (path : Str) (b : Bucket) :
    (e.exists path).run (Bucket.serve now) b = (b.existsAt e.inner e.cipher path, b) := by
  unfold EncryptedStorageAdapter.exists Bucket.existsAt
  split
  · exact run_occupiedAt e.inner path b
  · cases hpath : b.resolvedPath e.inner e.cipher path with
    | ok encryptedPath =>
      rw [bind_eq, run_bind_ok (run_resolved_ok hpath)]
      exact run_occupiedAt e.inner encryptedPath b
    | error err =>
      have hresolved : (e.resolved path).run (Bucket.serve now) b =
          (if err = .fileNotFound then .ok none else .error err, b) := run_resolved_error hpath
      by_cases hmissing : err = .fileNotFound
      · rw [if_pos hmissing] at hresolved
        rw [bind_eq, run_bind_ok hresolved]
        dsimp only
        rw [if_pos hmissing]
        rfl
      · rw [if_neg hmissing] at hresolved
        rw [bind_eq, run_bind_error hresolved]
        dsimp only
        rw [if_neg hmissing]

/-- The deletion takes what is at the key of the encrypted path, and below it. -/
theorem run_deleteEncrypted {encryptedPath : Str} {b : Bucket}
    (hpath : b.resolvedPath e.inner e.cipher path = .ok encryptedPath)
    (hkey : objectKey e.inner.adapter encryptedPath = .ok key) (hne : key ≠ []) :
    (e.delete path).run (Bucket.serve now) b =
      (if b.occupied key then .ok () else .error .fileNotFound,
        b.keep fun k => !decide (Bucket.Covers key k)) := by
  have hresolve := run_resolvePath e now path b
  rw [hpath] at hresolve
  unfold EncryptedStorageAdapter.delete
  rw [bind_eq, run_bind_ok hresolve]
  exact Bucket.run_delete hkey hne b

theorem run_deleteEncrypted_error {err : Exc} {b : Bucket}
    (hpath : (b.resolvedPath e.inner e.cipher path).bind (objectKey e.inner.adapter) = .error err) :
    (e.delete path).run (Bucket.serve now) b = (.error err, b) := by
  have hresolve := run_resolvePath e now path b
  unfold EncryptedStorageAdapter.delete
  cases hresolved : b.resolvedPath e.inner e.cipher path with
  | error err' =>
    rw [hresolved] at hresolve hpath
    rw [bind_eq, run_bind_error hresolve]
    cases hpath
    rfl
  | ok encryptedPath =>
    rw [hresolved] at hresolve hpath
    have hkey : objectKey e.inner.adapter encryptedPath = .error err := hpath
    have hsafe : safeLogicalKey encryptedPath = .error err := by
      unfold objectKey at hkey
      cases hlogical : safeLogicalKey encryptedPath with
      | error err' =>
        rw [hlogical] at hkey
        cases hkey
        rfl
      | ok logical =>
        rw [hlogical] at hkey
        cases hkey
    rw [bind_eq, run_bind_ok hresolve]
    unfold S3StorageAdapter.delete
    rw [hsafe]
    rfl

end
end WebStorage.S3

namespace WebStorage
open Effect Effect.Prog S3 FileService

/-- Where the storage finds a path: in a section with encrypted names, at the key of the first
names that decrypt to its segments. -/
def foundAt (host : Host) (a : Adapter) (path : Str) (b : Bucket) : Option Str :=
  match a.cipher with
  | none => keyAt a path
  | some cipher =>
    if b.existsAt (host.storage a) cipher path = .ok true then
      (b.resolvedPath (host.storage a) cipher path).toOption.bind (keyAt (host.storage a).adapter)
    else none

/-- How the services are built: the private section alone is encrypted, and every section has a root
of its own. -/
structure FileService.Wired (s : FileService) : Prop where
  encrypted : s.adapter.cipher ≠ none → s.fileSection = .private
  stripped : Text.stripSlash (Text.strip s.adapter.diskRelativePrefix) = s.adapter.diskRelativePrefix
  rooted : s.adapter.diskRelativePrefix ≠ []

section
variable {host : Host} {now : Time} {w : Installation} {a : Adapter} {cipher : SectionCipher}
  {path : Str} {s : FileService}

attribute [local irreducible] normalizePath isPlainStoragePath objectKey Bucket.resolvedPath
  Bucket.existsAt

theorem FileService.Wired.plain (h : s.Wired) (hcipher : s.adapter.cipher = none) :
    s.adapter.Plain := ⟨hcipher, h.stripped⟩

theorem foundAt_plain (hcipher : a.cipher = none) (b : Bucket) :
    foundAt host a path b = keyAt a path := by
  unfold foundAt
  rw [hcipher]

theorem run_storeEncrypted (hcipher : a.cipher = some cipher) (op : StoreOp) (w : Installation) :
    (store a op).run (host.serve now) w =
      ((((EncryptedStorageAdapter.mk (host.storage a) cipher (host.newId w.db)).perform op).run
          (Bucket.serve now) w.bucket).1,
        ⟨w.db, (((EncryptedStorageAdapter.mk (host.storage a) cipher (host.newId w.db)).perform op).run
          (Bucket.serve now) w.bucket).2⟩) := by
  have hperform : host.perform a (host.newId w.db) op =
      (EncryptedStorageAdapter.mk (host.storage a) cipher (host.newId w.db)).perform op := by
    unfold Host.perform
    rw [hcipher]
  unfold store
  rw [run_issue, Host.serve, hperform]

theorem returns_existsEncrypted (hcipher : a.cipher = some cipher) :
    Returns host now (store a (.exists path)) w fun x t =>
      t = w ∧ w.bucket.existsAt (host.storage a) cipher path = .ok x := by
  have hrun : (store a (.exists path)).run (host.serve now) w =
      (w.bucket.existsAt (host.storage a) cipher path, w) := by
    have hexists := run_existsAt ⟨host.storage a, cipher, host.newId w.db⟩ now path w.bucket
    rw [run_storeEncrypted hcipher, EncryptedStorageAdapter.perform, hexists]
  exact returns_of_run hrun fun x hx => ⟨rfl, hx⟩

theorem foundAt_resolved (hcipher : a.cipher = some cipher) {b : Bucket}
    (hexists : b.existsAt (host.storage a) cipher path = .ok true) :
    foundAt host a path b =
      (b.resolvedPath (host.storage a) cipher path).toOption.bind (keyAt (host.storage a).adapter) := by
  unfold foundAt
  rw [hcipher]
  dsimp only
  rw [if_pos hexists]

theorem foundAt_missing (hcipher : a.cipher = some cipher) {b : Bucket}
    (hexists : b.existsAt (host.storage a) cipher path = .ok false) : foundAt host a path b = none := by
  have hnot : ¬ b.existsAt (host.storage a) cipher path = .ok true := by
    rw [hexists]
    decide
  unfold foundAt
  rw [hcipher]
  dsimp only
  rw [if_neg hnot]

theorem run_storeDelete (host : Host) (now : Time) (path : Str) (hcipher : a.cipher = some cipher)
    (w : Installation) :
    (store a (.delete path)).run (host.serve now) w =
      ((((EncryptedStorageAdapter.mk (host.storage a) cipher (host.newId w.db)).delete path).run
          (Bucket.serve now) w.bucket).1,
        ⟨w.db, (((EncryptedStorageAdapter.mk (host.storage a) cipher (host.newId w.db)).delete path).run
          (Bucket.serve now) w.bucket).2⟩) :=
  run_storeEncrypted hcipher (.delete path) w

theorem returns_deleteEncrypted (hcipher : a.cipher = some cipher)
    (hroot : (host.storage a).rootPrefix ≠ [])
    (hexists : w.bucket.existsAt (host.storage a) cipher path = .ok true) :
    Returns host now (store a (.delete path)) w fun _ t =>
      t.db = w.db ∧ Swept (Under (foundAt host a path w.bucket)) w.bucket t.bucket := by
  rw [foundAt_resolved hcipher hexists]
  have hstore := run_storeDelete host now path hcipher w
  cases hkey : (w.bucket.resolvedPath (host.storage a) cipher path).bind
      (objectKey (host.storage a).adapter) with
  | error err =>
    rw [run_deleteEncrypted_error hkey] at hstore
    exact returns_of_run hstore fun x hx => by cases hx
  | ok key =>
    cases hpath : w.bucket.resolvedPath (host.storage a) cipher path with
    | error err =>
      rw [hpath] at hkey
      cases hkey
    | ok encryptedPath =>
      rw [hpath] at hkey
      have hat : objectKey (host.storage a).adapter encryptedPath = .ok key := hkey
      have hne : key ≠ [] := key_ne_nil_of_root hroot hat
      have hplace : (Except.ok encryptedPath : Except Exc Str).toOption.bind
          (keyAt (host.storage a).adapter) = some key := keyAt_ok hat hne
      rw [run_deleteEncrypted hpath hat hne] at hstore
      refine returns_of_run hstore fun x hx => ⟨rfl, ?_⟩
      rw [hplace]
      exact swept_covers _ _

theorem FileService.Wired.storage_root (h : s.Wired) (host : Host) :
    (host.storage s.adapter).rootPrefix ≠ [] := by
  have hroot : (host.storage s.adapter).rootPrefix = s.adapter.diskRelativePrefix := h.stripped
  rw [hroot]
  exact h.rooted

/-- What the storage finds at the path goes, with all that is below it. -/
theorem returns_deleteFound (h : s.Wired) :
    Returns host now (deleteIfExists s.adapter path) w fun _ t =>
      t.db = w.db ∧ Swept (Under (foundAt host s.adapter path w.bucket)) w.bucket t.bucket := by
  cases hcipher : s.adapter.cipher with
  | none =>
    rw [foundAt_plain hcipher]
    exact returns_deleteIfExists (h.plain hcipher)
  | some cipher =>
    unfold deleteIfExists
    apply returns_bind (returns_existsEncrypted hcipher)
    intro found u hu
    obtain ⟨hsame, hexists⟩ := hu
    subst hsame
    cases found with
    | true => exact returns_deleteEncrypted hcipher (h.storage_root host) hexists
    | false =>
      rw [foundAt_missing hcipher hexists]
      exact returns_done ⟨rfl, .nowhere _⟩

/-- Whether a path of an encrypted section is a directory is only looked up. -/
theorem returns_isDirectoryEncrypted (hcipher : s.adapter.cipher = some cipher) :
    Returns host now (isDirectory s path) w fun _ t => t = w := by
  have hlist : ((store s.adapter (.list path)).run (host.serve now) w).2 = w := by
    rw [run_storeEncrypted hcipher, EncryptedStorageAdapter.perform, run_looks (looks_listEncrypted path)]
  unfold isDirectory
  have hbody : Returns host now ((store s.adapter (.list path)).bind fun _ =>
      (pure true : FileM Bool)) w fun _ t => t = w := by
    have hlooked : Returns host now (store s.adapter (.list path)) w fun _ t => t = w :=
      returns_of_run (Prod.mk.eta).symm fun _ _ => hlist
    apply returns_bind hlooked
    intro _ t ht
    exact returns_done ht
  refine returns_catch hbody fun e t hrun => ?_
  have hsame : t = w := by
    cases hanswer : (store s.adapter (.list path)).run (host.serve now) w with
    | mk r u =>
      rw [hanswer] at hlist
      cases r with
      | error e' =>
        rw [bind_eq, run_bind_error hanswer] at hrun
        cases hrun
        exact hlist
      | ok nodes =>
        rw [bind_eq, run_bind_ok hanswer] at hrun
        cases hrun
  subst hsame
  split
  · exact returns_done rfl
  · exact returns_raise

end
end WebStorage
