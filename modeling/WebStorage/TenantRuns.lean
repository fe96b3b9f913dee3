import WebStorage.FailedOverwrite
import WebStorage.TenantRequests
import WebStorage.UserRemoval

set_option autoImplicit false

/-! What the requests of others leave a user: the adapters that the services are built on, and runs. -/
namespace WebStorage
open Effect Effect.Prog S3

/-! ### The adapters of a user -/

/-- `user_files_root_prefix` and its siblings. -/
def userRootPrefix (userId : Uuid) (name : Str) : Str := AdminService.userPrefix userId ++ '/' :: name

def userFilesRootPrefix (userId : Uuid) : Str := userRootPrefix userId "files".toList
def userPhotosRootPrefix (userId : Uuid) : Str := userRootPrefix userId "photos".toList
def userPrivateRootPrefix (userId : Uuid) : Str := userRootPrefix userId "private".toList
def userResumesRootPrefix (userId : Uuid) : Str := userRootPrefix userId "resumes".toList
def userGeneratedRootPrefix (userId : Uuid) : Str := userRootPrefix userId "generated".toList
def sharedRootPrefix : Str := "shared".toList

/-- The adapters that the services of a user are built on. That of the private section may encrypt. -/
inductive UserAdapter (userId : Uuid) : Adapter → Prop
  | files : UserAdapter userId ⟨userFilesRootPrefix userId, none⟩
  | photos : UserAdapter userId ⟨userPhotosRootPrefix userId, none⟩
  | «private» (cipher : Option SectionCipher) :
    UserAdapter userId ⟨userPrivateRootPrefix userId, cipher⟩
  | resumes : UserAdapter userId ⟨userResumesRootPrefix userId, none⟩
  | generated : UserAdapter userId ⟨userGeneratedRootPrefix userId, none⟩

section
variable {u v : Uuid} {a : Adapter} {k : Str}

theorem UserAdapter.root (h : UserAdapter u a) :
    ∃ name, CleanName name ∧ a.diskRelativePrefix = userRootPrefix u name := by
  cases h with
  | files => exact ⟨_, by decide +kernel, rfl⟩
  | photos => exact ⟨_, by decide +kernel, rfl⟩
  | «private» => exact ⟨_, by decide +kernel, rfl⟩
  | resumes => exact ⟨_, by decide +kernel, rfl⟩
  | generated => exact ⟨_, by decide +kernel, rfl⟩

theorem clean_userRootPrefix {name : Str} (h : CleanName name) :
    Clean ["users".toList, u.text, name] := by
  have hall := (UserRemoval.clean_userPrefix u).append (Clean.singleton h)
  exact hall

theorem userRootPrefix_eq (u : Uuid) (name : Str) :
    userRootPrefix u name = Text.join ["users".toList, u.text, name] := by
  unfold userRootPrefix AdminService.userPrefix
  rw [Text.join_cons _ (List.cons_ne_nil _ _), Text.join_cons _ (List.cons_ne_nil _ _), List.append_assoc]
  rfl

theorem UserAdapter.rooted (h : UserAdapter u a) : Tenants.Rooted a := by
  obtain ⟨name, hname, hroot⟩ := h.root
  have hclean : Clean ["users".toList, u.text, name] := clean_userRootPrefix hname
  rw [userRootPrefix_eq] at hroot
  constructor
  case root =>
    rw [hroot]
    exact join_ne_nil hclean (List.cons_ne_nil _ _)
  case stripped =>
    rw [hroot, Text.strip_trimmed (trimmed_join hclean)]
    exact Text.stripSlash_self (head_join_ne_slash hclean) (last_join_ne_slash hclean)

/-- A key has at most one owner. -/
theorem owner_unique (hu : AdminService.userPrefix u <+: k) (hv : AdminService.userPrefix v <+: k) : u = v := by
  have hlength : (AdminService.userPrefix u).length = (AdminService.userPrefix v).length := by
    unfold AdminService.userPrefix
    rw [List.length_append, List.length_append, u.canonical.1, v.canonical.1]
  have hprefix := List.prefix_of_prefix_length_le hu hv (Nat.le_of_eq hlength)
  have heq : "users/".toList ++ u.text = "users/".toList ++ v.text := hprefix.eq_of_length hlength
  have htext : u.text = v.text := List.append_cancel_left heq
  cases u
  cases v
  cases htext
  rfl

theorem prefix_of_within {root : Str} (h : Within root k) : root <+: k := by
  rcases h with heq | hbelow
  · rw [heq]
  · exact (List.prefix_append root ['/']).trans hbelow

/-- A key in a section of a user is below the user's prefix. -/
theorem UserAdapter.below (h : UserAdapter u a) (hk : Within a.diskRelativePrefix k) :
    AdminService.userPrefix u <+: k := by
  obtain ⟨name, -, hroot⟩ := h.root
  rw [hroot] at hk
  exact (List.prefix_append _ ('/' :: name)).trans (prefix_of_within hk)

/-- The shared section is nobody's own. -/
theorem shared_not_own (hshared : sharedRootPrefix <+: k) : ¬ AdminService.userPrefix v <+: k := by
  intro hv
  obtain ⟨rest, hrest⟩ := hshared
  obtain ⟨rest', hrest'⟩ := hv
  have heq := hrest.trans hrest'.symm
  have hhead : some 's' = some 'u' := congrArg List.head? heq
  exact absurd hhead (by decide)

end

/-! ### Requests of a user -/

/-- A request of the user, on an adapter of theirs and outside the shared section. -/
def Request.By (u : Uuid) : Request → Prop
  | .uploadFile s userId _ _ _ _ _ => userId = u ∧ UserAdapter u s.adapter
  | .overwriteFile s userId _ _ _ _ fileSection =>
    userId = u ∧ UserAdapter u s.adapter ∧ fileSection ≠ .shared
  | .uploadZipFolder s userId _ _ _ _ _ => userId = u ∧ UserAdapter u s.adapter
  | .createDirectory s _ _ => UserAdapter u s.adapter
  | .rename s actorId _ _ => actorId = u ∧ UserAdapter u s.adapter ∧ s.fileSection ≠ .shared
  | .renameByPath s userId _ _ => userId = u ∧ UserAdapter u s.adapter ∧ s.fileSection ≠ .shared
  | .readByPath s actorId _ => actorId = u ∧ UserAdapter u s.adapter ∧ s.fileSection ≠ .shared
  | .deleteFile s actorId _ _ => actorId = u ∧ UserAdapter u s.adapter ∧ s.fileSection ≠ .shared
  | .deleteByPath s actorId _ _ => actorId = u ∧ UserAdapter u s.adapter ∧ s.fileSection ≠ .shared
  | .uploadPhoto s userId _ _ _ => userId = u ∧ UserAdapter u s.adapter
  | .deletePhoto s userId _ => userId = u ∧ UserAdapter u s.adapter
  | .resetPrivateStorage _ inner userId => userId = u ∧ UserAdapter u inner
  | .runDailyArchive _ | .cleanupPendingRecords | .cleanupTmpDirs | .reconcileQuotas _ => False

/-- A request is committed if it returns. If it raises, or is stopped, the tables are as before, and what
it has done to the bucket stays done. -/
inductive Served (host : Host) (w : Installation) : Request × Time → Installation → Prop
  | commit {request now t} : Exec (Tenants.Faults host) (request.program now) w (.ok ()) t →
    Served host w (request, now) t
  | abort {request now t} : Reaches (Tenants.Faults host) (request.program now) w t →
    Served host w (request, now) ⟨w.db, t.bucket⟩

/-- The request of somebody other than the user. -/
def ByOthers (v : Uuid) (_ : Installation) (e : Request × Time) : Prop := ∃ u, u ≠ v ∧ e.1.By u

/-- The archives of the others are in their own sections, or in the shared one. -/
def ArchivesHoused (v : Uuid) (d : Db) : Prop :=
  ∀ r ∈ d.records.rows, r.userId ≠ v → ∀ archivePath key, r.archivePath = some archivePath →
    objectKey diskRootAdapter archivePath = .ok key →
    Within (AdminService.userPrefix r.userId) key ∨ Within sharedRootPrefix key

namespace Tenants

/-- The adapters of the others. -/
def OthersAdapter (v : Uuid) (a : Adapter) : Prop := ∃ u, u ≠ v ∧ UserAdapter u a

section
variable {host : Host} {u v : Uuid} {w₀ w t : Installation} {request : Request} {now : Time}

theorem leaves_request (hu : u ≠ v) (h : request.By u) :
    Leaves host v (OthersAdapter v) w₀ (request.program now) fun _ => True := by
  have hignore : ∀ {α : Type} {p : FileM α}, Leaves host v (OthersAdapter v) w₀ p (fun _ => True) →
      Leaves host v (OthersAdapter v) w₀ (ignore p) fun _ => True := by
    intro α p hp
    unfold ignore
    apply maintains_bind hp
    exact fun _ _ => maintains_done trivial
  have hothers : ∀ {a : Adapter}, UserAdapter u a → OthersAdapter v a := fun ha => ⟨u, hu, ha⟩
  unfold Request.program
  cases request with
  | uploadFile s userId path filename data size fileSection =>
    obtain ⟨rfl, ha⟩ := h
    exact hignore (leaves_uploadFile ha.rooted (hothers ha) hu)
  | overwriteFile s userId path filename data size fileSection =>
    obtain ⟨rfl, ha, hprivate⟩ := h
    exact hignore (leaves_overwriteFile ha.rooted (hothers ha) hu hprivate)
  | uploadZipFolder s userId path zipFilename zip total available =>
    obtain ⟨rfl, ha⟩ := h
    exact hignore (leaves_uploadZipFolder ha.rooted (hothers ha) hu)
  | createDirectory s path name =>
    have ha : UserAdapter u s.adapter := h
    exact leaves_store ha.rooted (hothers ha) _
  | rename s actorId fileId newName =>
    obtain ⟨rfl, ha, hprivate⟩ := h
    exact hignore (leaves_rename ha.rooted (hothers ha) hu hprivate)
  | renameByPath s userId path newName =>
    obtain ⟨rfl, ha, hprivate⟩ := h
    exact hignore (leaves_renameByPath ha.rooted (hothers ha) hu hprivate)
  | readByPath s actorId path =>
    obtain ⟨rfl, ha, hprivate⟩ := h
    exact hignore (leaves_readByPath ha.rooted (hothers ha) hu hprivate)
  | deleteFile s actorId fileId actorRole =>
    obtain ⟨rfl, ha, hprivate⟩ := h
    exact leaves_deleteFile ha.rooted (hothers ha) hu hprivate
  | deleteByPath s actorId path actorRole =>
    obtain ⟨rfl, ha, hprivate⟩ := h
    exact leaves_deleteByPath ha.rooted (hothers ha) hu hprivate
  | uploadPhoto s userId filename data size =>
    obtain ⟨rfl, ha⟩ := h
    exact hignore (leaves_uploadPhoto ha.rooted (hothers ha) hu)
  | deletePhoto s userId fileId =>
    obtain ⟨rfl, ha⟩ := h
    exact leaves_deletePhoto ha.rooted (hothers ha) hu
  | resetPrivateStorage settings inner userId =>
    obtain ⟨rfl, ha⟩ := h
    exact leaves_resetPrivateStorage ha.rooted (hothers ha) hu
  | runDailyArchive s => exact h.elim
  | cleanupPendingRecords => exact h.elim
  | cleanupTmpDirs => exact h.elim
  | reconcileQuotas settings => exact h.elim

/-- One request of somebody else, however it ends. -/
theorem untouched_served {e : Request × Time} (hw : Untouched v (OthersAdapter v) w₀ w)
    (hothers : ByOthers v w e) (h : Served host w e t) : Untouched v (OthersAdapter v) w₀ t := by
  obtain ⟨u, hu, hby⟩ := hothers
  cases h with
  | commit hexec => exact ((leaves_request hu hby).exec hexec hw).1
  | abort hreaches =>
    have ht := (leaves_request hu hby).reaches hreaches hw
    exact ⟨hw.tables, ht.objects⟩

/-- A run of requests of others. -/
theorem untouched_run (h : Steps (Served host) (ByOthers v) w₀ w) : Untouched v (OthersAdapter v) w₀ w :=
  h.invariant (.refl v _ w₀) fun _ _ _ => untouched_served

/-- What is below the user's prefix is out of reach for the others. -/
theorem sheltered_own {d : Db} {k : Str} (hhoused : ArchivesHoused v d)
    (hk : AdminService.userPrefix v <+: k) : Sheltered v (OthersAdapter v) d k where
  adapters a ha hwithin := by
    obtain ⟨u, hu, ha⟩ := ha
    exact hu (owner_unique (ha.below hwithin) hk)
  archives archivePath harchive hat := by
    obtain ⟨r, hr, howner, hpath⟩ := harchive
    obtain ⟨key, hkey, hunder⟩ := hat
    have hbelow : key <+: k := by
      rcases hunder with heq | hdir
      · rw [heq]
      · apply List.IsPrefix.trans _ hdir
        unfold asDir
        split
        · exact List.prefix_rfl
        · exact List.prefix_append key _
    rcases hhoused r hr howner archivePath key hpath hkey with hown | hshared
    · exact howner (owner_unique ((prefix_of_within hown).trans hbelow) hk)
    · exact shared_not_own ((prefix_of_within hshared).trans hbelow) hk

end
end Tenants

/-- Users do not disturb each other: in every run of requests of others outside the shared section, in
which any call may fail and any request may be stopped, the user keeps the records, the quota and the index
links that they had, and every object below their prefix. -/
theorem tenants_isolated (host : Host) (v : Uuid) (w₀ w : Installation) (hhoused : ArchivesHoused v w₀.db)
    (hrun : Steps (Served host) (ByOthers v) w₀ w) :
    Tenants.viewOf v w.db = Tenants.viewOf v w₀.db ∧
      ∀ k, AdminService.userPrefix v <+: k → w.bucket.content k = w₀.bucket.content k := by
  have huntouched := Tenants.untouched_run hrun
  refine ⟨huntouched.tables.view, ?_⟩
  intro k hk
  exact huntouched.objects k (Tenants.sheltered_own hhoused hk)

/-! Two users with a file each. That of the second one is archived, and the second one deletes it. -/

open FailedUpload (sampleHost sampleService)
open FailedOverwrite (uploadedRecord)

def residentKey : Str := userFilesRootPrefix (.ofDigit 1) ++ "/a.txt".toList

def residentRecord : FileRecord := { uploadedRecord with relativePath := residentKey }

def neighbourKey : Str := userFilesRootPrefix (.ofDigit 2) ++ "/b.txt".toList

def neighbourRecord : FileRecord :=
  { uploadedRecord with
    id := .ofDigit 4
    userId := .ofDigit 2
    relativePath := neighbourKey
    status := .archived
    isArchived := true
    archivePath := some (neighbourKey ++ archiveExtension) }

def neighbourService : FileService :=
  { sampleService with adapter := ⟨userFilesRootPrefix (.ofDigit 2), none⟩ }

def sharedHouse : Installation where
  db := ⟨⟨[residentRecord, neighbourRecord], by decide +kernel⟩, ∅, .empty⟩
  bucket := (Bucket.empty.put residentKey [1] 0).put (neighbourKey ++ archiveExtension) [2] 0

def neighbourDeletes : Request := .deleteFile neighbourService (.ofDigit 2) (.ofDigit 4) none

def afterNeighbour : Except Exc Unit × Installation :=
  (neighbourDeletes.program 5).run (sampleHost.serve 5) sharedHouse

theorem housed_sharedHouse : ArchivesHoused (.ofDigit 1) sharedHouse.db := by
  intro r hr howner archivePath key hpath hkey
  have hrows : r ∈ [residentRecord, neighbourRecord] := hr
  rcases List.mem_cons.1 hrows with hresident | hneighbour
  · rw [hresident] at howner
    exact absurd rfl howner
  · rw [List.mem_singleton.1 hneighbour] at hpath ⊢
    have harchive : neighbourKey ++ archiveExtension = archivePath := Option.some.inj hpath
    have hself : objectKey diskRootAdapter (neighbourKey ++ archiveExtension) =
        .ok (neighbourKey ++ archiveExtension) := by decide +kernel
    rw [← harchive, hself] at hkey
    rw [← Except.ok.inj hkey]
    left
    right
    exact ⟨"files/b.txt.zst".toList, by decide +kernel⟩

theorem neighbour_deleted : Steps (Served sampleHost) (ByOthers (.ofDigit 1)) sharedHouse afterNeighbour.2 := by
  have hrun : (neighbourDeletes.program 5).run (sampleHost.serve 5) sharedHouse = (.ok (), afterNeighbour.2) :=
    Prod.ext (by decide +kernel) rfl
  have hexec := exec_run (Tenants.faults_serve sampleHost 5) (neighbourDeletes.program 5) sharedHouse
  rw [hrun] at hexec
  have hby : neighbourDeletes.By (.ofDigit 2) := ⟨rfl, .files, by decide⟩
  apply Steps.tail .refl (e := (neighbourDeletes, 5))
  · exact ⟨.ofDigit 2, by decide, hby⟩
  · exact .commit hexec

/-- The neighbour's archive is gone, and the file of the first user is as it was. -/
theorem tenants_isolated_delete : afterNeighbour.2.bucket.content (neighbourKey ++ archiveExtension) =
      none ∧ Tenants.viewOf (.ofDigit 1) afterNeighbour.2.db = Tenants.viewOf (.ofDigit 1) sharedHouse.db ∧
    afterNeighbour.2.bucket.content residentKey = some [1] := by
  obtain ⟨hview, hobjects⟩ := tenants_isolated sampleHost (.ofDigit 1) sharedHouse afterNeighbour.2
    housed_sharedHouse neighbour_deleted
  refine ⟨by decide +kernel, hview, ?_⟩
  rw [hobjects residentKey ⟨"/files/a.txt".toList, by decide +kernel⟩]
  decide +kernel

end WebStorage
