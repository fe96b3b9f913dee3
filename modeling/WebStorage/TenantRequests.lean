import WebStorage.RequestCommands
import WebStorage.Tenants

set_option autoImplicit false

/-! The requests of other users, command by command: none of them touches what is the user's. -/
namespace WebStorage.Tenants
open Effect Effect.Prog S3 FileService

attribute [local irreducible] Adapter.toDiskRelativePath normalizePath objectKey

section
variable {host : Host} {v u : Uuid} {A : Adapter → Prop} {w₀ : Installation} {now : Time} {α : Type}

/-! ### The queue -/

theorem leaves_enqueueUpload (q : Enqueue) {record : FileRecord} (h : Other v w₀.db record) :
    Leaves host v A w₀ (q.upload record now) fun _ => True := by
  unfold Enqueue.upload
  split
  · exact maintains_done trivial
  · split
    · exact maintains_done trivial
    · exact maintains_raise _
    · split
      · exact maintains_done trivial
      · apply maintains_bind leaves_uuid4
        intro id _
        apply maintains_bind (leaves_links fun d hd a t' hok => sameLinks_upsertPending (h.unlinked hd) hok)
        exact fun _ _ => maintains_done trivial

theorem leaves_enqueueContentChanged (q : Enqueue) {record : FileRecord} (h : Other v w₀.db record) :
    Leaves host v A w₀ (q.contentChanged record now) fun _ => True := by
  unfold Enqueue.contentChanged
  split
  · exact maintains_done trivial
  · split
    · exact maintains_done trivial
    · exact maintains_raise _
    · split
      · exact maintains_done trivial
      · apply maintains_bind (leaves_links fun d hd a t' hok =>
          sameLinks_markContentChanged (byRecord_linkedTo v d) (h.unlinked hd) hok)
        exact fun _ _ => maintains_done trivial

theorem leaves_rekeyLinked {record : FileRecord} (h : Other v w₀.db record) :
    Leaves host v A w₀ (Enqueue.rekeyLinked record now) fun _ => True := by
  unfold Enqueue.rekeyLinked
  split
  · exact maintains_done trivial
  · apply maintains_bind (leaves_links fun d hd a t' hok =>
      sameLinks_markRekey (byRecord_linkedTo v d) (h.unlinked hd) hok)
    exact fun _ _ => maintains_done trivial

theorem leaves_rekeyMany (q : Enqueue) {records : List FileRecord} (h : ∀ r ∈ records, Other v w₀.db r) :
    Leaves host v A w₀ (q.rekeyMany records now) fun _ => True := by
  have hall : Leaves host v A w₀ (Enqueue.rekeyAll now records) fun _ => True := by
    induction records with
    | nil => exact maintains_done trivial
    | cons r records ih =>
      unfold Enqueue.rekeyAll
      apply maintains_bind (leaves_rekeyLinked (h r List.mem_cons_self))
      exact fun _ _ => ih fun r' hr' => h r' (List.mem_cons_of_mem _ hr')
  unfold Enqueue.rekeyMany
  split
  · exact hall
  · exact maintains_done trivial

theorem leaves_removed (q : Enqueue) {ids : List Uuid} (h : ∀ id ∈ ids, NotOf v w₀.db id) :
    Leaves host v A w₀ (q.removed ids now) fun _ => True := by
  unfold Enqueue.removed
  split
  · exact maintains_done trivial
  · apply maintains_bind (leaves_links fun d hd a t' hok =>
      sameLinks_markRemoved (byRecord_linkedTo v d)
        (fun id hid link hlink => linkedTo_of_not (hd.notOf.2 (h id hid)) hlink) hok)
    exact fun _ _ => maintains_done trivial

/-! ### Calls of the tables -/

theorem leaves_assign {id : Uuid} {f : FileRecord → FileRecord} (hid : NotOf v w₀.db id)
    (hf : ∀ r, (f r).userId = r.userId ∧ (f r).archivePath = r.archivePath) :
    Leaves host v A w₀ (db (FileRepo.assign id f)) fun found => ∀ r, found = some r → Other v w₀.db r := by
  apply leaves_db
  intro d hd
  obtain ⟨hsame, hfound⟩ := hd.assign hid hf
  refine ⟨hsame, ?_⟩
  intro found hok r hr
  exact hfound r (hr ▸ hok)

theorem leaves_create {id : Uuid} {path name : Str} {size : Int} {encrypted : Bool}
    {fileSection : FileSection} {status : FileStatus} (hu : u ≠ v) :
    Leaves host v A w₀ (db (FileRepo.create id u path name size encrypted fileSection status now))
      fun made => Other v w₀.db made ∧ made.userId = u :=
  leaves_db fun _ hd => hd.create hu

theorem leaves_modify {limit : Int} {f : QuotaUsage → QuotaUsage} (hu : u ≠ v) :
    Leaves host v A w₀ (db (QuotaRepo.modify limit u f)) fun _ => True :=
  leaves_db fun _ hd => ⟨hd.modify hu, fun _ _ => trivial⟩

theorem leaves_ofExcept (x : Except Exc α) : Leaves host v A w₀ (ofExcept x) fun _ => True :=
  maintains_result x fun _ _ => trivial

theorem leaves_updateStatus {id : Uuid} {status : FileStatus} {checksum : Option Digest}
    {relativePath originalName : Option Str} (hid : NotOf v w₀.db id) :
    Leaves host v A w₀ (db (FileRepo.updateStatus id status checksum relativePath originalName))
      fun found => ∀ r, found = some r → Other v w₀.db r := by
  unfold FileRepo.updateStatus
  apply leaves_assign hid
  exact fun r => ⟨rfl, rfl⟩

theorem leaves_updateSize {id : Uuid} {sizeBytes : Int} {checksum : Option Digest}
    (hid : NotOf v w₀.db id) : Leaves host v A w₀ (db (FileRepo.updateSize id sizeBytes checksum))
      fun found => ∀ r, found = some r → Other v w₀.db r := by
  unfold FileRepo.updateSize
  apply leaves_assign hid
  exact fun r => ⟨rfl, rfl⟩

theorem leaves_touch {id : Uuid} (hid : NotOf v w₀.db id) :
    Leaves host v A w₀ (db (FileRepo.touchLastAccessed id now)) fun _ => True := by
  unfold FileRepo.touchLastAccessed
  apply Maintains.mono
  · apply leaves_assign hid
    exact fun r => ⟨rfl, rfl⟩
  · exact fun _ _ => trivial

theorem leaves_delete {id : Uuid} (hid : NotOf v w₀.db id) :
    Leaves host v A w₀ (db (FileRepo.delete id)) fun _ => True := by
  unfold FileRepo.delete
  apply Maintains.mono
  · apply leaves_assign hid
    exact fun r => ⟨rfl, rfl⟩
  · exact fun _ _ => trivial

/-- The records that somebody else has below a path. -/
theorem leaves_listActive {fileSection : FileSection} {pathPrefix : Str} (hu : u ≠ v) :
    Leaves host v A w₀ (db (FileRepo.listActiveUnderPrefix u fileSection pathPrefix))
      fun records => ∀ r ∈ records, Other v w₀.db r := by
  apply leaves_query (fun _ => rfl)
  intro d hd records hok r hr
  have hrecords : d.records.rows.filter _ = records := Except.ok.inj hok
  rw [← hrecords] at hr
  obtain ⟨hmem, hsuits⟩ := List.mem_filter.1 hr
  rw [Bool.and_eq_true, Bool.and_eq_true] at hsuits
  have howner := inScope_owner hsuits.1.1
  exact hd.other hmem (howner ▸ hu)

/-- Whoever asks for a record by its id gets it only as its owner. -/
theorem other_of_get {d : Db} {id : Uuid} {r : FileRecord} (hu : u ≠ v) (hd : SameView v w₀.db d)
    (hget : d.records.get id = some r) (howner : r.userId = u) : Other v w₀.db r ∧ r.id = id := by
  obtain ⟨hmem, hid⟩ := RecordTable.get_some hget
  exact ⟨hd.other hmem (howner ▸ hu), hid⟩

/-! ### The file service -/

section
variable {s : FileService} {path filename newName : Str} {fileSection : FileSection} {size : Nat}
  {data : Bytes}

/-- Somebody else looks up a path outside the shared section. -/
theorem leaves_lookup (hu : u ≠ v) (hprivate : fileSection ≠ .shared) :
    Leaves host v A w₀ (s.getRecordBySectionPath u path fileSection)
      fun found => ∀ r, found = some r → Other v w₀.db r := by
  unfold getRecordBySectionPath toDisk
  apply maintains_bind (leaves_ofExcept _)
  intro relative _
  dsimp only
  rw [if_neg hprivate]
  have hquery : Leaves host v A w₀ (db (FileRepo.getDownloadableByRelativePath u relative fileSection))
      fun found => ∀ r, found = some r → Other v w₀.db r := by
    apply leaves_query (fun _ => rfl)
    intro d hd found hok r hr
    rw [hr] at hok
    exact (hd.getDownloadable hu r hok).1
  apply maintains_bind hquery
  intro found hfound
  cases found with
  | some r => exact maintains_done hfound
  | none =>
    apply leaves_db
    intro d hd
    obtain ⟨hsame, hhealed⟩ := @SameView.heal v w₀.db d hd u relative (Text.name path) fileSection hu
    refine ⟨hsame, ?_⟩
    intro found hok r hr
    rw [hr] at hok
    exact hhealed r hok

/-- Somebody else's record of an id. -/
theorem leaves_getDownloadableRecord {id : Uuid} (hu : u ≠ v) (hprivate : s.fileSection ≠ .shared) :
    Leaves host v A w₀ (s.getDownloadableRecord id u)
      fun r => Other v w₀.db r ∧ r.id = id ∧ r.userId = u := by
  unfold getDownloadableRecord
  have hquery : Leaves host v A w₀ (db (FileRepo.getById id))
      fun found => ∀ r, found = some r → r.userId = u → Other v w₀.db r ∧ r.id = id := by
    apply leaves_query (fun _ => rfl)
    intro d hd found hok r hr howner
    have hget : d.records.get id = found := Except.ok.inj hok
    rw [hr] at hget
    exact other_of_get hu hd hget howner
  apply maintains_bind hquery
  intro found hfound
  cases found with
  | none => exact maintains_raise _
  | some r =>
    dsimp only
    split
    · exact maintains_raise _
    · split
      · exact maintains_raise _
      next hdenied =>
        have howner : r.userId = u := by
          by_contra hne
          exact hdenied ⟨hprivate, hne⟩
        obtain ⟨hother, hid⟩ := hfound r rfl howner
        exact maintains_done ⟨hother, hid, howner⟩

/-! #### Uploads -/

/-- A committed record is charged and queued. -/
theorem leaves_settle (q : Enqueue) {record : FileRecord} {limit sizeBytes : Int} (answer : α)
    (h : Other v w₀.db record) (hu : u ≠ v) :
    Leaves host v A w₀ ((db (QuotaRepo.increment limit u sizeBytes fileSection)).bind fun _ =>
      (q.upload record now).bind fun _ => done (.ok answer)) fun _ => True := by
  apply maintains_bind (leaves_modify hu)
  intro _ _
  apply maintains_bind (leaves_enqueueUpload q h)
  exact fun _ _ => maintains_done trivial

variable (hroot : Rooted s.adapter) (ha : A s.adapter) (hu : u ≠ v)
include hroot ha

theorem leaves_commitUpload {record : FileRecord} (h : Other v w₀.db record) :
    Leaves host v A w₀ (s.commitUpload record path data size now) fun _ => True := by
  unfold commitUpload
  apply maintains_bind (leaves_store hroot ha _)
  intro checksum _
  apply maintains_bind (leaves_store hroot ha _)
  intro _ _
  apply maintains_bind (leaves_ofExcept _)
  intro relative _
  apply maintains_bind (leaves_updateStatus h.id)
  intro found hfound
  cases found with
  | none => exact maintains_raise _
  | some committed => exact leaves_settle s.queue committed (hfound committed rfl) h.owner

include hu

theorem leaves_uploadFile :
    Leaves host v A w₀ (s.uploadFile u path filename data size fileSection now) fun _ => True := by
  unfold uploadFile
  apply maintains_bind (leaves_ofExcept _)
  intro relative _
  apply maintains_bind leaves_uuid4
  intro id _
  apply maintains_bind (leaves_create hu)
  intro record hrecord
  obtain ⟨hother, -⟩ := hrecord
  apply maintains_catch (leaves_commitUpload hroot ha hother)
  intro e
  apply maintains_bind (leaves_deleteIfExists hroot ha _)
  intro _ _
  apply maintains_bind (leaves_delete hother.id)
  exact fun _ _ => maintains_raise e

omit hroot ha in
theorem leaves_chargeDelta {delta : Int} :
    Leaves host v A w₀ (s.chargeDelta u delta fileSection) fun _ => True := by
  unfold chargeDelta
  split
  · apply maintains_bind (leaves_modify hu)
    exact fun _ _ => maintains_done trivial
  · split
    · apply maintains_bind (leaves_modify hu)
      exact fun _ _ => maintains_done trivial
    · exact maintains_done trivial

omit hroot ha in
theorem leaves_ensureOverwriteQuota {extraBytes : Int} :
    Leaves host v A w₀ (s.ensureOverwriteQuota u extraBytes fileSection) fun _ => True := by
  unfold ensureOverwriteQuota
  split
  · exact maintains_done trivial
  · apply maintains_bind (P := fun _ => True)
    · exact leaves_db fun d hd => ⟨hd.getByUserId hu, fun _ _ => trivial⟩
    · intro usage _
      split_ifs
      · exact maintains_raise _
      · exact maintains_raise _
      · exact maintains_done trivial

theorem leaves_commitOverwrite {existing : FileRecord} (h : Other v w₀.db existing) :
    Leaves host v A w₀ (s.commitOverwrite u existing path data size fileSection now) fun _ => True := by
  unfold commitOverwrite
  apply maintains_bind (leaves_store hroot ha _)
  intro checksum _
  apply maintains_bind (leaves_deleteIfExists hroot ha _)
  intro _ _
  apply maintains_bind (leaves_store hroot ha _)
  intro _ _
  apply maintains_bind (leaves_updateSize h.id)
  intro found hfound
  cases found with
  | none => exact maintains_raise _
  | some updated =>
    apply maintains_bind (leaves_chargeDelta hu)
    intro _ _
    apply maintains_bind (leaves_enqueueContentChanged s.queue (hfound updated rfl))
    exact fun _ _ => maintains_done trivial

theorem leaves_overwriteFile (hprivate : fileSection ≠ .shared) :
    Leaves host v A w₀ (s.overwriteFile u path filename data size fileSection now) fun _ => True := by
  unfold overwriteFile
  apply maintains_bind (leaves_lookup hu hprivate)
  intro found hfound
  cases found with
  | none => exact leaves_uploadFile hroot ha hu
  | some existing =>
    have hother := hfound existing rfl
    apply maintains_bind (leaves_ensureOverwriteQuota hu)
    intro _ _
    apply maintains_catch (leaves_commitOverwrite hroot ha hu hother)
    intro e
    apply maintains_bind (leaves_deleteIfExists hroot ha _)
    exact fun _ _ => maintains_raise e

/-! #### Archives of files -/

theorem leaves_extractEntry {info : ZipInfo} :
    Leaves host v A w₀ (s.extractEntry u path info now) fun _ => True := by
  unfold extractEntry
  apply maintains_bind (leaves_ofExcept _)
  intro relative _
  apply maintains_bind leaves_uuid4
  intro id _
  apply maintains_bind (leaves_create hu)
  intro record hrecord
  obtain ⟨hother, howner⟩ := hrecord
  apply maintains_bind (leaves_store hroot ha _)
  intro checksum _
  apply maintains_bind (leaves_store hroot ha _)
  intro _ _
  apply maintains_bind (leaves_ofExcept _)
  intro relativePath _
  apply maintains_bind (leaves_updateStatus hother.id)
  intro found hfound
  cases found with
  | none =>
    apply maintains_bind (leaves_delete hother.id)
    exact fun _ _ => maintains_done trivial
  | some committed => exact leaves_settle s.queue true (hfound committed rfl) hu

omit hu in
theorem leaves_ensureParent {created : List Str} :
    Leaves host v A w₀ (s.ensureParent path created) fun _ => True := by
  unfold ensureParent
  dsimp only
  split
  · apply maintains_bind (leaves_store hroot ha _)
    exact fun _ _ => maintains_done trivial
  · exact maintains_done trivial

omit hu in
theorem leaves_makeDirectories {paths : List (Str × ZipInfo)} {created : List Str} :
    Leaves host v A w₀ (s.makeDirectories paths created) fun _ => True := by
  induction paths generalizing created with
  | nil => exact maintains_done trivial
  | cons entry rest ih =>
    obtain ⟨sectionPath, info⟩ := entry
    unfold makeDirectories
    split
    · apply maintains_bind (leaves_store hroot ha _)
      exact fun _ _ => ih
    · exact ih

theorem leaves_extractAll {paths : List (Str × ZipInfo)} {created : List Str} {counts : Nat × Nat} :
    Leaves host v A w₀ (s.extractAll u now paths created counts) fun _ => True := by
  induction paths generalizing created counts with
  | nil => exact maintains_done trivial
  | cons entry rest ih =>
    obtain ⟨sectionPath, info⟩ := entry
    obtain ⟨files, totalBytes⟩ := counts
    unfold extractAll
    split
    · exact ih
    · apply maintains_bind (leaves_ensureParent hroot ha)
      intro created _
      apply maintains_bind (maintains_attempt (leaves_extractEntry hroot ha hu))
      intro outcome _
      split
      · exact ih
      · exact ih

theorem leaves_uploadZipFolder {zip : Option (List ZipInfo)} {total available : Int} :
    Leaves host v A w₀ (s.uploadZipFolder u path filename zip total available now) fun _ => True := by
  unfold uploadZipFolder
  split
  · exact maintains_raise _
  · split
    · exact maintains_raise _
    · exact maintains_raise _
    · apply maintains_bind (leaves_ofExcept _)
      intro paths _
      apply maintains_bind (leaves_store hroot ha _)
      intro _ _
      apply maintains_bind (leaves_makeDirectories hroot ha)
      intro created _
      exact leaves_extractAll hroot ha hu

/-! #### Renames -/

theorem leaves_rename {id : Uuid} (hprivate : s.fileSection ≠ .shared) :
    Leaves host v A w₀ (s.rename u id newName now) fun _ => True := by
  unfold rename
  apply maintains_bind (leaves_getDownloadableRecord hu hprivate)
  intro record hrecord
  obtain ⟨hother, -, -⟩ := hrecord
  split
  · exact maintains_raise _
  · apply maintains_bind (leaves_store hroot ha _)
    intro _ _
    apply maintains_bind (leaves_ofExcept _)
    intro relative _
    apply maintains_bind (leaves_updateStatus hother.id)
    intro found hfound
    cases found with
    | none => exact maintains_raise _
    | some updated =>
      have hrekey : Leaves host v A w₀ (s.queue.rekey updated now) fun _ => True := by
        unfold Enqueue.rekey
        split
        · exact leaves_rekeyLinked (hfound updated rfl)
        · exact maintains_done trivial
      apply maintains_bind hrekey
      exact fun _ _ => maintains_done trivial

omit hu in
theorem leaves_isDirectory : Leaves host v A w₀ (s.isDirectory path) fun _ => True := by
  unfold isDirectory
  apply maintains_catch
  · apply maintains_bind (leaves_store hroot ha _)
    exact fun _ _ => maintains_done trivial
  · intro e
    split
    · exact maintains_done trivial
    · exact maintains_raise _

omit hroot ha in
theorem leaves_movePrefix {oldPrefix newPrefix : Str} :
    Leaves host v A w₀ (db (FileRepo.updateRelativePathPrefix u fileSection oldPrefix newPrefix))
      fun _ => True :=
  leaves_db fun _ hd => ⟨hd.movePrefix hu, fun _ _ => trivial⟩

theorem leaves_renameDirectory {newPath : Str} (hprivate : s.fileSection ≠ .shared) :
    Leaves host v A w₀ (s.renameDirectory u path newPath now) fun _ => True := by
  unfold renameDirectory enqueueRenamedDescendants
  apply maintains_bind (leaves_ofExcept _)
  intro oldDiskPrefix _
  apply maintains_bind (leaves_ofExcept _)
  intro newDiskPrefix _
  apply maintains_bind (leaves_store hroot ha _)
  intro _ _
  rw [if_neg hprivate]
  apply maintains_bind (leaves_movePrefix hu)
  intro _ _
  split
  · apply maintains_bind (leaves_listActive hu)
    intro descendants hothers
    exact leaves_rekeyMany s.queue hothers
  · exact maintains_done trivial

theorem leaves_renameByPath (hprivate : s.fileSection ≠ .shared) :
    Leaves host v A w₀ (s.renameByPath u path newName now) fun _ => True := by
  unfold renameByPath
  apply maintains_bind (leaves_store hroot ha _)
  intro present _
  split
  · exact maintains_raise _
  · apply maintains_bind (leaves_isDirectory hroot ha)
    intro directory _
    split
    · apply maintains_bind (leaves_renameDirectory hroot ha hu hprivate)
      exact fun _ _ => maintains_done trivial
    · apply maintains_bind (leaves_lookup hu hprivate)
      intro found _
      cases found with
      | none => exact maintains_raise _
      | some record =>
        apply maintains_bind (leaves_rename hroot ha hu hprivate)
        exact fun _ _ => maintains_done trivial

/-! #### Reads -/

omit hroot ha hu in
/-- The archive of a record is the only object that is read outside the section. -/
theorem leaves_readArchive {record : FileRecord} (h : Other v w₀.db record) :
    Leaves host v A w₀ (s.streamArchived record) fun _ => True := by
  unfold streamArchived
  split
  · exact maintains_raise _
  · unfold streamDecompressedArchived
    split
    · exact maintains_raise _
    next archivePath hpath =>
      split
      · exact maintains_raise _
      · apply maintains_bind (leaves_archive (h.archive archivePath hpath) (.inr (.inl rfl)))
        intro archive _
        apply maintains_bind (leaves_ofExcept _)
        intro decompressed _
        split
        · split
          · exact maintains_raise _
          · exact leaves_ofExcept _
        · exact maintains_done trivial

omit hu in
theorem leaves_readRecord {record : FileRecord} (h : Other v w₀.db record) :
    Leaves host v A w₀ (s.readRecord record path) fun _ => True := by
  unfold readRecord
  split
  · exact leaves_readArchive h
  · exact leaves_store hroot ha _

omit hroot ha in
theorem leaves_recordToRead (hprivate : s.fileSection ≠ .shared) :
    Leaves host v A w₀ (s.recordToRead u path) fun found => ∀ r, found = some r → Other v w₀.db r := by
  unfold recordToRead
  apply maintains_bind (leaves_lookup hu hprivate)
  intro found hfound
  cases found with
  | some record => exact maintains_done hfound
  | none =>
    dsimp only
    split
    · exact leaves_lookup hu hprivate
    · apply maintains_done
      intro r hr
      cases hr

theorem leaves_readByPath (hprivate : s.fileSection ≠ .shared) :
    Leaves host v A w₀ (s.readByPath u path now) fun _ => True := by
  unfold readByPath
  apply maintains_bind (leaves_recordToRead hu hprivate)
  intro found hfound
  cases found with
  | none => exact leaves_store hroot ha _
  | some record =>
    have hother := hfound record rfl
    apply maintains_bind (leaves_readRecord hroot ha hother)
    intro content _
    apply maintains_bind (leaves_touch hother.id)
    exact fun _ _ => maintains_done trivial

/-! #### Deletions -/

omit hroot ha hu in
theorem leaves_deleteArchivedBlob {record : FileRecord} (h : Other v w₀.db record) :
    Leaves host v A w₀ (deleteArchivedBlob record) fun _ => True := by
  unfold deleteArchivedBlob
  split
  · exact maintains_done trivial
  next archivePath hpath =>
    have harchive := h.archive archivePath hpath
    split
    · exact maintains_done trivial
    · apply maintains_catch
      · unfold deleteIfExists
        apply maintains_bind (leaves_archive harchive (.inl rfl))
        intro present _
        split
        · exact leaves_archive harchive (.inr (.inr rfl))
        · exact maintains_done trivial
      · intro e
        split
        · exact maintains_done trivial
        · exact maintains_raise _

theorem leaves_deleteFile {id : Uuid} {role : Option Role} (hprivate : s.fileSection ≠ .shared) :
    Leaves host v A w₀ (s.deleteFile u id role now) fun _ => True := by
  unfold deleteFile
  apply maintains_bind (leaves_getDownloadableRecord hu hprivate)
  intro record hrecord
  obtain ⟨hother, hid, howner⟩ := hrecord
  have hallowed : Leaves host v A w₀ (s.ensureCanDeleteRecord record u role) fun _ => True := by
    unfold ensureCanDeleteRecord
    split_ifs
    · exact maintains_raise _
    · exact maintains_done trivial
    · exact maintains_raise _
    · exact maintains_done trivial
  apply maintains_bind hallowed
  intro _ _
  have hobject : Leaves host v A w₀ (s.deleteObject record) fun _ => True := by
    unfold deleteObject
    split
    · exact leaves_deleteArchivedBlob hother
    · exact leaves_deleteIfExists hroot ha _
  apply maintains_bind hobject
  intro _ _
  rw [← hid]
  apply maintains_bind (leaves_delete hother.id)
  intro _ _
  apply maintains_bind (leaves_modify hother.owner)
  intro _ _
  apply leaves_removed
  intro id hmem
  rw [List.mem_singleton.1 hmem]
  exact hother.id

omit hroot ha hu in
theorem leaves_deleteRecords {records : List FileRecord} (h : ∀ r ∈ records, Other v w₀.db r) :
    Leaves host v A w₀ (deleteRecords records) fun _ => True := by
  induction records with
  | nil => exact maintains_done trivial
  | cons record records ih =>
    have hother := h record List.mem_cons_self
    have harchive : Leaves host v A w₀ (deleteArchive record) fun _ => True := by
      unfold deleteArchive
      split
      · exact leaves_deleteArchivedBlob hother
      · exact maintains_done trivial
    unfold deleteRecords
    apply maintains_bind harchive
    intro _ _
    apply maintains_bind (leaves_delete hother.id)
    exact fun _ _ => ih fun r hr => h r (List.mem_cons_of_mem _ hr)

theorem leaves_deleteDirectoryRecursive :
    Leaves host v A w₀ (s.deleteDirectoryRecursive u path now) fun _ => True := by
  unfold deleteDirectoryRecursive
  dsimp only
  split
  · exact maintains_raise _
  apply maintains_bind (leaves_store hroot ha _)
  intro present _
  split
  · exact maintains_raise _
  apply maintains_bind (leaves_isDirectory hroot ha)
  intro directory _
  split
  · exact maintains_raise _
  apply maintains_bind (leaves_ofExcept _)
  intro diskPrefix _
  apply maintains_bind (leaves_listActive hu)
  intro records hothers
  apply maintains_bind (leaves_store hroot ha _)
  intro _ _
  apply maintains_bind (leaves_deleteRecords hothers)
  intro _ _
  have hrelease : ∀ bytes, Leaves host v A w₀ (s.releaseBytes u bytes) fun _ => True := by
    intro bytes
    unfold releaseBytes
    split
    · exact maintains_done trivial
    · apply maintains_bind (leaves_modify hu)
      exact fun _ _ => maintains_done trivial
  apply maintains_bind (hrelease _)
  intro _ _
  have hremoved : Leaves host v A w₀ (s.queue.removed (records.map (·.id)) now) fun _ => True := by
    apply leaves_removed
    intro id hmem
    obtain ⟨r, hr, hid⟩ := List.mem_map.1 hmem
    rw [← hid]
    exact (hothers r hr).id
  apply maintains_bind hremoved
  exact fun _ _ => maintains_done trivial

theorem leaves_deleteByPath {role : Option Role} (hprivate : s.fileSection ≠ .shared) :
    Leaves host v A w₀ (s.deleteByPath u path role now) fun _ => True := by
  unfold deleteByPath
  apply maintains_bind (leaves_lookup hu hprivate)
  intro found _
  cases found with
  | some record => exact leaves_deleteFile hroot ha hu hprivate
  | none =>
    unfold deleteUntracked
    apply maintains_bind (leaves_store hroot ha _)
    intro present _
    split
    · exact maintains_raise _
    · apply maintains_bind (leaves_isDirectory hroot ha)
      intro directory _
      split
      · split
        · apply maintains_bind (leaves_deleteDirectoryRecursive hroot ha hu)
          exact fun _ _ => maintains_done trivial
        · exact leaves_store hroot ha _
      · exact leaves_store hroot ha _

end

/-! ### Photos and the private section -/

section
variable {s : PhotoService} {filename : Str} {size : Nat} {data : Bytes}
variable (hroot : Rooted s.adapter) (ha : A s.adapter) (hu : u ≠ v)
include hroot ha hu

theorem leaves_uploadPhoto :
    Leaves host v A w₀ (s.uploadPhoto u filename data size now) fun _ => True := by
  unfold PhotoService.uploadPhoto PhotoService.commitPhoto
  dsimp only
  split
  · exact maintains_raise _
  apply maintains_bind leaves_uuid4
  intro id _
  apply maintains_bind (leaves_create hu)
  intro record hrecord
  obtain ⟨hother, -⟩ := hrecord
  apply maintains_bind (leaves_ofExcept _)
  intro relative _
  apply maintains_catch
  · apply maintains_bind (leaves_store hroot ha _)
    intro checksum _
    apply maintains_bind (leaves_updateStatus hother.id)
    intro found hfound
    cases found with
    | none => exact maintains_raise _
    | some committed => exact leaves_settle s.queue committed (hfound committed rfl) hother.owner
  · intro e
    apply maintains_bind (leaves_deleteIfExists hroot ha _)
    intro _ _
    apply maintains_bind (leaves_delete hother.id)
    exact fun _ _ => maintains_raise e

omit hroot ha in
theorem leaves_photoRecord {id : Uuid} :
    Leaves host v A w₀ (PhotoService.getDownloadableRecord u id) fun r => Other v w₀.db r ∧ r.id = id := by
  unfold PhotoService.getDownloadableRecord
  have hquery : Leaves host v A w₀ (db (FileRepo.getById id))
      fun found => ∀ r, found = some r → r.userId = u → Other v w₀.db r ∧ r.id = id := by
    apply leaves_query (fun _ => rfl)
    intro d hd found hok r hr howner
    have hget : d.records.get id = found := Except.ok.inj hok
    rw [hr] at hget
    exact other_of_get hu hd hget howner
  apply maintains_bind hquery
  intro found hfound
  cases found with
  | none => exact maintains_raise _
  | some r =>
    dsimp only
    split
    · exact maintains_raise _
    · split
      · exact maintains_raise _
      next howner =>
        split
        · exact maintains_raise _
        · exact maintains_done (hfound r rfl (not_not.1 howner))

theorem leaves_deletePhoto {id : Uuid} :
    Leaves host v A w₀ (s.deletePhoto u id now) fun _ => True := by
  unfold PhotoService.deletePhoto
  apply maintains_bind (leaves_photoRecord hu)
  intro record hrecord
  obtain ⟨hother, hid⟩ := hrecord
  have hobject : Leaves host v A w₀ (s.deleteObject record) fun _ => True := by
    unfold PhotoService.deleteObject
    split
    · exact leaves_deleteArchivedBlob hother
    · exact leaves_deleteIfExists hroot ha _
  apply maintains_bind hobject
  intro _ _
  apply maintains_bind (leaves_deleteIfExists hroot ha _)
  intro _ _
  rw [← hid]
  apply maintains_bind (leaves_delete hother.id)
  intro _ _
  apply maintains_bind (leaves_modify hu)
  intro _ _
  apply leaves_removed
  intro id hmem
  rw [List.mem_singleton.1 hmem]
  exact hother.id

end

theorem leaves_resetPrivateStorage {settings : Settings} {inner : Adapter} (hroot : Rooted inner)
    (ha : A inner) (hu : u ≠ v) :
    Leaves host v A w₀ (resetPrivateStorage settings inner u) fun _ => True := by
  unfold resetPrivateStorage
  apply maintains_bind (leaves_store hroot ha _)
  intro _ _
  apply maintains_bind (P := fun _ => True)
  · apply maintains_catch (leaves_deleteIfExists hroot ha _)
    intro e
    split
    · exact maintains_done trivial
    · exact maintains_raise _
  · intro _ _
    apply maintains_bind (leaves_store hroot ha _)
    intro _ _
    apply maintains_bind (P := fun _ => True)
    · exact leaves_db fun d hd => ⟨hd.deleteAllByUserSection hu, fun _ _ => trivial⟩
    · intro _ _
      apply maintains_bind (leaves_modify hu)
      exact fun _ _ => maintains_done trivial

end
end WebStorage.Tenants
