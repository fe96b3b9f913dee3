import WebStorage.PathLookup
import WebStorage.QuotaBooks

set_option autoImplicit false

/-! Every operation keeps the quota books, but for three. -/
namespace WebStorage.QuotaBooks
open Effect Effect.Prog

section
attribute [local irreducible] Adapter.toDiskRelativePath
variable {α β : Type} {d t : Db} {record : FileRecord} {owner : Uuid} {now : Time}
variable {fileSection : FileSection} {bytes : Int} {u : Uuid} {c : Column}

theorem SameBooks.balanced (hs : SameBooks d t) (h : Balanced d) : Balanced t where
  exact u c := by
    have := h.exact u c
    simpa only [storedBytes, recordedBytes, hs.1, hs.2] using this
  size := hs.1 ▸ h.size
  row := by
    have hrow := h.row
    unfold Owners HasRow at *
    rw [hs.1, hs.2]
    exact hrow

theorem SameBooks.off (hs : SameBooks d t) (h : Off owner fileSection bytes d) :
    Off owner fileSection bytes t where
  drift u c := by
    have := h.drift u c
    simpa only [storedBytes, recordedBytes, hs.1, hs.2] using this
  size := hs.1 ▸ h.size

theorem SameBooks.owners (hs : SameBooks d t) (h : Owners (HasRow d) d) :
    Owners (HasRow t) t := by
  unfold Owners HasRow at *
  rw [hs.1, hs.2]
  exact h

theorem keeps_of_keepsBooks {p : FileM α} (hp : KeepsBooks p) (h : Balanced d) :
    dbWp p (fun _ t => Balanced t) d :=
  wp_mono (wp_keepsBooks hp) fun _ _ _ hs => SameBooks.balanced hs h

/-! ### Weights -/

theorem weight_downloadable (h : isDownloadable record) :
    weight u c record = due record.userId record.fileSection record.sizeBytes u c := by
  unfold weight due
  by_cases he : record.userId = u
  · subst he
    simp [h]
  · rw [if_neg (fun hw => he hw.1), if_neg (fun hd => he hd.1.symm)]

theorem weight_not_downloadable (h : isDownloadable record = false) : weight u c record = 0 := by
  rw [weight, if_neg]
  rintro ⟨-, hd, -⟩
  rw [h] at hd
  cases hd

theorem assign_get (id : Uuid) (f : FileRecord → FileRecord)
    (hget : d.records.get record.id = some record) (hid : record.id = id) :
    (FileRepo.assign id f d).1 = .ok (some { f record with id := record.id }) := by
  subst hid
  simp only [FileRepo.assign, RecordTable.get_update, hget]
  simp

/-! ### Uploads -/

theorem add_spec {t t' : RecordTable} {row : FileRecord} (h : t.add row = .ok t') :
    t'.rows = t.rows ++ [row] ∧ t'.get row.id = some row := by
  unfold RecordTable.add at h
  split at h
  · cases h
  · cases h
    have hmem : row ∈ t.rows ++ [row] := List.mem_append_right _ (List.mem_singleton_self row)
    exact ⟨rfl, RecordTable.get_of_mem hmem⟩

theorem create_ok {id userId : Uuid} {relativePath originalName : Str} {size : Int}
    {isEncrypted : Bool} {status : FileStatus}
    (hok : (FileRepo.create id userId relativePath originalName size isEncrypted fileSection
      status now d).1 = .ok record) :
    (∃ records, d.records.add record = .ok records ∧
      (FileRepo.create id userId relativePath originalName size isEncrypted fileSection
        status now d).2 = { d with records := records }) ∧
    record.id = id ∧ record.status = status ∧ record.sizeBytes = size ∧
      record.userId = userId ∧ record.fileSection = fileSection := by
  unfold FileRepo.create at hok ⊢
  dsimp only at hok ⊢
  split at hok
  · rename_i records hadd
    cases hok
    exact ⟨⟨records, hadd, rfl⟩, rfl, rfl, rfl, rfl, rfl⟩
  · cases hok

theorem create_error {id userId : Uuid} {relativePath originalName : Str} {size : Int}
    {isEncrypted : Bool} {status : FileStatus} {e : Exc}
    (herr : (FileRepo.create id userId relativePath originalName size isEncrypted fileSection
      status now d).1 = .error e) :
    (FileRepo.create id userId relativePath originalName size isEncrypted fileSection
      status now d).2 = d := by
  unfold FileRepo.create at herr ⊢
  dsimp only at herr ⊢
  split at herr
  · cases herr
  · rfl

/-- A new `PENDING` record counts for nothing. -/
theorem balanced_add {records : RecordTable} (h : Balanced d) (hp : record.status = .pending)
    (hsize : 0 ≤ record.sizeBytes) (hadd : d.records.add record = .ok records) :
    Balanced { d with records := records } := by
  have hrows := (add_spec hadd).1
  have hdown : isDownloadable record = false := by simp [isDownloadable, hp]
  refine ⟨?_, ?_, ?_⟩
  · intro u c
    have hexact := h.exact u c
    rw [stored_weight] at hexact ⊢
    dsimp only
    rw [hrows, List.map_append, List.sum_append, hexact, List.map_singleton, List.sum_singleton,
      weight_not_downloadable hdown, add_zero]
    rfl
  · intro r hr
    rw [hrows, List.mem_append, List.mem_singleton] at hr
    rcases hr with hr | rfl
    · exact h.size r hr
    · exact hsize
  · intro r hr hd
    dsimp only at hr
    rw [hrows, List.mem_append, List.mem_singleton] at hr
    rcases hr with hr | rfl
    · exact h.row r hr hd
    · rw [hdown] at hd
      cases hd

/-- The record becomes `COMMITTED` and its bytes are entered. -/
theorem balanced_commit (checksum : Option Digest) (relativePath originalName : Option Str)
    (limit : Int) (h : Balanced d) (hget : d.records.get record.id = some record)
    (hp : record.status = .pending) :
    Balanced (QuotaRepo.increment limit record.userId record.sizeBytes record.fileSection
      (FileRepo.updateStatus record.id .committed checksum relativePath originalName d).2).2 := by
  have hmem := (RecordTable.get_some hget).1
  have hdown : isDownloadable record = false := by simp [isDownloadable, hp]
  have hoff : Off record.userId record.fileSection (0 + record.sizeBytes)
      (FileRepo.updateStatus record.id .committed checksum relativePath originalName d).2 := by
    have hsize := h.size record hmem
    refine off_update_one (h.off _ _) hget hsize fun u c => ?_
    rw [weight_not_downloadable hdown, zero_add]
    exact weight_downloadable rfl
  rw [zero_add] at hoff
  refine balanced_adjust hoff ?_
  refine owners_update (fun r hr hd _ => h.row r hr hd) fun r hr hid => ⟨rfl, fun _ => ?_⟩
  right
  intro hne
  have hsame := RecordTable.eq_of_id hr hmem (by simpa using hid)
  exact absurd (by rw [hsame]) hne

theorem keeps_commitUpload (s : FileService) (finalPath : Str) (data : Bytes) {size : Nat}
    (now : Time) (h : Balanced d) (hget : d.records.get record.id = some record)
    (hp : record.status = .pending) (hsize : record.sizeBytes = size) :
    dbWp (s.commitUpload record finalPath data size now) (fun _ t => Balanced t) d := by
  simp only [FileService.commitUpload, FileService.toDisk, bind_eq, pure_eq]
  generalize s.adapter.toDiskRelativePath = toDisk
  refine bind_store (fun checksum => bind_store (fun _ => ?_) fun _ => h) fun _ => h
  refine bind_ofExcept (fun relativePath _ => ?_) fun _ => h
  refine bind_db (fun found hfound => ?_) fun e he => by cases he
  have hcommitted := assign_get record.id _ hget rfl ▸ hfound
  cases hcommitted
  dsimp only
  rw [← hsize]
  refine bind_db (fun usage _ => ?_) fun e he => by cases he
  have hbalanced := balanced_commit (some checksum) (some relativePath) none
    s.queue.settings.defaultUserQuotaBytes h hget hp
  refine bind_keepsBooks (keepsBooks_enqueueUpload _ _ _) (fun _ t hs => ?_) fun _ t hs => ?_
  · exact ⟨trivial, SameBooks.balanced hs hbalanced⟩
  · exact SameBooks.balanced hs hbalanced

/-- The program keeps the books however it ends. -/
abbrev Keeps (p : FileM α) (d : Db) : Prop := dbWp p (fun _ t => Balanced t) d

/-- The program keeps the books if it returns. -/
abbrev Settles (p : FileM α) (d : Db) : Prop := dbWp p (fun r t => ∀ a, r = .ok a → Balanced t) d

theorem Keeps.settles {p : FileM α} (h : Keeps p d) : Settles p d :=
  wp_mono h fun _ _ _ hb _ _ => hb

theorem settles_bind {p : FileM α} {k : α → FileM β} (hp : Settles p d)
    (hk : ∀ a t, Balanced t → Settles (k a) t) : Settles (p.bind k) d :=
  bind_spec hp (fun a t h => hk a t (h a rfl)) fun _ _ _ _ he => by cases he

theorem settles_raise (e : Exc) : Settles (raise e : FileM α) d :=
  ⟨trivial, fun _ he => by cases he⟩

theorem settles_done {a : α} (h : Balanced d) : Settles (done (.ok a) : FileM α) d :=
  ⟨trivial, fun _ _ => h⟩

/-- A part that only reads, stores objects or queues. -/
theorem settles_skip {p : FileM α} {k : α → FileM β} (hp : KeepsBooks p)
    (hk : ∀ a t, SameBooks d t → Settles (k a) t) : Settles (p.bind k) d :=
  bind_keepsBooks hp hk fun _ _ _ _ he => by cases he

theorem settles_uploadFile (s : FileService) (userId : Uuid) (path filename : Str) (data : Bytes)
    (size : Nat) (fileSection : FileSection) (now : Time) (h : Balanced d) :
    Settles (s.uploadFile userId path filename data size fileSection now) d := by
  simp only [FileService.uploadFile, FileService.toDisk, bind_eq]
  generalize s.adapter.toDiskRelativePath = toDisk
  refine bind_ofExcept (fun diskRelativePath _ => ?_) fun _ _ he => by cases he
  refine bind_uuid4 (fun id _ _ => ?_) fun _ _ he => by cases he
  refine bind_db (fun record hok => ?_) fun _ _ _ he => by cases he
  obtain ⟨⟨records, hadd, ht⟩, -, hp, hsize, -, -⟩ := create_ok hok
  rw [ht]
  have hnonneg : 0 ≤ record.sizeBytes := hsize ▸ Int.natCast_nonneg size
  have hget : ({ d with records := records } : Db).records.get record.id = some record :=
    (add_spec hadd).2
  have hcommit := keeps_commitUpload s (joinPath (normalizePath path) filename) data now
    (balanced_add h hp hnonneg hadd) hget hp hsize
  refine wp_catch_raise (wp_mono hcommit fun _ _ _ hb _ _ => hb) fun e => ?_
  exact fails_bind fun _ => fails_bind fun _ => trivial

theorem settles_uploadPhoto (s : PhotoService) (userId : Uuid) (filename : Str) (data : Bytes)
    (size : Nat) (now : Time) (h : Balanced d) :
    Settles (s.uploadPhoto userId filename data size now) d := by
  simp only [PhotoService.uploadPhoto, bind_eq]
  generalize s.adapter.toDiskRelativePath = toDisk
  split
  · exact settles_raise _
  refine bind_uuid4 (fun id _ _ => ?_) fun _ _ he => by cases he
  refine bind_db (fun record hok => ?_) fun _ _ _ he => by cases he
  obtain ⟨⟨records, hadd, ht⟩, -, hp, hsize, -, hsection⟩ := create_ok hok
  rw [ht]
  have hnonneg : 0 ≤ record.sizeBytes := hsize ▸ Int.natCast_nonneg size
  have hadded := balanced_add h hp hnonneg hadd
  have hget : ({ d with records := records } : Db).records.get record.id = some record :=
    (add_spec hadd).2
  refine bind_ofExcept (fun diskRelativePath _ => ?_) fun _ _ he => by cases he
  refine wp_catch_raise ?_ fun e => fails_bind fun _ => fails_bind fun _ => trivial
  simp only [PhotoService.commitPhoto, bind_eq, pure_eq]
  refine bind_store (fun checksum => ?_) fun _ _ he => by cases he
  refine bind_db (fun found hfound => ?_) fun e he => by cases he
  have hcommitted := assign_get record.id _ hget rfl ▸ hfound
  cases hcommitted
  dsimp only
  rw [← hsize, ← hsection]
  refine bind_db (fun usage _ => ?_) fun e he => by cases he
  have hbalanced := balanced_commit (some checksum) (some diskRelativePath) none
    s.queue.settings.defaultUserQuotaBytes hadded hget hp
  exact settles_skip (keepsBooks_enqueueUpload _ _ _) fun _ t hs =>
    settles_done (SameBooks.balanced hs hbalanced)

theorem keeps_extractEntry (s : FileService) (userId : Uuid) (sectionPath : Str) (info : ZipInfo)
    (now : Time) (h : Balanced d) : Keeps (s.extractEntry userId sectionPath info now) d := by
  simp only [FileService.extractEntry, FileService.toDisk, bind_eq, pure_eq]
  generalize s.adapter.toDiskRelativePath = toDisk
  refine bind_ofExcept (fun diskRelativePath _ => ?_) fun _ => h
  refine bind_uuid4 (fun id _ _ => ?_) fun _ => h
  refine bind_db (fun record hok => ?_) fun e he => ?_
  · obtain ⟨⟨records, hadd, ht⟩, -, hp, hsize, howner, hsection⟩ := create_ok hok
    rw [ht]
    have hnonneg : 0 ≤ record.sizeBytes := hsize ▸ Int.natCast_nonneg info.fileSize
    have hadded := balanced_add h hp hnonneg hadd
    have hget : ({ d with records := records } : Db).records.get record.id = some record :=
      (add_spec hadd).2
    refine bind_store (fun checksum => bind_store (fun _ => ?_) fun _ => hadded) fun _ => hadded
    refine bind_ofExcept (fun relativePath _ => ?_) fun _ => hadded
    refine bind_db (fun found hfound => ?_) fun e he => by cases he
    have hcommitted := assign_get record.id _ hget rfl ▸ hfound
    cases hcommitted
    dsimp only
    rw [← hsize, ← hsection, ← howner]
    refine bind_db (fun usage _ => ?_) fun e he => by cases he
    have hbalanced := balanced_commit (some checksum) (some relativePath) none
      s.queue.settings.defaultUserQuotaBytes hadded hget hp
    exact bind_keepsBooks (keepsBooks_enqueueUpload _ _ _)
      (fun _ t hs => ⟨trivial, SameBooks.balanced hs hbalanced⟩)
      fun _ t hs => SameBooks.balanced hs hbalanced
  · rw [create_error he]
    exact h

theorem keeps_extractAll (s : FileService) (userId : Uuid) (now : Time)
    (paths : List (Str × ZipInfo)) (created : List Str) (counts : Nat × Nat) (h : Balanced d) :
    Keeps (s.extractAll userId now paths created counts) d := by
  induction paths generalizing created counts d with
  | nil => exact ⟨trivial, h⟩
  | cons entry rest ih =>
    obtain ⟨sectionPath, info⟩ := entry
    obtain ⟨files, totalBytes⟩ := counts
    unfold FileService.extractAll
    split
    · exact ih _ _ h
    simp only [bind_eq]
    refine bind_keepsBooks (onlyStores_ensureParent _ _ _).keepsBooks (fun created t hs => ?_) fun _ t hs =>
      SameBooks.balanced hs h
    have hentry := keeps_extractEntry s userId sectionPath info now (SameBooks.balanced hs h)
    refine bind_attempt hentry fun r u hu => ?_
    split
    · exact ih _ _ hu
    · exact ih _ _ hu

theorem settles_uploadZipFolder (s : FileService) (userId : Uuid) (path zipFilename : Str)
    (zip : Option (List ZipInfo)) (total available : Int) (now : Time) (h : Balanced d) :
    Settles (s.uploadZipFolder userId path zipFilename zip total available now) d := by
  unfold FileService.uploadZipFolder
  split
  · exact settles_raise _
  split
  · exact settles_raise _
  · exact settles_raise _
  · simp only [bind_eq]
    refine bind_ofExcept (fun paths _ => ?_) fun _ _ he => by cases he
    refine settles_skip (keepsBooks_store _ _) fun _ t hs => ?_
    refine settles_skip (onlyStores_makeDirectories _ _ _).keepsBooks fun created u hu => ?_
    have hbalanced := SameBooks.balanced hu (SameBooks.balanced hs h)
    exact Keeps.settles (keeps_extractAll _ _ _ _ _ _ hbalanced)

/-! ### Lookups, overwrites and deletions -/

theorem balanced_lookedUp {s : FileService} {userId : Uuid} {sectionPath : Str}
    {x : Except Exc (Option FileRecord)} (h : Balanced d)
    (hx : LookedUp s userId sectionPath fileSection d x t) : Balanced t := by
  rcases hx with ⟨path, -, hx⟩ | ⟨e, -, -, rfl⟩
  · rcases x with e | _ | found
    · cases hx
      exact h
    · exact hx.1 ▸ h
    · obtain ⟨r, -, -, rfl⟩ := hx
      exact balanced_update h fun _ _ _ => ⟨rfl, rfl, rfl, rfl⟩
  · exact h

theorem keeps_lookup (s : FileService) (userId : Uuid) (sectionPath : Str)
    (fileSection : FileSection) (h : Balanced d) :
    Keeps (s.getRecordBySectionPath userId sectionPath fileSection) d :=
  wp_mono (lookup_spec s userId sectionPath fileSection d) fun _ _ _ hx => balanced_lookedUp h hx

theorem getDownloadableRecord_spec (s : FileService) (fileId actorId : Uuid) (d : Db) :
    dbWp (s.getDownloadableRecord fileId actorId) (fun x t => t = d ∧ ∀ r, x = .ok r →
      d.records.get r.id = some r ∧ r.id = fileId ∧ isDownloadable r) d := by
  simp only [FileService.getDownloadableRecord, bind_eq, pure_eq]
  refine bind_db (fun found hfound => ?_) fun _ he => by cases he
  have hget : d.records.get fileId = found := by
    cases hfound
    rfl
  cases found with
  | none => exact ⟨trivial, rfl, fun _ he => by cases he⟩
  | some record =>
    dsimp only
    split
    · exact ⟨trivial, rfl, fun _ he => by cases he⟩
    · rename_i hdown
      split
      · exact ⟨trivial, rfl, fun _ he => by cases he⟩
      · refine ⟨trivial, rfl, fun r he => ?_⟩
        cases he
        have hid := (RecordTable.get_some hget).2
        exact ⟨hid ▸ hget, hid, by simpa using hdown⟩

/-- A downloadable record is deleted and its bytes are taken off. -/
theorem balanced_delete (limit : Int) (h : Balanced d)
    (hget : d.records.get record.id = some record) (hdown : isDownloadable record) :
    Balanced (QuotaRepo.decrement limit record.userId record.sizeBytes record.fileSection
      (FileRepo.delete record.id d).2).2 := by
  have hmem := (RecordTable.get_some hget).1
  have hoff : Off record.userId record.fileSection (0 + -record.sizeBytes)
      (FileRepo.delete record.id d).2 := by
    refine off_update_one (h.off _ _) hget (h.size record hmem) fun u c => ?_
    rw [weight_downloadable hdown, ← due_add, add_neg_cancel, due_zero]
    exact weight_not_downloadable rfl
  rw [zero_add] at hoff
  refine balanced_adjust hoff ?_
  exact owners_update (fun r hr hd _ => h.row r hr hd) fun _ _ _ => ⟨rfl, fun hd => by cases hd⟩

theorem settles_deleteFile (s : FileService) (actorId fileId : Uuid) (actorRole : Option Role)
    (now : Time) (h : Balanced d) : Settles (s.deleteFile actorId fileId actorRole now) d := by
  simp only [FileService.deleteFile, bind_eq]
  refine bind_spec (getDownloadableRecord_spec s fileId actorId d) (fun record t ht => ?_)
    fun _ _ _ _ he => by cases he
  obtain ⟨rfl, hrecord⟩ := ht
  obtain ⟨hget, rfl, hdown⟩ := hrecord record rfl
  refine settles_skip (onlyStores_ensureCanDelete _ _ _ _).keepsBooks fun _ t hs => ?_
  refine settles_skip (onlyStores_deleteObject _ _).keepsBooks fun _ u hu => ?_
  have hbalanced := SameBooks.balanced hu (SameBooks.balanced hs h)
  have hget' : u.records.get record.id = some record := by rw [hu.1, hs.1, hget]
  refine bind_db (fun _ _ => ?_) fun _ _ _ he => by cases he
  refine bind_db (fun _ _ => ?_) fun _ _ _ he => by cases he
  have hdeleted := balanced_delete s.queue.settings.defaultUserQuotaBytes hbalanced hget' hdown
  exact Keeps.settles (keeps_of_keepsBooks (keepsBooks_enqueueRemoved _ _ _) hdeleted)

theorem photoRecord_spec (userId fileId : Uuid) (d : Db) :
    dbWp (PhotoService.getDownloadableRecord userId fileId) (fun x t => t = d ∧
      ∀ r, x = .ok r → d.records.get r.id = some r ∧ r.id = fileId ∧ isDownloadable r ∧
        r.userId = userId ∧ r.fileSection = .photos) d := by
  simp only [PhotoService.getDownloadableRecord, bind_eq, pure_eq]
  refine bind_db (fun found hfound => ?_) fun _ he => by cases he
  have hget : d.records.get fileId = found := by
    cases hfound
    rfl
  cases found with
  | none => exact ⟨trivial, rfl, fun _ he => by cases he⟩
  | some record =>
    dsimp only
    split_ifs with hdown howner hsection
    · exact ⟨trivial, rfl, fun _ he => by cases he⟩
    · exact ⟨trivial, rfl, fun _ he => by cases he⟩
    · exact ⟨trivial, rfl, fun _ he => by cases he⟩
    · refine ⟨trivial, rfl, fun r he => ?_⟩
      cases he
      have hid := (RecordTable.get_some hget).2
      exact ⟨hid ▸ hget, hid, by simpa using hdown, not_not.1 howner, not_not.1 hsection⟩

theorem settles_deletePhoto (s : PhotoService) (userId fileId : Uuid) (now : Time)
    (h : Balanced d) : Settles (s.deletePhoto userId fileId now) d := by
  simp only [PhotoService.deletePhoto, bind_eq]
  refine bind_spec (photoRecord_spec userId fileId d) (fun record t ht => ?_)
    fun _ _ _ _ he => by cases he
  obtain ⟨rfl, hrecord⟩ := ht
  obtain ⟨hget, rfl, hdown, rfl, hsection⟩ := hrecord record rfl
  have hobject : KeepsBooks (s.deleteObject record) := by
    unfold PhotoService.deleteObject
    split
    · exact (onlyStores_deleteArchivedBlob _).keepsBooks
    · exact (onlyStores_deleteIfExists _ _).keepsBooks
  refine settles_skip hobject fun _ t hs => ?_
  refine settles_skip (onlyStores_deleteIfExists _ _).keepsBooks fun _ u hu => ?_
  have hbalanced := SameBooks.balanced hu (SameBooks.balanced hs h)
  have hget' : u.records.get record.id = some record := by rw [hu.1, hs.1, hget]
  refine bind_db (fun _ _ => ?_) fun _ _ _ he => by cases he
  refine bind_db (fun _ _ => ?_) fun _ _ _ he => by cases he
  have hdeleted := balanced_delete s.queue.settings.defaultUserQuotaBytes hbalanced hget' hdown
  rw [hsection] at hdeleted
  exact Keeps.settles (keeps_of_keepsBooks (keepsBooks_enqueueRemoved _ _ _) hdeleted)

/-- The records of a directory are deleted: their bytes are still to be taken off. -/
theorem off_deleteRecords (records : List FileRecord) (hnodup : (records.map (·.id)).Nodup)
    (h : Off owner fileSection bytes d) (hrow : Owners (HasRow d) d)
    (hrecords : ∀ r ∈ records, d.records.get r.id = some r ∧ isDownloadable r ∧
      r.userId = owner ∧ r.fileSection = fileSection) :
    dbWp (FileService.deleteRecords records) (fun x t => ∀ a, x = .ok a →
      Off owner fileSection (bytes - (records.map (·.sizeBytes)).sum) t ∧
        Owners (HasRow t) t ∧ t.quotas = d.quotas) d := by
  induction records generalizing bytes d with
  | nil => exact ⟨trivial, fun _ _ => ⟨by simpa using h, hrow, rfl⟩⟩
  | cons record rest ih =>
    rw [List.map_cons, List.nodup_cons] at hnodup
    obtain ⟨hget, hdown, howner, hsection⟩ := hrecords record List.mem_cons_self
    simp only [FileService.deleteRecords, bind_eq]
    have hblob : KeepsBooks (FileService.deleteArchive record) := by
      unfold FileService.deleteArchive
      split
      · exact (onlyStores_deleteArchivedBlob _).keepsBooks
      · trivial
    refine bind_keepsBooks hblob (fun _ t hs => ?_) fun _ _ _ _ he => (by cases he)
    refine bind_db (fun _ _ => ?_) fun _ _ _ he => by cases he
    have hoff : Off owner fileSection (bytes + -record.sizeBytes)
        (FileRepo.delete record.id t).2 := by
      refine off_update_one (SameBooks.off hs h) (hs.1 ▸ hget)
        (h.size record (RecordTable.get_some hget).1) fun u c => ?_
      rw [weight_downloadable hdown, howner, hsection, ← due_add, add_neg_cancel, due_zero]
      exact weight_not_downloadable rfl
    have howners : Owners (HasRow t) t := SameBooks.owners hs hrow
    have hrow' : Owners (HasRow (FileRepo.delete record.id t).2)
        (FileRepo.delete record.id t).2 :=
      owners_update howners fun _ _ _ => ⟨rfl, fun hd => by cases hd⟩
    refine wp_mono (ih hnodup.2 hoff hrow' fun r hr => ?_) fun x u _ hu a ha => ?_
    · obtain ⟨hget', hrest⟩ := hrecords r (List.mem_cons_of_mem _ hr)
      have hne : r.id ≠ record.id := fun he => hnodup.1 (he ▸ List.mem_map_of_mem hr)
      have hkept : (FileRepo.delete record.id t).2.records.get r.id = some r := by
        simp only [FileRepo.delete, FileRepo.assign, RecordTable.get_update, hs.1, hget',
          Option.map_some, hne, decide_false, Bool.false_eq_true, if_false]
      exact ⟨hkept, hrest⟩
    · obtain ⟨hoff', howners', hquotas⟩ := hu a ha
      refine ⟨?_, howners', hquotas.trans hs.2⟩
      rw [List.map_cons, List.sum_cons]
      convert hoff' using 1
      ring

theorem settles_deleteDirectoryRecursive (s : FileService) (userId : Uuid) (path : Str)
    (now : Time) (h : Balanced d) :
    Settles (s.deleteDirectoryRecursive userId path now) d := by
  simp only [FileService.deleteDirectoryRecursive, FileService.toDisk, bind_eq, pure_eq]
  generalize s.adapter.toDiskRelativePath = toDisk
  split
  · exact settles_raise _
  refine settles_skip (keepsBooks_store _ _) fun present t hs => ?_
  split
  · exact settles_raise _
  refine settles_skip (onlyStores_isDirectory _ _).keepsBooks fun directory u hu => ?_
  split
  · exact settles_raise _
  refine bind_ofExcept (fun diskPrefix _ => ?_) fun _ _ he => by cases he
  refine bind_db (fun records hrecords => ?_) fun _ _ _ he => by cases he
  have hbalanced := SameBooks.balanced hu (SameBooks.balanced hs h)
  have hlist : ∀ r ∈ records, u.records.get r.id = some r ∧ isDownloadable r ∧
      r.userId = userId ∧ r.fileSection = s.fileSection := by
    intro r hr
    cases hrecords
    simp only [inScope, Option.all_some, List.mem_filter, Bool.and_eq_true, beq_iff_eq,
      decide_eq_true_eq] at hr
    exact ⟨RecordTable.get_of_mem hr.1, hr.2.1.2, hr.2.1.1.1.symm, hr.2.1.1.2⟩
  have hnodup : (records.map (·.id)).Nodup := by
    cases hrecords
    exact u.records.id_unique.sublist (List.filter_sublist.map _)
  refine bind_store (fun _ => ?_) fun _ _ he => by cases he
  have hoff := off_deleteRecords records hnodup (hbalanced.off userId s.fileSection)
    hbalanced.row hlist
  refine bind_spec hoff (fun _ v hv => ?_) fun _ _ _ _ he => by cases he
  obtain ⟨hoff', howners, -⟩ := hv () rfl
  rw [zero_sub] at hoff'
  have hrelease : Settles (s.releaseBytes userId (records.map (·.sizeBytes)).sum) v := by
    unfold FileService.releaseBytes
    split
    · rename_i hzero
      rw [hzero, neg_zero] at hoff'
      exact settles_done (hoff'.balanced howners)
    · exact bind_db (fun _ _ => settles_done (balanced_adjust hoff' fun r hr hd _ =>
        howners r hr hd)) fun _ _ _ he => by cases he
  refine settles_bind hrelease fun _ w hw => ?_
  exact settles_skip (keepsBooks_enqueueRemoved _ _ _) fun _ x hx =>
    settles_done (SameBooks.balanced hx hw)

theorem settles_deleteUntracked (s : FileService) (actorId : Uuid) (normalized : Str)
    (now : Time) (h : Balanced d) : Settles (s.deleteUntracked actorId normalized now) d := by
  simp only [FileService.deleteUntracked, bind_eq, pure_eq]
  refine settles_skip (keepsBooks_store _ _) fun present t ht => ?_
  have hd : Balanced t := SameBooks.balanced ht h
  have hstore : ∀ u, SameBooks t u → Settles (store s.adapter (.delete normalized)) u :=
    fun u hu => Keeps.settles (keeps_of_keepsBooks (keepsBooks_store _ _) (SameBooks.balanced hu hd))
  split
  · exact settles_raise _
  refine settles_skip (onlyStores_isDirectory _ _).keepsBooks fun directory u hu => ?_
  split
  · split
    · have hdelete := settles_deleteDirectoryRecursive s actorId normalized now
        (SameBooks.balanced hu hd)
      exact settles_bind hdelete fun _ _ hv => settles_done hv
    · exact hstore u hu
  · exact hstore u hu

theorem settles_deleteByPath (s : FileService) (actorId : Uuid) (path : Str)
    (actorRole : Option Role) (now : Time) (h : Balanced d) :
    Settles (s.deleteByPath actorId path actorRole now) d := by
  simp only [FileService.deleteByPath, bind_eq]
  generalize normalizePath path = normalized
  have hlookup := keeps_lookup s actorId normalized s.fileSection h
  refine settles_bind (Keeps.settles hlookup) fun found t ht => ?_
  cases found with
  | some record => exact settles_deleteFile s actorId record.id actorRole now ht
  | none => exact settles_deleteUntracked s actorId normalized now ht

theorem balanced_getByUserId (limit : Int) (userId : Uuid) (h : Balanced d) :
    Balanced (QuotaRepo.getByUserId limit userId d).2 ∧
      (QuotaRepo.getByUserId limit userId d).2.records = d.records := by
  unfold QuotaRepo.getByUserId
  cases hrow : d.quotas.lookup userId with
  | some usage => exact ⟨h, rfl⟩
  | none =>
    refine ⟨⟨fun u c => ?_, h.size, fun r hr hd => ?_⟩, rfl⟩
    · have hexact := h.exact u c
      dsimp only
      rw [recorded_insert]
      split
      · rename_i hu
        rw [of_newUsage]
        rw [hu, recordedBytes, hrow] at hexact
        exact hu ▸ hexact
      · exact hexact
    · have hr' : HasRow d r.userId := h.row r hr hd
      have hne : r.userId ≠ userId := by
        intro he
        rw [HasRow, he, hrow] at hr'
        cases hr'
      unfold HasRow
      rw [AList.lookup_insert_ne hne]
      exact hr'

theorem ensureOverwriteQuota_spec (s : FileService) (userId : Uuid) (extraBytes : Int)
    (fileSection : FileSection) (h : Balanced d) :
    dbWp (s.ensureOverwriteQuota userId extraBytes fileSection)
      (fun _ t => Balanced t ∧ t.records = d.records) d := by
  unfold FileService.ensureOverwriteQuota
  split
  · exact ⟨trivial, h, rfl⟩
  · have hget := balanced_getByUserId s.queue.settings.defaultUserQuotaBytes userId h
    simp only [bind_eq]
    refine bind_db (fun usage _ => ?_) fun e he => hget
    split_ifs <;> exact ⟨trivial, hget⟩

/-- The change of an overwrite is entered for `userId`. -/
theorem settles_chargeDelta (s : FileService) (userId : Uuid) {delta : Int}
    (h : Off owner fileSection delta d) (hrow : Owners (HasRow d) d)
    (hcharged : owner = userId ∨ delta = 0) :
    Settles (s.chargeDelta userId delta fileSection) d := by
  have hzero : delta = 0 → Balanced d := fun hz => (hz ▸ h).balanced hrow
  unfold FileService.chargeDelta
  split
  · rename_i hpos
    have howner := hcharged.resolve_right (by omega)
    refine bind_db (fun _ _ => settles_done ?_) fun _ _ _ he => by cases he
    exact balanced_adjust (howner ▸ h) fun r hr hd _ => hrow r hr hd
  split
  · rename_i hneg
    have howner := hcharged.resolve_right (by omega)
    refine bind_db (fun _ _ => settles_done ?_) fun _ _ _ he => by cases he
    have hback : Off userId fileSection (- -delta) d := by
      rw [neg_neg]
      exact howner ▸ h
    rw [neg_neg] at hback
    show Balanced (QuotaRepo.modify _ userId (QuotaRepo.adjust (- -delta) fileSection) d).2
    rw [neg_neg]
    exact balanced_adjust hback fun r hr hd _ => hrow r hr hd
  · exact settles_done (hzero (by omega))

theorem settles_commitOverwrite (s : FileService) (userId : Uuid) (finalPath : Str)
    (data : Bytes) (size : Nat) (now : Time) (h : Balanced d)
    (hget : d.records.get record.id = some record) (hdown : isDownloadable record)
    (hcharged : record.userId = userId ∨ record.sizeBytes = size) :
    Settles (s.commitOverwrite userId record finalPath data size record.fileSection now) d := by
  simp only [FileService.commitOverwrite, bind_eq, pure_eq]
  refine settles_skip (keepsBooks_store _ _) fun checksum t ht => ?_
  refine settles_skip (onlyStores_deleteIfExists _ _).keepsBooks fun _ u hu => ?_
  refine settles_skip (keepsBooks_store _ _) fun _ v hv => ?_
  have hbalanced := SameBooks.balanced hv (SameBooks.balanced hu (SameBooks.balanced ht h))
  have hget' : v.records.get record.id = some record := by rw [hv.1, hu.1, ht.1, hget]
  refine bind_db (fun found hfound => ?_) fun _ _ _ he => by cases he
  have hupdated := assign_get record.id _ hget' rfl ▸ hfound
  cases hupdated
  -- the record now weighs `size`, and its owner's row still says the old size
  have hoff : Off record.userId record.fileSection (0 + ((size : Int) - record.sizeBytes))
      (FileRepo.updateSize record.id size (some checksum) v).2 := by
    refine off_update_one (hbalanced.off _ _) hget' (Int.natCast_nonneg size) fun u c => ?_
    rw [weight_downloadable hdown, ← due_add, add_sub_cancel]
    exact weight_downloadable hdown
  rw [zero_add] at hoff
  have hrow : Owners (HasRow (FileRepo.updateSize record.id size (some checksum) v).2)
      (FileRepo.updateSize record.id size (some checksum) v).2 :=
    owners_update hbalanced.row fun _ _ _ => ⟨rfl, fun hd => .inl hd⟩
  have hcharge := settles_chargeDelta s userId hoff hrow (hcharged.imp id fun he => by omega)
  refine settles_bind hcharge fun _ w hw => ?_
  exact settles_skip (keepsBooks_enqueueContentChanged _ _ _) fun _ x hx =>
    settles_done (SameBooks.balanced hx hw)

/-- The record that an overwrite would replace is the actor's, or keeps its size. -/
def ChargesOwner (s : FileService) (userId : Uuid) (path filename : Str) (size : Nat)
    (fileSection : FileSection) (d : Db) : Prop :=
  ∀ diskPath r, s.adapter.toDiskRelativePath (joinPath (normalizePath path) filename) =
    .ok diskPath → Addressed d.records.rows (lookupOwner userId fileSection) fileSection diskPath
      (Text.name (joinPath (normalizePath path) filename)) r →
    r.userId = userId ∨ r.sizeBytes = size

theorem settles_overwriteFile (s : FileService) (userId : Uuid) (path filename : Str)
    (data : Bytes) (size : Nat) (fileSection : FileSection) (now : Time) (h : Balanced d)
    (hcharged : ChargesOwner s userId path filename size fileSection d) :
    Settles (s.overwriteFile userId path filename data size fileSection now) d := by
  simp only [FileService.overwriteFile, bind_eq]
  unfold ChargesOwner at hcharged
  generalize joinPath (normalizePath path) filename = finalPath at hcharged ⊢
  refine bind_spec (lookup_spec s userId finalPath fileSection d) (fun found t ht => ?_)
    fun _ _ _ _ he => by cases he
  have hbalanced : Balanced t := balanced_lookedUp h ht
  cases found <;> dsimp only
  case none => exact settles_uploadFile s userId path filename data size fileSection now hbalanced
  case some existing =>
    obtain ⟨diskPath, hdisk, r, haddr, rfl, rfl⟩ := ht.resolve_right fun ⟨_, _, he, _⟩ => by cases he
    have hmem := haddr.spec.1
    have hget := get_afterLookup diskPath hmem
    have hsection : fileSection = (movedTo diskPath r).fileSection := haddr.section_eq.symm
    refine bind_spec (ensureOverwriteQuota_spec s userId _ fileSection hbalanced)
      (fun _ u hu => ?_) fun _ _ _ _ he => by cases he
    have hcommit : Settles (s.commitOverwrite userId (movedTo diskPath r) finalPath data size
        fileSection now) u := by
      rw [hsection]
      refine settles_commitOverwrite s userId finalPath data size now hu.1 ?_ haddr.spec.2.2 ?_
      · rw [hu.2]
        exact hget
      · exact hcharged diskPath r hdisk haddr
    exact wp_catch_raise hcommit fun e => fails_bind fun _ => trivial

/-! ### Renames and reads -/

theorem settles_rename (s : FileService) (actorId fileId : Uuid) (newName : Str) (now : Time)
    (h : Balanced d) : Settles (s.rename actorId fileId newName now) d := by
  simp only [FileService.rename, FileService.toDisk, bind_eq, pure_eq]
  refine bind_spec (getDownloadableRecord_spec s fileId actorId d) (fun record t ht => ?_)
    fun _ _ _ _ he => by cases he
  obtain ⟨rfl, hrecord⟩ := ht
  obtain ⟨hget, rfl, -⟩ := hrecord record rfl
  split
  · exact settles_raise _
  refine settles_skip (keepsBooks_store _ _) fun _ u hu => ?_
  refine bind_ofExcept (fun relativePath _ => ?_) fun _ _ he => by cases he
  refine bind_db (fun found hfound => ?_) fun _ _ _ he => by cases he
  have hmem : ∀ r ∈ u.records.rows, r.id = record.id → r = record := by
    rw [hu.1]
    exact fun r hr hid => RecordTable.eq_of_id hr (RecordTable.get_some hget).1 hid
  have hbalanced := balanced_update (p := (·.id = record.id))
    (f := fun model => { model with
      status := record.status
      checksumSha256 := none <|> model.checksumSha256
      relativePath := (some relativePath).getD model.relativePath
      originalName := (some newName).getD model.originalName }) (SameBooks.balanced hu h)
    fun r hr hid => by
      have hsame := hmem r hr (by simpa using hid)
      subst hsame
      exact ⟨rfl, rfl, rfl, rfl⟩
  cases found with
  | none => exact settles_raise _
  | some updated =>
    exact settles_skip (keepsBooks_enqueueRekey _ _ _) fun _ v hv =>
      settles_done (SameBooks.balanced hv hbalanced)

theorem balanced_movePrefix (owner : Option Uuid) (fileSection : FileSection) (oldPrefix newPrefix : Str) (h : Balanced d) :
    Balanced (FileRepo.movePrefix owner fileSection oldPrefix newPrefix d).2 :=
  balanced_update h fun _ _ _ => ⟨rfl, rfl, rfl, rfl⟩

theorem settles_renameDirectory (s : FileService) (userId : Uuid) (normalized newPath : Str)
    (now : Time) (h : Balanced d) :
    Settles (s.renameDirectory userId normalized newPath now) d := by
  simp only [FileService.renameDirectory, FileService.toDisk, bind_eq, pure_eq]
  refine bind_ofExcept (fun oldDiskPrefix _ => ?_) fun _ _ he => by cases he
  refine bind_ofExcept (fun newDiskPrefix _ => ?_) fun _ _ he => by cases he
  refine settles_skip (keepsBooks_store _ _) fun _ t ht => ?_
  have hbalanced := SameBooks.balanced ht h
  split
  · refine bind_db (fun _ _ => settles_done ?_) fun _ _ _ he => by cases he
    exact balanced_movePrefix none s.fileSection oldDiskPrefix newDiskPrefix hbalanced
  · refine bind_db (fun _ _ => ?_) fun _ _ _ he => by cases he
    have hmoved := balanced_movePrefix (some userId) s.fileSection oldDiskPrefix newDiskPrefix
      hbalanced
    have hqueue : KeepsBooks (s.enqueueRenamedDescendants userId newDiskPrefix now) := by
      unfold FileService.enqueueRenamedDescendants
      split
      · exact all_issue_bind (fun _ => ⟨rfl, rfl⟩) fun _ _ => keepsBooks_enqueueRekeyMany _ _ _
      · trivial
    exact Keeps.settles (keeps_of_keepsBooks hqueue hmoved)

theorem settles_renameByPath (s : FileService) (userId : Uuid) (path newName : Str) (now : Time)
    (h : Balanced d) : Settles (s.renameByPath userId path newName now) d := by
  simp only [FileService.renameByPath, bind_eq, pure_eq]
  generalize normalizePath path = normalized
  refine settles_skip (keepsBooks_store _ _) fun present t ht => ?_
  split
  · exact settles_raise _
  refine settles_skip (onlyStores_isDirectory _ _).keepsBooks fun directory u hu => ?_
  have hbalanced := SameBooks.balanced hu (SameBooks.balanced ht h)
  split
  · have hdirectory := settles_renameDirectory s userId normalized
      (FileService.sibling normalized newName) now hbalanced
    exact settles_bind hdirectory fun _ _ hv => settles_done hv
  · have hlookup := keeps_lookup s userId normalized s.fileSection hbalanced
    refine settles_bind (Keeps.settles hlookup) fun found v hv => ?_
    cases found with
    | none => exact settles_raise _
    | some record =>
      exact settles_bind (settles_rename s userId record.id newName now hv) fun _ _ hw =>
        settles_done hw

theorem settles_readByPath (s : FileService) (actorId : Uuid) (path : Str) (now : Time)
    (h : Balanced d) : Settles (s.readByPath actorId path now) d := by
  simp only [FileService.readByPath, FileService.recordToRead, bind_eq, pure_eq]
  generalize normalizePath path = normalized
  have hfound : ∀ v, Balanced v → Settles (FileService.recordToRead s actorId normalized) v := by
    intro v hv
    simp only [FileService.recordToRead, bind_eq, pure_eq]
    have hlookup := keeps_lookup s actorId normalized s.fileSection hv
    refine settles_bind (Keeps.settles hlookup) fun found t ht => ?_
    cases found <;> dsimp only
    case some record => exact settles_done ht
    case none =>
      split
      · have hstripped := keeps_lookup s actorId
          (normalized.take (normalized.length - archiveExtension.length)) s.fileSection ht
        exact Keeps.settles hstripped
      · exact settles_done ht
  simp only [FileService.recordToRead, bind_eq, pure_eq] at hfound
  refine settles_bind (hfound d h) fun found t ht => ?_
  cases found <;> dsimp only
  case none => exact Keeps.settles (keeps_of_keepsBooks (keepsBooks_store _ _) ht)
  case some record =>
    have hread : KeepsBooks (s.readRecord record normalized) := by
      unfold FileService.readRecord
      split
      · exact (onlyStores_streamArchived _ _).keepsBooks
      · exact keepsBooks_store _ _
    refine settles_skip hread fun _ u hu => ?_
    refine bind_db (fun _ _ => settles_done ?_) fun _ _ _ he => by cases he
    exact balanced_update (SameBooks.balanced hu ht) fun _ _ _ => ⟨rfl, rfl, rfl, rfl⟩

/-! ### Jobs -/

/-- Whatever rows the ids have, they are downloadable. -/
def StillThere (records : List FileRecord) (d : Db) : Prop :=
  ∀ record ∈ records, ∀ r ∈ d.records.rows, r.id = record.id → isDownloadable r

theorem balanced_markArchived {records : List FileRecord} (archivePath : Str) (h : Balanced d)
    (hthere : StillThere (record :: records) d) :
    Balanced (FileRepo.markArchived record.id archivePath d).2 ∧
      StillThere records (FileRepo.markArchived record.id archivePath d).2 := by
  constructor
  · refine balanced_update h fun r hr hid => ⟨rfl, rfl, rfl, ?_⟩
    rw [hthere record List.mem_cons_self r hr (by simpa using hid)]
    rfl
  · intro other hother r hr hid
    obtain ⟨r₀, hr₀, ⟨-, rfl⟩ | ⟨-, rfl⟩⟩ := mem_updated hr
    · rfl
    · exact hthere other (List.mem_cons_of_mem _ hother) r hr₀ hid

theorem archiveRecord_spec (s : ArchiveService) {records : List FileRecord} (h : Balanced d)
    (hthere : StillThere (record :: records) d) :
    dbWp (s.archiveRecord record now) (fun _ t => Balanced t ∧ StillThere records t) d := by
  have hrest : StillThere records d := fun other hother =>
    hthere other (List.mem_cons_of_mem _ hother)
  have hsame : ∀ t, SameBooks d t → Balanced t ∧ StillThere records t := fun t ht =>
    ⟨SameBooks.balanced ht h, by
      unfold StillThere
      rw [ht.1]
      exact hrest⟩
  simp only [ArchiveService.archiveRecord, bind_eq, pure_eq]
  refine bind_store (fun present => ?_) fun _ => ⟨h, hrest⟩
  split
  · exact ⟨trivial, h, hrest⟩
  refine bind_store (fun source => bind_store (fun _ => bind_store (fun _ => ?_)
    fun _ => ⟨h, hrest⟩) fun _ => ⟨h, hrest⟩) fun _ => ⟨h, hrest⟩
  have hmarked := balanced_markArchived (ArchiveService.archivePathOf record) h hthere
  refine bind_db (fun found _ => ?_) fun e he => by cases he
  cases found with
  | none => exact ⟨trivial, hmarked⟩
  | some updated =>
    have hafter : ∀ t, SameBooks (FileRepo.markArchived record.id
        (ArchiveService.archivePathOf record) d).2 t → Balanced t ∧ StillThere records t :=
      fun t ht => ⟨SameBooks.balanced ht hmarked.1, by
        unfold StillThere
        rw [ht.1]
        exact hmarked.2⟩
    exact bind_keepsBooks (keepsBooks_enqueueArchived _ _ _)
      (fun _ t ht => ⟨trivial, hafter t ht⟩) fun _ t ht => hafter t ht

theorem keeps_archiveAll (s : ArchiveService) (records : List FileRecord) (report : ArchiveReport)
    (h : Balanced d) (hthere : StillThere records d) :
    Keeps (s.archiveAll now records report) d := by
  induction records generalizing d report with
  | nil => exact ⟨trivial, h⟩
  | cons record records ih =>
    simp only [ArchiveService.archiveAll, bind_eq]
    refine bind_attempt (archiveRecord_spec s h hthere) fun r t ht => ?_
    split <;> exact ih _ ht.1 ht.2

theorem settles_runDailyArchive (s : ArchiveService) (now : Time) (h : Balanced d) :
    Settles (s.runDailyArchive now) d := by
  simp only [ArchiveService.runDailyArchive, bind_eq, pure_eq]
  refine bind_db (fun candidates hcandidates => ?_) fun _ _ _ he => by cases he
  have hthere : StillThere candidates d := by
    cases hcandidates
    intro candidate hc r hr hid
    have hc' := (List.mem_filter.1 hc)
    rw [RecordTable.eq_of_id hr hc'.1 hid]
    have hstatus := hc'.2
    simp only [Bool.and_eq_true, decide_eq_true_eq] at hstatus
    simp [isDownloadable, hstatus.1.2]
  refine settles_bind (Keeps.settles (keeps_archiveAll s candidates _ h hthere))
    fun report t ht => ?_
  refine bind_db (fun archived _ => ?_) fun _ _ _ he => by cases he
  exact settles_skip (onlyStores_totalArchivedBytes _ _).keepsBooks fun _ u hu =>
    settles_done (SameBooks.balanced hu ht)

theorem weight_remove {rows : List FileRecord} {id : Uuid}
    (h : ∀ r ∈ rows, r.id = id → weight u c r = 0) :
    ((rows.filter fun r => !decide (r.id = id)).map (weight u c)).sum = (rows.map (weight u c)).sum := by
  induction rows with
  | nil => rfl
  | cons r rest ih =>
    have hrest := ih fun r' hr' => h r' (List.mem_cons_of_mem _ hr')
    by_cases he : r.id = id
    · rw [List.filter_cons_of_neg (by simpa using he), hrest, List.map_cons, List.sum_cons,
        h r List.mem_cons_self he, zero_add]
    · rw [List.filter_cons_of_pos (by simpa using he), List.map_cons, List.sum_cons, hrest,
        List.map_cons, List.sum_cons]

/-- Whatever rows the ids have, they are not downloadable. -/
def StillPending (records : List FileRecord) (d : Db) : Prop :=
  ∀ record ∈ records, ∀ r ∈ d.records.rows, r.id = record.id → isDownloadable r = false

theorem balanced_hardDelete {records : List FileRecord} (h : Balanced d)
    (hpending : StillPending (record :: records) d) :
    Balanced (FileRepo.hardDelete record.id d).2 ∧
      StillPending records (FileRepo.hardDelete record.id d).2 := by
  have hsub : ∀ r, r ∈ (FileRepo.hardDelete record.id d).2.records.rows → r ∈ d.records.rows :=
    fun r hr => (List.mem_filter.1 hr).1
  refine ⟨⟨fun u c => ?_, fun r hr => h.size r (hsub r hr), fun r hr => h.row r (hsub r hr)⟩,
    fun other hother r hr => hpending other (List.mem_cons_of_mem _ hother) r (hsub r hr)⟩
  have hexact := h.exact u c
  rw [stored_weight] at hexact ⊢
  have hweightless : ∀ r ∈ d.records.rows, r.id = record.id → weight u c r = 0 := fun r hr hid =>
    weight_not_downloadable (hpending record List.mem_cons_self r hr hid)
  exact (weight_remove hweightless).trans hexact

theorem keeps_cleanupAll (records : List FileRecord) (deleted : Nat) (h : Balanced d)
    (hpending : StillPending records d) : Keeps (Maintenance.cleanupAll records deleted) d := by
  induction records generalizing d deleted with
  | nil => exact ⟨trivial, h⟩
  | cons record records ih =>
    have hdelete : dbWp (do
        Maintenance.deleteTmpFile record
        db (FileRepo.hardDelete record.id))
        (fun _ t => Balanced t ∧ StillPending records t) d := by
      have htmp : KeepsBooks (Maintenance.deleteTmpFile record) :=
        keepsBooks_catch (onlyStores_deleteIfExists _ _).keepsBooks fun e => by split <;> trivial
      have hsame : ∀ t, SameBooks d t → Balanced t ∧ StillPending (record :: records) t :=
        fun t ht => ⟨SameBooks.balanced ht h, by
          unfold StillPending
          rw [ht.1]
          exact hpending⟩
      refine bind_keepsBooks htmp (fun _ t ht => ?_) fun _ t ht => ?_
      · obtain ⟨hb, hp⟩ := hsame t ht
        exact dbWp_db (balanced_hardDelete hb hp)
      · obtain ⟨hb, hp⟩ := hsame t ht
        exact ⟨hb, fun other hother => hp other (List.mem_cons_of_mem _ hother)⟩
    simp only [Maintenance.cleanupAll, bind_eq]
    refine bind_attempt hdelete fun r t ht => ?_
    split <;> exact ih _ ht.1 ht.2

theorem settles_cleanupPendingRecords (now : Time) (h : Balanced d) :
    Settles (Maintenance.cleanupPendingRecords now) d := by
  simp only [Maintenance.cleanupPendingRecords, bind_eq]
  refine bind_db (fun stale hstale => ?_) fun _ _ _ he => by cases he
  have hpending : StillPending stale d := by
    cases hstale
    intro candidate hc r hr hid
    have hc' := List.mem_filter.1 hc
    rw [RecordTable.eq_of_id hr hc'.1 hid]
    have hstatus := hc'.2
    simp only [Bool.and_eq_true, decide_eq_true_eq] at hstatus
    simp [isDownloadable, hstatus.1]
  exact Keeps.settles (keeps_cleanupAll stale 0 h hpending)

end
end WebStorage.QuotaBooks
