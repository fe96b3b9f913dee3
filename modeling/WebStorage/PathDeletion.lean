import WebStorage.EncryptedPaths

set_option autoImplicit false

/-! What a deletion by path removes: the objects, the records and the bytes of the quotas. -/
namespace WebStorage.PathDeletion
open Effect Effect.Prog S3 FileService UserRemoval

attribute [local irreducible] Adapter.toDiskRelativePath normalizePath objectKey

/-! ### What each part of a deletion does -/

/-- The key of the object of a record: its archive blob, or the object at its path. -/
def heldKey (r : FileRecord) : Option Str := keyAt diskRootAdapter (storedPath r)

/-- The key that the deletion of a record takes. -/
def fileKey (host : Host) (s : FileService) (r : FileRecord) (b : Bucket) : Option Str :=
  if r.isArchived then heldKey r else foundAt host s.adapter (toSectionPath s r) b

/-- The records with these ids are marked as deleted. -/
def MarkedDeleted (ids : List Uuid) (d t : Db) : Prop :=
  ∀ id, t.records.get id = (d.records.get id).map fun r =>
    if id ∈ ids then { r with status := .deleted } else r

section
variable {host : Host} {s : FileService} {now : Time} {w : Installation} {userId : Uuid}
  {r : FileRecord} {ids : List Uuid} {d u t : Db}

theorem MarkedDeleted.of_records (h : t.records = d.records) : MarkedDeleted [] d t := by
  intro id
  rw [h]
  simp

theorem marked_delete (id : Uuid) (d : Db) : MarkedDeleted [id] d (FileRepo.delete id d).2 := by
  intro id'
  show (d.records.update (·.id = id) fun model => { model with status := .deleted }).get id' = _
  rw [RecordTable.get_update]
  cases hget : d.records.get id' with
  | none => rfl
  | some r =>
    have hid := (RecordTable.get_some hget).2
    subst hid
    simp only [Option.map_some, decide_eq_true_eq, List.mem_singleton]

theorem MarkedDeleted.trans {more : List Uuid} (h : MarkedDeleted ids d u) (h' : MarkedDeleted more u t) :
    MarkedDeleted (ids ++ more) d t := by
  intro id
  rw [h' id, h id, Option.map_map]
  congr 1
  funext r
  simp only [Function.comp_apply, List.mem_append]
  by_cases hid : id ∈ ids
  · by_cases hmore : id ∈ more
    · simp [hid, hmore]
    · simp [hid, hmore]
  · by_cases hmore : id ∈ more
    · simp [hid, hmore]
    · simp [hid, hmore]

theorem MarkedDeleted.congr (h : MarkedDeleted ids d t) (hrecords : u.records = t.records) :
    MarkedDeleted ids d u := by
  intro id
  rw [hrecords]
  exact h id

theorem heldKey_archived (harchived : r.isArchived = true) {archivePath : Str}
    (hpath : r.archivePath = some archivePath) : heldKey r = keyAt diskRootAdapter archivePath := by
  unfold heldKey storedPath
  rw [if_pos harchived, hpath]
  rfl

/-- The archive of a record goes, and what is stored below it. -/
theorem returns_deleteArchivedBlob (harchived : r.isArchived = true) :
    Returns host now (deleteArchivedBlob r) w fun _ t =>
      t.db = w.db ∧ Swept (Under (heldKey r)) w.bucket t.bucket := by
  have hnothing : heldKey r = none → Returns host now (pure () : FileM Unit) w fun _ t =>
      t.db = w.db ∧ Swept (Under (heldKey r)) w.bucket t.bucket := by
    intro hnone
    rw [hnone]
    exact returns_done ⟨rfl, .nowhere _⟩
  unfold deleteArchivedBlob
  cases hpath : r.archivePath with
  | none =>
    apply hnothing
    unfold heldKey storedPath
    rw [if_pos harchived, hpath]
    exact keyAt_root objectKey_diskRoot_nil
  | some archivePath =>
    dsimp only
    split
    next hnil =>
      apply hnothing
      rw [heldKey_archived harchived hpath, hnil]
      exact keyAt_root objectKey_diskRoot_nil
    next =>
      rw [heldKey_archived harchived hpath]
      apply returns_catch (returns_deleteIfExists plain_diskRoot)
      intro e t hrun
      obtain ⟨hsame, hnone⟩ := run_deleteIfExists_error plain_diskRoot hrun
      subst hsame
      rw [hnone]
      split
      · exact returns_done ⟨rfl, .nowhere _⟩
      · exact returns_raise

theorem returns_deleteObject (hwired : s.Wired) (r : FileRecord) :
    Returns host now (deleteObject s r) w fun _ t =>
      t.db = w.db ∧ Swept (Under (fileKey host s r w.bucket)) w.bucket t.bucket := by
  unfold deleteObject fileKey
  by_cases harchived : r.isArchived = true
  · rw [if_pos harchived, if_pos harchived]
    exact returns_deleteArchivedBlob harchived
  · rw [if_neg harchived, if_neg harchived]
    exact returns_deleteFound hwired

/-- A file is deleted: its object, its record, and the bytes of its owner. -/
theorem returns_deleteFile {role : Option Role} (hwired : s.Wired)
    (hget : w.db.records.get r.id = some r) :
    Returns host now (s.deleteFile userId r.id role now) w fun _ t =>
      Swept (Under (fileKey host s r w.bucket)) w.bucket t.bucket ∧ MarkedDeleted [r.id] w.db t.db ∧
        t.db.quotas = (QuotaRepo.decrement s.queue.settings.defaultUserQuotaBytes r.userId r.sizeBytes
          r.fileSection w.db).2.quotas := by
  unfold deleteFile
  -- a record that is not to be downloaded or deleted by the actor ends the request
  have hrecord : Returns host now (getDownloadableRecord s r.id userId) w fun x t => x = r ∧ t = w := by
    unfold getDownloadableRecord
    apply returns_bind (returns_db _)
    intro found u hu
    obtain ⟨hfound, hu'⟩ := hu
    have hsome : found = some r := (Except.ok.inj hfound).symm.trans hget
    have hsame : u = w := hu'
    subst hsome
    dsimp only
    split
    · exact returns_raise
    · split
      · exact returns_raise
      · exact returns_done ⟨rfl, hsame⟩
  apply returns_bind hrecord
  intro x u hu
  obtain ⟨hx, hu'⟩ := hu
  subst hx hu'
  have hallowed : Returns host now (ensureCanDeleteRecord s x userId role) u fun _ t => t = u := by
    unfold ensureCanDeleteRecord
    split
    · split
      · exact returns_raise
      · exact returns_done rfl
    · split
      · exact returns_raise
      · exact returns_done rfl
  apply returns_bind hallowed
  intro _ v hv
  subst hv
  -- the object, the mark, the quota and the link, in this order
  apply returns_bind (returns_deleteObject hwired x)
  intro _ a ha
  obtain ⟨hdb, hswept⟩ := ha
  apply returns_bind (returns_db _)
  intro _ b hb
  obtain ⟨-, hb'⟩ := hb
  apply returns_bind (returns_db _)
  intro _ c hc
  obtain ⟨-, hc'⟩ := hc
  apply returns_mono (returns_removed s.queue [x.id])
  intro _ t ht
  obtain ⟨hbucket, hrecords, hquotas⟩ := ht
  refine ⟨?_, ?_, ?_⟩
  · rw [hbucket, hc', hb']
    exact hswept
  · have hmarked := marked_delete x.id v.db
    apply hmarked.congr
    rw [hrecords, hc', hb', hdb]
    rfl
  · rw [hquotas, hc', hb', hdb]
    rfl

/-- The archives of the records go, and the records are marked. -/
theorem returns_deleteRecords (records : List FileRecord) (w : Installation) :
    Returns host now (deleteRecords records) w fun _ t =>
      Swept (fun k => ∃ r ∈ records, r.isArchived = true ∧ Under (heldKey r) k) w.bucket t.bucket ∧
        MarkedDeleted (records.map (·.id)) w.db t.db ∧ t.db.quotas = w.db.quotas := by
  induction records generalizing w with
  | nil =>
    apply returns_done
    refine ⟨(Swept.nothing _).congr fun k => by simp, ?_, rfl⟩
    exact .of_records rfl
  | cons record records ih =>
    have harchive : Returns host now (deleteArchive record) w fun _ t => t.db = w.db ∧
        Swept (fun k => record.isArchived = true ∧ Under (heldKey record) k) w.bucket t.bucket := by
      unfold deleteArchive
      split
      next harchived =>
        apply returns_mono (returns_deleteArchivedBlob harchived)
        intro _ t ht
        exact ⟨ht.1, ht.2.congr fun k => by simp [harchived]⟩
      next hhot =>
        apply returns_done
        exact ⟨rfl, (Swept.nothing _).congr fun k => by simp [hhot]⟩
    unfold deleteRecords
    apply returns_bind harchive
    intro _ u hu
    apply returns_bind (returns_db _)
    intro _ v hv
    obtain ⟨-, hv'⟩ := hv
    apply returns_mono (ih v)
    intro _ t ht
    obtain ⟨hswept, hmarked, hquotas⟩ := ht
    have hfirst : MarkedDeleted [record.id] w.db v.db := by
      apply (marked_delete record.id w.db).congr
      rw [hv', hu.1]
    have hbucket : v.bucket = u.bucket := by
      rw [hv']
    refine ⟨?_, hfirst.trans hmarked, ?_⟩
    · rw [hbucket] at hswept
      apply (hu.2.trans hswept).congr
      intro k
      simp
    · rw [hquotas, hv', hu.1]
      rfl

theorem returns_releaseBytes (userId : Uuid) (released : Int) (w : Installation) :
    Returns host now (releaseBytes s userId released) w fun _ t =>
      t.bucket = w.bucket ∧ t.db.records = w.db.records ∧
        t.db.quotas = if released = 0 then w.db.quotas
          else (QuotaRepo.decrement s.queue.settings.defaultUserQuotaBytes userId released
            s.fileSection w.db).2.quotas := by
  unfold releaseBytes
  by_cases hzero : released = 0
  · rw [if_pos hzero, if_pos hzero]
    exact returns_done ⟨rfl, rfl, rfl⟩
  · rw [if_neg hzero, if_neg hzero]
    apply returns_bind (returns_db _)
    intro _ u hu
    obtain ⟨-, hu'⟩ := hu
    rw [hu']
    exact returns_done ⟨rfl, rfl, rfl⟩

end

/-! ### What is meant, and what is taken -/

/-- The recorded path of a section path. -/
def relativeAt (a : Adapter) (path : Str) : Str := (a.toDiskRelativePath path).toOption.getD []

/-- The names of a key below another. The marker of a directory has an empty name at its end. -/
def namesBelow (top k : Str) : Option (List Str) :=
  if k = top then some []
  else if (asDir top).isPrefixOf k then some (Text.split (k.drop (asDir top).length))
  else none

/-- What is left of encrypted names after those that decrypt to the segments. -/
def afterSegments (cipher : SectionCipher) : List Str → List Str → Option (List Str)
  | [], names => some names
  | _ :: _, [] => none
  | segment :: rest, name :: names =>
    if cipher.decryptName name = some segment then afterSegments cipher rest names else none

/-- The names of a key below a path of an encrypted section. -/
def namesAfter (a : Adapter) (cipher : SectionCipher) (path k : Str) : Option (List Str) :=
  if path = [] ∨ isPlainStoragePath path then (keyAt a path).bind fun top => namesBelow top k
  else (keyAt a []).bind fun top =>
    (namesBelow top k).bind (afterSegments cipher (Text.split path))

/-- The keys at a path and below it. In an encrypted section these are all whose names decrypt to
the path's, not only those that a lookup finds. -/
def AtOrBelow (a : Adapter) (path k : Str) : Prop :=
  match a.cipher with
  | none => Under (keyAt a path) k
  | some cipher => (namesAfter a cipher path k).isSome = true

/-- Whether something is stored below the path. -/
def directoryAt (a : Adapter) (path : Str) (b : Bucket) : Bool :=
  match a.cipher with
  | none => isDirectoryAt a path b
  | some cipher => decide (path = []) ||
    b.objects.any fun o => (namesAfter a cipher path o.key).any (decide <| · ≠ [])

/-- A key holds the object of a record: its archive blob, or what is at its path. -/
def Holds (s : FileService) (r : FileRecord) (k : Str) : Prop :=
  match s.adapter.cipher with
  | none => heldKey r = some k
  | some cipher =>
    if r.isArchived then heldKey r = some k
    else (s.adapter.diskRelativePrefix ++ ['/']) <+: r.relativePath ∧
      namesAfter s.adapter cipher (toSectionPath s r) k = some []

section
variable (host : Host) (s : FileService) (userId : Uuid) (w : Installation) (path : Str)

/-- The file at the path. -/
def filesAt : List FileRecord :=
  atPath (lookupOwner userId s.fileSection) s.fileSection (relativeAt s.adapter path) w.db.records.rows

/-- The files that have the name of the path. -/
def namesakes : List FileRecord :=
  ofName (lookupOwner userId s.fileSection) s.fileSection (Text.name path) w.db.records.rows

/-- The active records below a directory, whoever owns them. -/
def below (r : FileRecord) : Bool :=
  isDownloadable r && decide (r.fileSection = s.fileSection) &&
    (relativeAt s.adapter path ++ ['/']).isPrefixOf r.relativePath

/-- The records that the deletion of the path is about. -/
def meant (r : FileRecord) : Bool :=
  match filesAt s userId w path with
  | file :: _ => decide (r = file)
  | [] => directoryAt s.adapter path w.bucket && below s path r

/-- The objects that the deletion of the path is about. -/
def Gone (k : Str) : Prop :=
  match filesAt s userId w path with
  | file :: _ => Holds s file k
  | [] => AtOrBelow s.adapter path k ∨ ∃ r ∈ w.db.records.rows,
    meant s userId w path r = true ∧ r.isArchived = true ∧ heldKey r = some k

/-- The records that `delete_directory_recursive` lists. -/
def listed (r : FileRecord) : Bool :=
  inScope (some userId) s.fileSection r && isDownloadable r &&
    likePrefix (Text.rstripSlash (relativeAt s.adapter (normalizePath path)) ++ ['/']) r.relativePath

/-- Whether a path without a record is deleted with the records below it. -/
def recursive : Bool :=
  decide (s.fileSection = .files) && decide (path ≠ []) && isDirectoryAt s.adapter path w.bucket

/-- The records that the request marks. -/
def taken (r : FileRecord) : Bool :=
  match filesAt s userId w path with
  | file :: _ => decide (r = file)
  | [] => match namesakes s userId w path with
    | [namesake] => decide (r = namesake)
    | _ => recursive s w path && listed s userId path r

/-- The keys that the request takes. -/
def Takes (k : Str) : Prop :=
  match filesAt s userId w path with
  | file :: _ => Under (fileKey host s file w.bucket) k
  | [] => match namesakes s userId w path with
    | [namesake] => Under (fileKey host s (movedTo (relativeAt s.adapter path) namesake) w.bucket) k
    | _ => if recursive s w path then Under (keyAt s.adapter (normalizePath path)) k ∨
        ∃ r ∈ w.db.records.rows, listed s userId path r = true ∧ r.isArchived = true ∧
          Under (heldKey r) k
      else Under (foundAt host s.adapter path w.bucket) k

end

/-- What a user takes up. -/
def usageOf (s : FileService) (d : Db) (owner : Uuid) : QuotaUsage :=
  (d.quotas.lookup owner).getD (QuotaRepo.newUsage s.queue.settings.defaultUserQuotaBytes)

/-- The sizes of an owner's records among these. -/
def released (marked : FileRecord → Bool) (owner : Uuid) (rows : List FileRecord) : Int :=
  ((rows.filter fun r => marked r && decide (r.userId = owner)).map (·.sizeBytes)).sum

/-- The records are marked as deleted and leave the quotas of their owners, the objects at these
keys are removed, and nothing else changes. -/
structure Removal (s : FileService) (marked : FileRecord → Bool) (gone : Str → Prop)
    (w t : Installation) : Prop where
  objects : Swept gone w.bucket t.bucket
  deleted : ∀ r ∈ w.db.records.rows, marked r = true →
    ∃ r', t.db.records.get r.id = some r' ∧ r'.status = .deleted
  others : ∀ r ∈ w.db.records.rows, marked r = false → t.db.records.get r.id = some r
  quotas : ∀ owner, usageOf s t.db owner = QuotaRepo.adjust (-released marked owner w.db.records.rows)
    s.fileSection (usageOf s w.db owner)

section
variable {host : Host} {s : FileService} {now : Time} {w u t : Installation} {userId owner : Uuid}
  {path : Str} {rows : List FileRecord} {file file' : FileRecord} {d : Db}

theorem adjust_zero (fileSection : FileSection) (usage : QuotaUsage) :
    QuotaRepo.adjust (-0) fileSection usage = usage := by
  unfold QuotaRepo.adjust
  simp

theorem usageOf_decrement (user : Uuid) (size : Int) (fileSection : FileSection) (d : Db) :
    usageOf s (QuotaRepo.decrement s.queue.settings.defaultUserQuotaBytes user size fileSection d).2
        owner =
      if owner = user then QuotaRepo.adjust (-size) fileSection (usageOf s d owner)
      else usageOf s d owner := by
  unfold usageOf QuotaRepo.decrement QuotaRepo.modify
  dsimp only
  by_cases hown : owner = user
  · rw [if_pos hown, hown, AList.lookup_insert]
    rfl
  · rw [if_neg hown, AList.lookup_insert_ne hown]

theorem usageOf_congr {d' : Db} (h : d'.quotas = d.quotas) : usageOf s d' owner = usageOf s d owner := by
  unfold usageOf
  rw [h]

theorem released_one (hmem : file ∈ rows) (hnodup : rows.Nodup) :
    released (fun r => decide (r = file)) owner rows =
      if owner = file.userId then file.sizeBytes else 0 := by
  have hfilter : rows.filter (fun r => decide (r = file) && decide (r.userId = owner)) =
      if owner = file.userId then [file] else [] := by
    have hsame : rows.filter (fun r => decide (r = file) && decide (r.userId = owner)) =
        rows.filter fun r => decide (r = file) && decide (owner = file.userId) := by
      apply List.filter_congr
      intro r _
      by_cases hr : r = file
      · subst hr
        simp [eq_comm]
      · simp [hr]
    rw [hsame]
    by_cases hown : owner = file.userId
    · have hone : rows.filter (fun r => decide (r = file)) = [file] := by
        rw [List.filter_eq, List.count_eq_one_of_mem hnodup hmem]
        rfl
      simpa [hown] using hone
    · simp [hown]
  unfold released
  rw [hfilter]
  split
  · simp
  · rfl

/-- The deletion of a file, which the lookup may have moved. -/
theorem removal_file {role : Option Role} (hwired : s.Wired) (hmem : file ∈ w.db.records.rows)
    (hget : u.db.records.get file.id = some file') (hid : file'.id = file.id)
    (howner : file'.userId = file.userId) (hsize : file'.sizeBytes = file.sizeBytes)
    (hsection : file'.fileSection = s.fileSection)
    (hothers : ∀ r ∈ w.db.records.rows, r ≠ file → u.db.records.get r.id = some r)
    (hquotas : u.db.quotas = w.db.quotas) (hbucket : u.bucket = w.bucket) :
    Returns host now (s.deleteFile userId file'.id role now) u fun _ t =>
      Removal s (fun r => decide (r = file)) (Under (fileKey host s file' w.bucket)) w t := by
  have hget' : u.db.records.get file'.id = some file' := by
    rw [hid]
    exact hget
  rw [← hbucket]
  apply returns_mono (returns_deleteFile hwired hget')
  intro _ t ht
  obtain ⟨hswept, hmarked, hreleased⟩ := ht
  have hnodup : w.db.records.rows.Nodup := List.Nodup.of_map _ w.db.records.id_unique
  -- the lookup has at most rewritten the path of the record itself
  refine ⟨hbucket ▸ hswept, ?_, ?_, ?_⟩
  · intro r _ hr
    have hr' : r = file := of_decide_eq_true hr
    subst hr'
    refine ⟨{ file' with status := .deleted }, ?_, rfl⟩
    rw [hmarked r.id, hget, Option.map_some, hid, if_pos (List.mem_singleton_self _)]
  · intro r hr hne
    have hne' : r ≠ file := of_decide_eq_false hne
    have hids : r.id ∉ [file'.id] := by
      rw [List.mem_singleton, hid]
      exact fun heq => hne' (RecordTable.eq_of_id hr hmem heq)
    rw [hmarked r.id, hothers r hr hne', Option.map_some, if_neg hids]
  · intro owner
    rw [usageOf_congr hreleased, usageOf_decrement, usageOf_congr hquotas, released_one hmem hnodup, howner,
      hsize, hsection]
    split
    · rfl
    · rw [adjust_zero]

/-- Nothing is marked where objects only are deleted. -/
theorem removal_untracked {gone : Str → Prop} (hdb : t.db = w.db) (hswept : Swept gone w.bucket t.bucket) :
    Removal s (fun _ => false) gone w t where
  objects := hswept
  deleted r _ hr := by cases hr
  others r hr _ := by
    rw [hdb]
    exact RecordTable.get_of_mem hr
  quotas owner := by
    have hnone : released (fun _ => false) owner w.db.records.rows = 0 := by
      unfold released
      simp
    rw [usageOf_congr (congrArg Db.quotas hdb), hnone, adjust_zero]

theorem listed_owner {r : FileRecord} (h : listed s userId path r = true) : r.userId = userId := by
  unfold listed inScope at h
  simp only [Option.all_some, Bool.and_eq_true, beq_iff_eq] at h
  exact h.1.1.1.symm

/-- The listed records are the user's own. -/
theorem released_listed (rows : List FileRecord) : released (listed s userId path) owner rows =
    if owner = userId then ((rows.filter (listed s userId path)).map (·.sizeBytes)).sum else 0 := by
  have hfilter : rows.filter (fun r => listed s userId path r && decide (r.userId = owner)) =
      if owner = userId then rows.filter (listed s userId path) else [] := by
    by_cases hown : owner = userId
    · rw [if_pos hown]
      apply List.filter_congr
      intro r _
      cases hlisted : listed s userId path r with
      | false => rfl
      | true => simp [listed_owner hlisted, hown]
    · rw [if_neg hown, List.filter_eq_nil_iff]
      intro r _ hr
      have hboth := Bool.and_eq_true_iff.1 hr
      have howner : r.userId = owner := of_decide_eq_true hboth.2
      exact hown (howner.symm.trans (listed_owner hboth.1))
  unfold released
  rw [hfilter]
  split
  · rfl
  · rfl

/-- The deletion of a directory with the records that are listed below it. -/
theorem removal_listed (hplain : s.adapter.Plain) (hroot : s.adapter.diskRelativePrefix ≠ []) :
    Returns host now (s.deleteDirectoryRecursive userId path now) w fun _ t =>
      Removal s (listed s userId path) (fun k => Under (keyAt s.adapter (normalizePath path)) k ∨
        ∃ r ∈ w.db.records.rows, listed s userId path r = true ∧ r.isArchived = true ∧
          Under (heldKey r) k) w t := by
  unfold deleteDirectoryRecursive
  dsimp only
  split
  · exact returns_raise
  next hpath =>
    apply returns_bind (returns_exists hplain)
    intro found u hu
    obtain ⟨hsame, key, hkey⟩ := hu
    subst hsame
    have hne := key_ne_nil_of_root hroot hkey
    split
    · exact returns_raise
    next =>
      have hdir : Returns host now (isDirectory s (normalizePath path)) u fun _ t => t = u :=
        returns_of_run (run_isDirectory hplain hkey hne u) fun _ _ => rfl
      apply returns_bind hdir
      intro isDir v hv
      subst hv
      split
      · exact returns_raise
      next =>
        have hdisk : Returns host now (toDisk s (normalizePath path)) v fun relative t =>
            relative = relativeAt s.adapter (normalizePath path) ∧ t = v := by
          constructor
          intro relative t hrun
          have hboth := Prod.mk.inj hrun
          refine ⟨?_, hboth.2.symm⟩
          unfold relativeAt
          rw [hboth.1]
          rfl
        apply returns_bind hdisk
        intro relative a ha
        obtain ⟨hrelative, ha'⟩ := ha
        subst ha' hrelative
        apply returns_bind (returns_db _)
        intro records b hb
        obtain ⟨hrecords, hb'⟩ := hb
        have hlisted : records = a.db.records.rows.filter (listed s userId path) :=
          (Except.ok.inj hrecords).symm
        have hsame : b = a := hb'
        subst hsame hlisted
        -- the objects go first, then the records, and the bytes last
        apply returns_bind (returns_delete hplain hkey hne)
        intro _ swept hdelete
        obtain ⟨hdb, hswept⟩ := hdelete
        apply returns_bind (returns_deleteRecords _ swept)
        intro _ marked hmark
        obtain ⟨hswept', hmarked, hquotas⟩ := hmark
        apply returns_bind (returns_releaseBytes userId _ marked)
        intro _ freed hfree
        obtain ⟨hbucket, hrecords', hreleased⟩ := hfree
        apply returns_bind (returns_removed _ _)
        intro _ t ht
        obtain ⟨hbucket', hrecords'', hquotas'⟩ := ht
        apply returns_done
        have hrows : MarkedDeleted ((b.db.records.rows.filter (listed s userId path)).map (·.id)) b.db
            t.db := by
          have hlater := hmarked.congr (hrecords''.trans hrecords')
          rw [hdb] at hlater
          exact hlater
        -- ids are unique, so a record is marked exactly if it is listed
        have hids : ∀ r ∈ b.db.records.rows,
            r.id ∈ (b.db.records.rows.filter (listed s userId path)).map (·.id) ↔
              listed s userId path r = true := by
          intro r hr
          constructor
          · intro hin
            obtain ⟨r', hr', hid⟩ := List.mem_map.1 hin
            have hboth := List.mem_filter.1 hr'
            rw [RecordTable.eq_of_id hr hboth.1 hid.symm]
            exact hboth.2
          · exact fun hlisted => List.mem_map_of_mem (List.mem_filter.2 ⟨hr, hlisted⟩)
        refine ⟨?_, ?_, ?_, ?_⟩
        · rw [hbucket', hbucket]
          apply (hswept.trans hswept').congr
          intro k
          simp [and_assoc]
        · intro r hr hlisted
          refine ⟨{ r with status := .deleted }, ?_, rfl⟩
          rw [hrows r.id, RecordTable.get_of_mem hr, Option.map_some, if_pos ((hids r hr).2 hlisted)]
        · intro r hr hlisted
          have hnot : r.id ∉ (b.db.records.rows.filter (listed s userId path)).map (·.id) := by
            rw [hids r hr, hlisted]
            exact Bool.false_ne_true
          rw [hrows r.id, RecordTable.get_of_mem hr, Option.map_some, if_neg hnot]
        · intro owner
          -- no quota is touched before the bytes are released
          have hbefore : usageOf s marked.db owner = usageOf s b.db owner := by
            rw [usageOf_congr hquotas, hdb]
          rw [usageOf_congr hquotas', released_listed]
          split at hreleased
          next hzero =>
            rw [usageOf_congr hreleased, hbefore, hzero, ite_self, adjust_zero]
          next =>
            rw [usageOf_congr hreleased, usageOf_decrement, hbefore]
            split
            · rfl
            · rw [adjust_zero]

theorem Removal.congr {marked marked' : FileRecord → Bool} {gone gone' : Str → Prop}
    (h : Removal s marked gone w t) (hmarked : ∀ r, marked r = marked' r)
    (hgone : ∀ k, gone k ↔ gone' k) : Removal s marked' gone' w t := by
  have hsame : marked = marked' := funext hmarked
  subst hsame
  exact ⟨h.objects.congr hgone, h.deleted, h.others, h.quotas⟩

theorem taken_untracked (hfiles : filesAt s userId w path = [])
    (hnamed : ∀ r, namesakes s userId w path ≠ [r]) (r : FileRecord) :
    taken s userId w path r = (recursive s w path && listed s userId path r) := by
  unfold taken
  rw [hfiles]
  dsimp only
  split
  next namesake hone => exact absurd hone (hnamed namesake)
  next => rfl

theorem takes_untracked (hfiles : filesAt s userId w path = [])
    (hnamed : ∀ r, namesakes s userId w path ≠ [r]) (k : Str) : Takes host s userId w path k ↔
      if recursive s w path then Under (keyAt s.adapter (normalizePath path)) k ∨
        ∃ r ∈ w.db.records.rows, listed s userId path r = true ∧ r.isArchived = true ∧ Under (heldKey r) k
      else Under (foundAt host s.adapter path w.bucket) k := by
  unfold Takes
  rw [hfiles]
  dsimp only
  split
  next namesake hone => exact absurd hone (hnamed namesake)
  next => rfl

/-- A section that is deleted recursively has no encrypted names. -/
theorem plain_of_recursive (hwired : s.Wired) (hrec : recursive s w path = true) :
    s.adapter.cipher = none := by
  unfold recursive at hrec
  have hfiles : s.fileSection = .files :=
    of_decide_eq_true (Bool.and_eq_true_iff.1 (Bool.and_eq_true_iff.1 hrec).1).1
  by_contra hcipher
  rw [hwired.encrypted hcipher] at hfiles
  cases hfiles

/-- The path of an encrypted section that has no record is deleted without looking at the records. -/
theorem removal_untrackedEncrypted {cipher : SectionCipher} (hwired : s.Wired)
    (hcipher : s.adapter.cipher = some cipher) (hfiles : filesAt s userId w path = [])
    (hnamed : ∀ r, namesakes s userId w path ≠ [r]) :
    Returns host now (s.deleteUntracked userId path now) w fun _ t =>
      Removal s (taken s userId w path) (Takes host s userId w path) w t := by
  -- only the section of files is deleted record by record
  have hflat : recursive s w path = false := by
    apply Bool.eq_false_iff.2
    intro hrec
    rw [plain_of_recursive hwired hrec] at hcipher
    cases hcipher
  have hsection : ¬ (s.fileSection = .files ∧ path ≠ []) := by
    intro hboth
    have hprivate := hwired.encrypted (by rw [hcipher]; exact Option.some_ne_none cipher)
    rw [hprivate] at hboth
    cases hboth.1
  unfold deleteUntracked
  apply returns_bind (returns_existsEncrypted hcipher)
  intro found u hu
  obtain ⟨hsame, hexists⟩ := hu
  subst hsame
  cases found with
  | false => exact returns_raise
  | true =>
    have hdelete : Returns host now (store s.adapter (.delete path)) u
        fun _ t => Removal s (taken s userId u path) (Takes host s userId u path) u t := by
      apply returns_mono (returns_deleteEncrypted hcipher (hwired.storage_root host) hexists)
      intro _ t ht
      apply (removal_untracked ht.1 ht.2).congr
      · intro r
        rw [taken_untracked hfiles hnamed, hflat]
        rfl
      · intro k
        rw [takes_untracked hfiles hnamed, hflat]
        rfl
    apply returns_bind (returns_isDirectoryEncrypted hcipher)
    intro isDir v hv
    subst hv
    rw [if_neg hsection, ite_self]
    exact hdelete

/-- A path without a record. -/
theorem removal_untrackedPath (hwired : s.Wired) (hfiles : filesAt s userId w path = [])
    (hnamed : ∀ r, namesakes s userId w path ≠ [r]) :
    Returns host now (s.deleteUntracked userId path now) w fun _ t =>
      Removal s (taken s userId w path) (Takes host s userId w path) w t := by
  cases hcipher : s.adapter.cipher with
  | some cipher => exact removal_untrackedEncrypted hwired hcipher hfiles hnamed
  | none =>
    have hplain := hwired.plain hcipher
    have htaken : ∀ r, taken s userId w path r = (recursive s w path && listed s userId path r) :=
      taken_untracked hfiles hnamed
    have htakes : ∀ k, Takes host s userId w path k ↔ _ := takes_untracked hfiles hnamed
    unfold deleteUntracked
    apply returns_bind (returns_exists hplain)
    intro found u hu
    obtain ⟨hsame, key, hkey⟩ := hu
    subst hsame
    have hne := key_ne_nil_of_root hwired.rooted hkey
    -- without records below it the deletion is the one call of the adapter
    have hplainDelete : recursive s u path = false →
        Returns host now (store s.adapter (.delete path)) u
          fun _ t => Removal s (taken s userId u path) (Takes host s userId u path) u t := by
      intro hflat
      apply returns_mono (returns_delete hplain hkey hne)
      intro _ t ht
      apply (removal_untracked ht.1 ht.2).congr
      · intro r
        rw [htaken, hflat]
        rfl
      · intro k
        rw [htakes, hflat, foundAt_plain hcipher]
        rfl
    split
    · exact returns_raise
    next =>
      have hdir : Returns host now (isDirectory s path) u fun isDir t =>
          t = u ∧ isDir = isDirectoryAt s.adapter path u.bucket :=
        returns_of_run (run_isDirectory hplain hkey hne u) fun _ hx => ⟨rfl, (Except.ok.inj hx).symm⟩
      apply returns_bind hdir
      intro isDir v hv
      obtain ⟨hsame, hisDir⟩ := hv
      subst hsame
      split
      next hyes =>
        split
        next hrec =>
          have hrecursive : recursive s v path = true := by
            unfold recursive
            rw [← hisDir, hyes, decide_eq_true hrec.1, decide_eq_true hrec.2]
            rfl
          apply returns_bind (removal_listed hplain hwired.rooted)
          intro _ t ht
          apply returns_done
          apply ht.congr
          · intro r
            rw [htaken, hrecursive]
            rfl
          · intro k
            rw [htakes, hrecursive]
            rfl
        next hrec =>
          apply hplainDelete
          unfold recursive
          rw [← hisDir, hyes, Bool.and_true, ← Bool.decide_and]
          exact decide_eq_false hrec
      next hno =>
        apply hplainDelete
        unfold recursive
        rw [← hisDir, Bool.eq_false_iff.2 hno, Bool.and_false]

/-- What the deletion of a path does. -/
theorem removal_deleteByPath {role : Option Role} (hwired : s.Wired) :
    Returns host now (s.deleteByPath userId path role now) w fun _ t =>
      Removal s (taken s userId w (normalizePath path)) (Takes host s userId w (normalizePath path)) w t := by
  unfold deleteByPath
  dsimp only
  cases hdisk : s.adapter.toDiskRelativePath (normalizePath path) with
  | error e =>
    -- a path that has no storage path is refused by the lookup
    have hlookup : (getRecordBySectionPath s userId (normalizePath path) s.fileSection).run
        (host.serve now) w = (.error e, w) := by
      unfold getRecordBySectionPath toDisk
      rw [hdisk]
      rfl
    refine returns_bind (P := fun _ _ => False) (returns_of_run hlookup fun x hx => by cases hx) ?_
    exact fun _ _ h => h.elim
  | ok relative =>
    have hrelative : relativeAt s.adapter (normalizePath path) = relative := by
      unfold relativeAt
      rw [hdisk]
      rfl
    apply returns_bind (returns_lookup hdisk)
    intro found u hu
    obtain ⟨hbucket, hfound⟩ := hu
    generalize hd : u.db = d at hfound
    cases hfound with
    | file r hone =>
      have haddressed : Addressed w.db.records.rows (lookupOwner userId s.fileSection) s.fileSection
          relative (Text.name (normalizePath path)) r := .inl hone
      have hmem := haddressed.spec.1
      have hget : u.db.records.get r.id = some r := by
        rw [hd]
        exact RecordTable.get_of_mem hmem
      have hothers : ∀ r' ∈ w.db.records.rows, r' ≠ r → u.db.records.get r'.id = some r' := by
        intro r' hr' _
        rw [hd]
        exact RecordTable.get_of_mem hr'
      have hfiles : filesAt s userId w (normalizePath path) = [r] := by
        unfold filesAt
        rw [hrelative]
        exact hone
      apply returns_mono (removal_file hwired hmem hget rfl rfl rfl haddressed.section_eq hothers
        (congrArg Db.quotas hd) hbucket)
      intro _ t ht
      apply ht.congr
      · intro r'
        unfold taken
        rw [hfiles]
      · intro k
        unfold Takes
        rw [hfiles]
    | healed r hnone hnamed =>
      have haddressed : Addressed w.db.records.rows (lookupOwner userId s.fileSection) s.fileSection
          relative (Text.name (normalizePath path)) r := .inr ⟨hnone, hnamed⟩
      have hmem := haddressed.spec.1
      -- the lookup has moved the namesake to the path before it is deleted
      have hget : u.db.records.get r.id = some (movedTo relative r) := by
        rw [hd]
        exact get_afterLookup relative hmem
      have hothers : ∀ r' ∈ w.db.records.rows, r' ≠ r → u.db.records.get r'.id = some r' := by
        intro r' hr' hne
        have hids : ¬ r'.id = r.id := fun heq => hne (RecordTable.eq_of_id hr' hmem heq)
        rw [hd, afterLookup, RecordTable.get_update, RecordTable.get_of_mem hr']
        simp [hids]
      have hfiles : filesAt s userId w (normalizePath path) = [] := by
        unfold filesAt
        rw [hrelative]
        exact hnone
      have hnames : namesakes s userId w (normalizePath path) = [r] := hnamed
      apply returns_mono (removal_file hwired hmem hget rfl rfl rfl haddressed.section_eq hothers
        (hd ▸ rfl) hbucket)
      intro _ t ht
      apply ht.congr
      · intro r'
        unfold taken
        rw [hfiles, hnames]
      · intro k
        unfold Takes
        rw [hfiles, hnames, hrelative]
    | nothing hnone hnamed =>
      -- nothing is found and nothing is changed
      have hsame : u = w := by
        have hboth : (⟨u.db, u.bucket⟩ : Installation) = ⟨w.db, w.bucket⟩ := by
          rw [hd, hbucket]
        exact hboth
      subst hsame
      apply removal_untrackedPath hwired _ hnamed
      unfold filesAt
      rw [hrelative]
      exact hnone

end

/-! ### When it is exact -/

/-- The deletion of a path removes what is meant, and no other active record loses its object. -/
structure Exact (s : FileService) (userId : Uuid) (path : Str) (w t : Installation) : Prop where
  removal : Removal s (meant s userId w path) (Gone s userId w path) w t
  kept : ∀ r ∈ w.db.records.rows, isDownloadable r = true → r.fileSection = s.fileSection →
    meant s userId w path r = false → ∀ k, Holds s r k → w.bucket.content k ≠ none →
    t.bucket.content k ≠ none

/-- No other active record has its object among those that are meant. -/
def Apart (s : FileService) (userId : Uuid) (path : Str) (w : Installation) : Prop :=
  ∀ r ∈ w.db.records.rows, isDownloadable r = true → r.fileSection = s.fileSection →
    meant s userId w path r = false → ∀ k, Holds s r k → w.bucket.content k ≠ none →
    ¬ Gone s userId w path k

section
variable (host : Host) (s : FileService) (userId : Uuid) (path : Str) (w : Installation)

/-- Under the key of the file, its object is all that is stored. -/
def Alone (file : FileRecord) : Prop :=
  ∀ k, w.bucket.content k ≠ none → (Under (fileKey host s file w.bucket) k ↔ Holds s file k)

/-- The namesake that is taken for the path is the only active record below it, and under its key
is all that is stored at or below the path. -/
structure NamesakeBelow (namesake : FileRecord) : Prop where
  only : ∀ r ∈ w.db.records.rows, meant s userId w path r = true ↔ r = namesake
  objects : ∀ k, w.bucket.content k ≠ none →
    (Under (fileKey host s (movedTo (relativeAt s.adapter path) namesake) w.bucket) k ↔
      AtOrBelow s.adapter path k ∨ namesake.isArchived = true ∧ heldKey namesake = some k)

/-- The query lists the active records below the path, and with what is at or below it, looked up
once more, and their archives nothing else is taken. -/
structure ListedBelow : Prop where
  records : ∀ r ∈ w.db.records.rows, listed s userId path r = below s path r
  objects : ∀ k, w.bucket.content k ≠ none →
    ((Under (keyAt s.adapter (normalizePath path)) k ∨ ∃ r ∈ w.db.records.rows,
        below s path r = true ∧ r.isArchived = true ∧ Under (heldKey r) k) ↔
      AtOrBelow s.adapter path k ∨ ∃ r ∈ w.db.records.rows,
        below s path r = true ∧ r.isArchived = true ∧ heldKey r = some k)

/-- No active record is below the path. If names are encrypted, what is at or below the path is
under the names that are found first. -/
structure NothingBelow : Prop where
  records : ∀ r ∈ w.db.records.rows, meant s userId w path r = false
  names : s.adapter.cipher ≠ none → ∀ k, w.bucket.content k ≠ none →
    (Under (foundAt host s.adapter path w.bucket) k ↔ AtOrBelow s.adapter path k)

/-- What a deletion takes is what is meant. -/
def Aligned : Prop :=
  match filesAt s userId w path with
  | file :: _ => Alone host s w file
  | [] => match namesakes s userId w path with
    | [namesake] => NamesakeBelow host s userId path w namesake
    | _ => if recursive s w path then ListedBelow s userId path w
      else NothingBelow host s userId path w

end

section
variable {host : Host} {s : FileService} {now : Time} {w t : Installation} {userId : Uuid} {path : Str}

theorem meant_active {r : FileRecord} (h : meant s userId w path r = true) : isDownloadable r = true := by
  unfold meant at h
  split at h
  next file rest hfiles =>
    have hr : r = file := of_decide_eq_true h
    have hin : r ∈ filesAt s userId w path := by
      rw [hfiles, hr]
      exact List.mem_cons_self
    unfold filesAt atPath at hin
    simp only [List.mem_filter, Bool.and_eq_true] at hin
    exact hin.2.2
  next =>
    unfold below at h
    simp only [Bool.and_eq_true] at h
    exact h.2.1.1

theorem taken_active {r : FileRecord} (h : taken s userId w path r = true) : isDownloadable r = true := by
  unfold taken at h
  split at h
  next file rest hfiles =>
    have hr : r = file := of_decide_eq_true h
    have hin : r ∈ filesAt s userId w path := by
      rw [hfiles, hr]
      exact List.mem_cons_self
    unfold filesAt atPath at hin
    simp only [List.mem_filter, Bool.and_eq_true] at hin
    exact hin.2.2
  next =>
    split at h
    next namesake hnamed =>
      have hr : r = namesake := of_decide_eq_true h
      have hin : r ∈ namesakes s userId w path := by
        rw [hnamed, hr]
        exact List.mem_cons_self
      unfold namesakes ofName at hin
      simp only [List.mem_filter, Bool.and_eq_true, decide_eq_true_eq] at hin
      unfold isDownloadable
      rw [hin.2.1.2]
      rfl
    next =>
      unfold listed at h
      simp only [Bool.and_eq_true] at h
      exact h.2.1.2

/-- What is taken agrees with what is meant, in the tables and in the bucket. -/
def Agrees (host : Host) (s : FileService) (userId : Uuid) (path : Str) (w : Installation) : Prop :=
  (∀ r ∈ w.db.records.rows, taken s userId w path r = meant s userId w path r) ∧
    ∀ k, w.bucket.content k ≠ none → (Takes host s userId w path k ↔ Gone s userId w path k)

theorem alone_iff {file : FileRecord} {rest : List FileRecord}
    (hfiles : filesAt s userId w path = file :: rest) :
    Alone host s w file ↔ Agrees host s userId path w := by
  have htaken : ∀ r, taken s userId w path r = meant s userId w path r := by
    intro r
    unfold taken meant
    rw [hfiles]
  have htakes : ∀ k, Takes host s userId w path k ↔ Under (fileKey host s file w.bucket) k := by
    intro k
    unfold Takes
    rw [hfiles]
  have hgone : ∀ k, Gone s userId w path k ↔ Holds s file k := by
    intro k
    unfold Gone
    rw [hfiles]
  constructor
  · intro h
    refine ⟨fun r _ => htaken r, ?_⟩
    intro k hk
    rw [htakes, hgone]
    exact h k hk
  · intro h k hk
    rw [← htakes, ← hgone]
    exact h.2 k hk

theorem gone_untracked (hfiles : filesAt s userId w path = []) (k : Str) :
    Gone s userId w path k ↔ AtOrBelow s.adapter path k ∨ ∃ r ∈ w.db.records.rows,
      meant s userId w path r = true ∧ r.isArchived = true ∧ heldKey r = some k := by
  unfold Gone
  rw [hfiles]

theorem namesakeBelow_iff {namesake : FileRecord} (hfiles : filesAt s userId w path = [])
    (hnamed : namesakes s userId w path = [namesake]) :
    NamesakeBelow host s userId path w namesake ↔ Agrees host s userId path w := by
  have hmem : namesake ∈ w.db.records.rows := by
    have hin : namesake ∈ namesakes s userId w path := by
      rw [hnamed]
      exact List.mem_singleton_self _
    unfold namesakes ofName at hin
    exact (List.mem_filter.1 hin).1
  have htaken : ∀ r, taken s userId w path r = decide (r = namesake) := by
    intro r
    unfold taken
    rw [hfiles, hnamed]
  have htakes : ∀ k, Takes host s userId w path k ↔
      Under (fileKey host s (movedTo (relativeAt s.adapter path) namesake) w.bucket) k := by
    intro k
    unfold Takes
    rw [hfiles, hnamed]
  -- with nothing else meant, the blob of the namesake is the only one
  have hgone : (∀ r ∈ w.db.records.rows, meant s userId w path r = true ↔ r = namesake) →
      ∀ k, Gone s userId w path k ↔
        AtOrBelow s.adapter path k ∨ namesake.isArchived = true ∧ heldKey namesake = some k := by
    intro honly k
    rw [gone_untracked hfiles]
    constructor
    · intro h
      rcases h with hat | ⟨r, hr, hmeant, hblob⟩
      · exact .inl hat
      · rw [(honly r hr).1 hmeant] at hblob
        exact .inr hblob
    · intro h
      rcases h with hat | hblob
      · exact .inl hat
      · exact .inr ⟨namesake, hmem, (honly namesake hmem).2 rfl, hblob⟩
  constructor
  · intro h
    refine ⟨?_, ?_⟩
    · intro r hr
      rw [htaken, Bool.eq_iff_iff, decide_eq_true_eq]
      exact (h.only r hr).symm
    · intro k hk
      rw [htakes, hgone h.only]
      exact h.objects k hk
  · intro h
    have honly : ∀ r ∈ w.db.records.rows, meant s userId w path r = true ↔ r = namesake := by
      intro r hr
      rw [← h.1 r hr, htaken, decide_eq_true_eq]
    refine ⟨honly, ?_⟩
    intro k hk
    rw [← htakes, ← hgone honly]
    exact h.2 k hk

theorem listedBelow_iff (hwired : s.Wired) (hfiles : filesAt s userId w path = [])
    (hother : ∀ r, namesakes s userId w path ≠ [r]) (hrec : recursive s w path = true) :
    ListedBelow s userId path w ↔ Agrees host s userId path w := by
  have hdir : directoryAt s.adapter path w.bucket = true := by
    unfold directoryAt
    rw [plain_of_recursive hwired hrec]
    unfold recursive at hrec
    exact (Bool.and_eq_true_iff.1 hrec).2
  have hmeant : ∀ r, meant s userId w path r = below s path r := by
    intro r
    unfold meant
    rw [hfiles, hdir]
    exact Bool.true_and _
  have htaken : ∀ r, taken s userId w path r = listed s userId path r := by
    intro r
    rw [taken_untracked hfiles hother, hrec]
    exact Bool.true_and _
  -- where the same records are listed and meant, so are their blobs
  have htakes : (∀ r ∈ w.db.records.rows, listed s userId path r = below s path r) →
      ∀ k, Takes host s userId w path k ↔ Under (keyAt s.adapter (normalizePath path)) k ∨
        ∃ r ∈ w.db.records.rows, below s path r = true ∧ r.isArchived = true ∧ Under (heldKey r) k := by
    intro hsame k
    rw [takes_untracked hfiles hother, if_pos hrec]
    apply or_congr Iff.rfl
    apply exists_congr
    intro r
    apply and_congr_right
    intro hr
    rw [hsame r hr]
  have hgone : ∀ k, Gone s userId w path k ↔ AtOrBelow s.adapter path k ∨ ∃ r ∈ w.db.records.rows,
      below s path r = true ∧ r.isArchived = true ∧ heldKey r = some k := by
    intro k
    rw [gone_untracked hfiles]
    simp only [hmeant]
  constructor
  · intro h
    refine ⟨?_, ?_⟩
    · intro r hr
      rw [htaken, hmeant]
      exact h.records r hr
    · intro k hk
      rw [htakes h.records, hgone]
      exact h.objects k hk
  · intro h
    have hsame : ∀ r ∈ w.db.records.rows, listed s userId path r = below s path r := by
      intro r hr
      rw [← htaken, ← hmeant]
      exact h.1 r hr
    refine ⟨hsame, ?_⟩
    intro k hk
    rw [← htakes hsame, ← hgone]
    exact h.2 k hk

theorem nothingBelow_iff (hfiles : filesAt s userId w path = [])
    (hother : ∀ r, namesakes s userId w path ≠ [r]) (hflat : recursive s w path = false) :
    NothingBelow host s userId path w ↔ Agrees host s userId path w := by
  have htaken : ∀ r, taken s userId w path r = false := by
    intro r
    rw [taken_untracked hfiles hother, hflat]
    exact Bool.false_and _
  have htakes : ∀ k, Takes host s userId w path k ↔ Under (foundAt host s.adapter path w.bucket) k := by
    intro k
    rw [takes_untracked hfiles hother, hflat]
    rfl
  -- where no record is meant, no blob is
  have hgone : (∀ r ∈ w.db.records.rows, meant s userId w path r = false) →
      ∀ k, Gone s userId w path k ↔ AtOrBelow s.adapter path k := by
    intro hnone k
    rw [gone_untracked hfiles]
    constructor
    · intro h
      rcases h with hat | ⟨r, hr, hmeant, -⟩
      · exact hat
      · rw [hnone r hr] at hmeant
        cases hmeant
    · exact Or.inl
  constructor
  · intro h
    refine ⟨?_, ?_⟩
    · intro r hr
      rw [htaken, h.records r hr]
    · intro k hk
      rw [htakes, hgone h.records]
      cases hcipher : s.adapter.cipher with
      | none =>
        have hplain : AtOrBelow s.adapter path k ↔ Under (keyAt s.adapter path) k := by
          unfold AtOrBelow
          rw [hcipher]
        rw [hplain, foundAt_plain hcipher]
      | some cipher =>
        -- names decrypt to the path in more than one way: the condition says it
        exact h.names (by rw [hcipher]; exact Option.some_ne_none cipher) k hk
  · intro h
    have hnone : ∀ r ∈ w.db.records.rows, meant s userId w path r = false := by
      intro r hr
      rw [← h.1 r hr, htaken]
    refine ⟨hnone, ?_⟩
    intro _ k hk
    rw [← htakes, ← hgone hnone]
    exact h.2 k hk

/-- The conditions of the four cases in one. -/
theorem aligned_iff (hwired : s.Wired) :
    Aligned host s userId path w ↔ Agrees host s userId path w := by
  unfold Aligned
  cases hfiles : filesAt s userId w path with
  | cons file rest => exact alone_iff hfiles
  | nil =>
    dsimp only
    split
    next namesake hnamed => exact namesakeBelow_iff hfiles hnamed
    next hother =>
      cases hrec : recursive s w path with
      | true => exact listedBelow_iff hwired hfiles hother hrec
      | false => exact nothingBelow_iff hfiles hother hrec

/-- A deletion with this effect is exact when what it takes is what is meant. -/
theorem exact_iff (hwired : s.Wired)
    (h : Removal s (taken s userId w path) (Takes host s userId w path) w t) :
    Exact s userId path w t ↔ Aligned host s userId path w ∧ Apart s userId path w := by
  rw [aligned_iff hwired]
  constructor
  · intro hexact
    have hobjects : ∀ k, w.bucket.content k ≠ none →
        (Takes host s userId w path k ↔ Gone s userId w path k) := by
      intro k hk
      constructor
      · intro htakes
        by_contra hkept
        have hthere := hexact.removal.objects.kept k hkept
        rw [h.objects.gone k htakes] at hthere
        exact hk hthere.symm
      · intro hgone
        by_contra hkept
        have hthere := h.objects.kept k hkept
        rw [hexact.removal.objects.gone k hgone] at hthere
        exact hk hthere.symm
    refine ⟨⟨?_, hobjects⟩, ?_⟩
    · intro r hr
      cases htaken : taken s userId w path r with
      | true =>
        cases hmeant : meant s userId w path r with
        | true => rfl
        | false =>
          -- an active record that is marked although it is not meant
          obtain ⟨r', hget, hdeleted⟩ := h.deleted r hr htaken
          rw [hexact.removal.others r hr hmeant] at hget
          cases hget
          have hactive := taken_active htaken
          unfold isDownloadable at hactive
          rw [hdeleted] at hactive
          cases hactive
      | false =>
        cases hmeant : meant s userId w path r with
        | false => rfl
        | true =>
          obtain ⟨r', hget, hdeleted⟩ := hexact.removal.deleted r hr hmeant
          rw [h.others r hr htaken] at hget
          cases hget
          have hactive := meant_active hmeant
          unfold isDownloadable at hactive
          rw [hdeleted] at hactive
          cases hactive
    · intro r hr hactive hsection hmeant k hheld hstored hgone
      exact hexact.kept r hr hactive hsection hmeant k hheld hstored (hexact.removal.objects.gone k hgone)
  · intro hboth
    obtain ⟨⟨hrecords, hobjects⟩, hapart⟩ := hboth
    have hswept : Swept (Gone s userId w path) w.bucket t.bucket := by
      constructor
      · intro k hgone
        by_cases hstored : w.bucket.content k = none
        · by_cases htakes : Takes host s userId w path k
          · exact h.objects.gone k htakes
          · rw [h.objects.kept k htakes, hstored]
        · exact h.objects.gone k ((hobjects k hstored).2 hgone)
      · intro k hkept
        by_cases hstored : w.bucket.content k = none
        · by_cases htakes : Takes host s userId w path k
          · rw [h.objects.gone k htakes, hstored]
          · exact h.objects.kept k htakes
        · exact h.objects.kept k fun htakes => hkept ((hobjects k hstored).1 htakes)
    refine ⟨⟨hswept, ?_, ?_, ?_⟩, ?_⟩
    · intro r hr hmeant
      exact h.deleted r hr ((hrecords r hr).trans hmeant)
    · intro r hr hmeant
      exact h.others r hr ((hrecords r hr).trans hmeant)
    · intro owner
      have hsum : released (meant s userId w path) owner w.db.records.rows =
          released (taken s userId w path) owner w.db.records.rows := by
        have hfilter : w.db.records.rows.filter
              (fun r => meant s userId w path r && decide (r.userId = owner)) =
            w.db.records.rows.filter fun r => taken s userId w path r && decide (r.userId = owner) := by
          apply List.filter_congr
          intro r hr
          rw [hrecords r hr]
        unfold released
        rw [hfilter]
      rw [hsum]
      exact h.quotas owner
    · intro r hr hactive hsection hmeant k hheld hstored
      rw [hswept.kept k (hapart r hr hactive hsection hmeant k hheld hstored)]
      exact hstored

/-- **A deletion removes exactly what was addressed** when what it takes is what is meant, and no
other active record has its object there. -/
theorem deletion_exact_iff {role : Option Role} (hwired : s.Wired)
    (hrun : (s.deleteByPath userId path role now).run (host.serve now) w = (.ok (), t)) :
    Exact s userId (normalizePath path) w t ↔
      Aligned host s userId (normalizePath path) w ∧ Apart s userId (normalizePath path) w := by
  have heffect := (removal_deleteByPath hwired).ends () t hrun
  exact exact_iff hwired heffect

end

/-! ### A file and a directory of one path -/

def countingHost : Host := ⟨fun _ => "", id, fun d => .ofDigit d.records.rows.length⟩

def filesService : FileService where
  adapter := ⟨"users/u/files".toList, none⟩
  fileSection := .files
  archiveManager := none
  queue := ⟨false, ⟨false, 0, 0, 30⟩⟩

theorem filesService_wired : filesService.Wired := ⟨fun h => absurd rfl h, by decide +kernel, by decide⟩

/-- A cipher that puts the last digit of the nonce before a name. -/
def digitCipher : SectionCipher where
  encryptName nonce name := nonce.text.getLastD '0' :: name
  decryptName name := if name = [] then none else some name.tail
  encryptBlob _ data := 0 :: data
  decryptBlob data := .ok data.tail

def privateService : FileService :=
  { filesService with adapter := ⟨"users/u/private".toList, some digitCipher⟩, fileSection := .private }

theorem privateService_wired : privateService.Wired := ⟨fun _ => rfl, by decide +kernel, by decide⟩

def nothingStored : Installation := ⟨⟨.empty, ∅, .empty⟩, .empty⟩

/-- A byte is uploaded. -/
def uploadTo (s : FileService) (path filename : Str) (w : Installation) : Installation :=
  ((s.uploadFile (.ofDigit 1) path filename [1] 1 s.fileSection 0).run (countingHost.serve 0) w).2

def oneFile : Installation := uploadTo filesService [] "a".toList nothingStored

def fileBesideDirectory : Installation := uploadTo filesService "a".toList "b".toList oneFile

def onePrivateFile : Installation := uploadTo privateService [] "a".toList nothingStored

/-- The directory `a`, and then the file `a`. -/
def privateBesideDirectory : Installation := uploadTo privateService [] "a".toList
  ((privateService.createDirectory [] "a".toList).run (countingHost.serve 0) nothingStored).2

def deletedFrom (s : FileService) (w : Installation) (path : Str) : Except Exc Unit × Installation :=
  (s.deleteByPath (.ofDigit 1) path none 0).run (countingHost.serve 0) w

/-- The record of the file `a`. -/
def recordA (relativePath : Str) (fileSection : FileSection) : FileRecord where
  id := .ofDigit 0
  userId := .ofDigit 1
  relativePath := relativePath
  originalName := "a".toList
  sizeBytes := 1
  isEncrypted := decide (fileSection = .private)
  fileSection := fileSection
  status := .committed
  checksumSha256 := some ""
  createdAt := 0
  lastAccessedAt := 0
  isArchived := false
  archivePath := none

def fileA : FileRecord := recordA "users/u/files/a".toList .files

def privateA : FileRecord := recordA "users/u/private/a".toList .private

theorem holds_fileA (k : Str) : Holds filesService fileA k ↔ "users/u/files/a".toList = k := by
  have hkey : heldKey fileA = some "users/u/files/a".toList := by decide +kernel
  show heldKey fileA = some k ↔ _
  rw [hkey, Option.some_inj]

theorem holds_privateA {k : Str} (hat : namesAfter privateService.adapter digitCipher "a".toList k = some []) :
    Holds privateService privateA k := by
  have hpath : (privateService.adapter.diskRelativePrefix ++ ['/']) <+: privateA.relativePath := by
    decide +kernel
  have hsection : toSectionPath privateService privateA = "a".toList := by decide +kernel
  show _ ∧ namesAfter privateService.adapter digitCipher (toSectionPath privateService privateA) k = some []
  rw [hsection]
  exact ⟨hpath, hat⟩

/-- The deletion of the file `a` takes the object of `a/b` along. In the private section the deletion
of the file `a` takes the directory `a`, which is listed first, and leaves the file's object. -/
theorem deletion_takes_directory :
    ((deletedFrom filesService fileBesideDirectory "a".toList).1.isOk = true ∧
      ¬ Exact filesService (.ofDigit 1) (normalizePath "a".toList) fileBesideDirectory
        (deletedFrom filesService fileBesideDirectory "a".toList).2) ∧
    (deletedFrom privateService privateBesideDirectory "a".toList).1.isOk = true ∧
      ¬ Exact privateService (.ofDigit 1) (normalizePath "a".toList) privateBesideDirectory
        (deletedFrom privateService privateBesideDirectory "a".toList).2 := by
  refine ⟨⟨by decide +kernel, ?_⟩, by decide +kernel, ?_⟩
  · intro hexact
    have hfiles : filesAt filesService (.ofDigit 1) fileBesideDirectory (normalizePath "a".toList) =
        [fileA] := by decide +kernel
    have hother : ¬ Gone filesService (.ofDigit 1) fileBesideDirectory (normalizePath "a".toList)
        "users/u/files/a/b".toList := by
      intro hgone
      unfold Gone at hgone
      rw [hfiles] at hgone
      have hne : "users/u/files/a".toList ≠ "users/u/files/a/b".toList := by decide
      exact hne ((holds_fileA _).1 hgone)
    have hkept := hexact.removal.objects.kept _ hother
    have hbefore : fileBesideDirectory.bucket.content "users/u/files/a/b".toList = some [1] := by
      decide +kernel
    have hafter : (deletedFrom filesService fileBesideDirectory "a".toList).2.bucket.content
        "users/u/files/a/b".toList = none := by decide +kernel
    rw [hbefore, hafter] at hkept
    cases hkept
  · intro hexact
    have hfiles : filesAt privateService (.ofDigit 1) privateBesideDirectory (normalizePath "a".toList) =
        [privateA] := by decide +kernel
    have hobject : Gone privateService (.ofDigit 1) privateBesideDirectory (normalizePath "a".toList)
        "users/u/private/1a".toList := by
      unfold Gone
      rw [hfiles]
      exact holds_privateA (by decide +kernel)
    have hgone := hexact.removal.objects.gone _ hobject
    have hafter : (deletedFrom privateService privateBesideDirectory "a".toList).2.bucket.content
        "users/u/private/1a".toList = some [0, 1] := by decide +kernel
    rw [hafter] at hgone
    cases hgone

theorem stored_once {b : Bucket} {key k : Str} (hkeys : b.objects.map (·.key) = [key])
    (hk : b.content k ≠ none) : k = key := by
  obtain ⟨body, hbody⟩ := Option.ne_none_iff_exists'.1 hk
  obtain ⟨o, ho, hat, -⟩ := content_some hbody
  have hin : k ∈ b.objects.map (·.key) := hat ▸ List.mem_map_of_mem ho
  rw [hkeys] at hin
  exact List.mem_singleton.1 hin

/-- Alone, it is deleted exactly, also in the private section. -/
theorem deletion_of_one_file :
    Exact filesService (.ofDigit 1) (normalizePath "a".toList) oneFile
      (deletedFrom filesService oneFile "a".toList).2 ∧
    Exact privateService (.ofDigit 1) (normalizePath "a".toList) onePrivateFile
      (deletedFrom privateService onePrivateFile "a".toList).2 := by
  constructor
  · have hrun : (filesService.deleteByPath (.ofDigit 1) "a".toList none 0).run (countingHost.serve 0)
        oneFile = (.ok (), (deletedFrom filesService oneFile "a".toList).2) := by
      have hok : (deletedFrom filesService oneFile "a".toList).1 = .ok () := by decide +kernel
      exact Prod.ext hok rfl
    apply (deletion_exact_iff filesService_wired hrun).2
    have hfiles : filesAt filesService (.ofDigit 1) oneFile (normalizePath "a".toList) = [fileA] := by
      decide +kernel
    have hrows : oneFile.db.records.rows = [fileA] := by decide +kernel
    have hkeys : oneFile.bucket.objects.map (·.key) = ["users/u/files/a".toList] := by decide +kernel
    constructor
    · unfold Aligned
      rw [hfiles]
      intro k hk
      have hfile : fileKey countingHost filesService fileA oneFile.bucket =
          some "users/u/files/a".toList := by decide +kernel
      rw [stored_once hkeys hk, hfile, holds_fileA]
      exact ⟨fun _ => rfl, fun _ => ⟨_, rfl, .inl rfl⟩⟩
    · intro r hr _ _ hmeant
      rw [hrows] at hr
      unfold meant at hmeant
      rw [hfiles, List.mem_singleton.1 hr] at hmeant
      exact absurd rfl (of_decide_eq_false hmeant)
  · have hrun : (privateService.deleteByPath (.ofDigit 1) "a".toList none 0).run (countingHost.serve 0)
        onePrivateFile = (.ok (), (deletedFrom privateService onePrivateFile "a".toList).2) := by
      have hok : (deletedFrom privateService onePrivateFile "a".toList).1 = .ok () := by decide +kernel
      exact Prod.ext hok rfl
    apply (deletion_exact_iff privateService_wired hrun).2
    have hfiles : filesAt privateService (.ofDigit 1) onePrivateFile (normalizePath "a".toList) =
        [privateA] := by decide +kernel
    have hrows : onePrivateFile.db.records.rows = [privateA] := by decide +kernel
    have hkeys : onePrivateFile.bucket.objects.map (·.key) = ["users/u/private/1a".toList] := by
      decide +kernel
    constructor
    · unfold Aligned
      rw [hfiles]
      intro k hk
      have hfile : fileKey countingHost privateService privateA onePrivateFile.bucket =
          some "users/u/private/1a".toList := by decide +kernel
      rw [stored_once hkeys hk, hfile]
      exact ⟨fun _ => holds_privateA (by decide +kernel), fun _ => ⟨_, rfl, .inl rfl⟩⟩
    · intro r hr _ _ hmeant
      rw [hrows] at hr
      unfold meant at hmeant
      rw [hfiles, List.mem_singleton.1 hr] at hmeant
      exact absurd rfl (of_decide_eq_false hmeant)

end WebStorage.PathDeletion
