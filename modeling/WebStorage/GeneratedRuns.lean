import WebStorage.GeneratedMeta
import WebStorage.StoredFiles

set_option autoImplicit false

/-! Generated runs: a directory with `meta.yaml`, the references and the result, which is stored as a
whole, read back, handed out file by file, and deleted. -/
namespace WebStorage
open Effect Effect.Prog FileService FailedUpload Generated S3
open PathDeletion (usageOf usageOf_congr)

attribute [local irreducible] Adapter.toDiskRelativePath normalizePath objectKey

structure GeneratedRuns (ν : Type) where
  fileService : FileService
  yaml : YamlLibrary (Scalar ν)
  floats : Floats ν

structure StoredGeneratedRun where
  id : Str
  createdAt : Str
deriving DecidableEq

namespace GeneratedRuns
variable {ν : Type} (s : GeneratedRuns ν)

def runIdAllocationAttempts : Nat := 5

/-- `f"{stamp}-{uuid4().hex[:8]}"`. -/
def runIdOf (created : Moment) (hex : UuidHex) : Str := created.stamp ++ '-' :: hex.text.take 8

/-- `_RUN_ID_PATTERN.fullmatch`. -/
def isRunId (runId : Str) : Bool := Moment.fits Moment.runIdPattern runId

/-- `_write_bytes`. -/
def writeBytes (userId : Uuid) (runId filename : Str) (payload : Bytes) (now : Time) : FileM Unit := do
  let _ ← s.fileService.uploadFile userId runId filename payload payload.length .generated now
  pure ()

/-- `_remove_partial_run`. -/
def removePartialRun (userId : Uuid) (runId : Str) (now : Time) : FileM Unit :=
  (do
    let _ ← s.fileService.deleteDirectoryRecursive userId runId now
    pure ()).catchWith fun _ => pure ()

/-- `_ensure_quota`. -/
def ensureQuota (userId : Uuid) (totalBytes : Int) : FileM Unit := do
  let usage ← db (QuotaRepo.getByUserId s.fileService.queue.settings.defaultUserQuotaBytes userId)
  if wouldExceed usage.totalBytes usage.limitBytes totalBytes then
    Prog.raise (.quotaExceeded (some (availableBytes usage.totalBytes usage.limitBytes)))
  else pure ()

/-- The loop of `_allocate_run_id`; `fresh` gives the attempts their ids. -/
def allocateFrom (created : Moment) (fresh : Nat → UuidHex) : Nat → Nat → FileM (Option Str)
  | _, 0 => pure none
  | attempt, attempts + 1 => do
    let runId := runIdOf created (fresh attempt)
    if (← s.fileService.pathExists runId) = false then pure (some runId)
    else allocateFrom created fresh (attempt + 1) attempts

/-- `_allocate_run_id`. -/
def allocateRunId (created : Moment) (fresh : Nat → UuidHex) : FileM (Except GeneratedError Str) := do
  match ← allocateFrom s created fresh 0 runIdAllocationAttempts with
  | some runId => pure (.ok runId)
  | none => pure (.error (invalid "Could not allocate a generated run id"))

/-- The images of a run under their names, the result last. -/
def images (accepted : AcceptedRun ν) : List (Str × Bytes) :=
  (referenceNames accepted.references.length).zip accepted.references ++
    [(resultFilename.toList, accepted.result)]

/-- The files of a run in the order in which they are written. -/
def runFiles (accepted : AcceptedRun ν) (metaBytes : Bytes) : List (Str × Bytes) :=
  (metaFilename.toList, metaBytes) :: images accepted

def writeFiles (userId : Uuid) (runId : Str) (now : Time) : List (Str × Bytes) → FileM Unit
  | [] => pure ()
  | (filename, payload) :: files => do
    writeBytes s userId runId filename payload now
    writeFiles userId runId now files

/-- The `meta.yaml` of an accepted run. -/
def metaBytes (accepted : AcceptedRun ν) (created : Moment) : Bytes :=
  renderMeta s.yaml accepted created.formatCreatedAt (referenceNames accepted.references.length)

/-- `total_bytes`. -/
def totalBytes (accepted : AcceptedRun ν) (created : Moment) : Nat :=
  (metaBytes s accepted created).length + (accepted.references.map (·.length)).sum +
    accepted.result.length

/-- The `try` statement of `store_run`. -/
def storeFiles (userId : Uuid) (accepted : AcceptedRun ν) (created : Moment) (runId : Str) (now : Time) :
    FileM Unit :=
  (writeFiles s userId runId now (runFiles accepted (metaBytes s accepted created))).catchWith fun e => do
    removePartialRun s userId runId now
    Prog.raise e

/-- `store_run`; `created` is the time of the clock. -/
def storeRun (userId : Uuid) (request : RunRequest) (created : Moment) (fresh : Nat → UuidHex)
    (now : Time) : FileM (Except GeneratedError StoredGeneratedRun) :=
  orFail (accept s.floats request) fun accepted => do
    ensureQuota s userId (totalBytes s accepted created)
    match ← allocateRunId s created fresh with
    | .error e => pure (.error e)
    | .ok runId => do
      s.fileService.createDirectory [] runId
      storeFiles s userId accepted created runId now
      pure (.ok ⟨runId, created.formatCreatedAt⟩)

/-- The service as the download routes see it. -/
def service : GeneratedService where
  fileService := s.fileService
  isRunId := isRunId
  listed raw := match parseMeta s.floats s.yaml raw with
    | .ok found => found.result :: found.references
    | .error _ => []

/-- `_read_meta`. -/
def readMeta (userId : Uuid) (runId : Str) (now : Time) :
    FileM (Except GeneratedError (GeneratedMeta ν)) := do
  match ← (service s).readMeta userId runId now with
  | none => pure (.error (.metaInvalid "meta.yaml is missing"))
  | some raw => pure (parseMeta s.floats s.yaml raw)

def getRun (userId : Uuid) (runId : Str) (now : Time) :
    FileM (Except GeneratedError (GeneratedMeta ν)) :=
  if isRunId runId = false then Prog.raise .fileNotFound
  else do
    if (← s.fileService.pathExists runId) = false then Prog.raise .fileNotFound
    else readMeta s userId runId now

/-- `_listed_file_names`; an `OverflowError` goes through. -/
def listedFileNames (userId : Uuid) (runId : Str) (now : Time) : FileM (List Str) := do
  match ← readMeta s userId runId now with
  | .ok found => pure (found.result :: found.references)
  | .error .overflow => Prog.raise .other
  | .error _ => pure []

def prepareFile (userId : Uuid) (runId name : Str) (now : Time) : FileM Str :=
  if isRunId runId = false then Prog.raise .fileNotFound
  else do
    if (← s.fileService.pathExists runId) = false then Prog.raise .fileNotFound
    else
      let allowed ← listedFileNames s userId runId now
      if name ∉ allowed then Prog.raise .fileNotFound
      else if (← s.fileService.readableObjectExists userId (runId ++ '/' :: name)) = false then
        Prog.raise .fileNotFound
      else pure (runId ++ '/' :: name)

def deleteRun (userId : Uuid) (runId : Str) (now : Time) : FileM Int :=
  if isRunId runId = false then Prog.raise .fileNotFound
  else s.fileService.deleteDirectoryRecursive userId runId now

/-! ### Names -/

/-- The characters of a run id. -/
def alphabet : Str := "0123456789abcdefTZ-".toList

theorem cleanName_of_alphabet {w : Str} (hne : w ≠ []) (h : ∀ c ∈ w, c ∈ alphabet) : CleanName w where
  ne_nil := hne
  no_slash hmem := absurd (h _ hmem) (by decide)
  no_backslash hmem := absurd (h _ hmem) (by decide)
  not_dot heq := by
    have hmem : '.' ∈ w := by
      rw [heq]
      decide
    exact absurd (h _ hmem) (by decide)
  not_dots heq := by
    have hmem : '.' ∈ w := by
      rw [heq]
      decide
    exact absurd (h _ hmem) (by decide)
  trimmed := by
    have hvisible : alphabet.all (fun c => !Text.isSpace c) = true := by decide
    have hspace : ∀ c ∈ alphabet, Text.isSpace c = false :=
      fun c hc => by simpa using List.all_eq_true.1 hvisible c hc
    apply Text.trimmed_iff.2
    constructor
    · exact fun c hc => hspace c (h c (List.mem_of_mem_head? hc))
    · exact fun c hc => hspace c (h c (List.mem_of_mem_getLast? hc))

theorem mem_alphabet_digitChar : ∀ n < 10, Nat.digitChar n ∈ alphabet := by decide

theorem stamp_explicit (created : Moment) (hyear : 1000 ≤ created.year) : created.stamp =
    [Nat.digitChar (created.year / 1000), Nat.digitChar (created.year / 100 % 10),
      Nat.digitChar (created.year / 10 % 10), Nat.digitChar (created.year % 10),
      Nat.digitChar (created.month / 10), Nat.digitChar (created.month % 10),
      Nat.digitChar (created.day / 10), Nat.digitChar (created.day % 10), 'T',
      Nat.digitChar (created.hour / 10), Nat.digitChar (created.hour % 10),
      Nat.digitChar (created.minute / 10), Nat.digitChar (created.minute % 10),
      Nat.digitChar (created.second / 10), Nat.digitChar (created.second % 10), 'Z'] := by
  unfold Moment.stamp
  rw [Moment.yearDigits_four created hyear]
  rfl

theorem mem_runIdOf {created : Moment} (hyear : 1000 ≤ created.year) (hex : UuidHex) :
    ∀ c ∈ runIdOf created hex, c ∈ alphabet := by
  have hhex : ∀ c ∈ hex.text.take 8, c ∈ alphabet := by
    intro c hc
    have hdigit := List.all_eq_true.1 hex.digits.2 c (List.mem_of_mem_take hc)
    have hall : "0123456789abcdef".toList.all (fun c => alphabet.contains c) = true := by decide
    exact List.contains_iff_mem.1 (List.all_eq_true.1 hall c (List.contains_iff_mem.1 hdigit))
  have hstamp : ∀ c ∈ created.stamp, c ∈ alphabet := by
    have hdigits := Moment.digits_of_moment created
    have hmarks : 'T' ∈ alphabet ∧ 'Z' ∈ alphabet := by decide
    simp only [List.forall_mem_cons] at hdigits
    rw [stamp_explicit created hyear]
    simp [mem_alphabet_digitChar, hdigits, hmarks]
  intro c hc
  unfold runIdOf at hc
  rcases List.mem_append.1 hc with hfirst | hrest
  · exact hstamp c hfirst
  · rcases List.mem_cons.1 hrest with hdash | hlast
    · rw [hdash]
      decide
    · exact hhex c hlast

theorem runIdOf_clean {created : Moment} (hyear : 1000 ≤ created.year) (hex : UuidHex) :
    CleanName (runIdOf created hex) := by
  apply cleanName_of_alphabet _ (mem_runIdOf hyear hex)
  unfold runIdOf
  exact List.append_ne_nil_of_right_ne_nil _ (List.cons_ne_nil _ _)

theorem isRunId_runIdOf {created : Moment} (hyear : 1000 ≤ created.year) (hex : UuidHex) :
    isRunId (runIdOf created hex) = true := by
  have hlength : (hex.text.take 8).length = 8 := by
    rw [List.length_take, hex.digits.1]
    decide
  have hhex : (hex.text.take 8).all (fun c => "0123456789abcdef".toList.contains c) = true :=
    List.all_eq_true.2 fun c hc => List.all_eq_true.1 hex.digits.2 c (List.mem_of_mem_take hc)
  have hlast := Moment.fits_hex _ hhex
  rw [hlength] at hlast
  have hstamp : Moment.fits [Moment.digits 8, [.char 'T'], Moment.digits 6, [.char 'Z', .char '-']].flatten
      (created.stamp ++ ['-']) = true := by
    have hdigits := Moment.decimals_of_moment created
    simp only [List.forall_mem_cons] at hdigits
    rw [stamp_explicit created hyear]
    simp [Moment.digits, Moment.fits, Moment.Piece.fits, hdigits]
  have hshape : runIdOf created hex = (created.stamp ++ ['-']) ++ hex.text.take 8 := by
    unfold runIdOf
    rw [List.append_assoc]
    rfl
  unfold isRunId
  rw [hshape]
  exact (Moment.fits_append hstamp).trans hlast

/-- The names of the files of a run differ, and none is that of a temporary object. -/
theorem runNames_ok : ∀ count ≤ maxReferenceCount,
    (metaFilename.toList :: (referenceNames count ++ [resultFilename.toList])).Nodup ∧
      ∀ name ∈ metaFilename.toList :: (referenceNames count ++ [resultFilename.toList]), FileName name := by
  decide +kernel

/-! ### The files of a run -/

/-- The path of a file of a run, which is also its key. -/
def fileKey (runId name : Str) : Str := Text.join [s.fileService.adapter.diskRelativePrefix, runId, name]

/-- The directory of a run. -/
def runKey (runId : Str) : Str := Text.join [s.fileService.adapter.diskRelativePrefix, runId]

/-- No active record of the user has a path in the directory. -/
def Vacant (userId : Uuid) (runId : Str) (d : Db) : Prop :=
  ∀ r ∈ d.records.rows, inScope (some userId) .generated r = true → isDownloadable r = true →
    ¬ runKey s runId ++ ['/'] <+: r.relativePath

/-- The record of a file. -/
structure OfFile (userId : Uuid) (runId : Str) (file : Str × Bytes) (r : FileRecord) : Prop where
  owner : r.userId = userId
  inSection : r.fileSection = .generated
  path : r.relativePath = fileKey s runId file.1
  size : r.sizeBytes = file.2.length
  status : r.status = .committed
  hot : r.isArchived = false

def bytesOf (files : List (Str × Bytes)) : Int := (files.map fun file => (file.2.length : Int)).sum

/-- The files have been stored, and nothing else has happened but to temporary objects. -/
structure Filed (userId : Uuid) (runId : Str) (files : List (Str × Bytes)) (w t : Installation) : Prop where
  rows : ∃ added, t.db.records.rows = w.db.records.rows ++ added ∧
    List.Forall₂ (OfFile s userId runId) files added
  stored : ∀ file ∈ files, t.bucket.content (fileKey s runId file.1) = some file.2
  others : ∀ k, (∀ file ∈ files, k ≠ fileKey s runId file.1) →
    (∀ id, k ≠ tmpKey s.fileService.adapter id) → t.bucket.content k = w.bucket.content k
  quotas : ∀ u, usageOf s.fileService t.db u =
    if u = userId then QuotaRepo.adjust (bytesOf files) .generated (usageOf s.fileService w.db u)
    else usageOf s.fileService w.db u

section
variable {s} {host : Host} {userId : Uuid} {runId name : Str} {payload : Bytes} {now : Time}
  {w u t : Installation} {files : List (Str × Bytes)}

theorem clean_path (hrun : CleanName runId) (hname : CleanName name) : Clean [runId, name] := by
  intro n hn
  rcases List.mem_cons.1 hn with hfirst | hlast
  · rw [hfirst]
    exact hrun
  · rw [List.mem_singleton.1 hlast]
    exact hname

theorem joinPath_file (hrun : CleanName runId) : joinPath (normalizePath runId) name =
    Text.join [runId, name] := by
  rw [normalizePath_name hrun]
  exact joinPath_join (Clean.singleton hrun) name

theorem toDisk_file (hrun : CleanName runId) (hname : CleanName name) :
    s.fileService.adapter.toDiskRelativePath (Text.join [runId, name]) = .ok (fileKey s runId name) :=
  toDiskRelativePath_join (clean_path hrun hname)

theorem objectKey_file (hroot : s.fileService.adapter.diskRelativePrefix ≠ []) (hrun : CleanName runId)
    (hname : CleanName name) :
    objectKey s.fileService.adapter (Text.join [runId, name]) = .ok (fileKey s runId name) :=
  objectKey_join hroot (clean_path hrun hname)

theorem fileKey_inj {other : Str} (h : fileKey s runId name = fileKey s runId other) :
    name = other := by
  have hcancel : Text.join [runId, name] = Text.join [runId, other] :=
    (List.cons.inj (List.append_cancel_left h)).2
  exact (List.cons.inj (List.append_cancel_left hcancel)).2

theorem fileKey_below (runId name : Str) : fileKey s runId name = runKey s runId ++ ['/'] ++ name := by
  unfold fileKey runKey
  rw [Text.join_cons _ (List.cons_ne_nil _ _), Text.join_cons _ (List.cons_ne_nil _ _),
    Text.join_cons _ (List.cons_ne_nil _ _)]
  simp [Text.join]

theorem free_of_vacant {d : Db} (h : Vacant s userId runId d) (name : Str) :
    atPath (lookupOwner userId .generated) .generated (fileKey s runId name) d.records.rows = [] := by
  apply List.filter_eq_nil_iff.2
  intro r hr hthere
  rw [Bool.and_eq_true, Bool.and_eq_true] at hthere
  have hpath : r.relativePath = fileKey s runId name := of_decide_eq_true hthere.1.2
  apply h r hr hthere.1.1 hthere.2
  rw [hpath, fileKey_below]
  exact List.prefix_append _ _

/-- No temporary object is at the key of a file. -/
theorem fileKey_beside (hroot : s.fileService.adapter.diskRelativePrefix ≠ []) (hrun : CleanName runId)
    (hname : FileName name) (id : Uuid) : fileKey s runId name ≠ tmpKey s.fileService.adapter id := by
  have hkey := objectKey_file hroot hrun hname.clean
  have hjoin : joinPath runId name = Text.join [runId, name] := joinPath_join (Clean.singleton hrun) name
  have hslash : ¬ ['/'] <:+ fileKey s runId name := by
    rintro ⟨rest, hrest⟩
    have hlast : (fileKey s runId name).getLast? = some '/' := by
      rw [← hrest, List.getLast?_append]
      rfl
    have hform : fileKey s runId name =
        (s.fileService.adapter.diskRelativePrefix ++ ['/']) ++ Text.join [runId, name] := by
      unfold fileKey
      rw [Text.join_cons _ (List.cons_ne_nil _ _), List.append_assoc]
      rfl
    have hclean := clean_path hrun hname.clean
    obtain ⟨c, hc⟩ := Option.ne_none_iff_exists'.1
      (mt List.getLast?_eq_none_iff.1 (join_ne_nil hclean (List.cons_ne_nil _ _)))
    rw [hform, List.getLast?_append, hc] at hlast
    exact last_join_ne_slash hclean c hc (Option.some.inj hlast)
  have hbeside := tmp_beside hroot hname (hjoin ▸ hkey) hslash id
  exact fun heq => hbeside (.inl heq.symm)

theorem returns_writeBytes (hplain : s.fileService.adapter.Plain)
    (hroot : s.fileService.adapter.diskRelativePrefix ≠ []) (hrun : CleanName runId)
    (hname : CleanName name) :
    Returns host now (writeBytes s userId runId name payload now) w fun _ t =>
      ∃ r, Uploaded s.fileService userId (fileKey s runId name) (fileKey s runId name) name payload
        payload.length .generated w t r := by
  unfold writeBytes
  have hpath : joinPath (normalizePath runId) name = Text.join [runId, name] := joinPath_file hrun
  have hrelative := hpath ▸ toDisk_file (s := s) hrun hname
  have hkey := hpath ▸ objectKey_file hroot hrun hname
  apply returns_bind (returns_uploadFile hplain hroot hrelative hkey)
  exact fun r t h => returns_done ⟨r, h⟩

theorem adjust_adjust (first second : Int) (fileSection : FileSection) (usage : QuotaUsage) :
    QuotaRepo.adjust second fileSection (QuotaRepo.adjust first fileSection usage) =
      QuotaRepo.adjust (first + second) fileSection usage := by
  unfold QuotaRepo.adjust
  cases fileSection <;> simp [add_assoc]

theorem filed_nothing (w : Installation) : Filed s userId runId [] w w where
  rows := ⟨[], (List.append_nil _).symm, .nil⟩
  stored file hfile := absurd hfile List.not_mem_nil
  others k _ _ := rfl
  quotas u := by
    have hzero : QuotaRepo.adjust (bytesOf []) .generated (usageOf s.fileService w.db u) =
        usageOf s.fileService w.db u := by
      unfold QuotaRepo.adjust
      simp [bytesOf]
    rw [hzero, ite_self]

/-- A file is stored before others. -/
theorem filed_cons {r : FileRecord}
    (hroot : s.fileService.adapter.diskRelativePrefix ≠ []) (hrun : CleanName runId)
    (hname : FileName name) (hnew : name ∉ files.map (·.1))
    (hfirst : Uploaded s.fileService userId (fileKey s runId name) (fileKey s runId name) name payload
      payload.length .generated w u r)
    (hrest : Filed s userId runId files u t) : Filed s userId runId ((name, payload) :: files) w t where
  rows := by
    obtain ⟨added, hrows, hfiles⟩ := hrest.rows
    refine ⟨r :: added, ?_, .cons ⟨hfirst.owner, hfirst.inSection, hfirst.path, hfirst.size, hfirst.status,
      hfirst.hot⟩ hfiles⟩
    rw [hrows, hfirst.rows, List.append_assoc]
    rfl
  stored file hfile := by
    rcases List.mem_cons.1 hfile with hsame | hlater
    · rw [hsame]
      have hother : ∀ later ∈ files, fileKey s runId name ≠ fileKey s runId later.1 := by
        intro later hlater heq
        exact hnew (List.mem_map.2 ⟨later, hlater, (fileKey_inj heq).symm⟩)
      have hbeside := fileKey_beside hroot hrun hname
      rw [hrest.others _ hother hbeside, hfirst.objects, if_neg (hbeside r.id), if_pos rfl]
    · exact hrest.stored file hlater
  others k hk htmp := by
    have hself : k ≠ fileKey s runId name := hk (name, payload) List.mem_cons_self
    have hlater : ∀ file ∈ files, k ≠ fileKey s runId file.1 :=
      fun file hfile => hk file (List.mem_cons_of_mem _ hfile)
    rw [hrest.others k hlater htmp, hfirst.objects, if_neg (htmp r.id), if_neg hself]
  quotas v := by
    rw [hrest.quotas v, hfirst.quotas v]
    by_cases hv : v = userId
    · rw [if_pos hv, if_pos hv, if_pos hv, adjust_adjust]
      rfl
    · rw [if_neg hv, if_neg hv, if_neg hv]

theorem returns_writeFiles (hplain : s.fileService.adapter.Plain)
    (hroot : s.fileService.adapter.diskRelativePrefix ≠ []) (hrun : CleanName runId) :
    ∀ {files : List (Str × Bytes)} {w : Installation}, (files.map (·.1)).Nodup →
      (∀ file ∈ files, FileName file.1) →
      Returns host now (writeFiles s userId runId now files) w fun _ t =>
        Filed s userId runId files w t := by
  intro files
  induction files with
  | nil =>
    intro w _ _
    exact returns_done (filed_nothing w)
  | cons file files ih =>
    intro w hnodup hnames
    obtain ⟨hnew, hrest⟩ := List.nodup_cons.1 hnodup
    have hname : FileName file.1 := hnames file List.mem_cons_self
    unfold writeFiles
    apply returns_bind (returns_writeBytes hplain hroot hrun hname.clean)
    intro _ u hu
    obtain ⟨r, hr⟩ := hu
    apply returns_mono (ih hrest fun later hlater => hnames later (List.mem_cons_of_mem _ hlater))
    exact fun _ t ht => filed_cons hroot hrun hname hnew hr ht

/-! ### Runs that are stored -/

/-- The check reads the quota, and may add its row. -/
theorem returns_ensureQuota {totalBytes : Int} :
    Returns host now (ensureQuota s userId totalBytes) w fun _ t =>
      t.bucket = w.bucket ∧ t.db.records = w.db.records ∧
        ∀ u, usageOf s.fileService t.db u = usageOf s.fileService w.db u := by
  have hlooked : ∀ u, usageOf s.fileService
      (QuotaRepo.getByUserId s.fileService.queue.settings.defaultUserQuotaBytes userId w.db).2 u =
        usageOf s.fileService w.db u := by
    intro u
    unfold QuotaRepo.getByUserId usageOf
    cases hrow : w.db.quotas.lookup userId with
    | some usage => rfl
    | none =>
      by_cases hu : u = userId
      · rw [hu, hrow, AList.lookup_insert]
        rfl
      · rw [AList.lookup_insert_ne hu]
  have hrecords : (QuotaRepo.getByUserId s.fileService.queue.settings.defaultUserQuotaBytes userId
      w.db).2.records = w.db.records := by
    unfold QuotaRepo.getByUserId
    split <;> rfl
  unfold ensureQuota
  apply returns_bind (returns_db _)
  intro usage t ht
  split
  · exact returns_raise
  · apply returns_done
    rw [ht.2]
    exact ⟨rfl, hrecords, hlooked⟩

/-- An id is allocated for which there is no directory. -/
theorem returns_allocateFrom (hplain : s.fileService.adapter.Plain) {created : Moment}
    (hyear : 1000 ≤ created.year) (fresh : Nat → UuidHex) : ∀ attempts attempt : Nat,
    Returns host now (allocateFrom s created fresh attempt attempts) w fun found t => t = w ∧
      ∀ id, found = some id → ∃ i, id = runIdOf created (fresh i) ∧
        ∀ key, objectKey s.fileService.adapter id = .ok key → w.bucket.occupied key = false := by
  intro attempts
  induction attempts with
  | zero => exact fun attempt => returns_done ⟨rfl, fun id hid => by cases hid⟩
  | succ attempts ih =>
    intro attempt
    have hself : normalizePath (runIdOf created (fresh attempt)) = runIdOf created (fresh attempt) :=
      normalizePath_name (runIdOf_clean hyear _)
    unfold allocateFrom pathExists
    dsimp only
    rw [hself]
    have hexists : Returns host now (store s.fileService.adapter (.exists (runIdOf created (fresh attempt))))
        w fun present t => t = w ∧ ∀ key, objectKey s.fileService.adapter (runIdOf created (fresh attempt)) =
          .ok key → w.bucket.occupied key = present := by
      cases hkey : objectKey s.fileService.adapter (runIdOf created (fresh attempt)) with
      | error e => exact returns_of_run (run_exists_error hplain hkey w) fun x hx => by cases hx
      | ok key =>
        apply returns_of_run (run_exists hplain hkey w)
        intro present hpresent
        refine ⟨rfl, fun key' hkey' => ?_⟩
        rw [← Except.ok.inj hkey']
        exact Except.ok.inj hpresent
    apply returns_bind hexists
    intro present t ht
    obtain ⟨ht, hpresent⟩ := ht
    subst ht
    cases present with
    | true => exact ih _
    | false =>
      apply returns_done
      refine ⟨rfl, fun id hid => ⟨attempt, (Option.some.inj hid).symm, fun key hkey => ?_⟩⟩
      rw [← Option.some.inj hid] at hkey
      exact hpresent key hkey

theorem returns_allocateRunId (hplain : s.fileService.adapter.Plain) {created : Moment}
    (hyear : 1000 ≤ created.year) (fresh : Nat → UuidHex) :
    Returns host now (allocateRunId s created fresh) w fun x t => t = w ∧
      ∀ id, x = .ok id → ∃ i, id = runIdOf created (fresh i) ∧
        ∀ key, objectKey s.fileService.adapter id = .ok key → w.bucket.occupied key = false := by
  unfold allocateRunId
  apply returns_bind (returns_allocateFrom hplain hyear fresh _ _)
  intro found t ht
  obtain ⟨hsame, hnamed⟩ := ht
  cases found with
  | none => exact returns_done ⟨hsame, fun id hid => by cases hid⟩
  | some runId => exact returns_done ⟨hsame, fun id hid => hnamed id (congrArg some (Except.ok.inj hid))⟩

variable (s) in
/-- What `store_run` leaves when it returns an id: a directory that nothing was in before, with the
files of the accepted run. -/
structure RunStored (userId : Uuid) (request : RunRequest) (created : Moment) (stored : StoredGeneratedRun)
    (accepted : AcceptedRun ν) (w t : Installation) : Prop where
  checked : accept s.floats request = .ok accepted
  createdAt : stored.createdAt = created.formatCreatedAt
  named : ∃ hex, stored.id = runIdOf created hex
  vacant : ∀ key, objectKey s.fileService.adapter stored.id = .ok key → w.bucket.occupied key = false
  files : ∃ u : Installation, u.db.records = w.db.records ∧ SameFiles w.bucket u.bucket ∧
    (∀ v, usageOf s.fileService u.db v = usageOf s.fileService w.db v) ∧
    Filed s userId stored.id (runFiles accepted (metaBytes s accepted created)) u t

theorem runNames (accepted : AcceptedRun ν) (bytes : Bytes) : (runFiles accepted bytes).map (·.1) =
    metaFilename.toList :: (referenceNames accepted.references.length ++ [resultFilename.toList]) := by
  have hlength : (referenceNames accepted.references.length).length = accepted.references.length := by
    unfold referenceNames
    rw [List.length_map, List.length_range']
  unfold runFiles images
  rw [List.map_cons, List.map_append, List.map_fst_zip (Nat.le_of_eq hlength)]
  rfl

theorem returns_storeRun (hplain : s.fileService.adapter.Plain)
    (hroot : s.fileService.adapter.diskRelativePrefix ≠ []) {request : RunRequest} {created : Moment}
    (hyear : 1000 ≤ created.year) (fresh : Nat → UuidHex) :
    Returns host now (storeRun s userId request created fresh now) w fun x t => ∀ stored, x = .ok stored →
      ∃ accepted, RunStored s userId request created stored accepted w t := by
  unfold storeRun
  apply returns_orFail
  · exact fun e _ stored hstored => by cases hstored
  intro accepted haccepted
  have hcount : accepted.references.length ≤ maxReferenceCount := (accept_ok haccepted).references
  obtain ⟨hnodup, hnames⟩ := runNames_ok _ hcount
  apply returns_bind returns_ensureQuota
  intro _ u hu
  obtain ⟨hbucket, hrecords, hquotas⟩ := hu
  apply returns_bind (returns_allocateRunId hplain hyear fresh)
  intro allocated v hv
  obtain ⟨hsame, hnamed⟩ := hv
  subst hsame
  cases allocated with
  | error e =>
    apply returns_done
    exact fun stored hstored => by cases hstored
  | ok runId =>
    obtain ⟨i, hid, hvacant⟩ := hnamed runId rfl
    have hclean : CleanName runId := hid ▸ runIdOf_clean hyear _
    apply returns_bind (returns_mkdir hplain)
    intro _ x hx
    have hwritten : Returns host now (storeFiles s userId accepted created runId now) x fun _ t =>
        Filed s userId runId (runFiles accepted (metaBytes s accepted created)) x t := by
      unfold storeFiles
      apply returns_catch
      · apply returns_writeFiles hplain hroot hclean
        · rw [runNames]
          exact hnodup
        · intro file hfile
          apply hnames
          rw [← runNames accepted (metaBytes s accepted created)]
          exact List.mem_map_of_mem hfile
      · intro e t _
        apply returns_bind (Q := fun _ _ => _) (P := fun _ _ => True)
        · exact ⟨fun _ _ _ => trivial⟩
        · exact fun _ _ _ => returns_raise
    apply returns_bind hwritten
    intro _ t ht
    apply returns_done
    intro stored hstored
    cases hstored
    refine ⟨accepted, haccepted, rfl, ⟨_, hid⟩, hbucket ▸ hvacant, x, ?_, ?_, ?_, ht⟩
    · rw [hx.1, hrecords]
    · rw [← hbucket]
      exact hx.2
    · intro owner
      rw [usageOf_congr (congrArg Db.quotas hx.1), hquotas]

end

/-! ### Runs that are read -/

section
variable {s} {host : Host} {userId : Uuid} {runId name : Str} {now later : Time}
  {w u t : Installation} {files : List (Str × Bytes)} {file : Str × Bytes} {added : List FileRecord}
  {accepted : AcceptedRun ν} {created : Moment}

theorem ofFile_of_mem {r : FileRecord} (hadded : List.Forall₂ (OfFile s userId runId) files added)
    (hr : r ∈ added) : ∃ file ∈ files, OfFile s userId runId file r := by
  induction hadded with
  | nil => cases hr
  | cons hfirst _ ih =>
    rcases List.mem_cons.1 hr with hsame | hlater
    · exact ⟨_, List.mem_cons_self, hsame ▸ hfirst⟩
    · obtain ⟨file, hfile, hof⟩ := ih hlater
      exact ⟨file, List.mem_cons_of_mem _ hfile, hof⟩

/-- Among the records of the files there is one of each name. -/
theorem alone_among (hadded : List.Forall₂ (OfFile s userId runId) files added)
    (hnodup : (files.map (·.1)).Nodup) (hfile : file ∈ files) :
    ∃ r, atPath (lookupOwner userId .generated) .generated (fileKey s runId file.1) added = [r] ∧
      r.isArchived = false := by
  have hother : ∀ {name : Str} {files : List (Str × Bytes)} {added : List FileRecord},
      List.Forall₂ (OfFile s userId runId) files added → name ∉ files.map (·.1) →
      atPath (lookupOwner userId .generated) .generated (fileKey s runId name) added = [] := by
    intro name files added hadded hnot
    apply List.filter_eq_nil_iff.2
    intro r hr hthere
    obtain ⟨file, hfile, hof⟩ := ofFile_of_mem hadded hr
    rw [Bool.and_eq_true, Bool.and_eq_true] at hthere
    have hpath : r.relativePath = fileKey s runId name := of_decide_eq_true hthere.1.2
    rw [hof.path] at hpath
    exact hnot (List.mem_map.2 ⟨file, hfile, fileKey_inj hpath⟩)
  induction hadded with
  | nil => cases hfile
  | @cons first r files added hof hrest ih =>
    obtain ⟨hnew, hnodup⟩ := List.nodup_cons.1 hnodup
    have hin : inScope (lookupOwner userId .generated) .generated r = true :=
      inScope_lookupOwner hof.owner hof.inSection
    have hdown : isDownloadable r = true := by
      unfold isDownloadable
      rw [hof.status]
      rfl
    rcases List.mem_cons.1 hfile with hsame | hlater
    · rw [hsame]
      refine ⟨r, ?_, hof.hot⟩
      have hnone := hother hrest hnew
      unfold atPath at hnone ⊢
      rw [List.filter_cons, hin, hdown, hof.path, hnone]
      simp
    · obtain ⟨found, hfound, hhot⟩ := ih hnodup hlater
      refine ⟨found, ?_, hhot⟩
      have hne : r.relativePath ≠ fileKey s runId file.1 := by
        intro heq
        rw [hof.path] at heq
        have hmem : file.1 ∈ files.map (·.1) := List.mem_map_of_mem hlater
        rw [← fileKey_inj heq] at hmem
        exact hnew hmem
      unfold atPath at hfound ⊢
      rw [List.filter_cons, hfound]
      simp [hne]

/-- Each file of a stored run is where it is looked up. -/
theorem stored_of_filed (hroot : s.fileService.adapter.diskRelativePrefix ≠ [])
    (hsection : s.fileService.fileSection = .generated) (hrun : CleanName runId)
    (hname : CleanName file.1) (hnodup : (files.map (·.1)).Nodup) (hfile : file ∈ files)
    (hfree : atPath (lookupOwner userId .generated) .generated (fileKey s runId file.1)
      w.db.records.rows = []) (h : Filed s userId runId files w t) :
    Stored s.fileService userId (Text.join [runId, file.1]) file.2 t := by
  obtain ⟨added, hrows, hadded⟩ := h.rows
  obtain ⟨r, hat, hhot⟩ := alone_among hadded hnodup hfile
  refine ⟨_, _, toDisk_file hrun hname, objectKey_file hroot hrun hname, r, ?_, hhot, h.stored file hfile⟩
  rw [hsection]
  unfold atPath at hfree hat ⊢
  rw [hrows, List.filter_append, hfree, hat]
  rfl

variable (host later) in
theorem run_readMeta (hplain : s.fileService.adapter.Plain)
    (hroot : s.fileService.adapter.diskRelativePrefix ≠ []) (hrun : CleanName runId) {raw : Bytes}
    (h : Stored s.fileService userId (Text.join [runId, metaFilename.toList]) raw t) :
    ∃ u, (readMeta s userId runId later).run (host.serve later) t =
        (.ok (parseMeta s.floats s.yaml raw), u) ∧
      ∀ userId' path' data', Stored s.fileService userId' path' data' t →
        Stored s.fileService userId' path' data' u := by
  have hclean : Clean [runId, metaFilename.toList] := clean_path hrun (by decide)
  have hself := normalizePath_join hclean
  obtain ⟨u, hread, hkept⟩ := run_read_stored host later hplain hroot (hself.symm ▸ h)
  refine ⟨u, ?_, hkept⟩
  have hbody : ((s.fileService.readByPath userId (Text.join [runId, metaFilename.toList]) later).bind
      fun raw => (pure (some raw) : FileM (Option Bytes))).run (host.serve later) t = (.ok (some raw), u) :=
    run_bind_ok hread _
  have hraw : ((service s).readMeta userId runId later).run (host.serve later) t = (.ok (some raw), u) :=
    run_catch_ok hbody _
  unfold readMeta
  rw [bind_eq, run_bind_ok hraw]
  rfl

theorem imageNames (accepted : AcceptedRun ν) : (images accepted).map (·.1) =
    referenceNames accepted.references.length ++ [resultFilename.toList] :=
  (List.cons.inj (runNames accepted [])).2

/-- The bytes of the files are those that the quota was checked for. -/
theorem bytesOf_runFiles (accepted : AcceptedRun ν) (created : Moment) :
    bytesOf (runFiles accepted (metaBytes s accepted created)) = totalBytes s accepted created := by
  have hlength : accepted.references.length ≤ (referenceNames accepted.references.length).length := by
    unfold referenceNames
    rw [List.length_map, List.length_range']
  have hsizes : (((referenceNames accepted.references.length).zip accepted.references).map
      fun file => (file.2.length : Int)) = accepted.references.map fun bytes => (bytes.length : Int) := by
    have hsecond := List.map_snd_zip hlength
    calc ((referenceNames accepted.references.length).zip accepted.references).map
          (fun file => (file.2.length : Int))
        = (((referenceNames accepted.references.length).zip accepted.references).map Prod.snd).map
            fun bytes => (bytes.length : Int) := by rw [List.map_map]; rfl
      _ = accepted.references.map fun bytes => (bytes.length : Int) := by rw [hsecond]
  have hsum : (((accepted.references.map (·.length)).sum : Nat) : Int) =
      (accepted.references.map fun bytes => (bytes.length : Int)).sum := by
    rw [Nat.cast_list_sum, List.map_map]
    rfl
  unfold bytesOf runFiles images totalBytes
  rw [List.map_cons, List.map_append, List.sum_cons, List.sum_append, hsizes, Nat.cast_add, Nat.cast_add,
    hsum, List.map_singleton, List.sum_singleton, add_assoc]

variable (host later) in
theorem run_prepareFile (hplain : s.fileService.adapter.Plain)
    (hroot : s.fileService.adapter.diskRelativePrefix ≠ []) (hrun : CleanName runId)
    (hid : isRunId runId = true) {raw : Bytes} {found : GeneratedMeta ν}
    (hraw : Stored s.fileService userId (Text.join [runId, metaFilename.toList]) raw t)
    (hparsed : parseMeta s.floats s.yaml raw = .ok found)
    (himages : ∀ name ∈ found.result :: found.references, CleanName name ∧
      ∃ data, Stored s.fileService userId (Text.join [runId, name]) data t) :
    ((prepareFile s userId runId name later).run (host.serve later) t).1 =
      if name ∈ found.result :: found.references then .ok (runId ++ '/' :: name)
      else .error .fileNotFound := by
  have hclean : Clean [runId, metaFilename.toList] := clean_path hrun (by decide)
  have hself : normalizePath runId = runId := normalizePath_name hrun
  have hjoin : joinPath runId metaFilename.toList = Text.join [runId, metaFilename.toList] :=
    joinPath_join (Clean.singleton hrun) _
  have hvisible : EndsVisibly runId := (Text.trimmed_iff.1 hrun.trimmed).2
  have hexists : (s.fileService.pathExists runId).run (host.serve later) t = (.ok true, t) := by
    unfold pathExists
    rw [hself]
    exact stored_directory hplain hroot (by decide) hvisible (hjoin.symm ▸ hraw)
  obtain ⟨u, hmeta, hkept⟩ := run_readMeta host later hplain hroot hrun hraw
  rw [hparsed] at hmeta
  have hlisted : (listedFileNames s userId runId later).run (host.serve later) t =
      (.ok (found.result :: found.references), u) := by
    unfold listedFileNames
    rw [bind_eq, run_bind_ok hmeta]
    rfl
  unfold prepareFile
  rw [hid, if_neg (by decide), bind_eq, run_bind_ok hexists, if_neg (by decide), bind_eq, run_bind_ok hlisted]
  by_cases hname : name ∈ found.result :: found.references
  · obtain ⟨hname', data, hdata⟩ := himages name hname
    have hpath := normalizePath_join (clean_path hrun hname')
    have hreadable := run_readable_stored host later hplain (hpath.symm ▸ hkept _ _ _ hdata)
    rw [if_neg (not_not.2 hname), if_pos hname, bind_eq]
    have hreadable' : (s.fileService.readableObjectExists userId (runId ++ '/' :: name)).run
        (host.serve later) u = (.ok true, u) := hreadable
    rw [run_bind_ok hreadable', if_neg (by decide)]
    rfl
  · rw [if_pos hname, if_neg hname]
    rfl

/-- Every file of a stored run is stored. -/
theorem RunStored.each {request : RunRequest} {stored : StoredGeneratedRun}
    (h : RunStored s userId request created stored accepted w t)
    (hroot : s.fileService.adapter.diskRelativePrefix ≠ [])
    (hsection : s.fileService.fileSection = .generated) (hyear : 1000 ≤ created.year)
    (hvacant : Vacant s userId stored.id w.db) :
    ∀ file ∈ runFiles accepted (metaBytes s accepted created), CleanName file.1 ∧
      Stored s.fileService userId (Text.join [stored.id, file.1]) file.2 t := by
  obtain ⟨hex, hnamed⟩ := h.named
  have hclean : CleanName stored.id := hnamed ▸ runIdOf_clean hyear hex
  obtain ⟨u, hrecords, -, -, hfiled⟩ := h.files
  obtain ⟨hnodup, hnames⟩ := runNames_ok _ (accept_ok h.checked).references
  rw [← runNames accepted (metaBytes s accepted created)] at hnodup hnames
  intro file hfile
  have hname : CleanName file.1 := (hnames file.1 (List.mem_map_of_mem hfile)).clean
  exact ⟨hname, stored_of_filed hroot hsection hclean hname hnodup hfile
    (hrecords ▸ free_of_vacant hvacant file.1) hfiled⟩

end

/-- A run that `store_run` has stored is returned by `get_run` as it was accepted, `prepare_file` lets
through exactly the result and the references, each of which reads as the bytes of the request, and the
user's total has grown by the bytes of the files. -/
theorem run_round_trip (host : Host) (now later : Time) (s : GeneratedRuns ν) (userId : Uuid)
    (request : RunRequest) (created : Moment) (fresh : Nat → UuidHex) (w t : Installation)
    (stored : StoredGeneratedRun) (hplain : s.fileService.adapter.Plain)
    (hroot : s.fileService.adapter.diskRelativePrefix ≠ [])
    (hsection : s.fileService.fileSection = .generated) (hyear : 1000 ≤ created.year)
    (hvacant : Vacant s userId stored.id w.db)
    (hyaml : ∀ accepted, accept s.floats request = .ok accepted → s.yaml.Inverts
      (metaDocument accepted created.formatCreatedAt (referenceNames accepted.references.length)))
    (hrun : (s.storeRun userId request created fresh now).run (host.serve now) w = (.ok (.ok stored), t)) :
    ∃ accepted, accept s.floats request = .ok accepted ∧ stored.createdAt = created.formatCreatedAt ∧
      ((s.getRun userId stored.id later).run (host.serve later) t).1 =
        .ok (.ok (metaOf accepted stored.createdAt)) ∧
      (∀ name, ((s.prepareFile userId stored.id name later).run (host.serve later) t).1 =
        if name ∈ resultFilename.toList :: referenceNames accepted.references.length then
          .ok (stored.id ++ '/' :: name)
        else .error .fileNotFound) ∧
      (∀ image ∈ images accepted,
        reads host s.fileService userId later t (stored.id ++ '/' :: image.1) = .ok image.2) ∧
      ∀ u, usageOf s.fileService t.db u =
        if u = userId then
          QuotaRepo.adjust (totalBytes s accepted created) .generated (usageOf s.fileService w.db u)
        else usageOf s.fileService w.db u := by
  obtain ⟨accepted, hstored⟩ := (returns_storeRun hplain hroot hyear fresh).ends _ _ hrun stored rfl
  have haccepted := accept_ok hstored.checked
  obtain ⟨hex, hnamed⟩ := hstored.named
  have hclean : CleanName stored.id := hnamed ▸ runIdOf_clean hyear hex
  have hid : isRunId stored.id = true := hnamed ▸ isRunId_runIdOf hyear hex
  have heach := hstored.each hroot hsection hyear hvacant
  have hraw := (heach _ List.mem_cons_self).2
  have hparsed : parseMeta s.floats s.yaml (metaBytes s accepted created) =
      .ok (metaOf accepted created.formatCreatedAt) :=
    parseMeta_render haccepted created hyear (hyaml accepted hstored.checked)
  refine ⟨accepted, hstored.checked, hstored.createdAt, ?_, ?_, ?_, ?_⟩
  · have hself : normalizePath stored.id = stored.id := normalizePath_name hclean
    have hjoin : joinPath stored.id metaFilename.toList = Text.join [stored.id, metaFilename.toList] :=
      joinPath_join (Clean.singleton hclean) _
    have hexists : (s.fileService.pathExists stored.id).run (host.serve later) t = (.ok true, t) := by
      unfold pathExists
      rw [hself]
      exact stored_directory hplain hroot (by decide) (Text.trimmed_iff.1 hclean.trimmed).2 (hjoin.symm ▸ hraw)
    obtain ⟨u, hmeta, -⟩ := run_readMeta host later hplain hroot hclean hraw
    unfold getRun
    rw [hid, if_neg (by decide), bind_eq, run_bind_ok hexists, if_neg (by decide), hmeta, hparsed,
      hstored.createdAt]
  · intro name
    apply run_prepareFile host later hplain hroot hclean hid hraw hparsed
    intro listed hlisted
    have himage : listed ∈ (images accepted).map (·.1) := by
      rw [imageNames]
      rcases List.mem_cons.1 hlisted with hresult | hreference
      · rw [hresult]
        exact List.mem_append_right _ (List.mem_singleton_self _)
      · exact List.mem_append_left _ hreference
    obtain ⟨image, hmem, hname⟩ := List.mem_map.1 himage
    obtain ⟨hname', hdata⟩ := heach image (List.mem_cons_of_mem _ hmem)
    rw [← hname]
    exact ⟨hname', image.2, hdata⟩
  · intro image himage
    obtain ⟨hname, hdata⟩ := heach image (List.mem_cons_of_mem _ himage)
    have hpath := normalizePath_join (clean_path hclean hname)
    exact (stored_read host later hplain hroot (hpath.symm ▸ hdata)).2
  · obtain ⟨v, -, -, hquotas, hfiled⟩ := hstored.files
    intro u
    rw [hfiled.quotas u, hquotas u, bytesOf_runFiles]

/-- Decimal fractions that are not rounded: a number and its digits behind the point. -/
def sampleFloats : Floats (Nat × Nat) where
  parse text :=
    let whole := text.takeWhile (· ≠ '.')
    let fraction := text.drop (whole.length + 1)
    (PyNumber.magnitude (whole ++ fraction)).map fun digits => (digits, fraction.length)
  isFinite _ := true
  isInteger number := number.1 % 10 ^ number.2 = 0
  truncate number := (number.1 / 10 ^ number.2 : Nat)
  ofInt value := some (value.toNat, 0)

def sampleRequest : RunRequest where
  prompt := some "a cat".toList
  negativePrompt := none
  seed := some " 42".toList
  steps := some "20.0".toList
  trueCfgScale := some "4.5".toList
  width := some "5_12".toList
  height := some "512".toList
  duration := some "2".toList
  references := [[1, 2]]
  result := some [3]

def sampleAccepted : AcceptedRun (Nat × Nat) where
  prompt := "a cat".toList
  negativePrompt := []
  seed := 42
  steps := 20
  trueCfgScale := (45, 1)
  width := 512
  height := 512
  duration := (2, 0)
  references := [[1, 2]]
  result := [3]

def sampleMoment : Moment := ⟨2024, 2, 29, 10, 20, 30, by decide⟩

def sampleYaml : Str :=
  ("\"prompt\": \"a cat\"\n\"negative_prompt\": \"\"\n\"seed\": 42\n\"steps\": 20\n" ++
    "\"true_cfg_scale\": 4.5\n\"width\": 512\n\"height\": 512\n\"duration\": 2.0\n" ++
    "\"created_at\": \"2024-02-29T10:20:30Z\"\n\"references\":\n- \"ref-1.png\"\n" ++
    "\"result\": \"result.png\"\n").toList

def sampleRuns : GeneratedRuns (Nat × Nat) where
  fileService := ⟨⟨"users/u/generated".toList, none⟩, .generated, none, sampleService.queue⟩
  yaml := yamlOf sampleYaml
    (metaDocument sampleAccepted sampleMoment.formatCreatedAt (referenceNames 1))
  floats := sampleFloats

def sampleSuffix (_ : Nat) : UuidHex := ⟨"0123456789abcdef0123456789abcdef".toList, by decide +kernel⟩

def sampleStored : StoredGeneratedRun :=
  ⟨"20240229T102030Z-01234567".toList, "2024-02-29T10:20:30Z".toList⟩

/-- Each record gets an id of its own. -/
def runHost : Host := ⟨fun _ => "", id, fun d => .ofDigit d.records.rows.length⟩

def sampleStore : Except Exc (Except GeneratedError StoredGeneratedRun) × Installation :=
  (sampleRuns.storeRun (.ofDigit 1) sampleRequest sampleMoment sampleSuffix 0).run (runHost.serve 0)
    sampleStart

theorem sampleStore_eq : sampleStore.1 = .ok (.ok sampleStored) := by decide +kernel

theorem sampleRequest_accepted : accept sampleFloats sampleRequest = .ok sampleAccepted := by decide +kernel

theorem sampleRuns_plain : sampleRuns.fileService.adapter.Plain := by
  have hroot : Text.stripSlash (Text.strip "users/u/generated".toList) = "users/u/generated".toList := by
    decide +kernel
  exact ⟨rfl, hroot⟩

/-- A run with one reference is read with the numbers that its form spelled, its files are let through
and read as they came, and they are charged. -/
theorem sample_run_read :
    ((sampleRuns.getRun (.ofDigit 1) sampleStored.id 5).run (runHost.serve 5) sampleStore.2).1 =
        .ok (.ok (metaOf sampleAccepted sampleStored.createdAt)) ∧
      (∀ name, ((sampleRuns.prepareFile (.ofDigit 1) sampleStored.id name 5).run (runHost.serve 5)
          sampleStore.2).1 =
        if name ∈ resultFilename.toList :: referenceNames sampleAccepted.references.length then
          .ok (sampleStored.id ++ '/' :: name)
        else .error .fileNotFound) ∧
      (∀ image ∈ images sampleAccepted, reads runHost sampleRuns.fileService (.ofDigit 1) 5 sampleStore.2
        (sampleStored.id ++ '/' :: image.1) = .ok image.2) ∧
      usageOf sampleRuns.fileService sampleStore.2.db (.ofDigit 1) =
        QuotaRepo.adjust (totalBytes sampleRuns sampleAccepted sampleMoment) .generated
          (usageOf sampleRuns.fileService sampleStart.db (.ofDigit 1)) := by
  have hstore : (sampleRuns.storeRun (.ofDigit 1) sampleRequest sampleMoment sampleSuffix 0).run
      (runHost.serve 0) sampleStart = (.ok (.ok sampleStored), sampleStore.2) := Prod.ext sampleStore_eq rfl
  have hyaml : ∀ accepted, accept sampleRuns.floats sampleRequest = .ok accepted → sampleRuns.yaml.Inverts
      (metaDocument accepted sampleMoment.formatCreatedAt (referenceNames accepted.references.length)) := by
    intro accepted haccepted
    have hsame : accepted = sampleAccepted :=
      Except.ok.inj (haccepted.symm.trans sampleRequest_accepted)
    rw [hsame]
    exact yamlOf_inverts (by decide +kernel)
  obtain ⟨accepted, haccepted, -, hread, hprepared, himages, hcharged⟩ := run_round_trip runHost 0 5
    sampleRuns (.ofDigit 1) sampleRequest sampleMoment sampleSuffix sampleStart sampleStore.2 sampleStored
    sampleRuns_plain (by decide) rfl (by decide) (fun r hr => absurd hr List.not_mem_nil) hyaml hstore
  have hsame : accepted = sampleAccepted := Except.ok.inj (haccepted.symm.trans sampleRequest_accepted)
  rw [hsame] at hread hprepared himages hcharged
  exact ⟨hread, hprepared, himages, (hcharged (.ofDigit 1)).trans (if_pos rfl)⟩

end GeneratedRuns
end WebStorage
