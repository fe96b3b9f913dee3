import WebStorage.ResumeFiles

set_option autoImplicit false

/-! The resume service over its files: what is saved is what is read. -/
namespace WebStorage
open Effect Effect.Prog S3 FileService
open FailedUpload (sampleHost sampleService)

attribute [local irreducible] Adapter.toDiskRelativePath normalizePath objectKey

/-- The service works on a file service of the resumes. Its `_normalize_path` is that of the file
service. -/
structure ResumeService where
  fileService : FileService
  yaml : YamlLibrary Str
  lower : Str → Str
  resumes : fileService.fileSection = .resumes

namespace ResumeService
open Resume
variable (s : ResumeService)

def depth (normalizedPath : Str) : Nat :=
  if normalizedPath = [] then 0 else (Text.split normalizedPath).length

/-- `_join_path`. -/
def joinNames (directory name : Str) : Str :=
  if directory ≠ [] ∧ name ≠ [] then directory ++ '/' :: name
  else if name ≠ [] then name else directory

/-- `_normalize_vacancy_path`. -/
def normalizeVacancyPath (path : Str) : Except ResumeError Str :=
  if depth (normalizePath path) ≠ maxTreeDepth then
    .error (.validation "Vacancy metadata is only available at country/company/vacancy depth"
      "RESUME_DEPTH_INVALID")
  else .ok (normalizePath path)

/-- `_ensure_root`. -/
def ensureRoot : FileM Unit := do
  if ← s.fileService.pathExists [] then pure ()
  else s.fileService.createDirectory [] []

/-- `_ensure_node_exists`. -/
def ensureNodeExists (path : Str) (required : Bool) : FileM Unit :=
  if path = [] then
    if required then Prog.raise .fileNotFound else pure ()
  else do
    if (← s.fileService.pathExists path) = false then Prog.raise .fileNotFound else pure ()

/-- `_read_file`. -/
def readFile (userId : Uuid) (relativePath : Str) (now : Time) : FileM (Option Bytes) := do
  if (← s.fileService.pathExists relativePath) = false then pure none
  else (do
    let raw ← s.fileService.readByPath userId relativePath now
    pure (some raw)).catchWith fun
      | .fileNotFound => pure none
      | e => Prog.raise e

/-- `_read_meta`. -/
def readMeta (userId : Uuid) (vacancyPath : Str) (now : Time) :
    FileM (Except ResumeError VacancyMeta) := do
  let raw ← readFile s userId (joinNames vacancyPath vacancyMetaFilename.toList) now
  pure (match raw with
    | none => .ok (emptyMeta vacancyPath)
    | some raw => parseMeta s.yaml raw vacancyPath)

/-- `_write_yaml`. -/
def writeYaml (userId : Uuid) (path : Str) (filename : String) (document : Yaml Str) (now : Time) :
    FileM Unit := do
  let payload := Utf8.encode (s.yaml.dump document)
  let _ ← s.fileService.overwriteFile userId path filename.toList payload payload.length .resumes now
  pure ()

def getVacancy (userId : Uuid) (path : Str) (now : Time) : FileM (Except ResumeError VacancyMeta) :=
  orFail (normalizeVacancyPath path) fun normalized => do
    ensureNodeExists s normalized true
    readMeta s userId normalized now

def saveVacancy (userId : Uuid) (path : Str) (websiteUrl statusId : Option Str)
    (fields : List VacancyField) (now : Time) : FileM (Except ResumeError VacancyMeta) :=
  orFail (normalizeVacancyPath path) fun normalized => do
    ensureNodeExists s normalized true
    let normalizedUrl := normalizeUrl websiteUrl
    orFail (validateFields s.lower fields) fun normalizedFields => do
      let normalizedStatusId := normalizeStatusId statusId
      writeYaml s userId normalized vacancyMetaFilename
        (metaDocument normalizedUrl normalizedStatusId normalizedFields) now
      pure (.ok ⟨normalized, Text.name normalized, normalizedUrl, normalizedStatusId, normalizedFields⟩)

/-- The statuses of a user who has none yet. -/
def seededStatuses (fresh : Nat → UuidHex) : List ResumeStatus :=
  defaultStatuses.mapIdx fun index entry => ⟨(fresh index).text, entry.1, entry.2⟩

def listStatuses (userId : Uuid) (fresh : Nat → UuidHex) (now : Time) :
    FileM (Except ResumeError (List ResumeStatus)) := do
  ensureRoot s
  let raw ← readFile s userId statusesFilename.toList now
  match raw with
  | none =>
    writeYaml s userId [] statusesFilename (statusesDocument (seededStatuses fresh)) now
    pure (.ok (seededStatuses fresh))
  | some raw => pure (parseStatuses s.yaml raw)

def saveStatuses (userId : Uuid) (statuses : List ResumeStatus) (fresh : Nat → UuidHex) (now : Time) :
    FileM (Except ResumeError (List ResumeStatus)) :=
  orFail (validateStatuses s.lower fresh statuses) fun normalized => do
    ensureRoot s
    writeYaml s userId [] statusesFilename (statusesDocument normalized) now
    pure (.ok normalized)

/-! ### Files of the service -/

section
variable {s} {host : Host} {userId : Uuid} {now : Time} {w t : Installation} {path : Str} {data : Bytes}

theorem fileName_meta : FileName vacancyMetaFilename.toList := by decide +kernel

theorem fileName_statuses : FileName statusesFilename.toList := by decide +kernel

theorem returns_pathExists (hplain : s.fileService.adapter.Plain) :
    Returns host now (s.fileService.pathExists path) w fun _ t => t = w :=
  returns_mono (returns_exists hplain) fun _ _ h => h.1

theorem returns_ensureNodeExists {required : Bool} (hplain : s.fileService.adapter.Plain) :
    Returns host now (ensureNodeExists s path required) w fun _ t => t = w := by
  unfold ensureNodeExists
  split
  · split
    · exact returns_raise
    · exact returns_done rfl
  · apply returns_bind (returns_pathExists hplain)
    intro found t ht
    split
    · exact returns_raise
    · exact returns_done ht

/-- Creating the root leaves the tables alone. -/
theorem returns_ensureRoot (hplain : s.fileService.adapter.Plain) :
    Returns host now (ensureRoot s) w fun _ t => t.db = w.db := by
  unfold ensureRoot
  apply returns_bind (returns_pathExists hplain)
  intro found t ht
  split
  · exact returns_done (by rw [ht])
  · unfold createDirectory
    apply returns_mono (returns_mkdir hplain)
    intro _ u hu
    rw [hu.1, ht]

theorem returns_writeYaml {filename : String} {document : Yaml Str} (hplain : s.fileService.adapter.Plain)
    (hroot : s.fileService.adapter.diskRelativePrefix ≠ []) (hname : FileName filename.toList)
    (hhot : HotAt s.fileService userId (joinPath (normalizePath path) filename.toList) w.db) :
    Returns host now (writeYaml s userId path filename document now) w fun _ t =>
      Stored s.fileService userId (joinPath (normalizePath path) filename.toList)
        (Utf8.encode (s.yaml.dump document)) t := by
  unfold writeYaml
  rw [← s.resumes]
  apply returns_bind (returns_overwrite hplain hroot hname hhot)
  exact fun _ _ h => returns_done h

variable (host now) in
/-- A stored file is read. -/
theorem run_readFile (hplain : s.fileService.adapter.Plain)
    (hroot : s.fileService.adapter.diskRelativePrefix ≠ [])
    (h : Stored s.fileService userId (normalizePath path) data w) :
    ∃ u, (readFile s userId path now).run (host.serve now) w = (.ok (some data), u) := by
  obtain ⟨hexists, hreads⟩ := stored_read host now hplain hroot h
  unfold readFile
  rw [bind_eq, run_bind_ok hexists, if_neg (by decide)]
  unfold reads at hreads
  rcases hrun : (s.fileService.readByPath userId path now).run (host.serve now) w with ⟨x, u⟩
  rw [hrun] at hreads
  have hx : x = .ok data := hreads
  subst hx
  have hbody : ((s.fileService.readByPath userId path now).bind fun raw =>
      (pure (some raw) : FileM (Option Bytes))).run (host.serve now) w = (.ok (some data), u) :=
    run_bind_ok hrun _
  exact ⟨u, run_catch_ok hbody _⟩

end

/-! ### Vacancies -/

section
variable {s} {host : Host} {userId : Uuid} {now later : Time} {w t : Installation} {path : Str}
  {websiteUrl statusId : Option Str} {fields : List VacancyField} {found : VacancyMeta}

/-- Where the metadata of a vacancy are. -/
def metaPath (path : Str) : Str := joinPath (normalizePath (normalizePath path)) vacancyMetaFilename.toList

/-- The bytes of the metadata. -/
def metaBytes (s : ResumeService) (found : VacancyMeta) : Bytes :=
  Utf8.encode (s.yaml.dump (metaDocument found.websiteUrl found.statusId found.fields))

/-- What a saved vacancy is. -/
structure Saved (s : ResumeService) (path : Str) (websiteUrl statusId : Option Str)
    (fields : List VacancyField) (found : VacancyMeta) : Prop where
  vacancy : normalizeVacancyPath path = .ok (normalizePath path)
  nodePath : found.path = normalizePath path
  name : found.name = Text.name (normalizePath path)
  websiteUrl : found.websiteUrl = normalizeUrl websiteUrl
  statusId : found.statusId = normalizeStatusId statusId
  fields : validateFields s.lower fields = .ok found.fields

theorem normalizeVacancyPath_ok {normalized : Str} (h : normalizeVacancyPath path = .ok normalized) :
    normalized = normalizePath path ∧ normalizePath path ≠ [] := by
  unfold normalizeVacancyPath at h
  split at h
  next => cases h
  next hdepth =>
    refine ⟨(Except.ok.inj h).symm, ?_⟩
    intro hnil
    rw [hnil] at hdepth
    exact hdepth (by decide)

theorem returns_saveVacancy (hplain : s.fileService.adapter.Plain)
    (hroot : s.fileService.adapter.diskRelativePrefix ≠ []) :
    Returns host now (saveVacancy s userId path websiteUrl statusId fields now) w fun x t =>
      ∀ found, x = .ok found → Saved s path websiteUrl statusId fields found ∧
        (HotAt s.fileService userId (metaPath path) w.db →
          Stored s.fileService userId (metaPath path) (metaBytes s found) t) := by
  unfold saveVacancy
  apply returns_orFail
  · intro e _ found hfound
    cases hfound
  · intro normalized hnormalized
    obtain ⟨hpath, -⟩ := normalizeVacancyPath_ok hnormalized
    subst hpath
    apply returns_bind (returns_ensureNodeExists hplain)
    intro _ u hu
    rw [hu]
    apply returns_orFail
    · intro e _ found hfound
      cases hfound
    · intro normalizedFields hfields
      -- the tables decide whether the file is hot, so the two cases are told apart before the write
      by_cases hhot : HotAt s.fileService userId (metaPath path) w.db
      · apply returns_bind (returns_writeYaml hplain hroot fileName_meta hhot)
        intro _ t ht
        apply returns_done
        intro found hfound
        cases hfound
        exact ⟨⟨hnormalized, rfl, rfl, rfl, rfl, hfields⟩, fun _ => ht⟩
      · have hany : Returns host now (writeYaml s userId (normalizePath path) vacancyMetaFilename
            (metaDocument (normalizeUrl websiteUrl) (normalizeStatusId statusId) normalizedFields) now) w
            fun _ _ => True := ⟨fun _ _ _ => trivial⟩
        apply returns_bind hany
        intro _ t _
        apply returns_done
        intro found hfound
        cases hfound
        exact ⟨⟨hnormalized, rfl, rfl, rfl, rfl, hfields⟩, fun h => absurd h hhot⟩

theorem metaPath_eq (hvisible : EndsVisibly (normalizePath path)) (hne : normalizePath path ≠ []) :
    normalizePath (joinNames (normalizePath path) vacancyMetaFilename.toList) = metaPath path := by
  have hjoin : joinNames (normalizePath path) vacancyMetaFilename.toList =
      normalizePath path ++ '/' :: vacancyMetaFilename.toList := if_pos ⟨hne, by decide⟩
  rw [hjoin]
  exact (normalizePath_file fileName_meta.clean hvisible hne).1

/-- What was stored for a vacancy is what is read. -/
theorem run_getVacancy (hplain : s.fileService.adapter.Plain)
    (hroot : s.fileService.adapter.diskRelativePrefix ≠ [])
    (hvisible : EndsVisibly (normalizePath path)) (hsaved : Saved s path websiteUrl statusId fields found)
    (hyaml : s.yaml.Inverts (metaDocument found.websiteUrl found.statusId found.fields))
    (hstored : Stored s.fileService userId (metaPath path) (metaBytes s found) w) :
    ((getVacancy s userId path now).run (host.serve now) w).1 = .ok (.ok found) := by
  obtain ⟨-, hne⟩ := normalizeVacancyPath_ok hsaved.vacancy
  have hdirectory := (normalizePath_file fileName_meta.clean hvisible hne).2
  have hexists : (s.fileService.pathExists (normalizePath path)).run (host.serve now) w = (.ok true, w) :=
    stored_directory hplain hroot fileName_meta.clean hdirectory hstored
  have hnode : (ensureNodeExists s (normalizePath path) true).run (host.serve now) w = (.ok (), w) := by
    unfold ensureNodeExists
    rw [if_neg hne, bind_eq, run_bind_ok hexists]
    rfl
  rw [← metaPath_eq hvisible hne] at hstored
  obtain ⟨u, hread⟩ := run_readFile host now hplain hroot hstored
  have hparsed : parseMeta s.yaml (metaBytes s found) (normalizePath path) = .ok found := by
    have hstatus : normalizeStatusId found.statusId = found.statusId := by
      rw [hsaved.statusId]
      exact normalizeStatusId_normalized statusId
    have hfields := validateFieldsFrom_named hsaved.fields
    have hdocument : parseMeta s.yaml (metaBytes s found) found.path = _ :=
      parseMeta_document hyaml hstatus hfields
    have hname : Text.name found.path = found.name := by
      rw [hsaved.name, hsaved.nodePath]
    rw [hname] at hdocument
    rw [← hsaved.nodePath]
    exact hdocument
  unfold getVacancy orFail
  rw [hsaved.vacancy]
  dsimp only
  rw [bind_eq, run_bind_ok hnode]
  unfold readMeta
  rw [bind_eq, run_bind_ok hread]
  exact congrArg Except.ok hparsed

/-- A vacancy that has been saved is read as it was saved, and saving what was read accepts it
unchanged and stores the same bytes. -/
theorem vacancy_round_trip (host : Host) (now later : Time) (s : ResumeService) (userId : Uuid)
    (path : Str) (websiteUrl statusId : Option Str) (fields : List VacancyField) (w t : Installation)
    (found : VacancyMeta) (hplain : s.fileService.adapter.Plain)
    (hroot : s.fileService.adapter.diskRelativePrefix ≠ [])
    (hvisible : EndsVisibly (normalizePath path))
    (hhot : HotAt s.fileService userId (metaPath path) w.db)
    (hyaml : s.yaml.Inverts (metaDocument found.websiteUrl found.statusId found.fields))
    (hsave : (s.saveVacancy userId path websiteUrl statusId fields now).run (host.serve now) w =
      (.ok (.ok found), t)) :
    ((s.getVacancy userId path later).run (host.serve later) t).1 = .ok (.ok found) ∧
      Stored s.fileService userId (metaPath path) (metaBytes s found) t ∧
      ∀ found' t', (s.saveVacancy userId path (some found.websiteUrl) found.statusId found.fields later).run
          (host.serve later) t = (.ok (.ok found'), t') →
        found' = found ∧ Stored s.fileService userId (metaPath path) (metaBytes s found) t' := by
  obtain ⟨hsaved, hstore⟩ := (returns_saveVacancy hplain hroot).ends _ _ hsave found rfl
  have hstored := hstore hhot
  refine ⟨run_getVacancy hplain hroot hvisible hsaved hyaml hstored, hstored, ?_⟩
  intro found' t' hagain
  obtain ⟨hsaved', hstore'⟩ := (returns_saveVacancy hplain hroot).ends _ _ hagain found' rfl
  have hsame : found' = found := by
    have hfields : found'.fields = found.fields := by
      have hnormalized := validateFieldsFrom_normalized hsaved.fields
      exact Except.ok.inj (hsaved'.fields.symm.trans hnormalized)
    have hurl : found'.websiteUrl = found.websiteUrl := by
      rw [hsaved'.websiteUrl, hsaved.websiteUrl]
      exact normalizeUrl_normalized websiteUrl
    have hstatus : found'.statusId = found.statusId := by
      rw [hsaved'.statusId, hsaved.statusId]
      exact normalizeStatusId_normalized statusId
    have hpath : found'.path = found.path := hsaved'.nodePath.trans hsaved.nodePath.symm
    have hname : found'.name = found.name := hsaved'.name.trans hsaved.name.symm
    cases found
    cases found'
    simp only at hfields hurl hstatus hpath hname
    rw [hfields, hurl, hstatus, hpath, hname]
  refine ⟨hsame, ?_⟩
  have hstored' := hstore' (hotAt_stored hstored)
  rw [hsame] at hstored'
  exact hstored'

end
/-! ### Statuses -/

section
variable {s} {host : Host} {userId : Uuid} {now : Time} {w t : Installation}
  {statuses saved : List ResumeStatus} {fresh : Nat → UuidHex}

theorem statusesPath_eq : joinPath (normalizePath []) statusesFilename.toList = statusesFilename.toList ∧
    normalizePath statusesFilename.toList = statusesFilename.toList := by
  rw [normalizePath_nil]
  exact ⟨rfl, normalizePath_name fileName_statuses.clean⟩

/-- The bytes of the statuses. -/
def statusesBytes (s : ResumeService) (statuses : List ResumeStatus) : Bytes :=
  Utf8.encode (s.yaml.dump (statusesDocument statuses))

theorem returns_saveStatuses (hplain : s.fileService.adapter.Plain)
    (hroot : s.fileService.adapter.diskRelativePrefix ≠ [])
    (hhot : HotAt s.fileService userId statusesFilename.toList w.db) :
    Returns host now (saveStatuses s userId statuses fresh now) w fun x t =>
      ∀ saved, x = .ok saved → validateStatuses s.lower fresh statuses = .ok saved ∧
        Stored s.fileService userId statusesFilename.toList (statusesBytes s saved) t := by
  unfold saveStatuses
  apply returns_orFail
  · intro e _ saved hsaved
    cases hsaved
  · intro normalized hnormalized
    apply returns_bind (returns_ensureRoot hplain)
    intro _ u hu
    rw [← statusesPath_eq.1, ← hu] at hhot
    apply returns_bind (returns_writeYaml hplain hroot fileName_statuses hhot)
    intro _ t ht
    apply returns_done
    intro saved hsaved
    cases hsaved
    rw [statusesPath_eq.1] at ht
    exact ⟨hnormalized, ht⟩

/-- What was stored for the statuses is what is read. -/
theorem run_listStatuses (hplain : s.fileService.adapter.Plain)
    (hroot : s.fileService.adapter.diskRelativePrefix ≠ [])
    (hsaved : ∀ status ∈ saved, Normalized status) (hyaml : s.yaml.Inverts (statusesDocument saved))
    (hstored : Stored s.fileService userId statusesFilename.toList (statusesBytes s saved) w) :
    ((listStatuses s userId fresh now).run (host.serve now) w).1 = .ok (.ok saved) := by
  have hexists : (s.fileService.pathExists []).run (host.serve now) w = (.ok true, w) := by
    unfold pathExists
    rw [normalizePath_nil]
    have hvisible : EndsVisibly [] := fun c hc => by cases hc
    exact stored_directory hplain hroot fileName_statuses.clean hvisible hstored
  have hroot' : (ensureRoot s).run (host.serve now) w = (.ok (), w) := by
    unfold ensureRoot
    rw [bind_eq, run_bind_ok hexists]
    rfl
  rw [← statusesPath_eq.2] at hstored
  obtain ⟨u, hread⟩ := run_readFile host now hplain hroot hstored
  unfold listStatuses
  rw [bind_eq, run_bind_ok hroot', bind_eq, run_bind_ok hread]
  exact congrArg Except.ok (parseStatuses_document hyaml hsaved)

/-- Statuses that have been saved are read as they were saved, in their order, and saving what was
read accepts it unchanged and stores the same bytes. -/
theorem statuses_round_trip (host : Host) (now later : Time) (s : ResumeService) (userId : Uuid)
    (statuses : List ResumeStatus) (fresh fresh' : Nat → UuidHex) (w t : Installation)
    (saved : List ResumeStatus) (hplain : s.fileService.adapter.Plain)
    (hroot : s.fileService.adapter.diskRelativePrefix ≠ [])
    (hhot : HotAt s.fileService userId statusesFilename.toList w.db)
    (hyaml : s.yaml.Inverts (statusesDocument saved))
    (hsave : (s.saveStatuses userId statuses fresh now).run (host.serve now) w = (.ok (.ok saved), t)) :
    ((s.listStatuses userId fresh' later).run (host.serve later) t).1 = .ok (.ok saved) ∧
      Stored s.fileService userId statusesFilename.toList (statusesBytes s saved) t ∧
      ∀ saved' t', (s.saveStatuses userId saved fresh' later).run (host.serve later) t =
          (.ok (.ok saved'), t') →
        saved' = saved ∧
          Stored s.fileService userId statusesFilename.toList (statusesBytes s saved) t' := by
  obtain ⟨hvalid, hstored⟩ := (returns_saveStatuses hplain hroot hhot).ends _ _ hsave saved rfl
  refine ⟨run_listStatuses hplain hroot (validateStatusesFrom_each hvalid) hyaml hstored, hstored, ?_⟩
  intro saved' t' hagain
  obtain ⟨hvalid', hstored'⟩ :=
    (returns_saveStatuses hplain hroot (hotAt_stored hstored)).ends _ _ hagain saved' rfl
  have hnormalized : validateStatuses s.lower fresh' saved = .ok saved :=
    validateStatusesFrom_normalized hvalid
  have hsame : saved' = saved := Except.ok.inj (hvalid'.symm.trans hnormalized)
  rw [hsame] at hstored'
  exact ⟨hsame, hstored'⟩

end
/-! ### One user -/

def resumesOf (yaml : YamlLibrary Str) : ResumeService where
  fileService := ⟨⟨"users/u/resumes".toList, none⟩, .resumes, none, sampleService.queue⟩
  yaml := yaml
  lower := id
  resumes := rfl

theorem resumesOf_plain (yaml : YamlLibrary Str) : (resumesOf yaml).fileService.adapter.Plain := by
  have hroot : Text.stripSlash (Text.strip "users/u/resumes".toList) = "users/u/resumes".toList := by
    decide +kernel
  exact ⟨rfl, hroot⟩

theorem hotAt_empty {s : FileService} {userId : Uuid} {path : Str} {d : Db} (h : d.records.rows = []) :
    HotAt s userId path d := by
  intro relative r _ haddressed
  have hmem := haddressed.spec.1
  rw [h] at hmem
  cases hmem

/-- The tree of one vacancy, without metadata. -/
def vacancyStart : Installation :=
  ⟨⟨.empty, ∅, .empty⟩, Bucket.empty.put "users/u/resumes/de/acme/dev/".toList [] 0⟩

def sampleMeta : VacancyMeta where
  path := "de/acme/dev".toList
  name := "dev".toList
  websiteUrl := "https://example.org".toList
  statusId := none
  fields := [⟨"Salary".toList, "100".toList⟩]

def sampleResumes : ResumeService :=
  resumesOf (yamlOf "website_url: https://example.org\nstatus_id: null\nfields:\n- name: Salary\n  value: '100'\n".toList
    (metaDocument sampleMeta.websiteUrl sampleMeta.statusId sampleMeta.fields))

def sampleSave : Except Exc (Except ResumeError VacancyMeta) × Installation :=
  (sampleResumes.saveVacancy (.ofDigit 1) "/de/acme/dev".toList (some " example.org".toList) (some " ".toList)
    [⟨" Salary".toList, "100 ".toList⟩] 0).run (sampleHost.serve 0) vacancyStart

theorem sampleSave_eq : sampleSave.1 = .ok (.ok sampleMeta) := by decide +kernel

/-- A vacancy with white space around its values is read without it. -/
theorem sample_vacancy_read :
    ((sampleResumes.getVacancy (.ofDigit 1) "/de/acme/dev".toList 5).run (sampleHost.serve 5) sampleSave.2).1 =
      .ok (.ok sampleMeta) := by
  have hsave : (sampleResumes.saveVacancy (.ofDigit 1) "/de/acme/dev".toList (some " example.org".toList)
      (some " ".toList) [⟨" Salary".toList, "100 ".toList⟩] 0).run (sampleHost.serve 0) vacancyStart =
      (.ok (.ok sampleMeta), sampleSave.2) := Prod.ext sampleSave_eq rfl
  exact (vacancy_round_trip sampleHost 0 5 sampleResumes (.ofDigit 1) "/de/acme/dev".toList
    (some " example.org".toList) (some " ".toList) [⟨" Salary".toList, "100 ".toList⟩] vacancyStart
    sampleSave.2 sampleMeta (resumesOf_plain _) (by decide) (by decide +kernel) (hotAt_empty rfl)
    (yamlOf_inverts (by decide +kernel)) hsave).1

theorem sampleHex_digits : "0123456789abcdef0123456789abcdef".toList.length = 32 ∧
    "0123456789abcdef0123456789abcdef".toList.all fun c => "0123456789abcdef".toList.contains c := by
  decide +kernel

def sampleHex (_ : Nat) : UuidHex := ⟨"0123456789abcdef0123456789abcdef".toList, sampleHex_digits⟩

def sampleStatus : ResumeStatus where
  id := "0123456789abcdef0123456789abcdef".toList
  name := "Applied".toList
  color := "#38bdf8".toList

def statusResumes : ResumeService :=
  resumesOf (yamlOf "statuses:\n- id: 0123456789abcdef0123456789abcdef\n  name: Applied\n  color: '#38bdf8'\n".toList
    (statusesDocument [sampleStatus]))

def statusSave : Except Exc (Except ResumeError (List ResumeStatus)) × Installation :=
  (statusResumes.saveStatuses (.ofDigit 1) [⟨[], "Applied ".toList, " #38bdf8".toList⟩] sampleHex 0).run
    (sampleHost.serve 0) FailedUpload.sampleStart

theorem statusSave_eq : statusSave.1 = .ok (.ok [sampleStatus]) := by decide +kernel

/-- A status that was saved without an id is read with the id it got. -/
theorem sample_status_read :
    ((statusResumes.listStatuses (.ofDigit 1) sampleHex 5).run (sampleHost.serve 5) statusSave.2).1 =
      .ok (.ok [sampleStatus]) := by
  have hsave : (statusResumes.saveStatuses (.ofDigit 1) [⟨[], "Applied ".toList, " #38bdf8".toList⟩] sampleHex
      0).run (sampleHost.serve 0) FailedUpload.sampleStart = (.ok (.ok [sampleStatus]), statusSave.2) :=
    Prod.ext statusSave_eq rfl
  exact (statuses_round_trip sampleHost 0 5 statusResumes (.ofDigit 1)
    [⟨[], "Applied ".toList, " #38bdf8".toList⟩] sampleHex sampleHex FailedUpload.sampleStart statusSave.2
    [sampleStatus] (resumesOf_plain _) (by decide) (hotAt_empty rfl) (yamlOf_inverts (by decide +kernel))
    hsave).1

end ResumeService
end WebStorage
