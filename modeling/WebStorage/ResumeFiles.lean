import WebStorage.StoredFiles
import WebStorage.YamlText

set_option autoImplicit false

/-! The resume service: what its validators accept, what it writes, and what it reads back. -/
namespace WebStorage
open Effect

/-- The exceptions that the service raises itself. -/
inductive ResumeError
  | metaInvalid (message : String)
  | validation (message errorCode : String)
deriving DecidableEq

structure VacancyField where
  name : Str
  value : Str
deriving DecidableEq

structure VacancyMeta where
  path : Str
  name : Str
  websiteUrl : Str
  statusId : Option Str
  fields : List VacancyField
deriving DecidableEq

structure ResumeStatus where
  id : Str
  name : Str
  color : Str
deriving DecidableEq

namespace Resume

def statusesFilename : String := "statuses.yaml"
def vacancyMetaFilename : String := "meta.yaml"
def maxTreeDepth : Nat := 3

def defaultStatuses : List (Str × Str) :=
  [("Applied".toList, "#38BDF8".toList), ("Interview".toList, "#A78BFA".toList),
    ("Offer".toList, "#34D399".toList), ("Rejected".toList, "#F87171".toList)]

def isAsciiLetter (c : Char) : Bool :=
  decide ('A' ≤ c) && decide (c ≤ 'Z') || decide ('a' ≤ c) && decide (c ≤ 'z')

def isAsciiDigit (c : Char) : Bool := decide ('0' ≤ c) && decide (c ≤ '9')

def isHexDigit (c : Char) : Bool :=
  isAsciiDigit c || decide ('A' ≤ c) && decide (c ≤ 'F') || decide ('a' ≤ c) && decide (c ≤ 'f')

/-- `_COLOR_PATTERN.match`; the `$` of the pattern also matches before a last newline. -/
def colorPattern : Str → Bool
  | '#' :: rest => decide ((rest.take 6).length = 6) && (rest.take 6).all isHexDigit &&
      (rest.drop 6 = [] || rest.drop 6 = ['\n'])
  | _ => false

/-- `_URL_SCHEME_PATTERN.match`. -/
def urlSchemePattern : Str → Bool
  | c :: rest => isAsciiLetter c && "://".toList.isPrefixOf (rest.dropWhile fun c =>
      isAsciiLetter c || isAsciiDigit c || c == '+' || c == '.' || c == '-')
  | [] => false

/-! ### Validators -/

/-- `_normalize_url`. -/
def normalizeUrl (websiteUrl : Option Str) : Str :=
  let url := Text.strip (websiteUrl.getD [])
  if url = [] then []
  else if urlSchemePattern url then url
  else "https://".toList ++ url

/-- `(status_id or "").strip() or None`. -/
def normalizeStatusId (statusId : Option Str) : Option Str :=
  let normalized := Text.strip (statusId.getD [])
  if normalized = [] then none else some normalized

/-- `_validate_fields`, with the lower-cased names seen so far. -/
def validateFieldsFrom (lower : Str → Str) (seen : List Str) :
    List VacancyField → Except ResumeError (List VacancyField)
  | [] => .ok []
  | entry :: fields =>
    let name := Text.strip entry.name
    if name = [] then
      .error (.validation "Vacancy field name cannot be empty" "RESUME_FIELD_INVALID")
    else if lower name ∈ seen then
      .error (.validation "Vacancy field names must be unique" "RESUME_FIELD_INVALID")
    else (validateFieldsFrom lower (lower name :: seen) fields).map
      (⟨name, Text.strip entry.value⟩ :: ·)

def validateFields (lower : Str → Str) (fields : List VacancyField) :
    Except ResumeError (List VacancyField) := validateFieldsFrom lower [] fields

/-- `(entry.id or "").strip() or uuid4().hex`. -/
def givenOrFresh (id : Str) (hex : UuidHex) : Str :=
  if Text.strip id ≠ [] then Text.strip id else hex.text

/-- `_validate_statuses`, with the names and ids seen so far; `fresh` gives an entry without an id
a new one. -/
def validateStatusesFrom (lower : Str → Str) (fresh : Nat → UuidHex) (index : Nat)
    (seenNames seenIds : List Str) : List ResumeStatus → Except ResumeError (List ResumeStatus)
  | [] => .ok []
  | entry :: statuses =>
    let name := Text.strip entry.name
    let color := Text.strip entry.color
    let statusId := givenOrFresh entry.id (fresh index)
    if name = [] then .error (.validation "Status name cannot be empty" "RESUME_STATUS_INVALID")
    else if lower name ∈ seenNames then
      .error (.validation "Status names must be unique" "RESUME_STATUS_INVALID")
    else if colorPattern color = false then
      .error (.validation "Status color must look like #RRGGBB" "RESUME_STATUS_INVALID")
    else if statusId ∈ seenIds then
      .error (.validation "Status ids must be unique" "RESUME_STATUS_INVALID")
    else (validateStatusesFrom lower fresh (index + 1) (lower name :: seenNames)
      (statusId :: seenIds) statuses).map (⟨statusId, name, color⟩ :: ·)

def validateStatuses (lower : Str → Str) (fresh : Nat → UuidHex) (statuses : List ResumeStatus) :
    Except ResumeError (List ResumeStatus) := validateStatusesFrom lower fresh 0 [] [] statuses

/-! ### Documents -/

def key (name : String) : Yaml Str := .str name.toList

def fieldDocument (item : VacancyField) : Yaml Str :=
  .dict [(key "name", .str item.name), (key "value", .str item.value)]

/-- The document of `_write_meta`. -/
def metaDocument (websiteUrl : Str) (statusId : Option Str) (fields : List VacancyField) : Yaml Str :=
  .dict [(key "website_url", .str websiteUrl), (key "status_id", .optional statusId),
    (key "fields", .list (fields.map fieldDocument))]

def statusDocument (status : ResumeStatus) : Yaml Str :=
  .dict [(key "id", .str status.id), (key "name", .str status.name), (key "color", .str status.color)]

/-- The document of `_write_statuses`. -/
def statusesDocument (statuses : List ResumeStatus) : Yaml Str :=
  .dict [(key "statuses", .list (statuses.map statusDocument))]

/-- `_load_yaml`. -/
def loadYaml (yaml : YamlLibrary Str) (raw : Bytes) (filename : String) : Except ResumeError (Yaml Str) :=
  let text := Utf8.decodeReplace raw
  if Text.strip text = [] then .ok .null
  else match yaml.safeLoad text with
    | some document => .ok document
    | none => .error (.metaInvalid (filename ++ " is not valid YAML and was not overwritten"))

def parseField (entry : Yaml Str) : Except ResumeError VacancyField :=
  match entry with
  | .dict entries => match Yaml.get "name".toList entries with
    | .str fieldName =>
      if Text.strip fieldName = [] then
        .error (.metaInvalid "meta.yaml field names must be non-empty strings")
      else match Yaml.scalarText (Yaml.get "value".toList entries) with
        | some value => .ok ⟨fieldName, value⟩
        | none => .error (.metaInvalid "meta.yaml field values must be scalars")
    | _ => .error (.metaInvalid "meta.yaml field names must be non-empty strings")
  | _ => .error (.metaInvalid "meta.yaml fields must be mappings")

/-- The mapping of `_parse_meta`. -/
def parseMetaEntries (vacancyPath : Str) (entries : List (Yaml Str × Yaml Str)) :
    Except ResumeError VacancyMeta := do
  let websiteUrl ← match Yaml.get "website_url".toList entries with
    | .null => .ok []
    | .str text => .ok text
    | _ => .error (.metaInvalid "meta.yaml website_url must be a string")
  let statusId ← match Yaml.get "status_id".toList entries with
    | .null => .ok none
    | .str text => .ok (normalizeStatusId (some text))
    | _ => .error (.metaInvalid "meta.yaml status_id must be a string")
  let rawFields ← match Yaml.get "fields".toList entries with
    | .null => .ok []
    | .list items => .ok items
    | _ => .error (.metaInvalid "meta.yaml fields must be a list")
  let fields ← rawFields.mapM parseField
  .ok ⟨vacancyPath, Text.name vacancyPath, websiteUrl, statusId, fields⟩

/-- A vacancy without metadata. -/
def emptyMeta (vacancyPath : Str) : VacancyMeta := ⟨vacancyPath, Text.name vacancyPath, [], none, []⟩

/-- `_parse_meta`. -/
def parseMeta (yaml : YamlLibrary Str) (raw : Bytes) (vacancyPath : Str) :
    Except ResumeError VacancyMeta := do
  match ← loadYaml yaml raw vacancyMetaFilename with
  | .null => .ok (emptyMeta vacancyPath)
  | .dict entries => parseMetaEntries vacancyPath entries
  | _ => .error (.metaInvalid "meta.yaml must be a mapping")

def parseStatus (entry : Yaml Str) : Except ResumeError ResumeStatus :=
  match entry with
  | .dict entries => do
    let statusId ← match Yaml.get "id".toList entries with
      | .str text => if Text.strip text = [] then
          .error (.metaInvalid "statuses.yaml ids must be non-empty strings") else .ok text
      | _ => .error (.metaInvalid "statuses.yaml ids must be non-empty strings")
    let name ← match Yaml.get "name".toList entries with
      | .str text => if Text.strip text = [] then
          .error (.metaInvalid "statuses.yaml names must be non-empty strings") else .ok text
      | _ => .error (.metaInvalid "statuses.yaml names must be non-empty strings")
    let color ← match Yaml.get "color".toList entries with
      | .str text => if colorPattern text = false then
          .error (.metaInvalid "statuses.yaml colors must look like #RRGGBB") else .ok text
      | _ => .error (.metaInvalid "statuses.yaml colors must look like #RRGGBB")
    .ok ⟨statusId, name, color⟩
  | _ => .error (.metaInvalid "statuses.yaml entries must be mappings")

/-- `_parse_statuses`. -/
def parseStatuses (yaml : YamlLibrary Str) (raw : Bytes) : Except ResumeError (List ResumeStatus) := do
  match ← loadYaml yaml raw statusesFilename with
  | .null => .ok []
  | .dict entries =>
    if Yaml.has "statuses".toList entries = false then
      .error (.metaInvalid "statuses.yaml must be a mapping with a statuses list")
    else match Yaml.get "statuses".toList entries with
      | .null => .ok []
      | .list items => items.mapM parseStatus
      | _ => .error (.metaInvalid "statuses.yaml statuses must be a list")
  | _ => .error (.metaInvalid "statuses.yaml must be a mapping with a statuses list")

/-! ### Normalised values -/

section
variable {lower : Str → Str} {yaml : YamlLibrary Str}

theorem normalizeUrl_trimmed (websiteUrl : Option Str) : Text.Trimmed (normalizeUrl websiteUrl) := by
  have hurl := Text.trimmed_strip (websiteUrl.getD [])
  unfold normalizeUrl
  dsimp only
  split
  next => exact Text.trimmed_iff.2 ⟨fun c hc => (by cases hc), fun c hc => (by cases hc)⟩
  next hne =>
    split
    next => exact hurl
    next =>
      -- the added scheme stands first, the end is that of the stripped text
      apply Text.trimmed_iff.2
      constructor
      · intro c hc
        have hfirst : c = 'h' := by
          cases hc
          rfl
        rw [hfirst]
        decide
      · intro c hc
        rw [List.getLast?_append] at hc
        cases hlast : (Text.strip (websiteUrl.getD [])).getLast? with
        | none => exact absurd (List.getLast?_eq_none_iff.1 hlast) hne
        | some d =>
          rw [hlast] at hc
          have hd : d = c := Option.some.inj hc
          exact (Text.trimmed_iff.1 hurl).2 c (by rw [hlast, hd]; rfl)

theorem urlSchemePattern_https (url : Str) : urlSchemePattern ("https://".toList ++ url) = true := by
  have hrest : ("ttps://".toList ++ url).dropWhile (fun c =>
      isAsciiLetter c || isAsciiDigit c || c == '+' || c == '.' || c == '-') = "://".toList ++ url := by
    simp [isAsciiLetter, isAsciiDigit]
  have hshape : urlSchemePattern ("https://".toList ++ url) = (isAsciiLetter 'h' &&
      "://".toList.isPrefixOf (("ttps://".toList ++ url).dropWhile (fun c =>
        isAsciiLetter c || isAsciiDigit c || c == '+' || c == '.' || c == '-'))) := rfl
  rw [hshape, hrest, Bool.and_eq_true]
  exact ⟨by decide, List.isPrefixOf_iff_prefix.2 (List.prefix_append _ _)⟩

/-- A normalised link is left as it is. -/
theorem normalizeUrl_normalized (websiteUrl : Option Str) :
    normalizeUrl (some (normalizeUrl websiteUrl)) = normalizeUrl websiteUrl := by
  have hself : Text.strip (normalizeUrl websiteUrl) = normalizeUrl websiteUrl :=
    Text.strip_trimmed (normalizeUrl_trimmed websiteUrl)
  have hscheme : normalizeUrl websiteUrl = [] ∨ urlSchemePattern (normalizeUrl websiteUrl) = true := by
    unfold normalizeUrl
    dsimp only
    split
    next => exact .inl rfl
    next =>
      split
      next hmatch => exact .inr hmatch
      next => exact .inr (urlSchemePattern_https _)
  have hnormalize : ∀ url, Text.strip url = url → url = [] ∨ urlSchemePattern url = true →
      normalizeUrl (some url) = url := by
    intro url hstrip hor
    unfold normalizeUrl
    rw [Option.getD_some, hstrip]
    dsimp only
    split
    next hnil => exact hnil.symm
    next hne => rw [if_pos (hor.resolve_left hne)]
  exact hnormalize _ hself hscheme

theorem normalizeStatusId_normalized (statusId : Option Str) :
    normalizeStatusId (normalizeStatusId statusId) = normalizeStatusId statusId := by
  have hsome : ∀ text, Text.strip text = text → text ≠ [] → normalizeStatusId (some text) = some text := by
    intro text hstrip hne
    unfold normalizeStatusId
    rw [Option.getD_some, hstrip]
    exact if_neg hne
  by_cases hnil : Text.strip (statusId.getD []) = []
  · have hnone : normalizeStatusId statusId = none := if_pos hnil
    rw [hnone]
    rfl
  · have htext : normalizeStatusId statusId = some (Text.strip (statusId.getD [])) := if_neg hnil
    rw [htext]
    exact hsome _ (Text.strip_strip _) hnil

/-- The validator accepts its own result and leaves it as it is. -/
theorem validateFieldsFrom_normalized {fields normalized : List VacancyField} {seen : List Str}
    (h : validateFieldsFrom lower seen fields = .ok normalized) :
    validateFieldsFrom lower seen normalized = .ok normalized := by
  induction fields generalizing seen normalized with
  | nil =>
    cases h
    rfl
  | cons entry fields ih =>
    unfold validateFieldsFrom at h
    dsimp only at h
    split at h
    · cases h
    next hne =>
      split at h
      · cases h
      next hnew =>
        cases hrest : validateFieldsFrom lower (lower (Text.strip entry.name) :: seen) fields with
        | error e =>
          rw [hrest] at h
          cases h
        | ok rest =>
          rw [hrest] at h
          cases h
          unfold validateFieldsFrom
          dsimp only
          rw [Text.strip_strip, Text.strip_strip, if_neg hne, if_neg hnew, ih hrest]
          rfl

theorem validateFieldsFrom_named {fields normalized : List VacancyField} {seen : List Str}
    (h : validateFieldsFrom lower seen fields = .ok normalized) :
    ∀ item ∈ normalized, Text.strip item.name ≠ [] := by
  induction fields generalizing seen normalized with
  | nil =>
    cases h
    exact fun item hitem => absurd hitem List.not_mem_nil
  | cons entry fields ih =>
    unfold validateFieldsFrom at h
    dsimp only at h
    split at h
    · cases h
    next hne =>
      split at h
      · cases h
      next =>
        cases hrest : validateFieldsFrom lower (lower (Text.strip entry.name) :: seen) fields with
        | error e =>
          rw [hrest] at h
          cases h
        | ok rest =>
          rw [hrest] at h
          cases h
          intro item hitem
          rcases List.mem_cons.1 hitem with hfirst | hlater
          · rw [hfirst, Text.strip_strip]
            exact hne
          · exact ih hrest item hlater

/-- A status as the validator returns it. -/
structure Normalized (status : ResumeStatus) : Prop where
  id : Text.strip status.id = status.id ∧ status.id ≠ []
  name : Text.strip status.name = status.name ∧ status.name ≠ []
  color : Text.strip status.color = status.color ∧ colorPattern status.color = true

theorem hex_stripped (hex : UuidHex) : Text.strip hex.text = hex.text ∧ hex.text ≠ [] := by
  have hdigits : ("0123456789abcdef".toList.all fun c => !Text.isSpace c) = true := by decide +kernel
  have hvisible : ∀ c ∈ hex.text, Text.isSpace c = false := by
    intro c hc
    have hdigit := List.contains_iff_mem.1 (List.all_eq_true.1 hex.digits.2 c hc)
    have hnot := List.all_eq_true.1 hdigits c hdigit
    simpa using hnot
  constructor
  · exact Text.strip_trimmed (Text.trimmed_iff.2 ⟨fun c hc => hvisible c (List.mem_of_mem_head? hc),
      fun c hc => hvisible c (List.mem_of_mem_getLast? hc)⟩)
  · intro hnil
    have hlength := hex.digits.1
    rw [hnil] at hlength
    cases hlength

theorem givenOrFresh_stripped (id : Str) (hex : UuidHex) :
    Text.strip (givenOrFresh id hex) = givenOrFresh id hex ∧ givenOrFresh id hex ≠ [] := by
  unfold givenOrFresh
  split
  next hgiven => exact ⟨Text.strip_strip _, hgiven⟩
  next => exact hex_stripped hex

theorem givenOrFresh_given {id : Str} (h : Text.strip id = id ∧ id ≠ []) (hex : UuidHex) :
    givenOrFresh id hex = id := by
  unfold givenOrFresh
  rw [h.1, if_pos h.2]

/-- What one turn of the validator has accepted. -/
theorem validateStatusesFrom_cons {fresh : Nat → UuidHex} {index : Nat} {seenNames seenIds : List Str}
    {entry : ResumeStatus} {statuses normalized : List ResumeStatus}
    (h : validateStatusesFrom lower fresh index seenNames seenIds (entry :: statuses) = .ok normalized) :
    ∃ status rest, normalized = status :: rest ∧ Normalized status ∧
      lower status.name ∉ seenNames ∧ status.id ∉ seenIds ∧
      validateStatusesFrom lower fresh (index + 1) (lower status.name :: seenNames)
        (status.id :: seenIds) statuses = .ok rest := by
  unfold validateStatusesFrom at h
  dsimp only at h
  split at h
  · cases h
  next hname =>
    split at h
    · cases h
    next hnewName =>
      split at h
      · cases h
      next hcolor =>
        split at h
        · cases h
        next hnewId =>
          cases hrest : validateStatusesFrom lower fresh (index + 1)
              (lower (Text.strip entry.name) :: seenNames)
              (givenOrFresh entry.id (fresh index) :: seenIds) statuses with
          | error e =>
            rw [hrest] at h
            cases h
          | ok rest =>
            rw [hrest] at h
            cases h
            exact ⟨_, rest, rfl, ⟨givenOrFresh_stripped _ _, ⟨Text.strip_strip _, hname⟩,
              ⟨Text.strip_strip _, by simpa using hcolor⟩⟩, hnewName, hnewId, hrest⟩

theorem validateStatusesFrom_normalized {fresh fresh' : Nat → UuidHex} {index index' : Nat}
    {seenNames seenIds : List Str} {statuses normalized : List ResumeStatus}
    (h : validateStatusesFrom lower fresh index seenNames seenIds statuses = .ok normalized) :
    validateStatusesFrom lower fresh' index' seenNames seenIds normalized = .ok normalized := by
  induction statuses generalizing index index' seenNames seenIds normalized with
  | nil =>
    cases h
    rfl
  | cons entry statuses ih =>
    obtain ⟨status, rest, hnormalized, hstatus, hname, hid, hrest⟩ := validateStatusesFrom_cons h
    rw [hnormalized]
    unfold validateStatusesFrom
    dsimp only
    rw [givenOrFresh_given hstatus.id, hstatus.name.1, hstatus.color.1, if_neg hstatus.name.2,
      if_neg hname, hstatus.color.2, if_neg (by decide), if_neg hid, ih hrest]
    rfl

theorem validateStatusesFrom_each {fresh : Nat → UuidHex} {index : Nat} {seenNames seenIds : List Str}
    {statuses normalized : List ResumeStatus}
    (h : validateStatusesFrom lower fresh index seenNames seenIds statuses = .ok normalized) :
    ∀ status ∈ normalized, Normalized status := by
  induction statuses generalizing index seenNames seenIds normalized with
  | nil =>
    cases h
    exact fun status hstatus => absurd hstatus List.not_mem_nil
  | cons entry statuses ih =>
    obtain ⟨first, rest, hnormalized, hfirst, -, -, hrest⟩ := validateStatusesFrom_cons h
    rw [hnormalized]
    intro status hstatus
    rcases List.mem_cons.1 hstatus with heq | hlater
    · rw [heq]
      exact hfirst
    · exact ih hrest status hlater

/-! ### What was written is read -/

theorem mapM_documents {ε α β : Type} {parse : β → Except ε α} {document : α → β} {items : List α}
    (h : ∀ item ∈ items, parse (document item) = .ok item) :
    (items.map document).mapM parse = .ok items := by
  induction items with
  | nil => rfl
  | cons item items ih =>
    have hfirst := h item List.mem_cons_self
    have hrest := ih fun later hlater => h later (List.mem_cons_of_mem _ hlater)
    rw [List.map_cons, List.mapM_cons, hfirst, hrest]
    rfl

theorem loadYaml_dump {document : Yaml Str} (h : yaml.Inverts document) (filename : String) :
    loadYaml yaml (Utf8.encode (yaml.dump document)) filename = .ok document := by
  unfold loadYaml
  rw [Utf8.decodeReplace_encode]
  dsimp only
  rw [if_neg h.visible, h.load]

theorem parseField_document {item : VacancyField} (h : Text.strip item.name ≠ []) :
    parseField (fieldDocument item) = .ok item := by
  unfold parseField fieldDocument key
  simp only [Yaml.get_cons]
  rw [if_pos trivial]
  dsimp only
  rw [if_neg h, if_neg (by decide), if_pos trivial]
  rfl

/-- The metadata of a vacancy are read as they were validated. -/
theorem parseMeta_document {vacancyPath websiteUrl : Str} {statusId : Option Str}
    {fields : List VacancyField} (h : yaml.Inverts (metaDocument websiteUrl statusId fields))
    (hstatus : normalizeStatusId statusId = statusId)
    (hfields : ∀ item ∈ fields, Text.strip item.name ≠ []) :
    parseMeta yaml (Utf8.encode (yaml.dump (metaDocument websiteUrl statusId fields))) vacancyPath =
      .ok ⟨vacancyPath, Text.name vacancyPath, websiteUrl, statusId, fields⟩ := by
  have hitems : (fields.map fieldDocument).mapM parseField = .ok fields :=
    mapM_documents fun item hitem => parseField_document (hfields item hitem)
  unfold parseMeta
  rw [loadYaml_dump h]
  have hentries : parseMetaEntries vacancyPath [(key "website_url", .str websiteUrl),
      (key "status_id", .optional statusId), (key "fields", .list (fields.map fieldDocument))] =
      .ok ⟨vacancyPath, Text.name vacancyPath, websiteUrl, statusId, fields⟩ := by
    unfold parseMetaEntries key
    simp only [Yaml.get_cons]
    rw [if_pos trivial, if_neg (by decide), if_pos trivial, if_neg (by decide), if_neg (by decide), if_pos trivial]
    cases statusId with
    | none =>
      show (((fields.map fieldDocument).mapM parseField).bind fun _ => _) = _
      rw [hitems]
      rfl
    | some text =>
      show (((fields.map fieldDocument).mapM parseField).bind fun _ => _) = _
      rw [hitems, hstatus]
      rfl
  exact hentries

theorem parseStatus_document {status : ResumeStatus} (h : Normalized status) :
    parseStatus (statusDocument status) = .ok status := by
  have hid : Text.strip status.id ≠ [] := by
    rw [h.id.1]
    exact h.id.2
  have hname : Text.strip status.name ≠ [] := by
    rw [h.name.1]
    exact h.name.2
  unfold parseStatus statusDocument key
  simp only [Yaml.get_cons]
  rw [if_pos trivial, if_neg (by decide), if_pos trivial, if_neg (by decide), if_neg (by decide), if_pos trivial]
  have hcolor : ¬ colorPattern status.color = false := by
    rw [h.color.2]
    decide
  simp only [if_neg hid, if_neg hname, if_neg hcolor]
  rfl

theorem parseStatuses_document {statuses : List ResumeStatus}
    (h : yaml.Inverts (statusesDocument statuses)) (hstatuses : ∀ status ∈ statuses, Normalized status) :
    parseStatuses yaml (Utf8.encode (yaml.dump (statusesDocument statuses))) = .ok statuses := by
  have hitems : (statuses.map statusDocument).mapM parseStatus = .ok statuses :=
    mapM_documents fun status hstatus => parseStatus_document (hstatuses status hstatus)
  unfold parseStatuses
  rw [loadYaml_dump h]
  exact hitems

end
end Resume
end WebStorage
