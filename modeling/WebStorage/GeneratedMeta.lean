import WebStorage.Collections
import WebStorage.YamlText

set_option autoImplicit false

/-! The metadata of a generated run: what the request parser accepts, what `meta.yaml` says, and what
the strict reader makes of it. -/
namespace WebStorage

/-- The exceptions of the service; `overflow` is the `OverflowError` of `float(value)`. -/
inductive GeneratedError
  | validation (message errorCode : String)
  | metaInvalid (message : String)
  | overflow
deriving DecidableEq

/-- A scalar of a document that is neither a text nor null. -/
inductive Scalar (ν : Type)
  | bool (value : Bool)
  | int (value : Int)
  | float (value : ν)
  | other (text : Str)

/-- The interpreter's floats: `float(text)`, `math.isfinite`, `is_integer`, `int(number)` and
`float(value)` of an integer. -/
structure Floats (ν : Type) where
  parse : Str → Option ν
  isFinite : ν → Bool
  isInteger : ν → Bool
  truncate : ν → Int
  ofInt : Int → Option ν

namespace PyNumber

/-- The code points of the digits zero; each begins a run of ten digits. -/
def decimalZeros : List Nat :=
  [0x30, 0x660, 0x6F0, 0x7C0, 0x966, 0x9E6, 0xA66, 0xAE6, 0xB66, 0xBE6, 0xC66, 0xCE6, 0xD66, 0xDE6,
    0xE50, 0xED0, 0xF20, 0x1040, 0x1090, 0x17E0, 0x1810, 0x1946, 0x19D0, 0x1A80, 0x1A90, 0x1B50,
    0x1BB0, 0x1C40, 0x1C50, 0xA620, 0xA8D0, 0xA900, 0xA9D0, 0xA9F0, 0xAA50, 0xABF0, 0xFF10, 0x104A0,
    0x10D30, 0x11066, 0x110F0, 0x11136, 0x111D0, 0x112F0, 0x11450, 0x114D0, 0x11650, 0x116C0,
    0x11730, 0x118E0, 0x11950, 0x11C50, 0x11D50, 0x11DA0, 0x11F50, 0x16A60, 0x16AC0, 0x16B50,
    0x1D7CE, 0x1D7D8, 0x1D7E2, 0x1D7EC, 0x1D7F6, 0x1E140, 0x1E2F0, 0x1E4F0, 0x1E950, 0x1FBF0]

/-- The value of a decimal digit of any script; these are the characters that `\d` matches. -/
def decimalValue (c : Char) : Option Nat :=
  (decimalZeros.find? fun first => decide (first ≤ c.toNat) && decide (c.toNat < first + 10)).map
    fun first => c.toNat - first

def isDecimal (c : Char) : Bool := (decimalValue c).isSome

/-- The digits of a literal, which single underscores may separate. -/
def digitsFrom (afterDigit : Bool) : Str → Option (List Nat)
  | [] => if afterDigit then some [] else none
  | c :: rest =>
    if c = '_' then if afterDigit then digitsFrom false rest else none
    else match decimalValue c with
      | some digit => (digitsFrom true rest).map (digit :: ·)
      | none => none

/-- `sys.get_int_max_str_digits()`. -/
def maxStrDigits : Nat := 4300

def magnitude (text : Str) : Option Nat :=
  match digitsFrom false text with
  | some digits =>
    if maxStrDigits < digits.length then none
    else some (digits.foldl (fun value digit => 10 * value + digit) 0)
  | none => none

/-- `int(text)`, with `none` for a `ValueError`. -/
def parseInt (text : Str) : Option Int :=
  match Text.strip text with
  | '-' :: rest => (magnitude rest).map fun value => -(value : Int)
  | '+' :: rest => (magnitude rest).map fun value => (value : Int)
  | rest => (magnitude rest).map fun value => (value : Int)

end PyNumber

/-! ### Moments -/

def daysInMonth (year month : Nat) : Nat :=
  if month = 2 then (if year % 4 = 0 ∧ (year % 100 ≠ 0 ∨ year % 400 = 0) then 29 else 28)
  else if month ∈ [4, 6, 9, 11] then 30 else 31

/-- The fields that `datetime` accepts. -/
def ValidMoment (year month day hour minute second : Nat) : Prop :=
  (1 ≤ year ∧ year ≤ 9999) ∧ (1 ≤ month ∧ month ≤ 12) ∧ (1 ≤ day ∧ day ≤ daysInMonth year month) ∧
    hour ≤ 23 ∧ minute ≤ 59 ∧ second ≤ 59

instance (year month day hour minute second : Nat) :
    Decidable (ValidMoment year month day hour minute second) := by
  unfold ValidMoment
  infer_instance

/-- A `datetime` in UTC without microseconds. -/
structure Moment where
  year : Nat
  month : Nat
  day : Nat
  hour : Nat
  minute : Nat
  second : Nat
  valid : ValidMoment year month day hour minute second
deriving DecidableEq

namespace Moment

/-- `%m` and its like: two digits. -/
def twoDigits (n : Nat) : Str := [Nat.digitChar (n / 10), Nat.digitChar (n % 10)]

/-- `%Y`, which is not padded. -/
def yearDigits (m : Moment) : Str := Nat.toDigits 10 m.year

/-- `_format_created_at`. -/
def formatCreatedAt (m : Moment) : Str :=
  m.yearDigits ++ '-' :: twoDigits m.month ++ '-' :: twoDigits m.day ++ 'T' :: twoDigits m.hour ++
    ':' :: twoDigits m.minute ++ ':' :: twoDigits m.second ++ ['Z']

/-- `strftime("%Y%m%dT%H%M%SZ")`. -/
def stamp (m : Moment) : Str :=
  m.yearDigits ++ twoDigits m.month ++ twoDigits m.day ++ 'T' :: twoDigits m.hour ++
    twoDigits m.minute ++ twoDigits m.second ++ ['Z']

/-- A part of a pattern of fixed length. -/
inductive Piece
  | char (c : Char)
  | digit
  | hex

def Piece.fits : Piece → Char → Bool
  | char c, d => decide (d = c)
  | digit, d => PyNumber.isDecimal d
  | hex, d => "0123456789abcdef".toList.contains d

def fits : List Piece → Str → Bool
  | [], [] => true
  | piece :: pieces, c :: text => piece.fits c && fits pieces text
  | _, _ => false

def digits (count : Nat) : List Piece := List.replicate count .digit

/-- `_CREATED_AT_PATTERN`. -/
def createdAtPattern : List Piece :=
  [digits 4, [.char '-'], digits 2, [.char '-'], digits 2, [.char 'T'], digits 2, [.char ':'], digits 2,
    [.char ':'], digits 2, [.char 'Z']].flatten

/-- `_RUN_ID_PATTERN`. -/
def runIdPattern : List Piece :=
  [digits 8, [.char 'T'], digits 6, [.char 'Z', .char '-'], List.replicate 8 .hex].flatten

/-- The texts that `strptime` takes for a field. -/
def monthDigits : Str → Bool
  | [a, b] => a == '1' && "012".toList.contains b || a == '0' && "123456789".toList.contains b
  | _ => false

def dayDigits : Str → Bool
  | [a, b] => a == '3' && "01".toList.contains b || "12".toList.contains a && PyNumber.isDecimal b ||
      a == '0' && "123456789".toList.contains b
  | _ => false

def hourDigits : Str → Bool
  | [a, b] => a == '2' && "0123".toList.contains b || "01".toList.contains a && PyNumber.isDecimal b
  | _ => false

def minuteDigits : Str → Bool
  | [a, b] => "012345".toList.contains a && PyNumber.isDecimal b
  | _ => false

def secondDigits : Str → Bool
  | [a, b] => a == '6' && "01".toList.contains b || minuteDigits [a, b]
  | _ => false

def number (text : Str) : Nat :=
  text.foldl (fun value c => 10 * value + (PyNumber.decimalValue c).getD 0) 0

def ofFields (year month day hour minute second : Nat) : Option Moment :=
  if h : ValidMoment year month day hour minute second then
    some ⟨year, month, day, hour, minute, second, h⟩
  else none

def twoAt (text : Str) (i : Nat) : Str := (text.drop i).take 2

/-- `strptime` of a text that fits `_CREATED_AT_PATTERN`, with `none` for a `ValueError`. -/
def parseCreatedAt (text : Str) : Option Moment :=
  if monthDigits (twoAt text 5) && dayDigits (twoAt text 8) && hourDigits (twoAt text 11) &&
      minuteDigits (twoAt text 14) && secondDigits (twoAt text 17) then
    ofFields (number (text.take 4)) (number (twoAt text 5)) (number (twoAt text 8))
      (number (twoAt text 11)) (number (twoAt text 14)) (number (twoAt text 17))
  else none

end Moment

/-! ### What was written is read -/

namespace PyNumber

theorem decimalValue_digitChar : ∀ n < 10, decimalValue (Nat.digitChar n) = some n := by decide

theorem isDecimal_digitChar {n : Nat} (h : n < 10) : isDecimal (Nat.digitChar n) = true := by
  unfold isDecimal
  rw [decimalValue_digitChar n h]
  rfl

end PyNumber

namespace Moment

/-- From the year 1000 on a year has four digits. -/
theorem yearDigits_four (m : Moment) (h : 1000 ≤ m.year) : m.yearDigits =
    [Nat.digitChar (m.year / 1000), Nat.digitChar (m.year / 100 % 10), Nat.digitChar (m.year / 10 % 10),
      Nat.digitChar (m.year % 10)] := by
  have hlast : m.year ≤ 9999 := m.valid.1.2
  have hhundreds : m.year / 10 / 10 = m.year / 100 := by omega
  have hthousands : m.year / 100 / 10 = m.year / 1000 := by omega
  unfold yearDigits
  rw [Nat.toDigits_of_base_le (by omega) (by omega), Nat.toDigits_of_base_le (by omega) (by omega),
    Nat.toDigits_of_base_le (by omega) (by omega), hhundreds, hthousands,
    Nat.toDigits_of_lt_base (by omega)]
  rfl

theorem number_two {a b : Nat} (ha : a < 10) (hb : b < 10) :
    number [Nat.digitChar a, Nat.digitChar b] = 10 * a + b := by
  unfold number
  rw [List.foldl_cons, List.foldl_cons, List.foldl_nil, PyNumber.decimalValue_digitChar a ha,
    PyNumber.decimalValue_digitChar b hb]
  simp only [Option.getD_some]
  omega

theorem number_twoDigits {n : Nat} (h : n < 100) : number (twoDigits n) = n := by
  unfold twoDigits
  rw [number_two (by omega) (by omega)]
  omega

theorem number_four {a b c d : Nat} (ha : a < 10) (hb : b < 10) (hc : c < 10) (hd : d < 10) :
    number [Nat.digitChar a, Nat.digitChar b, Nat.digitChar c, Nat.digitChar d] =
      1000 * a + 100 * b + 10 * c + d := by
  unfold number
  simp only [List.foldl_cons, List.foldl_nil, PyNumber.decimalValue_digitChar a ha,
    PyNumber.decimalValue_digitChar b hb, PyNumber.decimalValue_digitChar c hc,
    PyNumber.decimalValue_digitChar d hd, Option.getD_some]
  omega

theorem monthDigits_ok : ∀ n ≤ 12, 1 ≤ n → monthDigits (twoDigits n) = true := by decide

theorem dayDigits_ok : ∀ n ≤ 31, 1 ≤ n → dayDigits (twoDigits n) = true := by decide

theorem hourDigits_ok : ∀ n ≤ 23, hourDigits (twoDigits n) = true := by decide

theorem minuteDigits_ok : ∀ n ≤ 59, minuteDigits (twoDigits n) = true := by decide

theorem daysInMonth_le (year month : Nat) : daysInMonth year month ≤ 31 := by
  unfold daysInMonth
  split
  · split <;> omega
  · split <;> omega

/-- `strptime` gives back the moment that was formatted. -/
theorem parseCreatedAt_format (m : Moment) (h : 1000 ≤ m.year) :
    parseCreatedAt m.formatCreatedAt = some m := by
  obtain ⟨⟨hyear, hyears⟩, ⟨hmonth, hmonths⟩, ⟨hday, hdays⟩, hhour, hminute, hsecond⟩ := m.valid
  have hdays' : m.day ≤ 31 := hdays.trans (daysInMonth_le _ _)
  have hshape : parseCreatedAt m.formatCreatedAt =
      if monthDigits (twoDigits m.month) && dayDigits (twoDigits m.day) && hourDigits (twoDigits m.hour) &&
          minuteDigits (twoDigits m.minute) && secondDigits (twoDigits m.second) then
        ofFields (number [Nat.digitChar (m.year / 1000), Nat.digitChar (m.year / 100 % 10),
          Nat.digitChar (m.year / 10 % 10), Nat.digitChar (m.year % 10)])
          (number (twoDigits m.month)) (number (twoDigits m.day)) (number (twoDigits m.hour))
          (number (twoDigits m.minute)) (number (twoDigits m.second))
      else none := by
    unfold formatCreatedAt
    rw [yearDigits_four m h]
    rfl
  have hseconds : secondDigits (twoDigits m.second) = true := by
    show (_ || minuteDigits (twoDigits m.second)) = true
    rw [minuteDigits_ok _ hsecond, Bool.or_true]
  have hfields : (monthDigits (twoDigits m.month) && dayDigits (twoDigits m.day) &&
      hourDigits (twoDigits m.hour) && minuteDigits (twoDigits m.minute) &&
      secondDigits (twoDigits m.second)) = true := by
    rw [monthDigits_ok _ hmonths hmonth, dayDigits_ok _ hdays' hday, hourDigits_ok _ hhour,
      minuteDigits_ok _ hminute, hseconds]
    rfl
  rw [hshape, if_pos hfields, number_four (by omega) (by omega) (by omega) (by omega),
    number_twoDigits (by omega), number_twoDigits (by omega), number_twoDigits (by omega),
    number_twoDigits (by omega), number_twoDigits (by omega)]
  have hyear' : 1000 * (m.year / 1000) + 100 * (m.year / 100 % 10) + 10 * (m.year / 10 % 10) + m.year % 10 =
      m.year := by omega
  rw [hyear']
  unfold ofFields
  exact dif_pos m.valid

theorem fits_append {first last : List Piece} {s t : Str} (h : fits first s = true) :
    fits (first ++ last) (s ++ t) = fits last t := by
  induction first generalizing s with
  | nil =>
    cases s with
    | nil => rfl
    | cons c s => cases h
  | cons piece first ih =>
    cases s with
    | nil => cases h
    | cons c s =>
      have hboth : piece.fits c = true ∧ fits first s = true := Bool.and_eq_true_iff.1 h
      show (piece.fits c && fits (first ++ last) (s ++ t)) = _
      rw [hboth.1, Bool.true_and, ih hboth.2]

theorem fits_hex (text : Str) (h : text.all (fun c => "0123456789abcdef".toList.contains c) = true) :
    fits (List.replicate text.length .hex) text = true := by
  induction text with
  | nil => rfl
  | cons c text ih =>
    obtain ⟨hfirst, hrest⟩ := Bool.and_eq_true_iff.1 h
    show (Piece.fits .hex c && fits (List.replicate text.length .hex) text) = true
    rw [ih hrest, Bool.and_true]
    exact hfirst

/-- The digits of a moment. -/
theorem digits_of_moment (m : Moment) : ∀ n ∈ [m.year / 1000, m.year / 100 % 10, m.year / 10 % 10,
    m.year % 10, m.month / 10, m.month % 10, m.day / 10, m.day % 10, m.hour / 10, m.hour % 10,
    m.minute / 10, m.minute % 10, m.second / 10, m.second % 10], n < 10 := by
  obtain ⟨⟨-, hyears⟩, ⟨-, hmonths⟩, ⟨-, hdays⟩, hhour, hminute, hsecond⟩ := m.valid
  have hdays' : m.day ≤ 31 := hdays.trans (daysInMonth_le _ _)
  intro n hn
  simp only [List.mem_cons, List.not_mem_nil, or_false] at hn
  omega

theorem decimals_of_moment (m : Moment) : ∀ n ∈ [m.year / 1000, m.year / 100 % 10, m.year / 10 % 10,
    m.year % 10, m.month / 10, m.month % 10, m.day / 10, m.day % 10, m.hour / 10, m.hour % 10,
    m.minute / 10, m.minute % 10, m.second / 10, m.second % 10],
    PyNumber.isDecimal (Nat.digitChar n) = true :=
  fun n hn => PyNumber.isDecimal_digitChar (digits_of_moment m n hn)

theorem fits_createdAt (m : Moment) (h : 1000 ≤ m.year) :
    fits createdAtPattern m.formatCreatedAt = true := by
  have hdigits := decimals_of_moment m
  simp only [List.forall_mem_cons] at hdigits
  unfold formatCreatedAt
  rw [yearDigits_four m h]
  simp [createdAtPattern, digits, twoDigits, fits, Piece.fits, hdigits]

end Moment

/-! ### Requests and documents -/

/-- The form of a `store_run` request. -/
structure RunRequest where
  prompt : Option Str
  negativePrompt : Option Str
  seed : Option Str
  steps : Option Str
  trueCfgScale : Option Str
  width : Option Str
  height : Option Str
  duration : Option Str
  references : List Bytes
  result : Option Bytes

/-- What `store_run` has made of the form. -/
structure AcceptedRun (ν : Type) where
  prompt : Str
  negativePrompt : Str
  seed : Int
  steps : Int
  trueCfgScale : ν
  width : Int
  height : Int
  duration : ν
  references : List Bytes
  result : Bytes
deriving DecidableEq

structure GeneratedMeta (ν : Type) where
  prompt : Str
  negativePrompt : Str
  seed : Int
  steps : Int
  trueCfgScale : ν
  width : Int
  height : Int
  duration : ν
  createdAt : Str
  references : List Str
  result : Str

namespace Generated
open Collections
variable {ν : Type}

def metaFilename : String := "meta.yaml"
def resultFilename : String := "result.png"
def maxReferenceCount : Nat := 10

/-- `_invalid`. -/
def invalid (message : String) : GeneratedError := .validation message "GENERATED_INVALID"

/-- `_require_prompt`. -/
def requirePrompt (prompt : Option Str) : Except GeneratedError Str :=
  match prompt with
  | some text => if Text.strip text = [] then .error (invalid "prompt is required") else .ok text
  | none => .error (invalid "prompt is required")

/-- The number of `_require_int`: a text with a point or an exponent is read as a float. -/
def integerOf (floats : Floats ν) (text : Str) : Option Int :=
  if text.any fun c => ".eE".toList.contains c then
    match floats.parse text with
    | some number =>
      if floats.isFinite number && floats.isInteger number then some (floats.truncate number) else none
    | none => none
  else PyNumber.parseInt text

/-- `_require_int`. -/
def requireInt (floats : Floats ν) (raw : Option Str) (fieldName : String) : Except GeneratedError Int :=
  let text := Text.strip (raw.getD [])
  if text = [] then .error (invalid (fieldName ++ " is required"))
  else match integerOf floats text with
    | some value => .ok value
    | none => .error (invalid (fieldName ++ " must be an integer"))

/-- `_require_float`. -/
def requireFloat (floats : Floats ν) (raw : Option Str) (fieldName : String) : Except GeneratedError ν :=
  let text := Text.strip (raw.getD [])
  if text = [] then .error (invalid (fieldName ++ " is required"))
  else match floats.parse text with
    | some number =>
      if floats.isFinite number then .ok number
      else .error (invalid (fieldName ++ " must be a number"))
    | none => .error (invalid (fieldName ++ " must be a number"))

def requireResult (result : Option Bytes) : Except GeneratedError Bytes :=
  match result with
  | some bytes => .ok bytes
  | none => .error (invalid "result image is required")

/-- `_require_reference_count`. -/
def requireReferenceCount (count : Nat) : Except GeneratedError Unit :=
  if maxReferenceCount < count then .error (invalid "at most 10 reference images are allowed")
  else .ok ()

/-- The checks at the head of `store_run`, in their order. -/
def accept (floats : Floats ν) (request : RunRequest) : Except GeneratedError (AcceptedRun ν) := do
  let prompt ← requirePrompt request.prompt
  let seed ← requireInt floats request.seed "seed"
  let steps ← requireInt floats request.steps "steps"
  let trueCfgScale ← requireFloat floats request.trueCfgScale "true_cfg_scale"
  let width ← requireInt floats request.width "width"
  let height ← requireInt floats request.height "height"
  let duration ← requireFloat floats request.duration "duration"
  let result ← requireResult request.result
  requireReferenceCount request.references.length
  .ok ⟨prompt, request.negativePrompt.getD [], seed, steps, trueCfgScale, width, height, duration,
    request.references, result⟩

/-- `f"ref-{index}.png"`. -/
def referenceName (index : Nat) : Str := "ref-".toList ++ Nat.toDigits 10 index ++ ".png".toList

/-- The names of so many references, counted from one. -/
def referenceNames (count : Nat) : List Str := (List.range' 1 count).map referenceName

def key (name : String) : Yaml (Scalar ν) := .str name.toList

/-- The document of `_render_meta`. -/
def metaDocument (accepted : AcceptedRun ν) (createdAt : Str) (references : List Str) :
    Yaml (Scalar ν) :=
  .dict [(key "prompt", .str accepted.prompt), (key "negative_prompt", .str accepted.negativePrompt),
    (key "seed", .scalar (.int accepted.seed)), (key "steps", .scalar (.int accepted.steps)),
    (key "true_cfg_scale", .scalar (.float accepted.trueCfgScale)),
    (key "width", .scalar (.int accepted.width)), (key "height", .scalar (.int accepted.height)),
    (key "duration", .scalar (.float accepted.duration)), (key "created_at", .str createdAt),
    (key "references", .list (references.map .str)), (key "result", .str resultFilename.toList)]

/-- `_render_meta`. -/
def renderMeta (yaml : YamlLibrary (Scalar ν)) (accepted : AcceptedRun ν) (createdAt : Str)
    (references : List Str) : Bytes :=
  Utf8.encode (yaml.dump (metaDocument accepted createdAt references))

/-- `_REFERENCE_NAME_PATTERN`. -/
def isReferenceName (name : Str) : Bool :=
  let digits := (name.drop 4).take (name.length - 8)
  name == "ref-".toList ++ digits ++ ".png".toList && digits.all (fun c => "0123456789".toList.contains c) &&
    digits.head?.any fun c => "123456789".toList.contains c

/-- The loop of `_parse_references`, with the names seen so far. -/
def parseReferencesFrom (seen : List Str) : List (Yaml (Scalar ν)) → Except GeneratedError (List Str)
  | [] => .ok []
  | entry :: entries => match entry with
    | .str name =>
      if isReferenceName name = false then
        .error (.metaInvalid "meta.yaml references must be ref-N.png names")
      else if name ∈ seen then .error (.metaInvalid "meta.yaml references must be unique")
      else (parseReferencesFrom (name :: seen) entries).map (name :: ·)
    | _ => .error (.metaInvalid "meta.yaml references must be ref-N.png names")

/-- `_parse_references`. -/
def parseReferences (raw : Yaml (Scalar ν)) : Except GeneratedError (List Str) :=
  match raw with
  | .list entries => parseReferencesFrom [] entries
  | _ => .error (.metaInvalid "meta.yaml references must be a list")

/-- `_parse_meta_int`. -/
def parseMetaInt (value : Yaml (Scalar ν)) (fieldName : String) : Except GeneratedError Int :=
  match value with
  | .scalar (.int number) => .ok number
  | _ => .error (.metaInvalid ("meta.yaml " ++ fieldName ++ " must be an integer"))

def finite (floats : Floats ν) (number : ν) (fieldName : String) : Except GeneratedError ν :=
  if floats.isFinite number then .ok number
  else .error (.metaInvalid ("meta.yaml " ++ fieldName ++ " must be finite"))

/-- `_parse_meta_float`. -/
def parseMetaFloat (floats : Floats ν) (value : Yaml (Scalar ν)) (fieldName : String) :
    Except GeneratedError ν :=
  match value with
  | .scalar (.float number) => finite floats number fieldName
  | .scalar (.int value) => match floats.ofInt value with
    | some number => finite floats number fieldName
    | none => .error .overflow
  | _ => .error (.metaInvalid ("meta.yaml " ++ fieldName ++ " must be a number"))

def parsePrompt (value : Yaml (Scalar ν)) : Except GeneratedError Str :=
  match value with
  | .str text =>
    if Text.strip text = [] then .error (.metaInvalid "meta.yaml prompt must be a non-empty string")
    else .ok text
  | _ => .error (.metaInvalid "meta.yaml prompt must be a non-empty string")

def parseNegativePrompt (value : Yaml (Scalar ν)) : Except GeneratedError Str :=
  match value with
  | .str text => .ok text
  | _ => .error (.metaInvalid "meta.yaml negative_prompt must be a string")

def parseCreatedAt (value : Yaml (Scalar ν)) : Except GeneratedError Str :=
  match value with
  | .str text =>
    if Moment.fits Moment.createdAtPattern text && (Moment.parseCreatedAt text).isSome then .ok text
    else .error (.metaInvalid "meta.yaml created_at is not a UTC timestamp")
  | _ => .error (.metaInvalid "meta.yaml created_at is not a UTC timestamp")

def parseResult (value : Yaml (Scalar ν)) : Except GeneratedError Str :=
  match value with
  | .str text =>
    if text = resultFilename.toList then .ok text
    else .error (.metaInvalid "meta.yaml result must be result.png")
  | _ => .error (.metaInvalid "meta.yaml result must be result.png")

/-- The mapping of `_parse_meta`, its checks in their order. -/
def parseMetaEntries (floats : Floats ν) (entries : List (Yaml (Scalar ν) × Yaml (Scalar ν))) :
    Except GeneratedError (GeneratedMeta ν) := do
  let prompt ← parsePrompt (Yaml.get "prompt".toList entries)
  let negativePrompt ← parseNegativePrompt (Yaml.get "negative_prompt".toList entries)
  let createdAt ← parseCreatedAt (Yaml.get "created_at".toList entries)
  let references ← parseReferences (Yaml.get "references".toList entries)
  let result ← parseResult (Yaml.get "result".toList entries)
  let seed ← parseMetaInt (Yaml.get "seed".toList entries) "seed"
  let steps ← parseMetaInt (Yaml.get "steps".toList entries) "steps"
  let trueCfgScale ← parseMetaFloat floats (Yaml.get "true_cfg_scale".toList entries) "true_cfg_scale"
  let width ← parseMetaInt (Yaml.get "width".toList entries) "width"
  let height ← parseMetaInt (Yaml.get "height".toList entries) "height"
  let duration ← parseMetaFloat floats (Yaml.get "duration".toList entries) "duration"
  .ok ⟨prompt, negativePrompt, seed, steps, trueCfgScale, width, height, duration, createdAt,
    references, result⟩

/-- `_parse_meta`. -/
def parseMeta (floats : Floats ν) (yaml : YamlLibrary (Scalar ν)) (raw : Bytes) :
    Except GeneratedError (GeneratedMeta ν) :=
  match yaml.safeLoad (Utf8.decodeReplace raw) with
  | some (.dict entries) => parseMetaEntries floats entries
  | some _ => .error (.metaInvalid "meta.yaml must be a mapping")
  | none => .error (.metaInvalid "meta.yaml is not valid YAML and was not overwritten")

/-! ### What was written is read -/

theorem parseReferencesFrom_names (names : List Str) : ∀ seen : List Str,
    (∀ name ∈ names, isReferenceName name = true) → names.Nodup → (∀ name ∈ names, name ∉ seen) →
    parseReferencesFrom seen (names.map fun name => (.str name : Yaml (Scalar ν))) = .ok names := by
  induction names with
  | nil => exact fun _ _ _ _ => rfl
  | cons name names ih =>
    intro seen hpattern hnodup hnew
    obtain ⟨hfirst, hrest⟩ := List.nodup_cons.1 hnodup
    have hname : isReferenceName name = true := hpattern name List.mem_cons_self
    have hseen : name ∉ seen := hnew name List.mem_cons_self
    have hlater : ∀ other ∈ names, other ∉ name :: seen := by
      intro other hother hmem
      rcases List.mem_cons.1 hmem with hsame | hold
      · exact hfirst (hsame ▸ hother)
      · exact hnew other (List.mem_cons_of_mem _ hother) hold
    have htail := ih (name :: seen) (fun other hother => hpattern other (List.mem_cons_of_mem _ hother))
      hrest hlater
    rw [List.map_cons]
    unfold parseReferencesFrom
    dsimp only
    rw [if_neg (by rw [hname]; decide), if_neg hseen, htail]
    rfl

/-- The names that `store_run` gives are distinct names that the reader takes. -/
theorem referenceNames_accepted : ∀ count ≤ maxReferenceCount,
    (referenceNames count).all isReferenceName = true ∧ (referenceNames count).Nodup := by decide

theorem parseReferences_names {count : Nat} (h : count ≤ maxReferenceCount) :
    parseReferences (.list ((referenceNames count).map fun name => (.str name : Yaml (Scalar ν)))) =
      .ok (referenceNames count) := by
  obtain ⟨hpattern, hnodup⟩ := referenceNames_accepted count h
  exact parseReferencesFrom_names _ [] (List.all_eq_true.1 hpattern) hnodup fun _ _ => List.not_mem_nil

theorem requirePrompt_ok {prompt : Option Str} {text : Str} (h : requirePrompt prompt = .ok text) :
    Text.strip text ≠ [] := by
  unfold requirePrompt at h
  split at h
  · split at h
    · cases h
    next hne =>
      cases h
      exact hne
  · cases h

theorem requireFloat_ok {floats : Floats ν} {raw : Option Str} {fieldName : String} {number : ν}
    (h : requireFloat floats raw fieldName = .ok number) : floats.isFinite number = true := by
  unfold requireFloat at h
  dsimp only at h
  split at h
  · cases h
  · split at h
    · split at h
      next hfinite =>
        cases h
        exact hfinite
      · cases h
    · cases h

/-- What the reader relies on. -/
structure Acceptable (floats : Floats ν) (accepted : AcceptedRun ν) : Prop where
  prompt : Text.strip accepted.prompt ≠ []
  trueCfgScale : floats.isFinite accepted.trueCfgScale = true
  duration : floats.isFinite accepted.duration = true
  references : accepted.references.length ≤ maxReferenceCount

theorem accept_ok {floats : Floats ν} {request : RunRequest} {accepted : AcceptedRun ν}
    (h : accept floats request = .ok accepted) : Acceptable floats accepted := by
  unfold accept at h
  obtain ⟨prompt, hprompt, h⟩ := except_bind h
  obtain ⟨seed, -, h⟩ := except_bind h
  obtain ⟨steps, -, h⟩ := except_bind h
  obtain ⟨trueCfgScale, hscale, h⟩ := except_bind h
  obtain ⟨width, -, h⟩ := except_bind h
  obtain ⟨height, -, h⟩ := except_bind h
  obtain ⟨duration, hduration, h⟩ := except_bind h
  obtain ⟨result, -, h⟩ := except_bind h
  obtain ⟨_, hcount, h⟩ := except_bind h
  have hsame := Except.ok.inj h
  subst hsame
  refine ⟨requirePrompt_ok hprompt, requireFloat_ok hscale, requireFloat_ok hduration, ?_⟩
  unfold requireReferenceCount at hcount
  split at hcount
  · cases hcount
  next hle => exact Nat.le_of_not_lt hle

/-- The metadata of an accepted run. -/
def metaOf (accepted : AcceptedRun ν) (createdAt : Str) : GeneratedMeta ν :=
  ⟨accepted.prompt, accepted.negativePrompt, accepted.seed, accepted.steps, accepted.trueCfgScale,
    accepted.width, accepted.height, accepted.duration, createdAt,
    referenceNames accepted.references.length, resultFilename.toList⟩

theorem finite_ok {floats : Floats ν} {number : ν} (fieldName : String)
    (h : floats.isFinite number = true) : finite floats number fieldName = .ok number := if_pos h

theorem parseCreatedAt_format (created : Moment) (h : 1000 ≤ created.year) :
    parseCreatedAt (.str created.formatCreatedAt : Yaml (Scalar ν)) = .ok created.formatCreatedAt := by
  unfold parseCreatedAt
  dsimp only
  rw [Moment.fits_createdAt created h, Moment.parseCreatedAt_format created h]
  rfl

/-- The strict reader returns what the request parser accepted. -/
theorem parseMeta_render {floats : Floats ν} {yaml : YamlLibrary (Scalar ν)} {accepted : AcceptedRun ν}
    (haccepted : Acceptable floats accepted) (created : Moment) (hyear : 1000 ≤ created.year)
    (hyaml : yaml.Inverts (metaDocument accepted created.formatCreatedAt
      (referenceNames accepted.references.length))) :
    parseMeta floats yaml (renderMeta yaml accepted created.formatCreatedAt
        (referenceNames accepted.references.length)) = .ok (metaOf accepted created.formatCreatedAt) := by
  have hprompt : parsePrompt (.str accepted.prompt : Yaml (Scalar ν)) = .ok accepted.prompt :=
    if_neg haccepted.prompt
  have hresult : parseResult (.str resultFilename.toList : Yaml (Scalar ν)) = .ok resultFilename.toList := by
    unfold parseResult
    dsimp only
    rw [if_pos rfl]
  have hscale : parseMetaFloat floats (.scalar (.float accepted.trueCfgScale)) "true_cfg_scale" =
      .ok accepted.trueCfgScale := finite_ok _ haccepted.trueCfgScale
  have hduration : parseMetaFloat floats (.scalar (.float accepted.duration)) "duration" =
      .ok accepted.duration := finite_ok _ haccepted.duration
  unfold parseMeta renderMeta
  rw [Utf8.decodeReplace_encode, hyaml.load]
  have hentries : parseMetaEntries floats [(key "prompt", .str accepted.prompt),
      (key "negative_prompt", .str accepted.negativePrompt), (key "seed", .scalar (.int accepted.seed)),
      (key "steps", .scalar (.int accepted.steps)),
      (key "true_cfg_scale", .scalar (.float accepted.trueCfgScale)),
      (key "width", .scalar (.int accepted.width)), (key "height", .scalar (.int accepted.height)),
      (key "duration", .scalar (.float accepted.duration)),
      (key "created_at", .str created.formatCreatedAt),
      (key "references", .list ((referenceNames accepted.references.length).map .str)),
      (key "result", .str resultFilename.toList)] = .ok (metaOf accepted created.formatCreatedAt) := by
    unfold parseMetaEntries key
    simp +decide only [Yaml.get_cons, if_true, if_false]
    rw [hprompt, parseCreatedAt_format created hyear, parseReferences_names haccepted.references, hresult,
      hscale, hduration]
    rfl
  exact hentries

end Generated
end WebStorage
