import WebStorage.CleanPaths

set_option autoImplicit false

/-! YAML documents as the services write and read them, and their UTF-8 encoding. -/
namespace WebStorage

/-! ### UTF-8 -/

namespace Utf8

/-- `str.encode("utf-8")`. -/
def encode (s : Str) : Bytes := s.flatMap String.utf8EncodeChar

/-- The character that the bytes begin with. -/
def firstChar (bytes : Bytes) : Option Char := bytes.toByteArray.utf8DecodeChar? 0

/-- How many bytes follow a first byte. -/
def following (first : UInt8) : Nat :=
  if 0xC2 ≤ first ∧ first ≤ 0xDF then 1
  else if 0xE0 ≤ first ∧ first ≤ 0xEF then 2
  else if 0xF0 ≤ first ∧ first ≤ 0xF4 then 3
  else 0

/-- Whether a byte can be the second one. -/
def isSecond (first second : UInt8) : Bool :=
  (if first = 0xE0 then decide (0xA0 ≤ second) else if first = 0xF0 then decide (0x90 ≤ second)
    else decide (0x80 ≤ second)) &&
  (if first = 0xED then decide (second ≤ 0x9F) else if first = 0xF4 then decide (second ≤ 0x8F)
    else decide (second ≤ 0xBF))

def isFollowing (byte : UInt8) : Bool := decide (0x80 ≤ byte) && decide (byte ≤ 0xBF)

/-- The bytes that one replacement character stands for, where no character begins. -/
def invalidLength : Bytes → Nat
  | first :: second :: rest =>
    if 0 < following first ∧ isSecond first second then
      2 + ((rest.take (following first - 1)).takeWhile isFollowing).length
    else 1
  | _ => 1

/-- Character after character; `skip` says how many bytes are passed over where none begins, or
that decoding fails. -/
def decodeFrom (skip : Bytes → Option Nat) : Nat → Bytes → Option Str
  | 0, _ => some []
  | _ + 1, [] => some []
  | fuel + 1, bytes => match firstChar bytes with
    | some c => (decodeFrom skip fuel (bytes.drop c.utf8Size)).map (c :: ·)
    | none => match skip bytes with
      | some n => (decodeFrom skip fuel (bytes.drop n)).map ('\uFFFD' :: ·)
      | none => none

/-- `bytes.decode("utf-8", errors="replace")`. -/
def decodeReplace (bytes : Bytes) : Str :=
  (decodeFrom (fun rest => some (invalidLength rest)) bytes.length bytes).getD []

theorem firstChar_encode (c : Char) (rest : Bytes) :
    firstChar (String.utf8EncodeChar c ++ rest) = some c := by
  unfold firstChar
  rw [List.toByteArray_append]
  exact ByteArray.utf8DecodeChar?_utf8EncodeChar_append

theorem decodeFrom_encode {skip : Bytes → Option Nat} (s : Str) : ∀ {fuel : Nat},
    s.length ≤ fuel → decodeFrom skip fuel (encode s) = some s := by
  induction s with
  | nil =>
    intro fuel _
    cases fuel <;> rfl
  | cons c s ih =>
    intro fuel hfuel
    cases fuel with
    | zero => simp at hfuel
    | succ fuel =>
      have hbytes : encode (c :: s) = String.utf8EncodeChar c ++ encode s := rfl
      obtain ⟨first, rest, hfirst⟩ := List.exists_cons_of_ne_nil (String.utf8EncodeChar_ne_nil (c := c))
      have hdrop : (String.utf8EncodeChar c ++ encode s).drop c.utf8Size = encode s := by
        rw [← String.length_utf8EncodeChar, List.drop_left]
      have hstep : decodeFrom skip (fuel + 1) (String.utf8EncodeChar c ++ encode s) =
          (decodeFrom skip fuel ((String.utf8EncodeChar c ++ encode s).drop c.utf8Size)).map (c :: ·) := by
        have hchar := firstChar_encode c (encode s)
        rw [hfirst] at hchar ⊢
        rw [List.cons_append, decodeFrom]
        · rw [← List.cons_append, hchar]
        · simp
      rw [hbytes, hstep, hdrop, ih (by simpa using hfuel)]
      rfl

theorem length_le_encode (s : Str) : s.length ≤ (encode s).length := by
  induction s with
  | nil => exact Nat.le_refl 0
  | cons c s ih =>
    have hbytes : encode (c :: s) = String.utf8EncodeChar c ++ encode s := rfl
    have hpos := c.utf8Size_pos
    rw [hbytes, List.length_append, String.length_utf8EncodeChar, List.length_cons]
    omega

theorem decodeReplace_encode (s : Str) : decodeReplace (encode s) = s := by
  unfold decodeReplace
  rw [decodeFrom_encode s (length_le_encode s)]
  rfl

end Utf8

/-! ### Documents -/

/-- What `yaml.safe_load` returns; `σ` is what the reader tells apart among the scalars that are
neither a text nor null. -/
inductive Yaml (σ : Type)
  | null
  | scalar (value : σ)
  | str (text : Str)
  | list (items : List (Yaml σ))
  | dict (entries : List (Yaml σ × Yaml σ))

namespace Yaml
variable {σ : Type}

def isKey (key : Str) : Yaml σ → Bool
  | str text => decide (text = key)
  | _ => false

/-- `loaded.get(key)`, where a missing key and a null are both `None`. -/
def get (key : Str) (entries : List (Yaml σ × Yaml σ)) : Yaml σ :=
  match entries.find? fun entry => isKey key entry.1 with
  | some entry => entry.2
  | none => null

def has (key : Str) (entries : List (Yaml σ × Yaml σ)) : Bool :=
  entries.any fun entry => isKey key entry.1

/-- `dict.get` of a key that stands first, or behind others. -/
@[simp] theorem get_cons (key name : Str) (value : Yaml σ) (entries : List (Yaml σ × Yaml σ)) :
    get key ((str name, value) :: entries) = if name = key then value else get key entries := by
  unfold get
  rw [List.find?_cons]
  by_cases h : name = key
  · have hkey : isKey key (str name : Yaml σ) = true := decide_eq_true h
    rw [hkey, if_pos h]
  · have hkey : isKey key (str name : Yaml σ) = false := decide_eq_false h
    rw [hkey, if_neg h]

/-- `"" if value is None else str(value)`, for a scalar that counts by its `str()`. -/
def scalarText : Yaml Str → Option Str
  | null => some []
  | scalar text => some text
  | str text => some text
  | list _ => none
  | dict _ => none

/-- A text, or null. -/
def optional : Option Str → Yaml σ
  | some text => str text
  | none => null

end Yaml

/-- `yaml.dump` and `yaml.safe_load`, which fails with a `YAMLError`. -/
structure YamlLibrary (σ : Type) where
  dump : Yaml σ → Str
  safeLoad : Str → Option (Yaml σ)

/-- Loading gives back what was dumped. -/
structure YamlLibrary.Inverts {σ : Type} (yaml : YamlLibrary σ) (document : Yaml σ) : Prop where
  visible : Text.strip (yaml.dump document) ≠ []
  load : yaml.safeLoad (yaml.dump document) = some document

/-- A library as far as one document goes. -/
def yamlOf {σ : Type} (text : Str) (document : Yaml σ) : YamlLibrary σ where
  dump := fun _ => text
  safeLoad := fun loaded => if loaded = text then some document else none

theorem yamlOf_inverts {σ : Type} {text : Str} {document : Yaml σ} (h : Text.strip text ≠ []) :
    (yamlOf text document).Inverts document := ⟨h, if_pos rfl⟩

end WebStorage
