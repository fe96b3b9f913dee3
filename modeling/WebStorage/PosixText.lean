import Mathlib

set_option autoImplicit false

/-! Text as the source handles it: Python strings are lists of characters, and object
keys are split and joined at `/`. -/
namespace WebStorage

abbrev Str := List Char

instance decidableMemStr (s : Str) (names : List Str) : Decidable (s ∈ names) :=
  decidable_of_iff _ List.contains_iff_mem

/-- `list(dict.fromkeys(items))`: the first occurrence of each item stays. -/
def dictFromKeys {α : Type} [DecidableEq α] : List α → List α
  | [] => []
  | a :: items => a :: (dictFromKeys items).filter (· ≠ a)

section
variable {α : Type} [DecidableEq α]

theorem mem_dictFromKeys {a : α} {items : List α} : a ∈ dictFromKeys items ↔ a ∈ items := by
  induction items with
  | nil => rfl
  | cons b items ih => by_cases h : a = b <;> simp [dictFromKeys, ih, h]

theorem nodup_dictFromKeys (items : List α) : (dictFromKeys items).Nodup := by
  induction items with
  | nil => exact List.nodup_nil
  | cons b items ih => exact List.nodup_cons.2 ⟨by simp, ih.filter _⟩

end

namespace Text

/-- The white space that `str.strip` removes. -/
def isSpace (c : Char) : Bool :=
  c.toNat ∈ [9, 10, 11, 12, 13, 28, 29, 30, 31, 32, 133, 160, 5760, 8192, 8193, 8194, 8195,
    8196, 8197, 8198, 8199, 8200, 8201, 8202, 8232, 8233, 8239, 8287, 12288]

def strip (s : Str) : Str := ((s.dropWhile isSpace).reverse.dropWhile isSpace).reverse

/-- `str.lower` on ASCII letters. No other character lowers into an extension that the
source compares with. -/
def lower (s : Str) : Str := s.map Char.toLower

/-- `s.rstrip("/")`. -/
def rstripSlash (s : Str) : Str := (s.reverse.dropWhile (· = '/')).reverse

/-- `s.strip("/")`. -/
def stripSlash (s : Str) : Str := rstripSlash (s.dropWhile (· = '/'))

/-- `s.replace("\\", "/")`. -/
def slashes (s : Str) : Str := s.map fun c => if c = '\\' then '/' else c

/-- `s.split("/")`; the result is never empty. -/
def split : Str → List Str
  | [] => [[]]
  | '/' :: s => [] :: split s
  | c :: s => match split s with
    | [] => [[c]]
    | w :: ws => (c :: w) :: ws

def isInfix (needle : Str) : Str → Bool
  | [] => needle.isEmpty
  | c :: s => needle.isPrefixOf (c :: s) || isInfix needle s

/-- Order by code points. -/
def le : Str → Str → Bool
  | [], _ => true
  | _ :: _, [] => false
  | c :: s, d :: t => decide (c < d) || (c == d && le s t)

/-- The components that `PurePosixPath` keeps. -/
def components (s : Str) : List Str := (split s).filter fun w => w != [] && w != ['.']

/-- `PurePosixPath(s).name`. -/
def name (s : Str) : Str := (components s).getLastD []

/-- `PurePosixPath(s).suffix`: from the last dot of the name, unless that dot is its first
or its last character. -/
def suffix (s : Str) : Str :=
  let tail := ((name s).reverse.takeWhile (· != '.')).reverse
  let stem := (name s).length - tail.length
  if 1 < stem ∧ tail ≠ [] then '.' :: tail else []

/-- `"/".join(parts)`. -/
def join : List Str → Str
  | [] => []
  | [w] => w
  | w :: ws => w ++ '/' :: join ws

/-- `str(PurePosixPath(s).parent)` of a relative path, with `"."` given as the empty text. -/
def parent (s : Str) : Str := join (components s).dropLast

/-- `PurePosixPath(s).stem`. -/
def stem (s : Str) : Str := (name s).take ((name s).length - (suffix s).length)

theorem split_ne_nil (s : Str) : split s ≠ [] := by
  fun_cases split s <;> simp

theorem split_append_slash (a b : Str) : split (a ++ '/' :: b) = split a ++ split b := by
  induction a with
  | nil => simp [split]
  | cons c a ih =>
    by_cases hc : c = '/'
    · subst hc
      simp only [List.cons_append, split, ih]
    · obtain ⟨w, ws, hw⟩ := List.exists_cons_of_ne_nil (split_ne_nil a)
      simp only [List.cons_append, split, ih, hw]

theorem split_of_not_mem {s : Str} (h : '/' ∉ s) : split s = [s] := by
  induction s with
  | nil => rfl
  | cons c s ih =>
    have hc : c ≠ '/' := fun hc => h (hc ▸ List.mem_cons_self)
    have hs : '/' ∉ s := fun hs => h (List.mem_cons_of_mem c hs)
    simp only [split, ih hs]

theorem not_suffix_rstripSlash (s : Str) : ¬ ['/'] <:+ rstripSlash s := by
  intro h
  rw [rstripSlash, ← List.reverse_prefix, List.reverse_reverse, List.reverse_singleton] at h
  obtain ⟨rest, hrest⟩ := h
  have hhead := List.head?_dropWhile_not (fun c : Char => decide (c = '/')) s.reverse
  rw [← hrest] at hhead
  simp at hhead

theorem slash_not_mem_of_split {s w : Str} (h : w ∈ split s) : '/' ∉ w := by
  induction s generalizing w with
  | nil =>
    have hw : w = [] := List.mem_singleton.1 h
    rw [hw]
    exact List.not_mem_nil
  | cons c s ih =>
    by_cases hc : c = '/'
    · subst hc
      rcases List.mem_cons.1 h with hw | hw
      · rw [hw]
        exact List.not_mem_nil
      · exact ih hw
    · obtain ⟨v, vs, hv⟩ := List.exists_cons_of_ne_nil (split_ne_nil s)
      simp only [split, hv] at h
      rcases List.mem_cons.1 h with hw | hw
      · rw [hw, List.mem_cons, not_or]
        exact ⟨fun heq => hc heq.symm, ih (hv ▸ List.mem_cons_self)⟩
      · exact ih (hv ▸ List.mem_cons_of_mem v hw)

/-- Components without slashes are found again. -/
theorem split_join {ws : List Str} (hne : ws ≠ []) (hws : ∀ w ∈ ws, '/' ∉ w) :
    split (join ws) = ws := by
  induction ws with
  | nil => exact absurd rfl hne
  | cons w ws ih =>
    have hw := split_of_not_mem (hws w List.mem_cons_self)
    cases ws with
    | nil => exact hw
    | cons v vs =>
      have hrest := ih (List.cons_ne_nil v vs) fun u hu => hws u (List.mem_cons_of_mem w hu)
      rw [join, split_append_slash, hw, hrest]
      · rfl
      · exact List.cons_ne_nil v vs

theorem le_iff (s t : Str) : le s t = true ↔ s ≤ t := by
  rw [← not_lt]
  induction s generalizing t with
  | nil =>
    have hnil : ¬ t < [] := List.not_lt_nil t
    exact iff_of_true rfl hnil
  | cons c s ih =>
    cases t with
    | nil =>
      have hnil : ([] : Str) < c :: s := List.nil_lt_cons c s
      exact iff_of_false Bool.false_ne_true fun h => h hnil
    | cons d t =>
      have hcons : d :: t < c :: s ↔ d < c ∨ d = c ∧ t < s := List.cons_lt_cons_iff
      rw [hcons, le, Bool.or_eq_true, Bool.and_eq_true, ih, decide_eq_true_eq, beq_iff_eq]
      rcases lt_trichotomy c d with h | h | h
      · exact iff_of_true (.inl h) fun hdc => hdc.elim (lt_asymm h) fun heq => h.ne' heq.1
      · rw [h]
        simp
      · exact iff_of_false (fun hcd => hcd.elim (lt_asymm h) fun heq => h.ne' heq.1)
          fun hdc => hdc (.inl h)

example : suffix "users/u/files/Report.PDF".toList = ".PDF".toList := by decide

end Text
end WebStorage
