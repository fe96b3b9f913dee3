import WebStorage.StorageAdapter

set_option autoImplicit false

/-! Paths that are spelled as they are stored: a list of clean names, joined with slashes. -/
namespace WebStorage

namespace Text

/-- Neither end of the text is white space. -/
def Trimmed (s : Str) : Prop := s.head?.any isSpace = false ∧ s.getLast?.any isSpace = false

theorem trimmed_iff {s : Str} : Trimmed s ↔
    (∀ c ∈ s.head?, isSpace c = false) ∧ ∀ c ∈ s.getLast?, isSpace c = false := by
  have hany : ∀ o : Option Char, o.any isSpace = false ↔ ∀ c ∈ o, isSpace c = false := by
    intro o
    cases o with
    | none => simp
    | some c => simp
  rw [Trimmed, hany, hany]

theorem dropWhile_self {p : Char → Bool} {s : Str} (h : ∀ c ∈ s.head?, p c = false) :
    s.dropWhile p = s := by
  cases s with
  | nil => rfl
  | cons c s =>
    rw [List.dropWhile_cons, h c rfl]
    rfl

theorem strip_trimmed {s : Str} (h : Trimmed s) : strip s = s := by
  have hend : ∀ c ∈ s.reverse.head?, isSpace c = false := by
    intro c hc
    rw [List.head?_reverse] at hc
    exact (trimmed_iff.1 h).2 c hc
  rw [strip, dropWhile_self (trimmed_iff.1 h).1, dropWhile_self hend, List.reverse_reverse]

theorem slashes_self {s : Str} (h : '\\' ∉ s) : slashes s = s := by
  unfold slashes
  rw [List.map_congr_left (g := id), List.map_id]
  intro c hc
  rw [if_neg]
  · rfl
  · exact fun heq => h (heq ▸ hc)

theorem rstripSlash_self {s : Str} (h : ∀ c ∈ s.getLast?, c ≠ '/') : rstripSlash s = s := by
  have hend : ∀ c ∈ s.reverse.head?, decide (c = '/') = false := by
    intro c hc
    rw [List.head?_reverse] at hc
    exact decide_eq_false (h c hc)
  rw [rstripSlash, dropWhile_self hend, List.reverse_reverse]

theorem stripSlash_self {s : Str} (h0 : ∀ c ∈ s.head?, c ≠ '/') (h1 : ∀ c ∈ s.getLast?, c ≠ '/') :
    stripSlash s = s := by
  have hfront : s.dropWhile (fun c => decide (c = '/')) = s :=
    dropWhile_self fun c hc => decide_eq_false (h0 c hc)
  rw [stripSlash, hfront, rstripSlash_self h1]

end Text

/-- A name that a path keeps as it is. -/
structure CleanName (w : Str) : Prop where
  ne_nil : w ≠ []
  no_slash : '/' ∉ w
  no_backslash : '\\' ∉ w
  not_dot : w ≠ ".".toList
  not_dots : w ≠ "..".toList
  trimmed : Text.Trimmed w

instance (w : Str) : Decidable (Text.Trimmed w) := inferInstanceAs (Decidable (_ ∧ _))

instance (w : Str) : Decidable (CleanName w) :=
  decidable_of_iff (w ≠ [] ∧ '/' ∉ w ∧ '\\' ∉ w ∧ w ≠ ".".toList ∧ w ≠ "..".toList ∧ Text.Trimmed w)
    ⟨fun h => ⟨h.1, h.2.1, h.2.2.1, h.2.2.2.1, h.2.2.2.2.1, h.2.2.2.2.2⟩,
      fun h => ⟨h.1, h.2, h.3, h.4, h.5, h.6⟩⟩

/-- All names of a path are clean. -/
def Clean (names : List Str) : Prop := ∀ w ∈ names, CleanName w

instance (names : List Str) : Decidable (Clean names) := inferInstanceAs (Decidable (∀ w ∈ names, _))

section
variable {names more : List Str} {w : Str} {a : Adapter}

theorem Clean.append (h : Clean names) (h' : Clean more) : Clean (names ++ more) := by
  intro w hw
  rcases List.mem_append.1 hw with hw | hw
  · exact h w hw
  · exact h' w hw

theorem Clean.singleton (h : CleanName w) : Clean [w] := by
  intro v hv
  rw [List.mem_singleton.1 hv]
  exact h

theorem Clean.left (h : Clean (names ++ more)) : Clean names :=
  fun w hw => h w (List.mem_append_left _ hw)

theorem Clean.right (h : Clean (names ++ more)) : Clean more :=
  fun w hw => h w (List.mem_append_right _ hw)

theorem Text.join_cons (w : Str) (hne : names ≠ []) :
    Text.join (w :: names) = w ++ '/' :: Text.join names := by
  cases names with
  | nil => exact absurd rfl hne
  | cons v vs => rfl

theorem Text.join_append (h : names ≠ []) (h' : more ≠ []) :
    Text.join (names ++ more) = Text.join names ++ '/' :: Text.join more := by
  induction names with
  | nil => exact absurd rfl h
  | cons w names ih =>
    cases names with
    | nil => exact Text.join_cons w h'
    | cons v vs =>
      have hvs : v :: vs ≠ [] := List.cons_ne_nil v vs
      have hall : v :: vs ++ more ≠ [] := List.cons_ne_nil v (vs ++ more)
      rw [List.cons_append, Text.join_cons w hall, ih hvs, Text.join_cons w hvs, List.append_assoc,
        List.cons_append]

theorem join_ne_nil (h : Clean names) (hne : names ≠ []) : Text.join names ≠ [] := by
  cases names with
  | nil => exact absurd rfl hne
  | cons w names =>
    have hw := (h w List.mem_cons_self).ne_nil
    cases names with
    | nil => exact hw
    | cons v vs =>
      rw [Text.join_cons w (List.cons_ne_nil v vs)]
      simp

theorem head_join (h : Clean names) {c : Char} (hc : c ∈ (Text.join names).head?) :
    ∃ w ∈ names, c ∈ w.head? := by
  cases names with
  | nil => cases hc
  | cons w names =>
    refine ⟨w, List.mem_cons_self, ?_⟩
    have hw := (h w List.mem_cons_self).ne_nil
    cases names with
    | nil => exact hc
    | cons v vs =>
      rw [Text.join_cons w (List.cons_ne_nil v vs), List.head?_append_of_ne_nil _ hw] at hc
      exact hc

theorem last_join (h : Clean names) {c : Char} (hc : c ∈ (Text.join names).getLast?) :
    ∃ w ∈ names, c ∈ w.getLast? := by
  rcases List.eq_nil_or_concat names with hnil | hlast
  · rw [hnil] at hc
    cases hc
  · obtain ⟨front, w, heq⟩ := hlast
    have hw : w ∈ names := by
      rw [heq]
      simp
    refine ⟨w, hw, ?_⟩
    by_cases hfront : front = []
    · rw [heq, hfront] at hc
      exact hc
    · have hne := (h w hw).ne_nil
      rw [heq, List.concat_eq_append, Text.join_append hfront (List.cons_ne_nil w [])] at hc
      have hform : Text.join front ++ '/' :: Text.join [w] = Text.join front ++ ['/'] ++ w := by
        rw [List.append_assoc]
        rfl
      rw [hform, List.getLast?_append_of_ne_nil _ hne] at hc
      exact hc

theorem mem_join {c : Char} (hc : c ∈ Text.join names) : c = '/' ∨ ∃ w ∈ names, c ∈ w := by
  induction names with
  | nil => cases hc
  | cons w names ih =>
    cases names with
    | nil => exact .inr ⟨w, List.mem_cons_self, hc⟩
    | cons v vs =>
      rw [Text.join_cons w (List.cons_ne_nil v vs)] at hc
      rcases List.mem_append.1 hc with hc | hc
      · exact .inr ⟨w, List.mem_cons_self, hc⟩
      · rcases List.mem_cons.1 hc with hc | hc
        · exact .inl hc
        · rcases ih hc with hslash | hin
          · exact .inl hslash
          · obtain ⟨u, hu, hcu⟩ := hin
            exact .inr ⟨u, List.mem_cons_of_mem w hu, hcu⟩

theorem trimmed_join (h : Clean names) : Text.Trimmed (Text.join names) := by
  apply Text.trimmed_iff.2
  constructor
  · intro c hc
    obtain ⟨w, hw, hcw⟩ := head_join h hc
    exact (Text.trimmed_iff.1 (h w hw).trimmed).1 c hcw
  · intro c hc
    obtain ⟨w, hw, hcw⟩ := last_join h hc
    exact (Text.trimmed_iff.1 (h w hw).trimmed).2 c hcw

theorem no_backslash_join (h : Clean names) : '\\' ∉ Text.join names := by
  intro hc
  rcases mem_join hc with hslash | hin
  · exact absurd hslash (by decide)
  · obtain ⟨w, hw, hcw⟩ := hin
    exact (h w hw).no_backslash hcw

theorem head_join_ne_slash (h : Clean names) : ∀ c ∈ (Text.join names).head?, c ≠ '/' := by
  intro c hc heq
  obtain ⟨w, hw, hcw⟩ := head_join h hc
  exact (h w hw).no_slash (heq ▸ List.mem_of_mem_head? hcw)

theorem last_join_ne_slash (h : Clean names) : ∀ c ∈ (Text.join names).getLast?, c ≠ '/' := by
  intro c hc heq
  obtain ⟨w, hw, hcw⟩ := last_join h hc
  exact (h w hw).no_slash (heq ▸ List.mem_of_mem_getLast? hcw)

theorem components_join (h : Clean names) : Text.components (Text.join names) = names := by
  by_cases hne : names = []
  · rw [hne]
    rfl
  · rw [Text.components, Text.split_join hne fun w hw => (h w hw).no_slash]
    apply List.filter_eq_self.2
    intro w hw
    have h0 := (h w hw).ne_nil
    have h1 : w ≠ ['.'] := (h w hw).not_dot
    simp [h0, h1]

theorem safeLogicalKey_join (h : Clean names) : safeLogicalKey (Text.join names) = .ok (Text.join names) := by
  have hfront : (Text.join names).dropWhile (fun c => decide (c = '/')) = Text.join names :=
    Text.dropWhile_self fun c hc => decide_eq_false (head_join_ne_slash h c hc)
  have hdots : ¬ "..".toList ∈ names := fun hmem => (h _ hmem).not_dots rfl
  unfold safeLogicalKey
  dsimp only
  rw [Text.strip_trimmed (trimmed_join h), Text.slashes_self (no_backslash_join h), hfront,
    components_join h, if_neg hdots]

theorem normalizePath_join (h : Clean names) : normalizePath (Text.join names) = Text.join names := by
  rw [normalizePath, Text.strip_trimmed (trimmed_join h), Text.slashes_self (no_backslash_join h),
    Text.stripSlash_self (head_join_ne_slash h) (last_join_ne_slash h)]

theorem joinPath_join (h : Clean names) (w : Str) :
    joinPath (Text.join names) w = Text.join (names ++ [w]) := by
  unfold joinPath
  by_cases hne : names = []
  · rw [hne]
    rfl
  · rw [if_pos (join_ne_nil h hne), Text.join_append hne (List.cons_ne_nil w [])]
    rfl

/-- The key of a clean path below a root. -/
theorem objectKey_join (hroot : a.diskRelativePrefix ≠ []) (h : Clean names) :
    objectKey a (Text.join names) = .ok (Text.join (a.diskRelativePrefix :: names)) := by
  unfold objectKey
  rw [safeLogicalKey_join h]
  by_cases hne : names = []
  · rw [hne]
    rfl
  · have hjoin := join_ne_nil h hne
    show Except.ok (if Text.join names = [] then _ else _) = _
    rw [if_neg hjoin, if_neg hroot, Text.join_cons _ hne]

theorem toDiskRelativePath_join (h : Clean names) :
    a.toDiskRelativePath (Text.join names) = .ok (Text.join (a.diskRelativePrefix :: names)) := by
  unfold Adapter.toDiskRelativePath
  rw [safeLogicalKey_join h]
  by_cases hne : names = []
  · rw [hne]
    rfl
  · show (if Text.join names = [] then _ else _) = _
    rw [if_neg (join_ne_nil h hne), Text.join_cons _ hne]
    rfl

/-- At the root of the disk the key is the path. -/
theorem objectKey_diskRoot (h : Clean names) :
    objectKey diskRootAdapter (Text.join names) = .ok (Text.join names) := by
  unfold objectKey
  rw [safeLogicalKey_join h]
  by_cases hne : names = []
  · rw [hne]
    rfl
  · show Except.ok (if Text.join names = [] then _ else _) = _
    rw [if_neg (join_ne_nil h hne)]
    rfl

end

/-- The canonical text of an id is a clean name. -/
theorem Uuid.clean (id : Uuid) : CleanName id.text := by
  have hchars : ∀ c ∈ id.text, Text.isSpace c = false ∧ c ≠ '\\' := by
    have hall : ("0123456789abcdef-".toList.all fun c => !Text.isSpace c && c != '\\') = true := by
      decide +kernel
    intro c hc
    have hdigit := List.all_eq_true.1 id.canonical.2 c hc
    have hboth := List.all_eq_true.1 hall c (List.contains_iff_mem.1 hdigit)
    simpa using hboth
  have hlong : ∀ w : Str, w.length < 36 → id.text ≠ w := by
    intro w hw heq
    rw [← heq, id.canonical.1] at hw
    omega
  exact {
    ne_nil := hlong [] (by decide)
    no_slash := id.slash_not_mem
    no_backslash := fun hc => (hchars _ hc).2 rfl
    not_dot := hlong _ (by decide)
    not_dots := hlong _ (by decide)
    trimmed := Text.trimmed_iff.2 ⟨fun c hc => (hchars c (List.mem_of_mem_head? hc)).1,
      fun c hc => (hchars c (List.mem_of_mem_getLast? hc)).1⟩ }

end WebStorage
