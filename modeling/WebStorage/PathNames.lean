import WebStorage.CleanPaths

set_option autoImplicit false

/-! Names within slash-separated paths, and what cleaning a path leaves of them. -/
namespace WebStorage

namespace Text

theorem trimmed_strip (s : Str) : Trimmed (strip s) := by
  apply trimmed_iff.2
  constructor
  · intro c hc
    -- the first character of what is left is that of the text without its leading white space
    have hprefix : strip s <+: s.dropWhile isSpace := by
      unfold strip
      rw [← List.reverse_suffix, List.reverse_reverse]
      exact List.dropWhile_suffix _
    have hhead : (s.dropWhile isSpace).head? = some c := by
      obtain ⟨rest, hrest⟩ := hprefix
      rw [← hrest]
      cases hs : strip s with
      | nil =>
        rw [hs] at hc
        cases hc
      | cons d t =>
        rw [hs] at hc
        exact hc
    have hnot := List.head?_dropWhile_not isSpace s
    rw [hhead] at hnot
    simpa using hnot
  · intro c hc
    have hnot := List.head?_dropWhile_not isSpace (s.dropWhile isSpace).reverse
    unfold strip at hc
    rw [List.getLast?_reverse] at hc
    have hhead : ((s.dropWhile isSpace).reverse.dropWhile isSpace).head? = some c := hc
    rw [hhead] at hnot
    simpa using hnot

@[simp] theorem strip_strip (s : Str) : strip (strip s) = strip s := strip_trimmed (trimmed_strip s)

theorem dropWhile_append_of {p : Char → Bool} {s t : Str} (h : ∀ c ∈ t.head?, p c = false) :
    (s ++ t).dropWhile p = s.dropWhile p ++ t := by
  rw [List.dropWhile_append]
  split
  next hnil =>
    have hs : s.dropWhile p = [] := by simpa using hnil
    rw [hs, dropWhile_self h]
    rfl
  next => rfl

/-- A name at the end of a path stays there when the path is cleaned. -/
theorem strip_append_name (s : Str) {name : Str} (hne : name ≠ []) (h : Trimmed name) :
    strip (s ++ '/' :: name) = s.dropWhile isSpace ++ '/' :: name := by
  have hfront : (s ++ '/' :: name).dropWhile isSpace = s.dropWhile isSpace ++ '/' :: name := by
    apply dropWhile_append_of
    intro c hc
    cases hc
    decide
  have hlast : ∀ c ∈ (s.dropWhile isSpace ++ '/' :: name).reverse.head?, isSpace c = false := by
    intro c hc
    rw [List.head?_reverse, List.getLast?_append, List.getLast?_cons] at hc
    have hend : name.getLast?.getD '/' = c := by simpa using hc
    cases hget : name.getLast? with
    | none => exact absurd (List.getLast?_eq_none_iff.1 hget) hne
    | some d =>
      rw [hget] at hend
      have hd : d = c := hend
      exact (trimmed_iff.1 h).2 c (by rw [hget, hd]; rfl)
  unfold strip
  rw [hfront, dropWhile_self hlast, List.reverse_reverse]

theorem slashes_append (s t : Str) : slashes (s ++ t) = slashes s ++ slashes t := List.map_append

theorem components_append_slash (s t : Str) :
    components (s ++ '/' :: t) = components s ++ components t := by
  unfold components
  rw [split_append_slash, List.filter_append]

/-- A name stands in a path between slashes or at its ends. -/
def Within (name s : Str) : Prop :=
  ∃ a b, s = a ++ (name ++ b) ∧ (a = [] ∨ ∃ a', a = a' ++ ['/']) ∧ (b = [] ∨ ∃ b', b = '/' :: b')

section
variable {name s : Str}

theorem join_split (s : Str) : join (split s) = s := by
  induction s with
  | nil => rfl
  | cons c s ih =>
    obtain ⟨w, ws, hw⟩ := List.exists_cons_of_ne_nil (split_ne_nil s)
    rw [hw] at ih
    by_cases hc : c = '/'
    · subst hc
      rw [split, hw, join_cons [] (List.cons_ne_nil w ws), ih]
      rfl
    · have hsplit : split (c :: s) = (c :: w) :: ws := by
        simp only [split, hw]
      rw [hsplit, ← ih]
      cases ws <;> rfl

theorem within_of_split (h : name ∈ split s) : Within name s := by
  obtain ⟨front, rest, hparts⟩ := List.append_of_mem h
  have hback : ∀ rest : List Str, ∃ b, join (name :: rest) = name ++ b ∧ (b = [] ∨ ∃ b', b = '/' :: b') := by
    intro rest
    by_cases hrest : rest = []
    · exact ⟨[], by rw [hrest, join, List.append_nil], .inl rfl⟩
    · exact ⟨_, join_cons name hrest, .inr ⟨_, rfl⟩⟩
  obtain ⟨b, hb, hend⟩ := hback rest
  have hs : s = join (front ++ name :: rest) := by rw [← hparts, join_split]
  by_cases hfront : front = []
  · refine ⟨[], b, ?_, .inl rfl, hend⟩
    rw [hs, hfront, List.nil_append, hb]
    rfl
  · refine ⟨join front ++ ['/'], b, ?_, .inr ⟨_, rfl⟩, hend⟩
    rw [hs, join_append hfront (List.cons_ne_nil _ _), hb, List.append_assoc]
    rfl

theorem split_of_within (hname : '/' ∉ name) (h : Within name s) : name ∈ split s := by
  obtain ⟨a, b, hs, ha, hb⟩ := h
  have hback : name ∈ split (name ++ b) := by
    rcases hb with hnil | hslash
    · rw [hnil, List.append_nil, split_of_not_mem hname]
      exact List.mem_singleton_self name
    · obtain ⟨b', hb'⟩ := hslash
      rw [hb', split_append_slash, split_of_not_mem hname]
      exact List.mem_append_left _ (List.mem_singleton_self name)
  rw [hs]
  rcases ha with hnil | hslash
  · rw [hnil]
    exact hback
  · obtain ⟨a', ha'⟩ := hslash
    rw [ha', List.append_assoc, List.singleton_append, split_append_slash]
    exact List.mem_append_right _ hback

/-- What is dropped in front of a path does not reach into a name that starts with another
character. -/
theorem within_dropWhile {p : Char → Bool} (hne : name ≠ []) (hhead : ∀ c ∈ name.head?, p c = false)
    (h : Within name s) : Within name (s.dropWhile p) := by
  obtain ⟨a, b, hs, ha, hb⟩ := h
  have hkept : (name ++ b).dropWhile p = name ++ b := by
    apply dropWhile_self
    intro c hc
    obtain ⟨d, ds, hname⟩ := List.exists_cons_of_ne_nil hne
    apply hhead c
    rw [hname] at hc ⊢
    exact hc
  refine ⟨a.dropWhile p, b, ?_, ?_, hb⟩
  · rw [hs, List.dropWhile_append]
    split
    next hnil =>
      have hgone : a.dropWhile p = [] := by simpa using hnil
      rw [hkept, hgone]
      rfl
    next => rfl
  · rcases ha with hnil | hslash
    · rw [hnil]
      exact .inl rfl
    · obtain ⟨a', ha'⟩ := hslash
      rw [ha', List.dropWhile_append]
      split
      next =>
        by_cases hp : p '/' = true
        · exact .inl (by rw [List.dropWhile_cons, if_pos hp]; rfl)
        · exact .inr ⟨[], by rw [List.dropWhile_cons, if_neg hp]; rfl⟩
      next => exact .inr ⟨_, rfl⟩

theorem within_reverse (h : Within name s) : Within name.reverse s.reverse := by
  obtain ⟨a, b, hs, ha, hb⟩ := h
  refine ⟨b.reverse, a.reverse, ?_, ?_, ?_⟩
  · rw [hs, List.reverse_append, List.reverse_append, List.append_assoc]
  · rcases hb with hnil | hslash
    · exact .inl (by rw [hnil]; rfl)
    · obtain ⟨b', hb'⟩ := hslash
      exact .inr ⟨b'.reverse, by rw [hb', List.reverse_cons]⟩
  · rcases ha with hnil | hslash
    · exact .inl (by rw [hnil]; rfl)
    · obtain ⟨a', ha'⟩ := hslash
      exact .inr ⟨a'.reverse, by rw [ha', List.reverse_append]; rfl⟩

theorem within_strip (hne : name ≠ []) (htrimmed : Trimmed name) (h : Within name s) :
    Within name (strip s) := by
  obtain ⟨hfirst, hlast⟩ := trimmed_iff.1 htrimmed
  have hback := within_reverse (within_dropWhile hne hfirst h)
  have hends : ∀ c ∈ name.reverse.head?, isSpace c = false := by
    intro c hc
    rw [List.head?_reverse] at hc
    exact hlast c hc
  have hboth := within_reverse (within_dropWhile (by simpa using hne) hends hback)
  rw [List.reverse_reverse] at hboth
  exact hboth

theorem within_slashes (hname : '\\' ∉ name) (h : Within name s) : Within name (slashes s) := by
  obtain ⟨a, b, hs, ha, hb⟩ := h
  refine ⟨slashes a, slashes b, ?_, ?_, ?_⟩
  · rw [hs, slashes_append, slashes_append, slashes_self hname]
  · rcases ha with hnil | hslash
    · exact .inl (by rw [hnil]; rfl)
    · obtain ⟨a', ha'⟩ := hslash
      exact .inr ⟨slashes a', by rw [ha', slashes_append]; rfl⟩
  · rcases hb with hnil | hslash
    · exact .inl (by rw [hnil]; rfl)
    · obtain ⟨b', hb'⟩ := hslash
      exact .inr ⟨slashes b', by rw [hb']; rfl⟩

end

end Text

theorem components_name {name : Str} (h : CleanName name) : Text.components name = [name] := by
  have hjoined := components_join (Clean.singleton h)
  rwa [Text.join] at hjoined

theorem normalizePath_name {name : Str} (h : CleanName name) : normalizePath name = name := by
  have hjoined := normalizePath_join (Clean.singleton h)
  rwa [Text.join] at hjoined

theorem normalizePath_nil : normalizePath [] = [] :=
  normalizePath_join fun _ hw => absurd hw List.not_mem_nil

theorem no_slash_components {s w : Str} (h : w ∈ Text.components s) : '/' ∉ w :=
  Text.slash_not_mem_of_split (List.mem_of_mem_filter h)


/-- A clean name of a path is a name of its key. -/
theorem name_in_key {name path logical : Str} (hname : CleanName name) (h : name ∈ Text.split path)
    (hlogical : safeLogicalKey path = .ok logical) : name ∈ Text.split logical := by
  have hhead : ∀ c ∈ name.head?, decide (c = '/') = false :=
    fun c hc => decide_eq_false fun heq => hname.no_slash (heq ▸ List.mem_of_mem_head? hc)
  have hcleaned := Text.within_dropWhile hname.ne_nil hhead (Text.within_slashes hname.no_backslash
    (Text.within_strip hname.ne_nil hname.trimmed (Text.within_of_split h)))
  have hpart : name ∈ Text.components ((Text.slashes (Text.strip path)).dropWhile fun c => decide (c = '/')) := by
    apply List.mem_filter.2
    refine ⟨Text.split_of_within hname.no_slash hcleaned, ?_⟩
    have h0 := hname.ne_nil
    have h1 : name ≠ ['.'] := hname.not_dot
    simp [h0, h1]
  unfold safeLogicalKey at hlogical
  dsimp only at hlogical
  split at hlogical
  · cases hlogical
  · rw [← Except.ok.inj hlogical, Text.split_join (List.ne_nil_of_mem hpart) fun w hw => no_slash_components hw]
    exact hpart

/-! ### Paths that are their own keys -/

namespace Text

theorem length_join (names : List Str) :
    (join names).length = (names.map List.length).sum + (names.length - 1) := by
  induction names with
  | nil => rfl
  | cons name names ih =>
    by_cases hnil : names = []
    · rw [hnil]
      simp [join]
    · have hsome : 0 < names.length := List.length_pos_iff.2 hnil
      rw [join_cons name hnil, List.length_append, List.length_cons, ih, List.map_cons, List.sum_cons,
        List.length_cons]
      omega

/-- Cleaning makes no path longer. -/
theorem length_components (s : Str) : (join (components s)).length ≤ s.length := by
  have hsub : (components s).Sublist (split s) := List.filter_sublist
  have hwhole := length_join (split s)
  have hparts := length_join (components s)
  have hsum := (hsub.map List.length).sum_le_sum fun n _ => Nat.zero_le n
  have hcount := hsub.length_le
  rw [join_split] at hwhole
  omega

theorem length_strip (s : Str) : (strip s).length ≤ s.length := by
  unfold strip
  have hback := (List.dropWhile_sublist (l := (s.dropWhile isSpace).reverse) isSpace).length_le
  have hfront := (List.dropWhile_sublist (l := s) isSpace).length_le
  rw [List.length_reverse] at hback ⊢
  omega

theorem strip_sublist (s : Str) : (strip s).Sublist s := by
  unfold strip
  have hback := (List.dropWhile_sublist (l := (s.dropWhile isSpace).reverse) isSpace).reverse
  rw [List.reverse_reverse] at hback
  exact hback.trans (List.dropWhile_sublist isSpace)

end Text

section
variable {path logical : Str}

/-- What a key is made of: no part of it is empty or goes up, and it has no other separators. -/
theorem parts_of_key (h : safeLogicalKey path = .ok logical) : ∃ parts, logical = Text.join parts ∧
    ∀ w ∈ parts, w ≠ [] ∧ w ≠ ['.'] ∧ w ≠ "..".toList ∧ '/' ∉ w ∧ '\\' ∉ w := by
  unfold safeLogicalKey at h
  dsimp only at h
  split at h
  · cases h
  next hdots =>
    refine ⟨_, (Except.ok.inj h).symm, ?_⟩
    intro w hw
    obtain ⟨hsplit, hkept⟩ := List.mem_filter.1 hw
    have hbackslash : '\\' ∉ w := by
      intro hc
      obtain ⟨front, back, hform, -⟩ := Text.within_of_split hsplit
      have hin : '\\' ∈ (Text.slashes (Text.strip path)).dropWhile fun c => decide (c = '/') := by
        rw [hform]
        exact List.mem_append_right _ (List.mem_append_left _ hc)
      have hslashes := (List.dropWhile_sublist _).subset hin
      obtain ⟨d, -, hd⟩ := List.mem_map.1 hslashes
      split at hd
      · cases hd
      next hne => exact hne hd
    simp only [Bool.and_eq_true, bne_iff_ne] at hkept
    exact ⟨hkept.1, hkept.2, fun heq => hdots (heq ▸ hw), Text.slash_not_mem_of_split hsplit, hbackslash⟩

theorem length_slashes (s : Str) : (Text.slashes s).length = s.length := List.length_map _

/-- A path that is its own key has no white space around it. -/
theorem strip_of_key (h : safeLogicalKey path = .ok path) : Text.strip path = path := by
  apply (Text.strip_sublist path).eq_of_length
  apply le_antisymm (Text.length_strip path)
  unfold safeLogicalKey at h
  dsimp only at h
  split at h
  · cases h
  next =>
    have hcomponents := Text.length_components
      ((Text.slashes (Text.strip path)).dropWhile fun c => decide (c = '/'))
    have hdropped := (List.dropWhile_sublist (l := Text.slashes (Text.strip path))
      fun c => decide (c = '/')).length_le
    rw [Except.ok.inj h] at hcomponents
    rw [length_slashes] at hdropped
    omega

theorem Text.join_append_last (names : List Str) (name tail : Str) :
    Text.join (names ++ [name]) ++ tail = Text.join (names ++ [name ++ tail]) := by
  induction names with
  | nil => rfl
  | cons first names ih =>
    have hne : names ++ [name] ≠ [] := by simp
    have hne' : names ++ [name ++ tail] ≠ [] := by simp
    rw [List.cons_append, List.cons_append, Text.join_cons first hne, Text.join_cons first hne',
      List.append_assoc, List.cons_append, ih]

/-- With a suffix that no separator or white space is in it is its own key too. -/
theorem safeLogicalKey_append {tail : Str} (h : safeLogicalKey path = .ok path) (hne : path ≠ [])
    (htail : 2 < tail.length) (hslash : '/' ∉ tail) (hbackslash : '\\' ∉ tail)
    (hlast : ∀ c ∈ tail.getLast?, Text.isSpace c = false) :
    safeLogicalKey (path ++ tail) = .ok (path ++ tail) := by
  obtain ⟨parts, hparts, hclean⟩ := parts_of_key h
  have hstrip := strip_of_key h
  have hnames : parts ≠ [] := by
    intro hnil
    rw [hnil] at hparts
    exact hne hparts
  obtain ⟨front, last, hform⟩ := (List.eq_nil_or_concat parts).resolve_left hnames
  rw [List.concat_eq_append] at hform
  have htailNe : tail ≠ [] := by
    intro hnil
    rw [hnil] at htail
    exact absurd htail (by decide)
  -- the suffix goes to the last part
  have hlonger : path ++ tail = Text.join (front ++ [last ++ tail]) := by
    rw [hparts, hform, Text.join_append_last]
  have hlengthened : ∀ w ∈ front ++ [last ++ tail],
      w ≠ [] ∧ w ≠ ['.'] ∧ w ≠ "..".toList ∧ '/' ∉ w ∧ '\\' ∉ w := by
    intro w hw
    rcases List.mem_append.1 hw with hfront | hend
    · exact hclean w (by rw [hform]; exact List.mem_append_left _ hfront)
    · rw [List.mem_singleton.1 hend]
      have hlastPart := hclean last (by rw [hform]; exact List.mem_append_right _ (List.mem_singleton_self _))
      have hlength : 2 < (last ++ tail).length := by
        rw [List.length_append]
        omega
      have hshort : ∀ v : Str, v.length ≤ 2 → last ++ tail ≠ v := by
        intro v hv heq
        rw [heq] at hlength
        omega
      refine ⟨hshort _ (by decide), hshort _ (by decide), hshort _ (by decide), ?_, ?_⟩
      · intro hc
        rcases List.mem_append.1 hc with hc | hc
        · exact hlastPart.2.2.2.1 hc
        · exact hslash hc
      · intro hc
        rcases List.mem_append.1 hc with hc | hc
        · exact hlastPart.2.2.2.2 hc
        · exact hbackslash hc
  have hno : '\\' ∉ path ++ tail := by
    rw [hlonger]
    intro hc
    rcases mem_join hc with heq | hin
    · cases heq
    · obtain ⟨w, hw, hcw⟩ := hin
      exact (hlengthened w hw).2.2.2.2 hcw
  have htrimmed : Text.Trimmed (path ++ tail) := by
    apply Text.trimmed_iff.2
    constructor
    · intro c hc
      have hfirst : c ∈ path.head? := by
        obtain ⟨d, ds, hd⟩ := List.exists_cons_of_ne_nil hne
        rw [hd] at hc ⊢
        exact hc
      have htrim := Text.trimmed_strip path
      rw [hstrip] at htrim
      exact (Text.trimmed_iff.1 htrim).1 c hfirst
    · intro c hc
      rw [List.getLast?_append_of_ne_nil _ htailNe] at hc
      exact hlast c hc
  have hhead : ∀ c ∈ (path ++ tail).head?, decide (c = '/') = false := by
    intro c hc
    apply decide_eq_false
    intro heq
    rw [hlonger] at hc
    obtain ⟨w, ws, hws⟩ := List.exists_cons_of_ne_nil (show front ++ [last ++ tail] ≠ [] by simp)
    have hw := hlengthened w (by rw [hws]; exact List.mem_cons_self)
    obtain ⟨d, ds, hd⟩ := List.exists_cons_of_ne_nil hw.1
    have hstart : d = c := by
      rw [hws, hd] at hc
      cases ws with
      | nil => exact Option.some.inj hc
      | cons v vs => exact Option.some.inj hc
    apply hw.2.2.2.1
    rw [hd, hstart, heq]
    exact List.mem_cons_self
  have hsplit : Text.split (path ++ tail) = front ++ [last ++ tail] := by
    rw [hlonger, Text.split_join (by simp) fun w hw => (hlengthened w hw).2.2.2.1]
  have hcomponents : Text.components (path ++ tail) = front ++ [last ++ tail] := by
    unfold Text.components
    rw [hsplit]
    apply List.filter_eq_self.2
    intro w hw
    have h0 := (hlengthened w hw).1
    have h1 := (hlengthened w hw).2.1
    simp [h0, h1]
  unfold safeLogicalKey
  rw [Text.strip_trimmed htrimmed, Text.slashes_self hno, Text.dropWhile_self hhead]
  dsimp only
  rw [hcomponents, if_neg fun hdots => (hlengthened _ hdots).2.2.1 rfl, ← hlonger]

/-- On the volume a path is its own key when cleaning leaves it alone. -/
theorem objectKey_diskRoot_self : objectKey diskRootAdapter path = .ok path ↔ safeLogicalKey path = .ok path := by
  have hform : ∀ logical : Str, objectKey diskRootAdapter path = safeLogicalKey path := by
    intro logical
    unfold objectKey
    cases safeLogicalKey path with
    | error e => rfl
    | ok logical => by_cases hnil : logical = [] <;> simp [hnil, diskRootAdapter, bind, Except.bind, pure, Except.pure]
  rw [hform path]

end

end WebStorage
