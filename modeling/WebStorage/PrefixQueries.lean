import WebStorage.CleanPaths

set_option autoImplicit false

/-! The queries by path prefix: `LIKE` with the directory as its pattern, against the subtree of
the directory. -/
namespace WebStorage.PrefixQueries

/-! ### Patterns -/

/-- No character of the text means anything to `LIKE`. -/
def Literal (s : Str) : Prop := '%' ∉ s ∧ '_' ∉ s ∧ '\\' ∉ s

instance (s : Str) : Decidable (Literal s) := inferInstanceAs (Decidable (_ ∧ _))

theorem likeAny_of {p : Str → Bool} {s : Str} (h : p s = true) : likeAny p s = true := by
  cases s with
  | nil => exact h
  | cons c s => rw [likeAny, h, Bool.true_or]

theorem like_percent (s : Str) : like ['%'] s = true := by
  show likeAny (like []) s = true
  induction s with
  | nil => rfl
  | cons c s ih => rw [likeAny, ih, Bool.or_true]

theorem literal_cons {c : Char} {s : Str} :
    Literal (c :: s) ↔ (c ≠ '%' ∧ c ≠ '_' ∧ c ≠ '\\') ∧ Literal s := by
  simp only [Literal, List.mem_cons, not_or]
  constructor
  · intro h
    obtain ⟨⟨h1, h1'⟩, ⟨h2, h2'⟩, h3, h3'⟩ := h
    exact ⟨⟨Ne.symm h1, Ne.symm h2, Ne.symm h3⟩, h1', h2', h3'⟩
  · intro h
    obtain ⟨⟨h1, h2, h3⟩, h1', h2', h3'⟩ := h
    exact ⟨⟨Ne.symm h1, h1'⟩, ⟨Ne.symm h2, h2'⟩, Ne.symm h3, h3'⟩

/-- A character without a meaning stands for itself. -/
theorem like_cons {c : Char} (h : c ≠ '%' ∧ c ≠ '_' ∧ c ≠ '\\') (p s : Str) :
    like (c :: p) s = match s with
      | [] => false
      | d :: t => c == d && like p t := by
  obtain ⟨h1, h2, h3⟩ := h
  rw [like.eq_def]
  split
  · next heq => cases heq
  · next heq => exact absurd (List.cons.inj heq).1 h1
  · next heq => exact absurd (List.cons.inj heq).1 h2
  · next heq => exact absurd (List.cons.inj heq).1 h3
  · next heq =>
    obtain ⟨hc, hp⟩ := List.cons.inj heq
    subst hc
    subst hp
    rfl

/-- A literal pattern finds exactly what starts with it. -/
theorem likePrefix_literal {p : Str} (h : Literal p) (s : Str) :
    likePrefix p s = true ↔ p <+: s := by
  unfold likePrefix
  induction p generalizing s with
  | nil => simp [like_percent]
  | cons c p ih =>
    obtain ⟨hc, hp⟩ := literal_cons.1 h
    rw [List.cons_append, like_cons hc]
    cases s with
    | nil => simp
    | cons d s => simp [ih hp, List.cons_prefix_cons]

/-- A text that a pattern finds although it reads differently. -/
def expand : Str → Str
  | [] => []
  | '%' :: p => expand p
  | '_' :: p => 'x' :: expand p
  | '\\' :: c :: p => c :: expand p
  | ['\\'] => []
  | c :: p => c :: expand p

/-- The pattern of a directory finds the expansion as a directory. -/
theorem like_expand (dir : Str) : likePrefix (dir ++ ['/']) (expand dir ++ "/x".toList) = true := by
  unfold likePrefix
  rw [List.append_assoc]
  fun_induction expand dir with
  | case1 =>
    have hslash : '/' ≠ '%' ∧ '/' ≠ '_' ∧ '/' ≠ '\\' := by decide
    show like ('/' :: ['%']) ('/' :: ['x']) = true
    rw [like_cons hslash]
    simp [like_percent]
  | case2 p ih => exact likeAny_of ih
  | case3 p ih => exact ih
  | case4 c p ih =>
    show (c == c && like (p ++ (['/'] ++ ['%'])) (expand p ++ "/x".toList)) = true
    rw [ih, Bool.and_true, beq_self_eq_true]
  | case5 =>
    show ('/' == '/' && like ['%'] ['x']) = true
    rw [like_percent]
    rfl
  | case6 c p h1 h2 h3 h4 ih =>
    have hc : c ≠ '%' ∧ c ≠ '_' ∧ c ≠ '\\' := by
      refine ⟨h1, h2, ?_⟩
      intro heq
      cases p with
      | nil => exact h4 heq rfl
      | cons d p => exact h3 d p heq rfl
    rw [List.cons_append, List.cons_append, like_cons hc]
    simpa using ih

theorem length_expand (p : Str) : (expand p).length ≤ p.length := by
  fun_induction expand p with
  | case1 => exact Nat.le_refl 0
  | case2 p ih =>
    rw [List.length_cons]
    omega
  | case3 p ih =>
    rw [List.length_cons, List.length_cons]
    omega
  | case4 c p ih =>
    simp only [List.length_cons]
    omega
  | case5 => exact Nat.zero_le 1
  | case6 c p h1 h2 h3 h4 ih =>
    rw [List.length_cons, List.length_cons]
    omega

/-- Only literal texts are their own expansions. -/
theorem literal_of_expand {p : Str} (h : expand p = p) : Literal p := by
  fun_induction expand p with
  | case1 => decide
  | case2 p ih =>
    have hlen := length_expand p
    rw [h, List.length_cons] at hlen
    omega
  | case3 p ih => exact absurd (List.cons.inj h).1 (by decide)
  | case4 c p ih =>
    have hlen := length_expand p
    have heq := congrArg List.length h
    simp only [List.length_cons] at heq
    omega
  | case5 => cases h
  | case6 c p h1 h2 h3 h4 ih =>
    apply literal_cons.2
    refine ⟨⟨h1, h2, ?_⟩, ih (List.cons.inj h).2⟩
    intro heq
    cases p with
    | nil => exact h4 heq rfl
    | cons d p => exact h3 d p heq rfl

/-- The expansion of a directory that is not literal lies elsewhere. -/
theorem expand_elsewhere {dir : Str} (h : dir ++ ['/'] <+: expand dir ++ "/x".toList) :
    Literal dir := by
  apply literal_of_expand
  have hshort := length_expand dir
  have hlen := h.length_le
  have hslash : "/x".toList = ['/', 'x'] := rfl
  rw [hslash] at h hlen
  simp only [List.length_append, List.length_cons, List.length_nil] at hlen
  rcases Nat.eq_or_lt_of_le hshort with heq | hlt
  · have hfront : dir <+: expand dir := by
      apply List.prefix_of_prefix_length_le ((List.prefix_append _ _).trans h) (List.prefix_append _ _)
      omega
    exact (hfront.eq_of_length heq.symm).symm
  · -- the two texts have the same length and end differently
    have hwhole : dir ++ ['/'] = expand dir ++ ['/', 'x'] := by
      apply h.eq_of_length
      simp only [List.length_append, List.length_cons, List.length_nil]
      omega
    have hlast := congrArg List.getLast? hwhole
    simp at hlast

theorem rstripSlash_parent (s : Str) : Text.rstripSlash s ++ ['/'] <+: s ++ ['/'] := by
  have hsplit := List.takeWhile_append_dropWhile (p := fun c : Char => decide (c = '/')) (l := s.reverse)
  have hs : s = Text.rstripSlash s ++ (s.reverse.takeWhile fun c => decide (c = '/')).reverse := by
    have hreverse := congrArg List.reverse hsplit
    rw [List.reverse_append, List.reverse_reverse] at hreverse
    exact hreverse.symm
  have hslashes : ∀ c ∈ (s.reverse.takeWhile fun c => decide (c = '/')).reverse, c = '/' := by
    intro c hc
    have hmem := List.mem_takeWhile_imp (List.mem_reverse.1 hc)
    simpa using hmem
  cases hrest : (s.reverse.takeWhile fun c => decide (c = '/')).reverse with
  | nil =>
    rw [hrest, List.append_nil] at hs
    rw [← hs]
  | cons c rest =>
    rw [hrest] at hs hslashes
    have hc : c = '/' := hslashes c List.mem_cons_self
    refine ⟨rest ++ ['/'], ?_⟩
    nth_rewrite 2 [hs]
    rw [hc, List.append_assoc, List.append_assoc]
    rfl

/-! ### The queries -/

/-- The records of a scope and of some statuses below a directory. -/
def inSubtree (owner : Option Uuid) (fileSection : FileSection) (statuses : List FileStatus)
    (dir : Str) (r : FileRecord) : Bool :=
  inScope owner fileSection r && decide (r.status ∈ statuses) &&
    (dir ++ ['/']).isPrefixOf r.relativePath

/-- The chosen records are moved with what follows the directory, and nothing else changes. -/
structure Moves (d after : Db) (chosen : FileRecord → Bool) (old new : Str) : Prop where
  moved : ∀ r ∈ d.records.rows, chosen r = true → ∃ suffix, r.relativePath = old ++ '/' :: suffix ∧
    after.records.get r.id = some { r with relativePath := new ++ '/' :: suffix }
  kept : ∀ r ∈ d.records.rows, chosen r = false → after.records.get r.id = some r
  ids : after.records.rows.map (·.id) = d.records.rows.map (·.id)
  tables : after.quotas = d.quotas ∧ after.links = d.links

/-- The three calls for a directory act on its subtree, in every table. -/
structure Exact (dir : Str) : Prop where
  update : ∀ userId fileSection new d,
    Moves d (FileRepo.updateRelativePathPrefix userId fileSection dir new d).2
      (inSubtree (some userId) fileSection [.committed] dir) dir new
  updateInSection : ∀ fileSection new d,
    Moves d (FileRepo.updateRelativePathPrefixInSection fileSection dir new d).2
      (inSubtree none fileSection [.committed] dir) dir new
  list : ∀ userId fileSection d, FileRepo.listActiveUnderPrefix userId fileSection dir d =
    (.ok (d.records.rows.filter
      (inSubtree (some userId) fileSection [.committed, .archived] dir)), d)

section
variable {dir : Str}

theorem moves_movePrefix (h : Literal dir) (owner : Option Uuid) (fileSection : FileSection)
    (new : Str) (d : Db) :
    Moves d (FileRepo.movePrefix owner fileSection dir new d).2
      (inSubtree owner fileSection [.committed] dir) dir new := by
  have hlit : Literal (dir ++ ['/']) := by
    simpa [Literal] using h
  have hchosen : ∀ r : FileRecord, (inScope owner fileSection r && decide (r.status = .committed) &&
      likePrefix (dir ++ ['/']) r.relativePath) = inSubtree owner fileSection [.committed] dir r := by
    intro r
    have hlike : likePrefix (dir ++ ['/']) r.relativePath =
        (dir ++ ['/']).isPrefixOf r.relativePath := by
      rw [Bool.eq_iff_iff, likePrefix_literal hlit, List.isPrefixOf_iff_prefix]
    simp [inSubtree, hlike]
  constructor
  case moved =>
    intro r hr hsome
    have hstarts : dir ++ ['/'] <+: r.relativePath := by
      simp only [inSubtree, Bool.and_eq_true] at hsome
      exact List.isPrefixOf_iff_prefix.1 hsome.2
    obtain ⟨suffix, hsuffix⟩ := hstarts
    have hpath : r.relativePath = dir ++ '/' :: suffix := by
      rw [← hsuffix, List.append_assoc]
      rfl
    refine ⟨suffix, hpath, ?_⟩
    unfold FileRepo.movePrefix
    dsimp only
    rw [RecordTable.get_update, RecordTable.get_of_mem hr, Option.map_some, hchosen, if_pos hsome]
    have hdrop : r.relativePath.drop dir.length = '/' :: suffix := by
      rw [hpath, List.drop_left]
    rw [hdrop]
  case kept =>
    intro r hr hnone
    unfold FileRepo.movePrefix
    dsimp only
    rw [RecordTable.get_update, RecordTable.get_of_mem hr, Option.map_some, hchosen, hnone]
    rfl
  case ids => exact RecordTable.updated_ids _ _ _
  case tables => exact ⟨rfl, rfl⟩

theorem listActive_literal (h : Literal dir) (hslash : ¬ ['/'] <:+ dir) (userId : Uuid)
    (fileSection : FileSection) (d : Db) :
    FileRepo.listActiveUnderPrefix userId fileSection dir d =
      (.ok (d.records.rows.filter
        (inSubtree (some userId) fileSection [.committed, .archived] dir)), d) := by
  have hlit : Literal (dir ++ ['/']) := by
    simpa [Literal] using h
  have hdir : Text.rstripSlash dir = dir := by
    apply Text.rstripSlash_self
    intro c hc heq
    apply hslash
    rw [heq] at hc
    obtain ⟨front, hfront⟩ := List.getLast?_eq_some_iff.1 hc
    exact ⟨front, hfront.symm⟩
  unfold FileRepo.listActiveUnderPrefix FileRepo.select
  congr 2
  apply List.filter_congr
  intro r _
  have hlike : likePrefix (dir ++ ['/']) r.relativePath =
      (dir ++ ['/']).isPrefixOf r.relativePath := by
    rw [Bool.eq_iff_iff, likePrefix_literal hlit, List.isPrefixOf_iff_prefix]
  rw [hdir, hlike]
  simp [inSubtree, isDownloadable]

end

/-! ### Records elsewhere -/

/-- A row of a user's `FILES`. -/
def rowAt (relativePath : Str) : FileRecord where
  id := .ofDigit 1
  userId := .ofDigit 2
  relativePath := relativePath
  originalName := "x".toList
  sizeBytes := 1
  isEncrypted := false
  fileSection := .files
  status := .committed
  checksumSha256 := none
  createdAt := 0
  lastAccessedAt := 0
  isArchived := false
  archivePath := none

def tableOf (relativePath : Str) : Db :=
  ⟨⟨[rowAt relativePath], List.nodup_singleton _⟩, ∅, LinkTable.empty⟩

/-- The three calls act on the subtree of a directory exactly if its path has no wildcard and, as
a directory path, no slash at its end. -/
theorem prefix_queries_exact (dir : Str) : Exact dir ↔ Literal dir ∧ ¬ ['/'] <:+ dir := by
  constructor
  · intro h
    have hlit : Literal dir := by
      by_contra hnot
      -- the expansion is moved, but it is not below the directory
      have hmoves := h.update (.ofDigit 2) .files (expand dir ++ "/xy".toList)
        (tableOf (expand dir ++ "/x".toList))
      have hchosen : inSubtree (some (.ofDigit 2)) .files [.committed] dir
          (rowAt (expand dir ++ "/x".toList)) = false := by
        rw [Bool.eq_false_iff]
        intro hsome
        simp only [inSubtree, Bool.and_eq_true] at hsome
        exact hnot (expand_elsewhere (List.isPrefixOf_iff_prefix.1 hsome.2))
      have hkept := hmoves.kept _ List.mem_cons_self hchosen
      unfold FileRepo.updateRelativePathPrefix FileRepo.movePrefix at hkept
      dsimp only at hkept
      rw [RecordTable.get_update, RecordTable.get_of_mem List.mem_cons_self, Option.map_some] at hkept
      have hfound : likePrefix (dir ++ ['/']) (rowAt (expand dir ++ "/x".toList)).relativePath = true :=
        like_expand dir
      rw [hfound, Bool.and_true] at hkept
      have hpath := congrArg (fun r : FileRecord => r.relativePath.length) (Option.some.inj hkept)
      have hlong : (expand dir ++ "/xy".toList ++
          (expand dir ++ "/x".toList).drop dir.length).length = (expand dir ++ "/x".toList).length :=
        hpath
      have hxy : "/xy".toList.length = 3 := rfl
      have hx : "/x".toList.length = 2 := rfl
      simp only [List.length_append, hxy, hx] at hlong
      omega
    refine ⟨hlit, ?_⟩
    intro hslash
    obtain ⟨front, hfront⟩ := hslash
    -- the query drops the last slash, and so lists the neighbours of the directory too
    have hlisted := congrArg (·.1) (h.list (.ofDigit 2) .files (tableOf (dir ++ ['x'])))
    have hstrip : Text.rstripSlash dir = Text.rstripSlash front := by
      rw [← hfront, Text.rstripSlash, List.reverse_append, List.reverse_singleton,
        List.singleton_append, List.dropWhile_cons]
      rfl
    have hshort : Text.rstripSlash dir ++ ['/'] <+: dir ++ ['x'] := by
      rw [hstrip]
      apply (rstripSlash_parent front).trans
      rw [hfront]
      exact List.prefix_append _ _
    have hpattern : Literal (Text.rstripSlash dir ++ ['/']) := by
      have hsub : ∀ c ∈ Text.rstripSlash dir, c ∈ dir := by
        intro c hc
        exact List.mem_reverse.1 ((List.dropWhile_sublist _).subset (List.mem_reverse.1 hc))
      simp only [Literal, List.mem_append, not_or]
      exact ⟨⟨fun hc => hlit.1 (hsub _ hc), by decide⟩, ⟨fun hc => hlit.2.1 (hsub _ hc), by decide⟩,
        fun hc => hlit.2.2 (hsub _ hc), by decide⟩
    have hfound : likePrefix (Text.rstripSlash dir ++ ['/']) (dir ++ ['x']) = true :=
      (likePrefix_literal hpattern _).2 hshort
    have hout : inSubtree (some (.ofDigit 2)) .files [.committed, .archived] dir
        (rowAt (dir ++ ['x'])) = false := by
      rw [Bool.eq_false_iff]
      intro hsome
      simp only [inSubtree, Bool.and_eq_true] at hsome
      have hstarts : dir ++ ['/'] <+: dir ++ ['x'] := List.isPrefixOf_iff_prefix.1 hsome.2
      have hlast := (List.prefix_append_right_inj dir).1 hstarts
      exact absurd hlast (by decide)
    have hin : (rowAt (dir ++ ['x'])) ∈ (tableOf (dir ++ ['x'])).records.rows.filter fun r =>
        inScope (some (.ofDigit 2)) .files r && isDownloadable r &&
          likePrefix (Text.rstripSlash dir ++ ['/']) r.relativePath := by
      apply List.mem_filter.2
      refine ⟨List.mem_cons_self, ?_⟩
      show (true && likePrefix (Text.rstripSlash dir ++ ['/']) (dir ++ ['x'])) = true
      rw [hfound]
      rfl
    rw [Except.ok.inj hlisted] at hin
    have hsome := (List.mem_filter.1 hin).2
    rw [hout] at hsome
    cases hsome
  · intro h
    constructor
    case update => exact fun userId fileSection new d => moves_movePrefix h.1 _ fileSection new d
    case updateInSection => exact fun fileSection new d => moves_movePrefix h.1 _ fileSection new d
    case list => exact fun userId fileSection d => listActive_literal h.1 h.2 userId fileSection d

/-- A record below `a1` follows when the directory `a_` is renamed. -/
theorem sibling_moved : ¬ Exact "users/u/files/a_".toList := by
  intro h
  have hmoves := h.update (.ofDigit 2) .files "users/u/files/b".toList
    (tableOf "users/u/files/a1/x".toList)
  have hkept := hmoves.kept _ List.mem_cons_self (by decide +kernel)
  exact absurd hkept (by decide +kernel)

end WebStorage.PrefixQueries
