import WebStorage.Downloads
import WebStorage.FailedOverwrite
import WebStorage.PathDeletion
import WebStorage.PathNames
import WebStorage.QuotaExact
import WebStorage.ReturningRuns
import WebStorage.ZipAccounting

set_option autoImplicit false

/-! A file that a request has stored: its record, its object, and what its path reads as. -/
namespace WebStorage
open Effect Effect.Prog S3 FileService FailedUpload FailedOverwrite
open QuotaBooks (add_spec create_ok)
open ZipAccounting (committedRecord commit_new)
open PathDeletion (usageOf usageOf_congr)

attribute [local irreducible] Adapter.toDiskRelativePath normalizePath objectKey

/-! ### The key of a file in a directory -/

/-- What is left of a directory in the path of a file, before it is split. -/
def front (dir : Str) : Str :=
  (Text.slashes (dir.dropWhile Text.isSpace)).dropWhile fun c => decide (c = '/')

/-- The white space and the slashes before a path go, the name at its end is kept. -/
theorem cleaned_name (dir : Str) {name : Str} (hname : CleanName name) :
    (Text.slashes (Text.strip (dir ++ '/' :: name))).dropWhile (fun c => decide (c = '/')) =
      joinPath (front dir) name := by
  have hslash : Text.slashes ('/' :: name) = '/' :: name := by
    apply Text.slashes_self
    intro hmem
    rcases List.mem_cons.1 hmem with hc | hc
    · cases hc
    · exact hname.no_backslash hc
  have hdrop : ('/' :: name).dropWhile (fun c => decide (c = '/')) = name := by
    rw [List.dropWhile_cons, if_pos (by decide)]
    apply Text.dropWhile_self
    intro c hc
    exact decide_eq_false fun heq => hname.no_slash (heq ▸ List.mem_of_mem_head? hc)
  rw [Text.strip_append_name dir hname.ne_nil hname.trimmed, Text.slashes_append, hslash,
    List.dropWhile_append, hdrop]
  unfold front joinPath
  split
  next hempty => rw [if_neg (by simpa using hempty)]
  next hsome => rw [if_pos (by simpa using hsome)]

theorem components_joinPath (dir : Str) {name : Str} (hname : CleanName name) :
    Text.components (joinPath dir name) = Text.components dir ++ [name] := by
  unfold joinPath
  split
  next => rw [Text.components_append_slash, components_name hname]
  next hnil =>
    rw [not_not.1 hnil, components_name hname]
    rfl

/-- The key of a file ends in its name. -/
theorem safeLogicalKey_name {dir name logical : Str} (hname : CleanName name)
    (h : safeLogicalKey (joinPath dir name) = .ok logical) : ∃ parts : List Str,
      logical = Text.join (parts ++ [name]) ∧ ∀ w ∈ parts ++ [name], '/' ∉ w := by
  by_cases hdir : dir = []
  · rw [hdir] at h
    have hlogical : safeLogicalKey (Text.join [name]) = .ok logical := h
    rw [safeLogicalKey_join (Clean.singleton hname)] at hlogical
    refine ⟨[], (Except.ok.inj hlogical).symm, ?_⟩
    intro w hw
    rw [List.mem_singleton.1 hw]
    exact hname.no_slash
  · have hpath : joinPath dir name = dir ++ '/' :: name := if_pos hdir
    unfold safeLogicalKey at h
    dsimp only at h
    rw [hpath, cleaned_name dir hname, components_joinPath _ hname] at h
    split at h
    · cases h
    · refine ⟨Text.components (front dir), (Except.ok.inj h).symm, ?_⟩
      intro w hw
      rcases List.mem_append.1 hw with hw | hw
      · exact no_slash_components hw
      · rw [List.mem_singleton.1 hw]
        exact hname.no_slash

/-- The path does not end in white space. -/
def EndsVisibly (path : Str) : Prop := ∀ c ∈ path.getLast?, Text.isSpace c = false

instance (path : Str) : Decidable (EndsVisibly path) :=
  decidable_of_iff (path.getLast?.all (fun c => !Text.isSpace c) = true) (by
    unfold EndsVisibly
    cases path.getLast? <;> simp)

theorem getLast?_dropWhile {p : Char → Bool} {s : Str} (h : ∀ c ∈ s.getLast?, p c = false) :
    (s.dropWhile p).getLast? = s.getLast? := by
  induction s with
  | nil => rfl
  | cons c s ih =>
    rw [List.dropWhile_cons]
    split
    next hc =>
      cases s with
      | nil =>
        have hnot := h c rfl
        rw [hc] at hnot
        cases hnot
      | cons d s =>
        rw [List.getLast?_cons_cons]
        apply ih
        intro e he
        apply h e
        rw [List.getLast?_cons_cons]
        exact he
    next => rfl

theorem strip_of_endsVisibly {path : Str} (h : EndsVisibly path) :
    Text.strip path = path.dropWhile Text.isSpace := by
  have hlast : ∀ c ∈ (path.dropWhile Text.isSpace).reverse.head?, Text.isSpace c = false := by
    intro c hc
    rw [List.head?_reverse, getLast?_dropWhile h] at hc
    exact h c hc
  unfold Text.strip
  rw [Text.dropWhile_self hlast, List.reverse_reverse]

theorem join_eq_nil_of_split {parts : List Str} (h : ∀ w ∈ parts, w ≠ []) (hjoin : Text.join parts = []) :
    parts = [] := by
  cases parts with
  | nil => rfl
  | cons w rest =>
    cases rest with
    | nil => exact absurd hjoin (h w List.mem_cons_self)
    | cons v rest =>
      rw [Text.join_cons w (List.cons_ne_nil v rest)] at hjoin
      cases (List.append_eq_nil_iff.1 hjoin).2

/-- A file is in the directory of its path. -/
theorem safeLogicalKey_joinPath {dir name logical : Str} (hname : CleanName name)
    (hvisible : EndsVisibly dir) (h : safeLogicalKey (joinPath dir name) = .ok logical) :
    ∃ parent, safeLogicalKey dir = .ok parent ∧ logical = joinPath parent name := by
  by_cases hdir : dir = []
  · rw [hdir] at h ⊢
    have hlogical : safeLogicalKey (Text.join [name]) = .ok logical := h
    rw [safeLogicalKey_join (Clean.singleton hname)] at hlogical
    exact ⟨[], rfl, (Except.ok.inj hlogical).symm⟩
  · have hpath : joinPath dir name = dir ++ '/' :: name := if_pos hdir
    unfold safeLogicalKey at h ⊢
    dsimp only at h ⊢
    rw [hpath, cleaned_name dir hname, components_joinPath _ hname] at h
    have hfront : (Text.slashes (Text.strip dir)).dropWhile (fun c => decide (c = '/')) = front dir := by
      rw [strip_of_endsVisibly hvisible]
      rfl
    rw [hfront]
    split at h
    next => cases h
    next hdots =>
      have hparent : "..".toList ∉ Text.components (front dir) :=
        fun hmem => hdots (List.mem_append_left _ hmem)
      refine ⟨Text.join (Text.components (front dir)), if_neg hparent, ?_⟩
      have hlogical := (Except.ok.inj h).symm
      rw [hlogical]
      unfold joinPath
      split
      next hsome =>
        have hparts : Text.components (front dir) ≠ [] := by
          intro hnil
          rw [hnil] at hsome
          exact hsome rfl
        rw [Text.join_append hparts (List.cons_ne_nil _ _)]
        rfl
      next hnil =>
        have hparts : Text.components (front dir) = [] := by
          apply join_eq_nil_of_split _ (not_not.1 hnil)
          intro w hw
          have hkept := (List.mem_filter.1 hw).2
          intro heq
          rw [heq] at hkept
          cases hkept
        rw [hparts]
        rfl

/-- The key of a file is that of its directory and its name. -/
theorem objectKey_joinPath {a : Adapter} {dir name key : Str} (hroot : a.diskRelativePrefix ≠ [])
    (hname : CleanName name) (hvisible : EndsVisibly dir)
    (h : objectKey a (joinPath dir name) = .ok key) :
    ∃ parent, objectKey a dir = .ok parent ∧ key = parent ++ '/' :: name := by
  obtain ⟨logical, hsafe, hform⟩ := Bucket.objectKey_ok h
  obtain ⟨parent, hparent, hlogical⟩ := safeLogicalKey_joinPath hname hvisible hsafe
  have hlogical0 : logical ≠ [] := by
    rw [hlogical]
    unfold joinPath
    split
    · exact List.append_ne_nil_of_right_ne_nil _ (List.cons_ne_nil _ _)
    · exact hname.ne_nil
  rw [hform, if_neg hlogical0, if_neg hroot, hlogical]
  unfold objectKey joinPath
  rw [hparent]
  by_cases hnil : parent = []
  · refine ⟨a.diskRelativePrefix, ?_, ?_⟩
    · show Except.ok (if parent = [] then _ else _) = _
      rw [if_pos hnil]
    · rw [if_neg (not_not.2 hnil)]
  · refine ⟨a.diskRelativePrefix ++ '/' :: parent, ?_, ?_⟩
    · show Except.ok (if parent = [] then _ else _) = _
      rw [if_neg hnil, if_neg hroot]
    · rw [if_pos hnil, List.append_assoc]
      rfl

theorem normalizePath_plain (path : Str) : '\\' ∉ normalizePath path ∧
    (∀ c ∈ (normalizePath path).head?, c ≠ '/') ∧ ∀ c ∈ (normalizePath path).getLast?, c ≠ '/' := by
  unfold normalizePath Text.stripSlash
  refine ⟨?_, ?_, ?_⟩
  · intro hmem
    have hsource : '\\' ∈ Text.slashes (Text.strip path) := by
      apply (List.dropWhile_sublist _).mem
      have hback := List.mem_reverse.1 hmem
      have hkept := (List.dropWhile_sublist _).mem hback
      exact List.mem_reverse.1 hkept
    obtain ⟨c, -, hc⟩ := List.mem_map.1 hsource
    split at hc
    next => cases hc
    next hne => exact hne hc
  · intro c hc
    obtain ⟨rest, hrest⟩ : Text.rstripSlash ((Text.slashes (Text.strip path)).dropWhile (· = '/')) <+:
        (Text.slashes (Text.strip path)).dropWhile (· = '/') := by
      unfold Text.rstripSlash
      rw [← List.reverse_suffix, List.reverse_reverse]
      exact List.dropWhile_suffix _
    have hnot := List.head?_dropWhile_not (fun c : Char => decide (c = '/')) (Text.slashes (Text.strip path))
    have hhead : ((Text.slashes (Text.strip path)).dropWhile (fun c => decide (c = '/'))).head? = some c := by
      rw [← hrest, List.head?_append, hc]
      rfl
    rw [hhead] at hnot
    simpa using hnot
  · intro c hc heq
    rw [heq] at hc
    have hend := List.getLast?_eq_some_iff.1 hc
    obtain ⟨rest, hrest⟩ := hend
    exact Text.not_suffix_rstripSlash _ ⟨rest, hrest.symm⟩

/-- A file is looked up where it was stored, unless the path of its directory ends in white space. -/
theorem normalizePath_file {path name : Str} (hname : CleanName name)
    (hvisible : EndsVisibly (normalizePath path)) (hne : normalizePath path ≠ []) :
    normalizePath (normalizePath path ++ '/' :: name) =
        joinPath (normalizePath (normalizePath path)) name ∧
      EndsVisibly (normalizePath (normalizePath path)) := by
  obtain ⟨hplain, -, hend⟩ := normalizePath_plain path
  generalize normalizePath path = dir at *
  have hlast : ((dir.dropWhile Text.isSpace).dropWhile (fun c => decide (c = '/'))).getLast? = dir.getLast? := by
    rw [getLast?_dropWhile, getLast?_dropWhile hvisible]
    intro c hc
    rw [getLast?_dropWhile hvisible] at hc
    exact decide_eq_false (hend c hc)
  have hslashes : Text.slashes (dir.dropWhile Text.isSpace) = dir.dropWhile Text.isSpace :=
    Text.slashes_self fun hmem => hplain ((List.dropWhile_sublist _).mem hmem)
  have hslash : Text.slashes ('/' :: name) = '/' :: name := by
    apply Text.slashes_self
    intro hmem
    rcases List.mem_cons.1 hmem with hc | hc
    · cases hc
    · exact hname.no_backslash hc
  have hkept : (dir.dropWhile Text.isSpace).dropWhile (fun c => decide (c = '/')) ≠ [] := by
    intro hnil
    rw [hnil] at hlast
    exact hne (List.getLast?_eq_none_iff.1 hlast.symm)
  have hdir : normalizePath dir = (dir.dropWhile Text.isSpace).dropWhile (fun c => decide (c = '/')) := by
    unfold normalizePath Text.stripSlash
    rw [strip_of_endsVisibly hvisible, hslashes]
    apply Text.rstripSlash_self
    intro c hc
    rw [hlast] at hc
    exact hend c hc
  have hfile : normalizePath (dir ++ '/' :: name) =
      (dir.dropWhile Text.isSpace).dropWhile (fun c => decide (c = '/')) ++ '/' :: name := by
    unfold normalizePath Text.stripSlash
    rw [Text.strip_append_name dir hname.ne_nil hname.trimmed, Text.slashes_append, hslashes, hslash,
      List.dropWhile_append, if_neg (by simpa using hkept)]
    apply Text.rstripSlash_self
    intro c hc heq
    have hlast' : name.getLast? = some c := by
      rw [List.getLast?_append, List.getLast?_cons] at hc
      cases hget : name.getLast? with
      | none => exact absurd (List.getLast?_eq_none_iff.1 hget) hname.ne_nil
      | some d =>
        rw [hget] at hc
        exact hc
    exact hname.no_slash (heq ▸ List.mem_of_mem_getLast? hlast')
  constructor
  · rw [hfile, hdir]
    unfold joinPath
    rw [if_pos hkept]
  · intro c hc
    rw [hdir, hlast] at hc
    exact hvisible c hc

/-- A name that no temporary object has. -/
structure FileName (name : Str) : Prop where
  clean : CleanName name
  not_id : name.length ≠ 36
  not_tmp : name ≠ tmpDir

instance (name : Str) : Decidable (FileName name) :=
  decidable_of_iff (CleanName name ∧ name.length ≠ 36 ∧ name ≠ tmpDir)
    ⟨fun h => ⟨h.1, h.2.1, h.2.2⟩, fun h => ⟨h.1, h.2, h.3⟩⟩

/-- A temporary object is neither the file nor below it. -/
theorem tmp_beside {a : Adapter} {dir name key : Str} (hroot : a.diskRelativePrefix ≠ [])
    (hname : FileName name) (hkey : objectKey a (joinPath dir name) = .ok key)
    (hslash : ¬ ['/'] <:+ key) (id : Uuid) :
    ¬ Bucket.Covers key (tmpKey a id) := by
  obtain ⟨logical, hsafe, hform⟩ := Bucket.objectKey_ok hkey
  obtain ⟨parts, hlogical, hparts⟩ := safeLogicalKey_name hname.clean hsafe
  have hne : parts ++ [name] ≠ [] := List.append_ne_nil_of_right_ne_nil _ (List.cons_ne_nil _ _)
  have hsplit : Text.split logical = parts ++ [name] := by
    rw [hlogical, Text.split_join hne hparts]
  have hlogical0 : logical ≠ [] := by
    intro hnil
    rw [hnil] at hsplit
    have hlast : parts ++ [name] = [] ++ [[]] := hsplit.symm
    have hnames : [name] = [[]] := (List.append_inj' hlast rfl).2
    exact hname.clean.ne_nil (List.cons.inj hnames).1
  have hkey' : key = a.diskRelativePrefix ++ '/' :: logical := by
    rw [hform, if_neg hlogical0, if_neg hroot]
  have htmp : tmpKey a id = a.diskRelativePrefix ++ '/' :: (tmpDir ++ '/' :: id.text) := by
    rw [tmpKey_eq]
    simp [tmpDir]
  have hids : Text.split (tmpDir ++ '/' :: id.text) = [tmpDir, id.text] := by
    rw [Text.split_append_slash, Text.split_of_not_mem id.slash_not_mem]
    rfl
  intro hcovers
  rcases hcovers with hsame | hbelow
  · rw [htmp, hkey'] at hsame
    have hlogicals : tmpDir ++ '/' :: id.text = logical :=
      (List.cons.inj (List.append_cancel_left hsame)).2
    have hparts : [tmpDir] ++ [id.text] = parts ++ [name] := by
      rw [← hsplit, ← hlogicals, hids]
      rfl
    have hlast : [id.text] = [name] := (List.append_inj' hparts rfl).2
    apply hname.not_id
    rw [← (List.cons.inj hlast).1]
    exact id.canonical.1
  · have hkey0 : key ≠ [] := by
      rw [hkey']
      exact List.append_ne_nil_of_right_ne_nil _ (List.cons_ne_nil _ _)
    rw [Rename.asDir_of hkey0 hslash] at hbelow
    obtain ⟨rest, hrest⟩ := hbelow
    rw [htmp, hkey'] at hrest
    have hlogicals : logical ++ '/' :: rest = tmpDir ++ '/' :: id.text := by
      simpa using hrest
    have hparts : (parts ++ [name]) ++ Text.split rest = [tmpDir] ++ [id.text] := by
      rw [← hsplit, ← Text.split_append_slash, hlogicals, hids]
      rfl
    -- so the name is the temporary directory
    have hlengths : parts.length + ((Text.split rest).length + 1) = 2 := by
      have hlen := congrArg List.length hparts
      simpa using hlen
    have hrest0 : (Text.split rest).length ≠ 0 :=
      fun hzero => Text.split_ne_nil rest (List.length_eq_zero_iff.1 hzero)
    have hnone : parts = [] := List.length_eq_zero_iff.1 (by omega)
    rw [hnone] at hparts
    have hfirst : name = tmpDir := (List.cons.inj hparts).1
    exact hname.not_tmp hfirst

/-! ### Storage operations that are answered -/

section
variable {α : Type} {host : Host} {now : Time} {w : Installation} {a : Adapter}

theorem answered (now : Time) {p : S3M α} {b : Bucket} {Q : Except Exc α → Bucket → Prop}
    (h : EndsAt (fun _ _ => False) p b Q) :
    Q (p.run (Bucket.serve now) b).1 (p.run (Bucket.serve now) b).2 := by
  have hcalls : ∀ c b, CallsAt (fun _ _ => False) c b (Bucket.serve now c b).1 (Bucket.serve now c b).2 :=
    fun c b => .inl ⟨now, rfl⟩
  exact (wp_sound h (exec_run hcalls p b)).2

theorem returns_store {op : StoreOp} {Q : op.Resp → Installation → Prop} (hplain : a.Plain)
    (h : ∀ x, (((host.storage a).perform op).run (Bucket.serve now) w.bucket).1 = .ok x →
      Q x ⟨w.db, (((host.storage a).perform op).run (Bucket.serve now) w.bucket).2⟩) :
    Returns host now (store a op) w Q :=
  returns_of_run (run_store hplain op w) h

theorem returns_write {path key : Str} {data : Bytes} {size : Nat} (hplain : a.Plain)
    (hkey : objectKey a path = .ok key) (hne : key ≠ []) :
    Returns host now (store a (.write path data size)) w fun _ t =>
      t.db = w.db ∧ Written w.bucket t.bucket key data := by
  have hkey' := (hplain.objectKey_storage host path).trans hkey
  apply returns_store hplain
  intro digest hok
  have hwrote := answered now (at_write (b := w.bucket) hkey' hne ⟨[data], none⟩)
  have hperform : (host.storage a).perform (.write path data size) =
      (host.storage a).write path ⟨[data], none⟩ := rfl
  rw [hperform] at hok ⊢
  rw [hok] at hwrote
  have hwritten := hwrote.1.2
  rw [List.flatten_singleton] at hwritten
  exact ⟨rfl, hwritten⟩

theorem returns_rename {oldPath newPath old new : Str} {body : Bytes} (hplain : a.Plain)
    (hold : objectKey a oldPath = .ok old) (hnew : objectKey a newPath = .ok new) (hne : old ≠ [])
    (hbody : w.bucket.content old = some body) :
    Returns host now (store a (.rename oldPath newPath)) w fun _ t => t.db = w.db ∧
      ∀ k, t.bucket.content k = if k = old then none else if k = new then some body
        else w.bucket.content k := by
  have hold' := (hplain.objectKey_storage host oldPath).trans hold
  have hnew' := (hplain.objectKey_storage host newPath).trans hnew
  obtain ⟨o, -, -, hsame, hget⟩ := content_some hbody
  apply returns_store hplain
  intro x hok
  have hrenamed := answered now (at_renameFile hold' hnew' hne hget)
  have hperform : (host.storage a).perform (.rename oldPath newPath) =
      (host.storage a).rename oldPath newPath := rfl
  rw [hperform] at hok ⊢
  rw [hok, hsame] at hrenamed
  exact ⟨rfl, hrenamed⟩

/-- The markers of directories are no files. -/
theorem returns_mkdir {path : Str} (hplain : a.Plain) :
    Returns host now (store a (.mkdir path)) w fun _ t => t.db = w.db ∧ SameFiles w.bucket t.bucket := by
  apply returns_store hplain
  intro x _
  exact ⟨rfl, answered now (at_mkdir w.bucket)⟩

theorem returns_ofExcept (x : Except Exc α) : Returns host now (ofExcept x) w fun v t =>
    x = .ok v ∧ t = w := by
  constructor
  intro v t hrun
  cases hrun
  exact ⟨rfl, rfl⟩

/-! ### Calls that change neither records nor objects -/

/-- The records and the objects are as before. -/
def SameStore (w t : Installation) : Prop := t.bucket = w.bucket ∧ t.db.records = w.db.records

theorem returns_query {f : DbOp α} (h : (f w.db).2.records = w.db.records) :
    Returns host now (db f) w fun _ t => SameStore w t := by
  apply returns_mono (returns_db f)
  intro x t ht
  rw [ht.2]
  exact ⟨rfl, h⟩

theorem returns_links (f : LinkTable → Except Exc (α × LinkTable)) (refused : α) :
    Returns host now (Enqueue.links f refused) w fun _ t => SameStore w t := by
  have hlinks : (onLinks f w.db).2.records = w.db.records := by
    unfold onLinks
    split
    · rfl
    · rfl
  unfold Enqueue.links
  apply returns_catch (returns_query hlinks)
  intro e t ht
  have hsame : SameStore w t := by
    rw [run_db] at ht
    have hstate : _ = t := congrArg Prod.snd ht
    rw [← hstate]
    exact ⟨rfl, hlinks⟩
  split
  · exact returns_done hsame
  · exact returns_raise

theorem returns_and {p : FileM α} {P Q : α → Installation → Prop} (h : Returns host now p w P)
    (h' : Returns host now p w Q) : Returns host now p w fun x t => P x t ∧ Q x t :=
  ⟨fun x t hrun => ⟨h.ends x t hrun, h'.ends x t hrun⟩⟩

/-- A program that keeps the books keeps them in every run. -/
theorem run_keepsBooks {p : FileM α} (hp : KeepsBooks p) :
    SameBooks w.db (p.run (host.serve now) w).2.db := by
  induction p generalizing w with
  | done r => exact ⟨rfl, rfl⟩
  | call c k ih =>
    have hcall : SameBooks w.db (host.serve now c w).2.db := by
      cases c with
      | uuid4 => exact ⟨rfl, rfl⟩
      | db f => exact hp.1 w.db
      | store a op => exact ⟨rfl, rfl⟩
    have hrest : SameBooks (host.serve now c w).2.db ((Prog.call c k).run (host.serve now) w).2.db :=
      ih _ (hp.2 _ fun _ _ => trivial)
    exact ⟨hrest.1.trans hcall.1, hrest.2.trans hcall.2⟩

theorem returns_keepsBooks {p : FileM α} (hp : KeepsBooks p) :
    Returns host now p w fun _ t => SameBooks w.db t.db := by
  constructor
  intro x t hrun
  have hsame : SameBooks w.db (p.run (host.serve now) w).2.db := run_keepsBooks hp
  rw [hrun] at hsame
  exact hsame

theorem returns_uuid4 : Returns host now uuid4 w fun _ t => t = w := by
  constructor
  intro id t hrun
  cases hrun
  rfl

theorem returns_enqueueUpload (q : Enqueue) (record : FileRecord) :
    Returns host now (q.upload record now) w fun _ t => SameStore w t := by
  have hsame : SameStore w w := ⟨rfl, rfl⟩
  unfold Enqueue.upload
  split
  · exact returns_done hsame
  · cases decideRegistrationTarget record q.settings.maxImageBytes with
    | error e =>
      cases e
      case privateIndexRefused => exact returns_done hsame
      all_goals exact returns_raise
    | ok decision =>
      dsimp only
      split
      · exact returns_done hsame
      · apply returns_bind returns_uuid4
        intro id t ht
        subst ht
        apply returns_bind (returns_links _ _)
        exact fun _ _ h => returns_done h

theorem returns_enqueueContentChanged (q : Enqueue) (record : FileRecord) :
    Returns host now (q.contentChanged record now) w fun _ t => SameStore w t := by
  have hsame : SameStore w w := ⟨rfl, rfl⟩
  unfold Enqueue.contentChanged
  split
  · exact returns_done hsame
  · cases decideRegistrationTarget record q.settings.maxImageBytes with
    | error e =>
      cases e
      case privateIndexRefused => exact returns_done hsame
      all_goals exact returns_raise
    | ok decision =>
      dsimp only
      split
      · exact returns_done hsame
      · apply returns_bind (returns_links _ _)
        exact fun _ _ h => returns_done h

end

/-! ### The record of a path -/

theorem filter_id {t : RecordTable} {r : FileRecord} (h : r ∈ t.rows) :
    t.rows.filter (fun x => decide (x.id = r.id)) = [r] := by
  obtain ⟨before, after, hrows⟩ := List.append_of_mem h
  have hids := t.id_unique
  rw [hrows, List.map_append, List.map_cons, List.nodup_append] at hids
  obtain ⟨-, hafter, happart⟩ := hids
  have hbefore : before.filter (fun x => decide (x.id = r.id)) = [] := by
    apply List.filter_eq_nil_iff.2
    intro x hx
    have hne := happart x.id (List.mem_map_of_mem hx) r.id List.mem_cons_self
    simpa using hne
  have hrest : after.filter (fun x => decide (x.id = r.id)) = [] := by
    apply List.filter_eq_nil_iff.2
    intro x hx
    have hne : x.id ≠ r.id := fun heq => (List.nodup_cons.1 hafter).1 (heq ▸ List.mem_map_of_mem hx)
    simpa using hne
  rw [hrows, List.filter_append, hbefore, List.filter_cons, hrest, if_pos (decide_eq_true rfl)]
  rfl

/-- The record that a lookup returns is then the only one of the path. -/
theorem found_alone {d d' : Db} {owner : Option Uuid} {fileSection : FileSection} {path name : Str}
    {r : FileRecord} (h : Found d owner fileSection path name (some r) d') :
    atPath owner fileSection path d'.records.rows = [r] ∧ r.relativePath = path := by
  cases h
  case file hat =>
    refine ⟨hat, ?_⟩
    have hin : r ∈ atPath owner fileSection path d.records.rows := hat ▸ List.mem_singleton_self r
    unfold atPath at hin
    rw [List.mem_filter, Bool.and_eq_true, Bool.and_eq_true] at hin
    exact of_decide_eq_true hin.2.1.2
  case healed r hnone hnamed =>
    refine ⟨?_, rfl⟩
    have haddressed : Addressed d.records.rows owner fileSection path name r := .inr ⟨hnone, hnamed⟩
    obtain ⟨hmem, hscope, hdown⟩ := haddressed.spec
    have hrows : (afterLookup d path r).records.rows =
        RecordTable.updated (fun x => decide (x.id = r.id)) (movedTo path) d.records.rows := rfl
    rw [hrows]
    obtain ⟨there, hthere⟩ : ∃ there : FileRecord → Bool, there = fun r =>
        inScope owner fileSection r && decide (r.relativePath = path) && isDownloadable r := ⟨_, rfl⟩
    have hfree : ∀ x ∈ d.records.rows, there x = false := by
      intro x hx
      have hnot : x ∉ d.records.rows.filter there := by
        rw [hthere]
        show x ∉ atPath owner fileSection path d.records.rows
        rw [hnone]
        exact List.not_mem_nil
      exact Bool.eq_false_iff.2 fun hin => hnot (List.mem_filter.2 ⟨hx, hin⟩)
    have hhere : there (movedTo path r) = true := by
      have hscope' : inScope owner fileSection (movedTo path r) = true := hscope
      have hdown' : isDownloadable (movedTo path r) = true := hdown
      rw [hthere]
      dsimp only
      rw [hscope', hdown']
      simp [movedTo]
    unfold atPath RecordTable.updated
    rw [← hthere, List.filter_map]
    have hmoved : d.records.rows.filter
        (there ∘ fun x => if decide (x.id = r.id) then { movedTo path x with id := x.id } else x) =
        d.records.rows.filter (fun x => decide (x.id = r.id)) := by
      apply List.filter_congr
      intro x hx
      dsimp only [Function.comp]
      by_cases hid : x.id = r.id
      · have hsame : x = r := RecordTable.eq_of_id hx hmem hid
        subst hsame
        rw [if_pos (decide_eq_true rfl), decide_eq_true rfl]
        exact hhere
      · have hother : ¬ decide (x.id = r.id) = true := fun heq => hid (of_decide_eq_true heq)
        rw [if_neg hother, decide_eq_false hid]
        exact hfree x hx
    rw [hmoved, filter_id hmem, List.map_singleton, if_pos (decide_eq_true rfl)]
    rfl

theorem found_addressed {d d' : Db} {owner : Option Uuid} {fileSection : FileSection}
    {path name : Str} {r : FileRecord} (h : Found d owner fileSection path name (some r) d') :
    ∃ r', Addressed d.records.rows owner fileSection path name r' ∧ r.isArchived = r'.isArchived := by
  cases h
  case file hat => exact ⟨r, .inl hat, rfl⟩
  case healed r' hnone hnamed => exact ⟨r', .inr ⟨hnone, hnamed⟩, rfl⟩

theorem found_none {d d' : Db} {owner : Option Uuid} {fileSection : FileSection}
    {path name : Str} (h : Found d owner fileSection path name none d') :
    d' = d ∧ atPath owner fileSection path d.records.rows = [] := by
  cases h
  case nothing hnone _ => exact ⟨rfl, hnone⟩

/-- A new record is the only one of a path that had none. -/
theorem alone_after {rows : List FileRecord} {owner : Option Uuid} {fileSection : FileSection}
    {path : Str} {r : FileRecord} (hnone : atPath owner fileSection path rows = [])
    (hin : inScope owner fileSection r = true) (hpath : r.relativePath = path)
    (hdown : isDownloadable r = true) : atPath owner fileSection path (rows ++ [r]) = [r] := by
  have hrows : rows.filter (fun r => inScope owner fileSection r && decide (r.relativePath = path) &&
      isDownloadable r) = [] := hnone
  unfold atPath
  rw [List.filter_append, hrows, List.filter_singleton, hin, hdown, hpath]
  simp

/-! ### Uploads that return -/

/-- What an upload leaves that returns: one new record, and the data in the object at the key. -/
structure Uploaded (s : FileService) (userId : Uuid) (relative key filename : Str) (data : Bytes)
    (size : Nat) (fileSection : FileSection) (w t : Installation) (r : FileRecord) : Prop where
  rows : t.db.records.rows = w.db.records.rows ++ [r]
  quotas : ∀ u, usageOf s t.db u =
    if u = userId then QuotaRepo.adjust size fileSection (usageOf s w.db u) else usageOf s w.db u
  owner : r.userId = userId
  inSection : r.fileSection = fileSection
  path : r.relativePath = relative
  name : r.originalName = filename
  size : r.sizeBytes = size
  status : r.status = .committed
  hot : r.isArchived = false
  objects : ∀ k, t.bucket.content k = if k = tmpKey s.adapter r.id then none
    else if k = key then some data else w.bucket.content k

section
variable {host : Host} {s : FileService} {userId : Uuid} {now : Time} {w : Installation}
  {path filename relative key : Str} {data : Bytes} {size : Nat} {fileSection : FileSection}

theorem returns_mark {pending : FileRecord} {rows : List FileRecord} {checksum : Digest}
    (hrows : w.db.records.rows = rows ++ [pending]) (hnew : ∀ r ∈ rows, r.id ≠ pending.id) :
    Returns host now
      (db (FileRepo.updateStatus pending.id .committed (some checksum) (some relative) none)) w
      fun found t => found = some (committedRecord pending checksum relative) ∧ t.bucket = w.bucket ∧
        t.db.records.rows = rows ++ [committedRecord pending checksum relative] ∧
        t.db.quotas = w.db.quotas := by
  obtain ⟨hfound, hmarked⟩ := @commit_new w.db rows pending checksum relative hrows hnew
  apply returns_mono (returns_db _)
  intro found t ht
  have hsome := Except.ok.inj (ht.1.symm.trans hfound)
  rw [ht.2]
  exact ⟨hsome, rfl, hmarked, rfl⟩

theorem usageOf_increment (user owner : Uuid) (size : Int) (fileSection : FileSection) (d : Db) :
    usageOf s (QuotaRepo.increment s.queue.settings.defaultUserQuotaBytes user size fileSection d).2 owner =
      if owner = user then QuotaRepo.adjust size fileSection (usageOf s d owner) else usageOf s d owner := by
  unfold usageOf QuotaRepo.increment QuotaRepo.modify
  dsimp only
  by_cases hown : owner = user
  · rw [if_pos hown, hown, AList.lookup_insert]
    rfl
  · rw [if_neg hown, AList.lookup_insert_ne hown]

theorem returns_uploadFile (hplain : s.adapter.Plain) (hroot : s.adapter.diskRelativePrefix ≠ [])
    (hrelative : s.adapter.toDiskRelativePath (joinPath (normalizePath path) filename) = .ok relative)
    (hkey : objectKey s.adapter (joinPath (normalizePath path) filename) = .ok key) :
    Returns host now (s.uploadFile userId path filename data size fileSection now) w fun r t =>
      Uploaded s userId relative key filename data size fileSection w t r := by
  unfold uploadFile toDisk
  dsimp only
  apply returns_bind (returns_ofExcept _)
  intro relative' u hu
  obtain ⟨hrelative', hsame⟩ := hu
  rw [hrelative] at hrelative'
  cases hrelative'
  rw [hsame]
  apply returns_bind returns_uuid4
  intro id u hu
  rw [hu]
  apply returns_bind (returns_db _)
  intro pending u hu
  obtain ⟨hcreated, hu⟩ := hu
  obtain ⟨⟨records, hadd, hdb⟩, -, -, hsize, howner, hsection⟩ := create_ok hcreated
  have hmade : pending.isArchived = false ∧ pending.originalName = filename := by
    unfold FileRepo.create at hcreated
    dsimp only at hcreated
    split at hcreated
    · cases hcreated
      exact ⟨rfl, rfl⟩
    · cases hcreated
  have hrows : u.db.records.rows = w.db.records.rows ++ [pending] := by
    rw [hu, hdb]
    exact (add_spec hadd).1
  have hbucket : u.bucket = w.bucket := by
    rw [hu]
  have hquotas : u.db.quotas = w.db.quotas := by
    rw [hu, hdb]
  have hnew : ∀ r ∈ w.db.records.rows, r.id ≠ pending.id := by
    have hids := u.db.records.id_unique
    rw [hrows, List.map_append, List.nodup_append] at hids
    exact fun r hr => hids.2.2 r.id (List.mem_map_of_mem hr) pending.id (List.mem_singleton_self _)
  apply returns_catch
  · unfold commitUpload toDisk
    have htmp := objectKey_tmp hroot pending.id
    apply returns_bind (returns_write hplain htmp (tmpKey_ne_nil _ _))
    intro checksum v hv
    obtain ⟨hdb', hwritten⟩ := hv
    have hbody : v.bucket.content (tmpKey s.adapter pending.id) = some data := by
      rw [hwritten, if_pos rfl]
    apply returns_bind (returns_rename hplain htmp hkey (tmpKey_ne_nil _ _) hbody)
    intro _ x hx
    obtain ⟨hdb'', hrenamed⟩ := hx
    apply returns_bind (returns_ofExcept _)
    intro relative' y hy
    obtain ⟨hrelative', hsame⟩ := hy
    rw [hrelative] at hrelative'
    cases hrelative'
    have hrows' : y.db.records.rows = w.db.records.rows ++ [pending] := by
      rw [hsame, hdb'', hdb', hrows]
    apply returns_bind (returns_mark hrows' hnew)
    intro found z hz
    obtain ⟨hfound, hbucket', hmarked, hquotas'⟩ := hz
    subst hfound
    dsimp only
    apply returns_bind (returns_and (returns_query rfl) (returns_db _))
    intro _ z' hz'
    obtain ⟨hz', -, hcharged⟩ := hz'
    apply returns_bind (returns_and (returns_enqueueUpload _ _)
      (returns_keepsBooks (keepsBooks_enqueueUpload _ _ _)))
    intro _ t ht
    obtain ⟨ht, -, hbooks⟩ := ht
    apply returns_done
    refine {
      rows := ?_
      quotas := ?_
      owner := howner
      inSection := hsection
      path := rfl
      name := hmade.2
      size := hsize
      status := rfl
      hot := hmade.1
      objects := ?_ }
    · rw [ht.2, hz'.2, hmarked]
    · intro u'
      have hbefore : z.db.quotas = w.db.quotas := by
        rw [hquotas', hsame, hdb'', hdb', hquotas]
      have hadded : usageOf s t.db u' = usageOf s z'.db u' := usageOf_congr hbooks
      rw [hadded, hcharged, usageOf_increment, usageOf_congr hbefore, howner, hsection]
    · intro k
      rw [ht.1, hz'.1, hbucket', hsame, hrenamed k, hwritten k, hbucket]
      show (if k = tmpKey s.adapter pending.id then _ else _) = if k = tmpKey s.adapter pending.id then _ else _
      by_cases hk : k = tmpKey s.adapter pending.id
      · rw [if_pos hk, if_pos hk]
      · rw [if_neg hk, if_neg hk, if_neg hk]
  · intro e t _
    apply returns_bind (returns_deleteIfExists hplain)
    intro _ v _
    apply returns_bind (returns_db _)
    exact fun _ _ _ => returns_raise

/-! ### Overwrites that return -/

/-- One record is at the path, it is not archived, and the data is in the object at the key. -/
def StoredAt (userId : Uuid) (fileSection : FileSection) (relative key : Str)
    (data : Bytes) (w : Installation) : Prop :=
  ∃ r, atPath (lookupOwner userId fileSection) fileSection relative w.db.records.rows = [r] ∧
    r.isArchived = false ∧ w.bucket.content key = some data

theorem inScope_lookupOwner {r : FileRecord} (howner : r.userId = userId)
    (hsection : r.fileSection = fileSection) :
    inScope (lookupOwner userId fileSection) fileSection r = true := by
  unfold inScope lookupOwner
  rw [howner, hsection]
  split
  · simp
  · simp

theorem storedAt_of_uploaded {t : Installation} {r : FileRecord}
    (hnone : atPath (lookupOwner userId fileSection) fileSection relative w.db.records.rows = [])
    (hbeside : key ≠ tmpKey s.adapter r.id)
    (h : Uploaded s userId relative key filename data size fileSection w t r) :
    StoredAt userId fileSection relative key data t := by
  have hdown : isDownloadable r = true := by
    unfold isDownloadable
    rw [h.status]
    rfl
  refine ⟨r, ?_, h.hot, ?_⟩
  · rw [h.rows]
    exact alone_after hnone (inScope_lookupOwner h.owner h.inSection) h.path hdown
  · rw [h.objects, if_neg hbeside, if_pos rfl]

theorem returns_ensureOverwriteQuota {extraBytes : Int} :
    Returns host now (ensureOverwriteQuota s userId extraBytes fileSection) w fun _ t => SameStore w t := by
  unfold ensureOverwriteQuota
  split
  · exact returns_done ⟨rfl, rfl⟩
  · have hquota : (QuotaRepo.getByUserId s.queue.settings.defaultUserQuotaBytes userId w.db).2.records =
        w.db.records := by
      unfold QuotaRepo.getByUserId
      split <;> rfl
    apply returns_bind (returns_query hquota)
    intro usage t ht
    split
    · exact returns_raise
    · split
      · exact returns_raise
      · exact returns_done ht

theorem returns_chargeDelta {delta : Int} :
    Returns host now (chargeDelta s userId delta fileSection) w fun _ t => SameStore w t := by
  unfold chargeDelta
  split
  · apply returns_bind (returns_query rfl)
    exact fun _ _ h => returns_done h
  · split
    · apply returns_bind (returns_query rfl)
      exact fun _ _ h => returns_done h
    · exact returns_done ⟨rfl, rfl⟩

theorem returns_commitOverwrite {existing : FileRecord} {final : Str} (hplain : s.adapter.Plain)
    (hroot : s.adapter.diskRelativePrefix ≠ []) (hkey : objectKey s.adapter final = .ok key)
    (hbeside : ¬ Bucket.Covers key (tmpKey s.adapter existing.id))
    (hat : atPath (lookupOwner userId fileSection) fileSection existing.relativePath
      w.db.records.rows = [existing]) (hhot : existing.isArchived = false) :
    Returns host now (commitOverwrite s userId existing final data size fileSection now) w fun _ t =>
      StoredAt userId fileSection existing.relativePath key data t := by
  have hne := key_ne_nil_of_root hroot hkey
  have htmp := objectKey_tmp hroot existing.id
  unfold commitOverwrite
  apply returns_bind (returns_write hplain htmp (tmpKey_ne_nil _ _))
  intro checksum u hu
  obtain ⟨hdb, hwritten⟩ := hu
  apply returns_bind (returns_deleteIfExists hplain)
  intro _ v hv
  obtain ⟨hdb', hswept⟩ := hv
  have hbody : v.bucket.content (tmpKey s.adapter existing.id) = some data := by
    have hkept : ¬ Under (keyAt s.adapter final) (tmpKey s.adapter existing.id) := by
      rw [keyAt_ok hkey hne]
      intro hunder
      obtain ⟨top, htop, hcovers⟩ := hunder
      cases htop
      exact hbeside hcovers
    rw [hswept.kept _ hkept, hwritten, if_pos rfl]
  apply returns_bind (returns_rename hplain htmp hkey (tmpKey_ne_nil _ _) hbody)
  intro _ x hx
  obtain ⟨hdb'', hrenamed⟩ := hx
  have hrecords : x.db = w.db := by
    rw [hdb'', hdb', hdb]
  have hfound : (FileRepo.getDownloadable (lookupOwner userId fileSection) existing.relativePath
      fileSection w.db).1 = .ok (some existing) := by
    show scalarOneOrNone (atPath _ _ _ _) = _
    rw [hat]
    rfl
  apply returns_bind (returns_db _)
  intro updated y hy
  obtain ⟨-, hy⟩ := hy
  have hresized : y.db.records = (FileRepo.updateSize existing.id size (some checksum) w.db).2.records := by
    rw [hy, hrecords]
  obtain ⟨hfound', -⟩ := found_resized hfound hresized
  have hat' : atPath (lookupOwner userId fileSection) fileSection existing.relativePath
      y.db.records.rows = [resized existing size checksum] := scalarOneOrNone_some hfound'
  cases updated with
  | none => exact returns_raise
  | some updated =>
    dsimp only
    apply returns_bind returns_chargeDelta
    intro _ z hz
    apply returns_bind (returns_enqueueContentChanged _ _)
    intro _ t ht
    apply returns_done
    refine ⟨resized existing size checksum, ?_, hhot, ?_⟩
    · rw [ht.2, hz.2]
      exact hat'
    · have hother : key ≠ tmpKey s.adapter existing.id := fun heq => hbeside (.inl heq.symm)
      rw [ht.1, hz.1, hy]
      dsimp only
      rw [hrenamed, if_neg hother, if_pos rfl]

/-- An overwrite that returns has stored the data, unless the record it found is archived. -/
theorem returns_overwriteFile (hplain : s.adapter.Plain) (hroot : s.adapter.diskRelativePrefix ≠ [])
    (hname : FileName filename)
    (hrelative : s.adapter.toDiskRelativePath (joinPath (normalizePath path) filename) = .ok relative)
    (hkey : objectKey s.adapter (joinPath (normalizePath path) filename) = .ok key)
    (hhot : ∀ r, Addressed w.db.records.rows (lookupOwner userId fileSection) fileSection relative
      (Text.name (joinPath (normalizePath path) filename)) r → r.isArchived = false) :
    Returns host now (s.overwriteFile userId path filename data size fileSection now) w fun _ t =>
      StoredAt userId fileSection relative key data t := by
  have hslash := Rename.key_not_slash ((hplain.objectKey_storage host _).trans hkey)
  have hbeside : ∀ id, ¬ Bucket.Covers key (tmpKey s.adapter id) := tmp_beside hroot hname hkey hslash
  unfold overwriteFile
  dsimp only
  apply returns_bind (returns_lookup hrelative)
  intro found u hu
  obtain ⟨hbucket, hfound⟩ := hu
  cases found with
  | none =>
    dsimp only
    obtain ⟨hsame, hempty⟩ := found_none hfound
    have hnone : atPath (lookupOwner userId fileSection) fileSection relative u.db.records.rows = [] := by
      rw [hsame]
      exact hempty
    apply returns_mono (returns_uploadFile hplain hroot hrelative hkey)
    intro r t h
    exact storedAt_of_uploaded hnone (fun heq => hbeside r.id (.inl heq.symm)) h
  | some existing =>
    dsimp only
    obtain ⟨hat, hpath⟩ := found_alone hfound
    obtain ⟨r, haddressed, hflag⟩ := found_addressed hfound
    have hwarm : existing.isArchived = false := hflag.trans (hhot r haddressed)
    apply returns_bind returns_ensureOverwriteQuota
    intro _ v hv
    apply returns_catch
    · rw [← hpath] at hat ⊢
      rw [← hv.2] at hat
      exact returns_commitOverwrite hplain hroot hkey (hbeside existing.id) hat hwarm
    · intro e t _
      apply returns_bind (returns_deleteIfExists hplain)
      exact fun _ _ _ => returns_raise

variable (host now) in
/-- What has been stored is there and reads as the data. -/
theorem reads_stored (hplain : s.adapter.Plain) (hroot : s.adapter.diskRelativePrefix ≠ [])
    (hrelative : s.adapter.toDiskRelativePath (normalizePath path) = .ok relative)
    (hkey : objectKey s.adapter (normalizePath path) = .ok key)
    (h : StoredAt userId s.fileSection relative key data w) :
    w.bucket.occupied key = true ∧ reads host s userId now w path = .ok data := by
  obtain ⟨r, hat, hhot, hcontent⟩ := h
  have hpath : r.relativePath = relative := (@found_alone _ _ _ _ _ [] _ (.file r hat)).2
  have hfound : (FileRepo.getDownloadable (lookupOwner userId s.fileSection) r.relativePath
      s.fileSection w.db).1 = .ok (some r) := by
    rw [hpath]
    show scalarOneOrNone (atPath _ _ _ _) = _
    rw [hat]
    rfl
  constructor
  · obtain ⟨o, hmem, hsame, -, -⟩ := content_some hcontent
    exact Bucket.occupied_iff.2 ⟨o, hmem, .inl hsame⟩
  · rw [← hpath] at hrelative
    exact (reads_hot hplain hroot hrelative hkey hfound hhot).2 hcontent

/-- The record that a lookup of the path finds is not archived. -/
def HotAt (s : FileService) (userId : Uuid) (path : Str) (d : Db) : Prop :=
  ∀ relative r, s.adapter.toDiskRelativePath path = .ok relative →
    Addressed d.records.rows (lookupOwner userId s.fileSection) s.fileSection relative (Text.name path) r →
    r.isArchived = false

/-- The file at the path has been stored with the data. -/
def Stored (s : FileService) (userId : Uuid) (path : Str) (data : Bytes) (w : Installation) : Prop :=
  ∃ relative key, s.adapter.toDiskRelativePath path = .ok relative ∧ objectKey s.adapter path = .ok key ∧
    StoredAt userId s.fileSection relative key data w

theorem returns_lookup_error {e : Exc} (h : s.adapter.toDiskRelativePath path = .error e) :
    Returns host now (getRecordBySectionPath s userId path fileSection) w fun _ _ => False := by
  unfold getRecordBySectionPath toDisk
  apply returns_bind (returns_ofExcept _)
  intro relative t ht
  rw [h] at ht
  cases ht.1

theorem returns_overwrite (hplain : s.adapter.Plain) (hroot : s.adapter.diskRelativePrefix ≠ [])
    (hname : FileName filename)
    (hhot : HotAt s userId (joinPath (normalizePath path) filename) w.db) :
    Returns host now (s.overwriteFile userId path filename data size s.fileSection now) w fun _ t =>
      Stored s userId (joinPath (normalizePath path) filename) data t := by
  cases hrelative : s.adapter.toDiskRelativePath (joinPath (normalizePath path) filename) with
  | error e =>
    unfold overwriteFile
    dsimp only
    apply returns_bind (returns_lookup_error hrelative)
    exact fun _ _ h => h.elim
  | ok relative =>
    obtain ⟨key, hkey⟩ := key_of_toDisk hrelative
    apply returns_mono (returns_overwriteFile hplain hroot hname hrelative hkey
      fun r hr => hhot relative r hrelative hr)
    exact fun _ t h => ⟨relative, key, hrelative, hkey, h⟩

theorem hotAt_stored (h : Stored s userId path data w) : HotAt s userId path w.db := by
  obtain ⟨relative, key, hrelative, -, r, hat, hhot, -⟩ := h
  intro relative' r' hrelative' haddressed
  rw [hrelative] at hrelative'
  cases hrelative'
  have hsame : r = r' := (Addressed.unique (.inl hat) haddressed)
  rw [← hsame]
  exact hhot

variable (host now) in
theorem stored_read (hplain : s.adapter.Plain) (hroot : s.adapter.diskRelativePrefix ≠ [])
    (h : Stored s userId (normalizePath path) data w) :
    (s.pathExists path).run (host.serve now) w = (.ok true, w) ∧
      reads host s userId now w path = .ok data := by
  obtain ⟨relative, key, hrelative, hkey, hstored⟩ := h
  obtain ⟨hoccupied, hreads⟩ := reads_stored host now hplain hroot hrelative hkey hstored
  refine ⟨?_, hreads⟩
  unfold pathExists
  rw [run_exists hplain hkey, hoccupied]

/-- The directory of a stored file exists. -/
theorem stored_directory {dir name : Str} (hplain : s.adapter.Plain)
    (hroot : s.adapter.diskRelativePrefix ≠ []) (hname : CleanName name) (hvisible : EndsVisibly dir)
    (h : Stored s userId (joinPath dir name) data w) :
    (store s.adapter (.exists dir)).run (host.serve now) w = (.ok true, w) := by
  obtain ⟨relative, key, -, hkey, r, -, -, hcontent⟩ := h
  obtain ⟨parent, hparent, hform⟩ := objectKey_joinPath hroot hname hvisible hkey
  have hslash := Rename.key_not_slash ((hplain.objectKey_storage host _).trans hparent)
  have hne := key_ne_nil_of_root hroot hparent
  have hbelow : Bucket.Covers parent key := by
    right
    rw [Rename.asDir_of hne hslash, hform]
    exact ⟨name, by simp⟩
  obtain ⟨o, hmem, hsame, -, -⟩ := content_some hcontent
  have hoccupied : w.bucket.occupied parent = true :=
    Bucket.occupied_iff.2 ⟨o, hmem, by rw [hsame]; exact hbelow⟩
  rw [run_exists hplain hparent, hoccupied]

/-! ### Reading keeps what is stored -/

theorem storedAt_touched (id : Uuid) (h : StoredAt userId fileSection relative key data w) :
    StoredAt userId fileSection relative key data ⟨(FileRepo.touchLastAccessed id now w.db).2, w.bucket⟩ := by
  obtain ⟨r, hat, hhot, hcontent⟩ := h
  obtain ⟨touch, htouch⟩ : ∃ touch : FileRecord → FileRecord, touch = fun r =>
      if decide (r.id = id) then { r with lastAccessedAt := now, id := r.id } else r := ⟨_, rfl⟩
  obtain ⟨there, hthere⟩ : ∃ there : FileRecord → Bool, there = fun r =>
      inScope (lookupOwner userId fileSection) fileSection r && decide (r.relativePath = relative) &&
        isDownloadable r := ⟨_, rfl⟩
  have hsame : ∀ x, there (touch x) = there x ∧ (touch x).isArchived = x.isArchived := by
    intro x
    rw [hthere, htouch]
    dsimp only
    split
    · exact ⟨rfl, rfl⟩
    · exact ⟨rfl, rfl⟩
  have hrows : w.db.records.rows.filter there = [r] := by
    rw [hthere]
    exact hat
  refine ⟨touch r, ?_, (hsame r).2.trans hhot, hcontent⟩
  have hmap : (FileRepo.touchLastAccessed id now w.db).2.records.rows = w.db.records.rows.map touch := by
    rw [htouch]
    rfl
  unfold atPath
  rw [hmap, ← hthere, List.filter_map]
  have hfilter : w.db.records.rows.filter (there ∘ touch) = w.db.records.rows.filter there :=
    List.filter_congr fun x _ => (hsame x).1
  rw [hfilter, hrows]
  rfl

theorem found_stored (h : StoredAt userId s.fileSection relative key data w) :
    ∃ r, (FileRepo.getDownloadable (lookupOwner userId s.fileSection) relative s.fileSection w.db).1 =
      .ok (some r) ∧ r.isArchived = false ∧ w.bucket.content key = some data := by
  obtain ⟨r, hat, hhot, hcontent⟩ := h
  refine ⟨r, ?_, hhot, hcontent⟩
  show scalarOneOrNone (atPath _ _ _ _) = _
  rw [hat]
  rfl

variable (host now) in
/-- A stored file is read, and whatever is stored stays so. -/
theorem run_read_stored (hplain : s.adapter.Plain) (hroot : s.adapter.diskRelativePrefix ≠ [])
    (h : Stored s userId (normalizePath path) data w) :
    ∃ t, (s.readByPath userId path now).run (host.serve now) w = (.ok data, t) ∧
      ∀ userId' path' data', Stored s userId' path' data' w → Stored s userId' path' data' t := by
  obtain ⟨relative, key, hrelative, hkey, hstored⟩ := h
  obtain ⟨r, hfound, hhot, hcontent⟩ := found_stored hstored
  have hlookup : (recordToRead s userId (normalizePath path)).run (host.serve now) w =
      (.ok (some r), w) := by
    unfold recordToRead
    rw [bind_eq, run_bind_ok (run_lookup_found hrelative hfound)]
    rfl
  have hread : (readRecord s r (normalizePath path)).run (host.serve now) w = (.ok data, w) := by
    unfold readRecord
    rw [hhot, if_neg Bool.false_ne_true]
    exact run_read_some hplain hkey (key_ne_nil_of_root hroot hkey) hcontent
  refine ⟨⟨(FileRepo.touchLastAccessed r.id now w.db).2, w.bucket⟩, ?_, ?_⟩
  · unfold readByPath
    dsimp only
    rw [bind_eq, run_bind_ok hlookup]
    dsimp only
    rw [bind_eq, run_bind_ok hread]
    rfl
  · rintro userId' path' data' ⟨relative', key', hrelative', hkey', hstored'⟩
    exact ⟨relative', key', hrelative', hkey', storedAt_touched r.id hstored'⟩

variable (host now) in
/-- A stored file can be downloaded. -/
theorem run_readable_stored (hplain : s.adapter.Plain) (h : Stored s userId (normalizePath path) data w) :
    (s.readableObjectExists userId path).run (host.serve now) w = (.ok true, w) := by
  obtain ⟨relative, key, hrelative, hkey, hstored⟩ := h
  obtain ⟨r, hfound, hhot, hcontent⟩ := found_stored hstored
  obtain ⟨o, hmem, hsame, -, -⟩ := content_some hcontent
  have hoccupied : w.bucket.occupied key = true := Bucket.occupied_iff.2 ⟨o, hmem, .inl hsame⟩
  have hnot : ¬ (r.isArchived = true ∧ r.archivePath.any (· ≠ []) = true) := by
    rw [hhot]
    exact fun hboth => Bool.false_ne_true hboth.1
  unfold readableObjectExists
  dsimp only
  rw [bind_eq, run_bind_ok (run_lookup_found hrelative hfound)]
  dsimp only
  rw [if_neg hnot, run_exists hplain hkey, hoccupied]

end

/-! ### Services over the file service -/

/-- `uuid4().hex`. -/
structure UuidHex where
  text : Str
  digits : text.length = 32 ∧ text.all fun c => "0123456789abcdef".toList.contains c

/-- A result of a validator or a parser within a request. -/
def orFail {ε α β : Type} (x : Except ε α) (f : α → FileM (Except ε β)) : FileM (Except ε β) :=
  match x with
  | .error e => pure (.error e)
  | .ok a => f a

theorem returns_orFail {ε α β : Type} {host : Host} {now : Time} {w : Installation} {x : Except ε α}
    {f : α → FileM (Except ε β)}
    {Q : Except ε β → Installation → Prop} (herror : ∀ e, x = .error e → Q (.error e) w)
    (hok : ∀ a, x = .ok a → Returns host now (f a) w Q) : Returns host now (orFail x f) w Q := by
  unfold orFail
  cases x with
  | error e => exact returns_done (herror e rfl)
  | ok a => exact hok a rfl

end WebStorage
