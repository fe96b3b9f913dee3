import WebStorage.S3Storage

set_option autoImplicit false

/-! The keys of an S3 adapter: whatever the paths are, every key and prefix it names is its root or
under its root, and comes from the path in one way. -/
namespace WebStorage.S3
open Effect

/-- The key is the root, or under it. -/
def Within (root key : Str) : Prop := key = root ∨ root ++ ['/'] <+: key

/-- The root is a path prefix of the other one. -/
def PathPrefix (root root' : Str) : Prop := Within root root'

/-! ### Keys -/

/-- A normalised path has no empty segment, no `.` and no `..`. -/
theorem safeLogicalKey_segments {path logical : Str} (h : safeLogicalKey path = .ok logical) :
    logical = [] ∨ ∀ w ∈ Text.split logical, w ≠ [] ∧ w ≠ ".".toList ∧ w ≠ "..".toList := by
  unfold safeLogicalKey at h
  dsimp only at h
  split at h
  · cases h
  · rename_i hdots
    cases h
    generalize hs : (Text.slashes (Text.strip path)).dropWhile (fun c => decide (c = '/')) = s at *
    by_cases hnone : Text.components s = []
    · left
      rw [hnone]
      rfl
    · right
      have hparts : ∀ w ∈ Text.components s, '/' ∉ w := fun w hw =>
        Text.slash_not_mem_of_split (List.mem_filter.1 hw).1
      rw [Text.split_join hnone hparts]
      intro w hw
      have hkept := (List.mem_filter.1 hw).2
      simp only [bne_iff_ne, Bool.and_eq_true] at hkept
      refine ⟨hkept.1, hkept.2, fun heq => hdots ?_⟩
      rw [← heq]
      exact hw

theorem not_suffix_of_safe {path logical : Str} (h : safeLogicalKey path = .ok logical) :
    ¬ ['/'] <:+ logical := by
  rintro ⟨front, hfront⟩
  rcases safeLogicalKey_segments h with hnone | hsegments
  · rw [hnone] at hfront
    simp at hfront
  · -- a last slash leaves an empty last segment
    have hmem : [] ∈ Text.split logical := by
      rw [← hfront, Text.split_append_slash]
      exact List.mem_append_right _ (List.mem_singleton_self _)
    exact (hsegments [] hmem).1 rfl

section
variable {s : S3StorageAdapter} {path key : Str}

theorem objectKey_root (hroot : s.rootPrefix ≠ []) : objectKey s.adapter path =
    (safeLogicalKey path).map fun logical =>
      if logical = [] then s.rootPrefix else s.rootPrefix ++ '/' :: logical := by
  have hroot_eq : s.adapter.diskRelativePrefix = s.rootPrefix := rfl
  unfold objectKey
  simp only [hroot_eq, if_neg hroot]
  cases hlogical : safeLogicalKey path with
  | error e => rfl
  | ok logical =>
    dsimp only [bind, Except.bind, pure, Except.pure, Except.map]

/-- `to_disk_relative_path` is the key of the operations. -/
theorem toDisk_eq_objectKey (hroot : s.rootPrefix ≠ []) (path : Str) :
    s.adapter.toDiskRelativePath path = objectKey s.adapter path := by
  rw [objectKey_root hroot]
  unfold Adapter.toDiskRelativePath
  cases hlogical : safeLogicalKey path with
  | error e => rfl
  | ok logical =>
    dsimp only [bind, Except.bind, pure, Except.pure, Except.map]
    split <;> rfl

theorem objectKey_within (hroot : s.rootPrefix ≠ []) (h : objectKey s.adapter path = .ok key) :
    Within s.rootPrefix key := by
  rw [objectKey_root hroot] at h
  cases hlogical : safeLogicalKey path with
  | error e =>
    rw [hlogical] at h
    cases h
  | ok logical =>
    rw [hlogical] at h
    have hkey := Except.ok.inj h
    dsimp only at hkey
    split at hkey
    · exact .inl hkey.symm
    · right
      rw [← hkey]
      exact ⟨logical, by simp⟩

/-- The directory of a key within the root is under the root. -/
theorem asDir_under (hroot : s.rootPrefix ≠ []) (h : Within s.rootPrefix key) :
    s.rootPrefix ++ ['/'] <+: asDir key := by
  have hself : key <+: asDir key := by
    unfold asDir
    split
    · exact List.prefix_refl key
    · exact List.prefix_append key _
  rcases h with hroot' | hunder
  · rw [hroot', asDir, if_neg]
    rintro (hnone | hslash)
    · exact hroot hnone
    · exact s.root_stripped hslash
  · exact hunder.trans hself

/-- Nothing is within two roots of which neither is a path prefix of the other. -/
theorem pathPrefix_of_within {root root' k : Str} (h : Within root k) (h' : Within root' k) :
    PathPrefix root root' ∨ PathPrefix root' root := by
  have hlift : ∀ {a b : Str}, a ++ ['/'] <+: k → b ++ ['/'] <+: k → a.length ≤ b.length →
      PathPrefix a b := by
    intro a b ha hb hlen
    have hab : a ++ ['/'] <+: b ++ ['/'] := by
      apply List.prefix_of_prefix_length_le ha hb
      simp only [List.length_append, List.length_singleton]
      omega
    rcases Nat.lt_or_ge a.length b.length with hlt | hge
    · right
      apply List.prefix_of_prefix_length_le hab (List.prefix_append b _)
      simp only [List.length_append, List.length_singleton]
      omega
    · left
      have heq := hab.eq_of_length (by simp only [List.length_append]; omega)
      exact (List.append_cancel_right heq).symm
  rcases h with hk | hk
  · right
    rcases h' with hk' | hk'
    · exact .inl (hk.symm.trans hk')
    · exact .inr (hk ▸ hk')
  · rcases h' with hk' | hk'
    · exact .inl (.inr (hk' ▸ hk))
    · rcases Nat.le_total root.length root'.length with hle | hle
      · exact .inl (hlift hk hk' hle)
      · exact .inr (hlift hk' hk hle)

end

/-! ### What the operations name -/

open Effect.Prog

/-- The key of a path, or a key under its directory. -/
def AtOrUnder (a : Adapter) (path k : Str) : Prop :=
  ∃ key, objectKey a path = .ok key ∧ (k = key ∨ asDir key <+: k)

/-- The keys and prefixes that an operation may name. -/
def Addresses (s : S3StorageAdapter) : StoreOp → Str → Prop
  | .read path, k => objectKey s.adapter path = .ok k
  | .write path _ _, k => objectKey s.adapter path = .ok k
  | .getSize path, k => objectKey s.adapter path = .ok k
  | .exists path, k => AtOrUnder s.adapter path k
  | .delete path, k => AtOrUnder s.adapter path k
  | .list path, k => AtOrUnder s.adapter path k
  | .rename oldPath newPath, k => AtOrUnder s.adapter oldPath k ∨ AtOrUnder s.adapter newPath k
  | .mkdir _, k => ∃ path key, objectKey s.adapter path = .ok key ∧ k = asDir key
  | .listStaleTmpEntryPaths _, k => k = if s.rootPrefix = [] then [] else s.rootPrefix ++ ['/']

/-- Every key of the command satisfies `K`. -/
def Names (K : Str → Prop) (c : S3Cmd) : Prop := ∀ k ∈ c.keys, K k

abbrev AllNames {α : Type} (K : Str → Prop) (p : S3M α) : Prop := p.All (Names K) Listed

section
variable {α β : Type} {K : Str → Prop} {s : S3StorageAdapter} {key path : Str}

theorem names_one {c : S3Cmd} (hc : c.keys = [key]) (h : K key) : Names K c := by
  intro k hk
  rw [hc, List.mem_singleton] at hk
  rw [hk]
  exact h

theorem names_two {c : S3Cmd} {other : Str} (hc : c.keys = [key, other]) (h : K key)
    (h' : K other) : Names K c := by
  intro k hk
  rw [hc] at hk
  rcases List.mem_cons.1 hk with hk | hk
  · rw [hk]
    exact h
  · rw [List.mem_singleton.1 hk]
    exact h'

theorem names_send {c : S3Cmd} (hc : Names K c) : AllNames K (send c) := ⟨hc, fun _ _ => all_done _⟩

theorem names_orNotFound {p : S3M α} (hp : AllNames K p) :
    AllNames K (S3StorageAdapter.orNotFound p) := by
  apply all_catchWith hp
  intro e
  split <;> trivial

theorem names_headExists (h : K key) : AllNames K (S3StorageAdapter.headExists key) := by
  unfold S3StorageAdapter.headExists
  split
  · trivial
  · apply all_catchWith
    · exact all_bind (names_send (names_one rfl h)) fun _ => all_done _
    · intro e
      split <;> trivial

theorem key_bind {f : Str → S3M α}
    (hf : ∀ key, objectKey s.adapter path = .ok key → AllNames K (f key)) :
    AllNames K ((s.key path).bind f) := all_done_bind hf

theorem listPrefix_bind {f : Str → S3M α}
    (hf : ∀ key, objectKey s.adapter path = .ok key → AllNames K (f (asDir key))) :
    AllNames K ((s.listPrefix path).bind f) := by
  unfold S3StorageAdapter.listPrefix S3StorageAdapter.key
  cases hkey : objectKey s.adapter path with
  | error e => trivial
  | ok key => exact hf key hkey

/-- The entries of a listing are under its prefix. -/
theorem list_bind {keyPrefix : Str} {delimited : Bool} {maxKeys : Option Nat} {f : Listing → S3M α}
    (h : K keyPrefix)
    (hf : ∀ listing : Listing, (∀ e ∈ listing.contents, keyPrefix <+: e.key) → AllNames K (f listing)) :
    AllNames K ((send (.listObjects keyPrefix delimited maxKeys)).bind f) :=
  all_issue_bind (names_one rfl h) hf

theorem names_existsPrefixOrMarker (h : ∀ key, objectKey s.adapter path = .ok key → K (asDir key)) :
    AllNames K (s.existsPrefixOrMarker path) := by
  apply listPrefix_bind
  intro key hkey
  apply all_bind (names_headExists (h key hkey))
  intro present
  split
  · trivial
  · exact list_bind (h key hkey) fun listing _ => all_done _

theorem names_exists (h : ∀ k, AtOrUnder s.adapter path k → K k) : AllNames K (s.exists path) := by
  apply key_bind
  intro key hkey
  apply all_bind (names_headExists (h key ⟨key, hkey, .inl rfl⟩))
  intro present
  split
  · trivial
  · apply names_existsPrefixOrMarker
    intro key hkey
    exact h _ ⟨key, hkey, .inr (List.prefix_refl _)⟩

theorem names_list (h : ∀ k, AtOrUnder s.adapter path k → K k) : AllNames K (s.list path) := by
  have hdir : ∀ key, objectKey s.adapter path = .ok key → K (asDir key) :=
    fun key hkey => h _ ⟨key, hkey, .inr (List.prefix_refl _)⟩
  apply listPrefix_bind
  intro key hkey
  apply all_bind
  · unfold S3StorageAdapter.directoryFound
    split
    · trivial
    · exact names_existsPrefixOrMarker hdir
  · intro known
    split
    · exact list_bind (hdir key hkey) fun listing _ => all_done _
    · trivial

theorem names_read (h : ∀ key, objectKey s.adapter path = .ok key → K key) :
    AllNames K (s.read path) := by
  apply key_bind
  intro key hkey
  split
  · trivial
  · exact names_orNotFound (names_send (names_one rfl (h key hkey)))

theorem names_getSize (h : ∀ key, objectKey s.adapter path = .ok key → K key) :
    AllNames K (s.getSize path) := by
  apply key_bind
  intro key hkey
  split
  · trivial
  · exact names_orNotFound (names_send (names_one rfl (h key hkey)))

theorem names_abortMultipart {uploadId : Str} (h : K key) :
    AllNames K (S3StorageAdapter.abortMultipart key uploadId) :=
  all_catchWith (names_send (names_one rfl h)) fun _ => all_done _

theorem names_uploadFullParts {uploadId : Str} (h : K key) (partNumber : Nat)
    (parts : List (Nat × Str)) (buffer : Bytes) :
    AllNames K (S3StorageAdapter.uploadFullParts key uploadId partNumber parts buffer) := by
  fun_induction S3StorageAdapter.uploadFullParts key uploadId partNumber parts buffer with
  | case1 partNumber parts buffer hfull ih =>
    exact all_bind (names_send (names_one rfl h)) ih
  | case2 => trivial

theorem names_uploadChunks {uploadId : Str} {failure : Option Exc} (h : K key) (chunks : List Bytes)
    (partNumber : Nat) (parts : List (Nat × Str)) (buffer : Bytes) : AllNames K
      (S3StorageAdapter.uploadChunks key uploadId failure chunks partNumber parts buffer) := by
  induction chunks generalizing partNumber parts buffer with
  | nil =>
    unfold S3StorageAdapter.uploadChunks S3StorageAdapter.completeMultipart
    split
    · trivial
    split
    · exact names_send (names_one rfl h)
    · apply all_bind (names_send (names_one rfl h))
      intro tag
      exact names_send (names_one rfl h)
  | cons chunk chunks ih =>
    exact all_bind (names_uploadFullParts h _ _ _) fun st => ih _ _ _

theorem names_writeChunks {failure : Option Exc} (h : K key) (chunks : List Bytes)
    (buffer : Bytes) : AllNames K (S3StorageAdapter.writeChunks key failure chunks buffer) := by
  induction chunks generalizing buffer with
  | nil =>
    unfold S3StorageAdapter.writeChunks
    split
    · trivial
    · exact names_send (names_one rfl h)
  | cons chunk chunks ih =>
    unfold S3StorageAdapter.writeChunks
    split
    · apply all_bind (names_send (names_one rfl h))
      intro uploadId
      apply all_catchWith
      · exact all_bind (names_uploadFullParts h _ _ _) fun st => names_uploadChunks h _ _ _ _
      · intro e
        split
        · trivial
        · exact all_bind (names_abortMultipart h) fun _ => all_done _
    · exact ih _

theorem names_write {data : ByteStream} (h : ∀ key, objectKey s.adapter path = .ok key → K key) :
    AllNames K (s.write path data) := by
  apply key_bind
  intro key hkey
  split
  · trivial
  · exact all_bind (names_writeChunks (h key hkey) _ _) fun _ => all_done _

theorem names_copyObject {source dest : Str} (h : K source) (h' : K dest) :
    AllNames K (S3StorageAdapter.copyObject source dest) := by
  apply all_bind (names_orNotFound (names_send (names_one rfl h)))
  intro size
  split
  · exact names_send (names_two rfl h h')
  · apply all_bind (names_send (names_one rfl h'))
    intro uploadId
    have hparts : ∀ offsets partNumber parts, AllNames K
        (S3StorageAdapter.copyParts source dest uploadId size offsets partNumber parts) := by
      intro offsets
      induction offsets with
      | nil => exact fun _ _ => names_send (names_one rfl h')
      | cons offset rest ih =>
        intro partNumber parts
        exact all_bind (names_send (names_two rfl h' h)) fun tag => ih _ _
    apply all_catchWith (hparts _ _ _)
    intro e
    exact all_bind (names_abortMultipart h') fun _ => all_done _

theorem mem_batches {keys batch : List Str} (h : batch ∈ S3StorageAdapter.batches keys) {k : Str}
    (hk : k ∈ batch) : k ∈ keys := by
  obtain ⟨i, -, rfl⟩ := List.mem_map.1 h
  exact List.mem_of_mem_drop (List.mem_of_mem_take hk)

theorem names_deleteBatches {keys : List Str} (h : ∀ k ∈ keys, K k) :
    AllNames K (S3StorageAdapter.deleteBatches (S3StorageAdapter.batches keys)) := by
  have hall : ∀ parts : List (List Str), (∀ batch ∈ parts, ∀ k ∈ batch, K k) →
      AllNames K (S3StorageAdapter.deleteBatches parts) := by
    intro parts
    induction parts with
    | nil => exact fun _ => trivial
    | cons batch rest ih =>
      intro hparts
      apply all_bind (names_send (c := .deleteObjects batch) (hparts batch List.mem_cons_self))
      intro _
      exact ih fun b hb => hparts b (List.mem_cons_of_mem _ hb)
  exact hall _ fun batch hbatch k hk => h k (mem_batches hbatch hk)

theorem names_delete (h : ∀ k, AtOrUnder s.adapter path k → K k) : AllNames K (s.delete path) := by
  apply all_done_bind
  intro logical _
  split
  · trivial
  apply key_bind
  intro key hkey
  apply listPrefix_bind
  intro key' hkey'
  apply all_bind (names_headExists (h key ⟨key, hkey, .inl rfl⟩))
  intro present
  apply list_bind (h _ ⟨key', hkey', .inr (List.prefix_refl _)⟩)
  intro listing hlisting
  have hkeys : ∀ k ∈ dictFromKeys ((if present then [key] else []) ++
      listing.contents.map (·.key)), K k := by
    intro k hk
    rcases List.mem_append.1 (mem_dictFromKeys.1 hk) with hk | hk
    · -- the object itself, if it is there
      split at hk
      · rw [List.mem_singleton.1 hk]
        exact h key ⟨key, hkey, .inl rfl⟩
      · exact absurd hk List.not_mem_nil
    · obtain ⟨e, he, rfl⟩ := List.mem_map.1 hk
      exact h _ ⟨key', hkey', .inr (hlisting e he)⟩
  dsimp only
  generalize dictFromKeys ((if present then [key] else []) ++ listing.contents.map (·.key)) =
    uniqueKeys at hkeys
  split
  · trivial
  · exact names_deleteBatches hkeys

theorem names_rename {newPath : Str} (h : ∀ k, AtOrUnder s.adapter path k → K k)
    (h' : ∀ k, AtOrUnder s.adapter newPath k → K k) : AllNames K (s.rename path newPath) := by
  apply key_bind
  intro oldKey hold
  apply key_bind
  intro newKey hnew
  apply listPrefix_bind
  intro oldKey' hold'
  apply listPrefix_bind
  intro newKey' hnew'
  have hfrom : K oldKey := h oldKey ⟨oldKey, hold, .inl rfl⟩
  apply all_bind (names_headExists hfrom)
  intro present
  split
  · apply all_bind (names_copyObject hfrom (h' newKey ⟨newKey, hnew, .inl rfl⟩))
    intro _
    exact names_send (names_one rfl hfrom)
  · apply list_bind (h _ ⟨oldKey', hold', .inr (List.prefix_refl _)⟩)
    intro listing hlisting
    have hsources : ∀ k ∈ listing.contents.map (·.key), K k := by
      intro k hk
      obtain ⟨e, he, rfl⟩ := List.mem_map.1 hk
      exact h _ ⟨oldKey', hold', .inr (hlisting e he)⟩
    dsimp only
    split
    · trivial
    · apply all_bind
      · generalize listing.contents.map (·.key) = sources at hsources
        induction sources with
        | nil => trivial
        | cons source rest ih =>
          apply all_bind
          · apply names_copyObject (hsources source List.mem_cons_self)
            exact h' _ ⟨newKey', hnew', .inr (List.prefix_append _ _)⟩
          · intro _
            exact ih fun k hk => hsources k (List.mem_cons_of_mem _ hk)
      · intro _
        exact names_deleteBatches hsources

theorem names_mkdir (h : ∀ partialPath key, objectKey s.adapter partialPath = .ok key → K (asDir key)) :
    AllNames K (s.mkdir path) := by
  have hall : ∀ paths, AllNames K (s.makeMarkers paths) := by
    intro paths
    induction paths with
    | nil => trivial
    | cons partialPath rest ih =>
      apply listPrefix_bind
      intro key hkey
      exact all_bind (names_send (names_one rfl (h partialPath key hkey))) fun _ => ih
  apply all_done_bind
  intro logical _
  split
  · trivial
  · exact hall _

/-- Every operation names what its paths address. -/
theorem names_perform (s : S3StorageAdapter) (op : StoreOp) :
    AllNames (Addresses s op) (s.perform op) := by
  cases op with
  | «exists» path => exact names_exists fun k hk => hk
  | read path => exact names_read fun key hkey => hkey
  | write path data size => exact names_write fun key hkey => hkey
  | delete path => exact names_delete fun k hk => hk
  | mkdir path => exact names_mkdir fun partialPath key hkey => ⟨partialPath, key, hkey, rfl⟩
  | rename oldPath newPath => exact names_rename (fun k hk => .inl hk) fun k hk => .inr hk
  | list path => exact names_list fun k hk => hk
  | getSize path => exact names_getSize fun key hkey => hkey
  | listStaleTmpEntryPaths cutoff => exact list_bind rfl fun listing _ => all_done _

theorem within_of_addresses {op : StoreOp} {k : Str} (hroot : s.rootPrefix ≠ [])
    (h : Addresses s op k) : Within s.rootPrefix k := by
  have hunder : ∀ {path}, AtOrUnder s.adapter path k → Within s.rootPrefix k := by
    rintro path ⟨key, hkey, hk | hk⟩
    · exact hk ▸ objectKey_within hroot hkey
    · exact .inr ((asDir_under hroot (objectKey_within hroot hkey)).trans hk)
  cases op with
  | «exists» path => exact hunder h
  | read path => exact objectKey_within hroot h
  | write path data size => exact objectKey_within hroot h
  | delete path => exact hunder h
  | mkdir path =>
    obtain ⟨partialPath, key, hkey, hk⟩ := h
    exact .inr (hk ▸ asDir_under hroot (objectKey_within hroot hkey))
  | rename oldPath newPath => exact h.elim hunder hunder
  | list path => exact hunder h
  | getSize path => exact objectKey_within hroot h
  | listStaleTmpEntryPaths cutoff =>
    have hk : k = s.rootPrefix ++ ['/'] := Eq.trans h (if_neg hroot)
    exact .inr (hk ▸ List.prefix_refl _)

end

/-! ### The markers of `mkdir` -/

/-- The markers of a normalised path: those of its ancestors, then its own. -/
def markers (s : S3StorageAdapter) (paths : List Str) : List Str :=
  paths.map fun partialPath => s.rootPrefix ++ '/' :: partialPath ++ ['/']

/-- The keys that a program names one after the other, if the calls are answered by `x`. -/
def namedKeys {α : Type} (x : (c : S3Cmd) → Except Exc c.Resp) (p : S3M α) : List Str :=
  (p.issued x).flatMap S3Cmd.keys

/-- `mkdir` puts the markers of its path one after the other, and nothing else. -/
def MakesItsMarkers (s : S3StorageAdapter) (path : Str) : Prop :=
  ∀ logical, safeLogicalKey path = .ok logical → ∀ x,
    namedKeys x (s.mkdir path) <+: markers s (S3StorageAdapter.ancestors logical)

/-- Each partial path of the path, up to the first one that is refused, is its own normal form. -/
def Tidy (path : Str) : Prop :=
  ∀ logical, safeLogicalKey path = .ok logical → logical ≠ [] →
    ∀ partialPath ∈ (S3StorageAdapter.ancestors logical).takeWhile fun p => (safeLogicalKey p).isOk,
      safeLogicalKey partialPath = .ok partialPath

/-- A service that carries out every call. -/
def accepting : (c : S3Cmd) → Except Exc c.Resp
  | .headObject _ => .ok 0
  | .getObject _ => .ok []
  | .putObject .. => .ok ()
  | .copyObject .. => .ok ()
  | .deleteObject _ => .ok ()
  | .deleteObjects _ => .ok ()
  | .listObjects .. => .ok ⟨[], []⟩
  | .createMultipartUpload _ => .ok []
  | .uploadPart .. => .ok []
  | .uploadPartCopy .. => .ok []
  | .completeMultipartUpload .. => .ok ()
  | .abortMultipartUpload .. => .ok ()

section
variable {s : S3StorageAdapter}

/-- The marker that is put for a partial path is the one of its normal form. -/
theorem marker_eq_iff (hroot : s.rootPrefix ≠ []) {partialPath logical key : Str}
    (hne : partialPath ≠ []) (hlogical : safeLogicalKey partialPath = .ok logical)
    (hkey : objectKey s.adapter partialPath = .ok key) :
    asDir key = s.rootPrefix ++ '/' :: partialPath ++ ['/'] ↔ logical = partialPath := by
  rw [objectKey_root hroot, hlogical] at hkey
  have hkey := Except.ok.inj hkey
  dsimp only at hkey
  by_cases hnone : logical = []
  · rw [if_pos hnone] at hkey
    have hdir : asDir key = s.rootPrefix ++ ['/'] := by
      rw [← hkey, asDir, if_neg]
      exact not_or.2 ⟨hroot, s.root_stripped⟩
    rw [hdir, hnone]
    constructor
    · intro h
      have hlen := congrArg List.length h
      simp at hlen
    · intro h
      exact absurd h.symm hne
  · rw [if_neg hnone] at hkey
    have hdir : asDir key = s.rootPrefix ++ '/' :: logical ++ ['/'] := by
      rw [← hkey, asDir, if_neg]
      refine not_or.2 ⟨by simp, fun hslash => not_suffix_of_safe hlogical ?_⟩
      -- the last character of the key is that of the path
      have hlen : ['/'].length ≤ logical.length := List.length_pos_iff.2 hnone
      have hend : logical <:+ s.rootPrefix ++ '/' :: logical :=
        (List.suffix_cons '/' logical).trans (List.suffix_append s.rootPrefix _)
      exact List.suffix_of_suffix_length_le hslash hend hlen
    rw [hdir, List.append_cancel_right_eq, List.append_cancel_left_eq, List.cons.injEq]
    exact and_iff_right rfl

theorem namedKeys_cons {p key : Str} {rest : List Str} (hkey : objectKey s.adapter p = .ok key)
    (x : (c : S3Cmd) → Except Exc c.Resp) : namedKeys x (s.makeMarkers (p :: rest)) =
      asDir key :: if (x (.putObject (asDir key) [])).isOk then namedKeys x (s.makeMarkers rest)
        else [] := by
  simp only [S3StorageAdapter.makeMarkers, S3StorageAdapter.listPrefix, S3StorageAdapter.key, hkey]
  cases hx : x (.putObject (asDir key) []) with
  | error e =>
    simp only [namedKeys, Prog.bind, bind_eq, pure_eq, send, issue, issued, hx]
    rfl
  | ok u =>
    simp only [namedKeys, Prog.bind, bind_eq, pure_eq, send, issue, issued, hx]
    rfl

theorem namedKeys_refused {p : Str} {rest : List Str} {e : Exc}
    (hkey : objectKey s.adapter p = .error e) (x : (c : S3Cmd) → Except Exc c.Resp) :
    namedKeys x (s.makeMarkers (p :: rest)) = [] := by
  simp only [S3StorageAdapter.makeMarkers, S3StorageAdapter.listPrefix, S3StorageAdapter.key, hkey]
  rfl

/-- A call that fails only ends the loop earlier. -/
theorem namedKeys_accepting (x : (c : S3Cmd) → Except Exc c.Resp) (paths : List Str) :
    namedKeys x (s.makeMarkers paths) <+: namedKeys accepting (s.makeMarkers paths) := by
  induction paths with
  | nil => exact List.nil_prefix
  | cons p rest ih =>
    cases hkey : objectKey s.adapter p with
    | error e =>
      rw [namedKeys_refused hkey]
      exact List.nil_prefix
    | ok key =>
      have hall : (accepting (.putObject (asDir key) [])).isOk = true := rfl
      rw [namedKeys_cons hkey, namedKeys_cons hkey, if_pos hall, List.cons_prefix_cons]
      refine ⟨rfl, ?_⟩
      split
      · exact ih
      · exact List.nil_prefix

theorem makeMarkers_names_iff (hroot : s.rootPrefix ≠ []) (paths : List Str)
    (hpaths : ∀ p ∈ paths, p ≠ []) :
    (∀ x, namedKeys x (s.makeMarkers paths) <+: markers s paths) ↔
      ∀ p ∈ paths.takeWhile fun p => (safeLogicalKey p).isOk, safeLogicalKey p = .ok p := by
  induction paths with
  | nil =>
    constructor
    · intro _ p hp
      cases hp
    · intro _ x
      exact List.nil_prefix
  | cons p rest ih =>
    have hrest := ih fun q hq => hpaths q (List.mem_cons_of_mem p hq)
    cases hlogical : safeLogicalKey p with
    | error e =>
      -- a refused path ends the loop before any call
      have hkey : objectKey s.adapter p = .error e := by
        rw [objectKey_root hroot, hlogical]
        rfl
      constructor
      · intro _ q hq
        simp [hlogical, Except.isOk, Except.toBool] at hq
      · intro _ x
        rw [namedKeys_refused hkey]
        exact List.nil_prefix
    | ok logical =>
      obtain ⟨key, hkey⟩ : ∃ key, objectKey s.adapter p = .ok key := by
        rw [objectKey_root hroot, hlogical]
        exact ⟨_, rfl⟩
      have hmarker := marker_eq_iff hroot (hpaths p List.mem_cons_self) hlogical hkey
      have hrun : ∀ x, namedKeys x (s.makeMarkers (p :: rest)) = _ := namedKeys_cons hkey
      have htake : (p :: rest).takeWhile (fun p => (safeLogicalKey p).isOk) =
          p :: rest.takeWhile fun p => (safeLogicalKey p).isOk := by
        rw [List.takeWhile_cons_of_pos]
        rw [hlogical]
        rfl
      rw [htake, List.forall_mem_cons, ← hrest]
      constructor
      · intro h
        have hfirst := h accepting
        rw [hrun, markers, List.map_cons, List.cons_prefix_cons] at hfirst
        have hall : (accepting (.putObject (asDir key) [])).isOk = true := rfl
        rw [if_pos hall] at hfirst
        refine ⟨by rw [hlogical, hmarker.1 hfirst.1], fun x => ?_⟩
        exact (namedKeys_accepting x rest).trans hfirst.2
      · rintro ⟨hself, hall⟩ x
        rw [hrun, markers, List.map_cons, List.cons_prefix_cons]
        rw [hlogical] at hself
        refine ⟨hmarker.2 (Except.ok.inj hself), ?_⟩
        split
        · exact hall x
        · exact List.nil_prefix

theorem ancestors_ne_nil {path logical : Str} (h : safeLogicalKey path = .ok logical)
    (hne : logical ≠ []) : ∀ p ∈ S3StorageAdapter.ancestors logical, p ≠ [] := by
  intro p hp
  obtain ⟨i, -, rfl⟩ := List.mem_map.1 hp
  have hsegments := (safeLogicalKey_segments h).resolve_left hne
  obtain ⟨w, ws, hw⟩ := List.exists_cons_of_ne_nil (Text.split_ne_nil logical)
  have hfirst : w ≠ [] := (hsegments w (hw ▸ List.mem_cons_self)).1
  rw [hw, List.take_succ_cons]
  cases ws.take i with
  | nil => exact hfirst
  | cons v vs => simp [Text.join]

theorem makesItsMarkers_iff (hroot : s.rootPrefix ≠ []) (path : Str) :
    MakesItsMarkers s path ↔ Tidy path := by
  unfold MakesItsMarkers Tidy
  refine forall_congr' fun logical => forall_congr' fun hlogical => ?_
  by_cases hnone : logical = []
  · -- the root itself has no marker
    have hskip : ∀ x, namedKeys x (s.mkdir path) = [] := by
      intro x
      simp only [S3StorageAdapter.mkdir, hlogical, bind_eq, Prog.bind, if_pos hnone]
      rfl
    constructor
    · intro _ hne
      exact absurd hnone hne
    · intro _ x
      rw [hskip]
      exact List.nil_prefix
  · have hloop : s.mkdir path = s.makeMarkers (S3StorageAdapter.ancestors logical) := by
      simp only [S3StorageAdapter.mkdir, hlogical, bind_eq, Prog.bind, if_neg hnone]
    have hiff := makeMarkers_names_iff hroot _ (ancestors_ne_nil hlogical hnone)
    rw [hloop, hiff]
    exact ⟨fun h _ => h, fun h => h hnone⟩

/-- What the keys of an operation are to satisfy: they are within the root, they come from the
key of the path, and `mkdir` puts the markers of its path. -/
structure Contained (s : S3StorageAdapter) (op : StoreOp) : Prop where
  within : AllNames (Within s.rootPrefix) (s.perform op)
  addressed : AllNames (Addresses s op) (s.perform op)
  markers : ∀ path, op = .mkdir path → MakesItsMarkers s path

theorem contained_iff (hroot : s.rootPrefix ≠ []) (op : StoreOp) :
    Contained s op ↔ ∀ path, op = .mkdir path → Tidy path := by
  constructor
  · intro h path hop
    exact (makesItsMarkers_iff hroot path).1 (h.markers path hop)
  · intro h
    refine ⟨?_, names_perform s op, fun path hop => (makesItsMarkers_iff hroot path).2 (h path hop)⟩
    apply all_mono (names_perform s op)
    intro c hc k hk
    exact within_of_addresses hroot (hc k hk)

/-- Storage containment: an operation other than `mkdir` names keys within the root only, which
are those of its paths; `mkdir` does so exactly for tidy paths. Adapters whose roots are not path
prefixes of one another name no key in common. -/
theorem storage_contained (s t : S3StorageAdapter) (hs : s.rootPrefix ≠ []) (ht : t.rootPrefix ≠ []) :
    (∀ op, Contained s op ↔ ∀ path, op = .mkdir path → Tidy path) ∧
    (∀ path logical, safeLogicalKey path = .ok logical → logical = [] ∨
      ∀ w ∈ Text.split logical, w ≠ [] ∧ w ≠ ".".toList ∧ w ≠ "..".toList) ∧
    (∀ path, s.adapter.toDiskRelativePath path = objectKey s.adapter path) ∧
    (¬ PathPrefix s.rootPrefix t.rootPrefix → ¬ PathPrefix t.rootPrefix s.rootPrefix →
      ∀ op, AllNames (fun k => ¬ Within t.rootPrefix k) (s.perform op)) := by
  refine ⟨contained_iff hs, fun path logical => safeLogicalKey_segments, toDisk_eq_objectKey hs, ?_⟩
  intro hst hts op
  apply all_mono (names_perform s op)
  intro c hc k hk hother
  have hown := within_of_addresses hs (hc k hk)
  exact (pathPrefix_of_within hown hother).elim hst hts

/-! ### Two adapters -/

def filesOf (digit : Nat) : S3StorageAdapter :=
  .new ("users/".toList ++ (Uuid.ofDigit digit).text ++ "/files".toList) (fun _ => "") id

/-- The marker of `a /` is put at `a/`. -/
theorem mkdir_strips : (filesOf 1).rootPrefix ≠ [] ∧
    ¬ Contained (filesOf 1) (.mkdir "a /".toList) := by
  refine ⟨by decide, fun h => ?_⟩
  have htidy := (contained_iff (by decide) _).1 h _ rfl "a ".toList rfl (by decide) "a ".toList
  have hself : safeLogicalKey "a ".toList = .ok "a".toList := rfl
  have hin : "a ".toList ∈ (S3StorageAdapter.ancestors "a ".toList).takeWhile fun p =>
      (safeLogicalKey p).isOk := by decide
  have heq := htidy hin
  rw [hself] at heq
  exact absurd (Except.ok.inj heq) (by decide)

/-- The files of two users are apart. -/
theorem storage_contained_users :
    (∀ op, AllNames (fun k => ¬ Within (filesOf 2).rootPrefix k) ((filesOf 1).perform op)) ∧
    Contained (filesOf 1) (.mkdir "a/b".toList) := by
  have h := storage_contained (filesOf 1) (filesOf 2) (by decide) (by decide)
  refine ⟨h.2.2.2 (by unfold PathPrefix Within; decide) (by unfold PathPrefix Within; decide), ?_⟩
  apply (h.1 _).2
  intro path hpath logical hlogical _
  cases hpath
  cases hlogical
  decide

end
end WebStorage.S3
