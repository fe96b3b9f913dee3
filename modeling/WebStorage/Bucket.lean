import WebStorage.CleanPaths
import WebStorage.StorageContainment

set_option autoImplicit false

/-! The bucket behind the adapter: what the S3 service answers, and what each operation of the
adapter comes to on the objects. -/
namespace WebStorage.S3
open Effect Effect.Prog

/-! ### The objects -/

structure StoredObject where
  key : Str
  body : Bytes
  lastModified : Time
deriving DecidableEq

/-- The objects, and the parts of the multipart uploads in the order in which these began. -/
@[ext] structure Bucket where
  objects : List StoredObject
  key_unique : (objects.map (·.key)).Nodup
  uploads : List (List (Nat × Bytes))

namespace Bucket

def empty : Bucket := ⟨[], List.nodup_nil, []⟩

def get (b : Bucket) (key : Str) : Option StoredObject := b.objects.find? (·.key = key)

/-- The objects whose keys satisfy `p` stay. -/
def keep (p : Str → Bool) (b : Bucket) : Bucket :=
  ⟨b.objects.filter fun o => p o.key, b.key_unique.sublist (List.filter_sublist.map _), b.uploads⟩

def put (key : Str) (body : Bytes) (now : Time) (b : Bucket) : Bucket :=
  ⟨(b.objects.filter (·.key ≠ key)) ++ [⟨key, body, now⟩], by
    rw [List.map_append, List.nodup_append]
    refine ⟨b.key_unique.sublist (List.filter_sublist.map _), List.nodup_singleton _, ?_⟩
    intro k hk k' hk' heq
    obtain ⟨o, ho, hkey⟩ := List.mem_map.1 hk
    have hne := (List.mem_filter.1 ho).2
    rw [List.map_singleton, List.mem_singleton] at hk'
    simp [hkey, heq, hk'] at hne, b.uploads⟩

section
variable {b : Bucket} {p q : Str → Bool} {k key : Str} {o : StoredObject}

theorem get_some (h : b.get key = some o) : o ∈ b.objects ∧ o.key = key :=
  ⟨List.mem_of_find?_eq_some h, by simpa using List.find?_some h⟩

theorem get_of_mem (h : o ∈ b.objects) : b.get o.key = some o := by
  cases hget : b.get o.key with
  | none => exact absurd (List.find?_eq_none.1 hget o h) (by simp)
  | some o' =>
    have hsame := List.inj_on_of_nodup_map b.key_unique (get_some hget).1 h (get_some hget).2
    rw [hsame]

theorem get_none : b.get key = none ↔ ∀ o ∈ b.objects, o.key ≠ key := by
  simp [get, List.find?_eq_none]

@[simp] theorem get_keep (b : Bucket) (p : Str → Bool) (k : Str) :
    (b.keep p).get k = if p k then b.get k else none := by
  unfold get keep
  simp only [List.find?_filter]
  split
  next h =>
    apply congrArg fun q => List.find? q b.objects
    funext o
    by_cases hk : o.key = k
    · simp [hk, h]
    · simp [hk]
  next h =>
    apply List.find?_eq_none.2
    intro o _ ho
    simp only [decide_eq_true_eq] at ho
    exact h (ho.2 ▸ ho.1)

@[simp] theorem get_put (b : Bucket) (key : Str) (body : Bytes) (now : Time) (k : Str) :
    (b.put key body now).get k = if k = key then some ⟨key, body, now⟩ else b.get k := by
  unfold get put
  simp only [List.find?_append, List.find?_filter]
  split
  next h =>
    have hnone : List.find? (fun o : StoredObject => decide (decide (o.key ≠ key) = true ∧
        decide (o.key = k) = true)) b.objects = none := by
      apply List.find?_eq_none.2
      intro o _
      simp [h]
    rw [hnone]
    simp [h]
  next h =>
    have hother : List.find? (fun o : StoredObject => decide (decide (o.key ≠ key) = true ∧
        decide (o.key = k) = true)) b.objects = List.find? (fun o => decide (o.key = k)) b.objects := by
      apply congrArg fun q => List.find? q b.objects
      funext o
      by_cases hk : o.key = k
      · simp [hk, h]
      · simp [hk]
    have hlast : ¬ key = k := fun heq => h heq.symm
    rw [hother]
    simp [hlast]

theorem keep_keep (b : Bucket) (p q : Str → Bool) :
    (b.keep p).keep q = b.keep fun k => p k && q k := by
  ext1
  · simp only [keep, List.filter_filter]
    apply List.filter_congr
    intro o _
    rw [Bool.and_comm]
  · rfl

theorem keep_all (h : ∀ o ∈ b.objects, p o.key = true) : b.keep p = b := by
  ext1
  · exact List.filter_eq_self.2 h
  · rfl

theorem keep_congr (h : ∀ k, p k = q k) : b.keep p = b.keep q := by
  rw [funext h]

end

/-! ### The service -/

/-- The entries under a prefix, in the order of the keys. -/
def entriesUnder (b : Bucket) (keyPrefix : Str) : List ObjectEntry :=
  ((b.objects.filter fun o => keyPrefix.isPrefixOf o.key).insertionSort
    fun o o' => Text.le o.key o'.key).map fun o => ⟨o.key, o.body.length, o.lastModified⟩

/-- What a key is rolled up to: the key to the first slash behind the prefix. -/
def commonPrefix (keyPrefix key : Str) : Option Str :=
  let rest := key.drop keyPrefix.length
  if '/' ∈ rest then some (keyPrefix ++ rest.takeWhile (· ≠ '/') ++ ['/']) else none

/-- `list_objects_v2`. A limit is only ever asked for without a delimiter. -/
def listing (b : Bucket) (keyPrefix : Str) (delimited : Bool) (maxKeys : Option Nat) : Listing :=
  let entries := b.entriesUnder keyPrefix
  if delimited then
    ⟨dictFromKeys (entries.filterMap fun e => commonPrefix keyPrefix e.key),
      entries.filter fun e => (commonPrefix keyPrefix e.key).isNone⟩
  else ⟨[], match maxKeys with
    | none => entries
    | some n => entries.take n⟩

/-- The bytes that the listed parts of an upload come to. -/
def assemble (stored : List (Nat × Bytes)) (parts : List (Nat × Str)) : Option Bytes :=
  (parts.mapM fun part => stored.lookup part.1).map List.flatten

/-- A part of an upload; its tag is not looked at. -/
def storePart (b : Bucket) (uploadId : Str) (partNumber : Nat) (body : Bytes) :
    Except Exc Str × Bucket :=
  match b.uploads[uploadId.length]? with
  | none => (.error (.clientError false), b)
  | some parts =>
    (.ok [], ⟨b.objects, b.key_unique, b.uploads.set uploadId.length ((partNumber, body) :: parts)⟩)

/-- The service, when every call reaches it. -/
def serve (now : Time) : (c : S3Cmd) → Bucket → Except Exc c.Resp × Bucket
  | .headObject key, b =>
    match b.get key with
    | some o => (.ok o.body.length, b)
    | none => (.error (.clientError true), b)
  | .getObject key, b =>
    match b.get key with
    | some o => (.ok o.body, b)
    | none => (.error (.clientError true), b)
  | .putObject key body, b => (.ok (), b.put key body now)
  | .copyObject source key, b =>
    match b.get source with
    | some o => (.ok (), b.put key o.body now)
    | none => (.error (.clientError true), b)
  | .deleteObject key, b => (.ok (), b.keep (· ≠ key))
  | .deleteObjects keys, b => (.ok (), b.keep (· ∉ keys))
  | .listObjects keyPrefix delimited maxKeys, b => (.ok (b.listing keyPrefix delimited maxKeys), b)
  | .createMultipartUpload _, b =>
    (.ok (List.replicate b.uploads.length 'u'), ⟨b.objects, b.key_unique, b.uploads ++ [[]]⟩)
  | .uploadPart _ uploadId partNumber body, b => b.storePart uploadId partNumber body
  | .uploadPartCopy _ uploadId partNumber source first last, b =>
    match b.get source with
    | some o => b.storePart uploadId partNumber ((o.body.drop first).take (last + 1 - first))
    | none => (.error (.clientError true), b)
  | .completeMultipartUpload key uploadId parts, b =>
    match b.uploads[uploadId.length]?.bind (assemble · parts) with
    | some body => (.ok (), b.put key body now)
    | none => (.error (.clientError false), b)
  | .abortMultipartUpload _ _, b => (.ok (), b)

theorem mem_entriesUnder {b : Bucket} {keyPrefix : Str} {e : ObjectEntry} :
    e ∈ b.entriesUnder keyPrefix ↔
      ∃ o ∈ b.objects, keyPrefix <+: o.key ∧ e = ⟨o.key, o.body.length, o.lastModified⟩ := by
  simp only [entriesUnder, List.mem_map, List.mem_insertionSort, List.mem_filter,
    List.isPrefixOf_iff_prefix]
  constructor
  · intro h
    obtain ⟨o, ⟨hmem, hunder⟩, heq⟩ := h
    exact ⟨o, hmem, hunder, heq.symm⟩
  · intro h
    obtain ⟨o, hmem, hunder, heq⟩ := h
    exact ⟨o, ⟨hmem, hunder⟩, heq.symm⟩

/-! ### The operations -/

/-- The keys that a key stands for: itself, and those below it as a directory. -/
def Covers (key k : Str) : Prop := k = key ∨ asDir key <+: k

instance (key k : Str) : Decidable (Covers key k) := inferInstanceAs (Decidable (_ ∨ _))

/-- Whether anything is stored at a key or below it. -/
def occupied (b : Bucket) (key : Str) : Bool := b.objects.any fun o => decide (Covers key o.key)

section
variable {s : S3StorageAdapter} {now : Time} {b : Bucket} {path key : Str}

theorem covers_self (key : Str) : Covers key key := .inl rfl

/-- The key of a path is its logical key below the root. -/
theorem objectKey_ok {a : Adapter} (h : objectKey a path = .ok key) :
    ∃ logical, safeLogicalKey path = .ok logical ∧
      key = if logical = [] then a.diskRelativePrefix
        else if a.diskRelativePrefix = [] then logical
        else a.diskRelativePrefix ++ '/' :: logical := by
  unfold objectKey at h
  cases hsafe : safeLogicalKey path with
  | error e =>
    rw [hsafe] at h
    cases h
  | ok logical =>
    rw [hsafe] at h
    exact ⟨logical, rfl, (Except.ok.inj h).symm⟩

theorem occupied_iff : b.occupied key = true ↔ ∃ o ∈ b.objects, Covers key o.key := by
  simp [occupied]

theorem get_none_of_covers (h : b.occupied key = false) {k : Str} (hk : Covers key k) :
    b.get k = none := by
  apply get_none.2
  intro o ho heq
  have hocc : b.occupied key = true := occupied_iff.2 ⟨o, ho, heq ▸ hk⟩
  rw [h] at hocc
  cases hocc

theorem run_headExists (key : Str) (b : Bucket) :
    (S3StorageAdapter.headExists key).run (serve now) b =
      (.ok (decide (key ≠ []) && (b.get key).isSome), b) := by
  unfold S3StorageAdapter.headExists
  split
  next h => simp [h]
  next h =>
    cases hget : b.get key with
    | none => simp [Prog.catchWith, send, Prog.issue, Prog.attempt, Prog.bind, serve, hget]
    | some o => simp [Prog.catchWith, send, Prog.issue, Prog.attempt, Prog.bind, serve, hget, h]

theorem run_key (h : objectKey s.adapter path = .ok key) (b : Bucket) :
    (s.key path).run (serve now) b = (.ok key, b) := by
  rw [S3StorageAdapter.key, h]
  rfl

theorem run_listPrefix (h : objectKey s.adapter path = .ok key) (b : Bucket) :
    (s.listPrefix path).run (serve now) b = (.ok (asDir key), b) := by
  rw [S3StorageAdapter.listPrefix, bind_eq, run_bind_ok (run_key h b)]
  rfl

/-- Something is below the key as a directory. -/
def populated (b : Bucket) (key : Str) : Bool := b.objects.any fun o => (asDir key).isPrefixOf o.key

theorem populated_iff : b.populated key = true ↔ ∃ o ∈ b.objects, asDir key <+: o.key := by
  simp [populated, List.isPrefixOf_iff_prefix]

theorem occupied_eq (b : Bucket) (key : Str) :
    b.occupied key = ((b.get key).isSome || b.populated key) := by
  rw [Bool.eq_iff_iff, occupied_iff, Bool.or_eq_true, populated_iff]
  constructor
  · intro h
    obtain ⟨o, ho, hcovers⟩ := h
    rcases hcovers with heq | hunder
    · left
      rw [← heq, get_of_mem ho]
      rfl
    · exact .inr ⟨o, ho, hunder⟩
  · intro h
    rcases h with hfile | hdir
    · obtain ⟨o, hget⟩ := Option.isSome_iff_exists.1 hfile
      exact ⟨o, (get_some hget).1, .inl (get_some hget).2⟩
    · obtain ⟨o, ho, hunder⟩ := hdir
      exact ⟨o, ho, .inr hunder⟩

theorem listing_contents (b : Bucket) (keyPrefix : Str) :
    (b.listing keyPrefix false none).contents = b.entriesUnder keyPrefix := rfl

theorem entriesUnder_ne_nil : b.entriesUnder (asDir key) ≠ [] ↔ b.populated key = true := by
  rw [populated_iff]
  constructor
  · intro h
    obtain ⟨e, he⟩ := List.exists_mem_of_ne_nil _ h
    obtain ⟨o, ho, hunder, -⟩ := mem_entriesUnder.1 he
    exact ⟨o, ho, hunder⟩
  · intro h
    obtain ⟨o, ho, hunder⟩ := h
    exact List.ne_nil_of_mem (mem_entriesUnder.2 ⟨o, ho, hunder, rfl⟩)

theorem run_existsPrefixOrMarker (h : objectKey s.adapter path = .ok key) (b : Bucket) :
    (s.existsPrefixOrMarker path).run (serve now) b = (.ok (b.populated key), b) := by
  rw [S3StorageAdapter.existsPrefixOrMarker, bind_eq, run_bind_ok (run_listPrefix h b), bind_eq,
    run_bind_ok (run_headExists _ b)]
  split
  next hmarker =>
    -- the marker is itself below the key
    simp only [Bool.and_eq_true] at hmarker
    obtain ⟨o, hget⟩ := Option.isSome_iff_exists.1 hmarker.2
    have hpop : b.populated key = true := by
      apply populated_iff.2
      refine ⟨o, (get_some hget).1, ?_⟩
      rw [(get_some hget).2]
    rw [hpop]
    rfl
  next =>
    have hlist : (b.listing (asDir key) false (some 1)).contents = (b.entriesUnder (asDir key)).take 1 :=
      rfl
    have hsome : ((b.listing (asDir key) false (some 1)).contents ≠ [] ∨
        (b.listing (asDir key) false (some 1)).commonPrefixes ≠ []) ↔ b.populated key = true := by
      rw [hlist, ← entriesUnder_ne_nil]
      simp [listing]
    rw [bind_eq, send, run_bind_ok (a := b.listing (asDir key) false (some 1)) (t := b) rfl]
    by_cases hpop : b.populated key = true
    · rw [pure_eq, run_done, decide_eq_true (hsome.2 hpop), hpop]
    · rw [pure_eq, run_done, decide_eq_false (fun h => hpop (hsome.1 h)), Bool.eq_false_iff.2 hpop]

theorem run_exists (h : objectKey s.adapter path = .ok key) (b : Bucket) :
    (s.exists path).run (serve now) b = (.ok (b.occupied key), b) := by
  rw [S3StorageAdapter.exists, bind_eq, run_bind_ok (run_key h b), bind_eq,
    run_bind_ok (run_headExists _ b)]
  split
  next hfile =>
    simp only [Bool.and_eq_true, decide_eq_true_eq] at hfile
    rw [occupied_eq, hfile.2]
    rfl
  next hfile =>
    rw [run_existsPrefixOrMarker h]
    by_cases hne : key = []
    · -- below the root is everything
      subst hne
      have hall : b.occupied [] = b.populated [] := by
        rw [Bool.eq_iff_iff, occupied_iff, populated_iff]
        constructor
        · intro hocc
          obtain ⟨o, ho, -⟩ := hocc
          exact ⟨o, ho, List.nil_prefix⟩
        · intro hpop
          obtain ⟨o, ho, hunder⟩ := hpop
          exact ⟨o, ho, .inr hunder⟩
      rw [hall]
    · have hnone : (b.get key).isSome = false := by
        simpa [hne] using hfile
      rw [occupied_eq, hnone, Bool.false_or]

theorem run_exists_error {e : Exc} (h : objectKey s.adapter path = .error e) (b : Bucket) :
    (s.exists path).run (serve now) b = (.error e, b) := by
  rw [S3StorageAdapter.exists, S3StorageAdapter.key, h]
  rfl

/-- The keys of the batches are those of the list. -/
theorem mem_flatten_batches {keys : List Str} {k : Str} :
    k ∈ (S3StorageAdapter.batches keys).flatten ↔ k ∈ keys := by
  rw [List.mem_flatten]
  constructor
  · intro h
    obtain ⟨batch, hbatch, hk⟩ := h
    exact mem_batches hbatch hk
  · intro h
    obtain ⟨i, hi, hget⟩ := List.getElem_of_mem h
    -- the key at `i` is in batch `i / 1000`
    refine ⟨(keys.drop (i / 1000 * 1000)).take 1000, ?_, ?_⟩
    · apply List.mem_map.2
      refine ⟨i / 1000, List.mem_range.2 ?_, rfl⟩
      omega
    · apply List.mem_iff_getElem.2
      refine ⟨i % 1000, ?_, ?_⟩
      · rw [List.length_take, List.length_drop]
        omega
      · rw [List.getElem_take, List.getElem_drop, ← hget]
        congr 1
        omega

theorem run_deleteBatches (batches : List (List Str)) (b : Bucket) :
    (S3StorageAdapter.deleteBatches batches).run (serve now) b =
      (.ok (), b.keep fun k => decide (k ∉ batches.flatten)) := by
  induction batches generalizing b with
  | nil =>
    have hall : b.keep (fun k => decide (k ∉ ([] : List (List Str)).flatten)) = b :=
      keep_all fun o _ => by simp
    rw [hall]
    rfl
  | cons batch rest ih =>
    have hstep : ((send (.deleteObjects batch)).run (serve now) b) =
        (.ok (), b.keep fun k => decide (k ∉ batch)) := rfl
    rw [S3StorageAdapter.deleteBatches, bind_eq, run_bind_ok hstep, ih, keep_keep]
    congr 1
    apply keep_congr
    intro k
    simp

/-- The keys that `delete` collects. -/
def collected (b : Bucket) (key : Str) : List Str :=
  dictFromKeys ((if (decide (key ≠ []) && (b.get key).isSome) = true then [key] else []) ++
    (b.entriesUnder (asDir key)).map (·.key))

theorem mem_collected (hne : key ≠ []) {k : Str} :
    k ∈ b.collected key ↔ ∃ o ∈ b.objects, o.key = k ∧ Covers key k := by
  rw [collected, mem_dictFromKeys, List.mem_append, List.mem_map]
  constructor
  · intro hk
    rcases hk with hfile | hbelow
    · split at hfile
      next hpresent =>
        simp only [Bool.and_eq_true] at hpresent
        obtain ⟨o, hget⟩ := Option.isSome_iff_exists.1 hpresent.2
        rw [List.mem_singleton] at hfile
        exact ⟨o, (get_some hget).1, hfile ▸ (get_some hget).2, .inl hfile⟩
      next => cases hfile
    · obtain ⟨e, he, heq⟩ := hbelow
      obtain ⟨o, ho, hunder, hentry⟩ := mem_entriesUnder.1 he
      have hkey : o.key = k := by
        rw [← heq, hentry]
      exact ⟨o, ho, hkey, .inr (hkey ▸ hunder)⟩
  · intro hk
    obtain ⟨o, ho, hkey, hcovers⟩ := hk
    rcases hcovers with heq | hunder
    · left
      have hget : b.get key = some o := by
        rw [← heq, ← hkey]
        exact get_of_mem ho
      simp [hne, hget, heq]
    · right
      exact ⟨_, mem_entriesUnder.2 ⟨o, ho, hkey ▸ hunder, rfl⟩, hkey⟩

/-- `delete` takes the object and all below it; it is refused for the root of the bucket. -/
theorem run_delete (h : objectKey s.adapter path = .ok key) (hne : key ≠ []) (b : Bucket) :
    (s.delete path).run (serve now) b =
      (if b.occupied key then .ok () else .error .fileNotFound,
        b.keep fun k => !decide (Covers key k)) := by
  obtain ⟨logical, hsafe, hkey⟩ := objectKey_ok h
  have hroot : ¬ (logical = [] ∧ s.rootPrefix = []) := by
    intro hboth
    rw [if_pos hboth.1] at hkey
    exact hne (hkey.trans hboth.2)
  have hlist : (send (.listObjects (asDir key) false none)).run (serve now) b =
      (.ok (b.listing (asDir key) false none), b) := rfl
  rw [S3StorageAdapter.delete, hsafe, bind_eq, run_bind_ok (run_done _ _ _), if_neg hroot, bind_eq,
    run_bind_ok (run_key h b), bind_eq, run_bind_ok (run_listPrefix h b), bind_eq,
    run_bind_ok (run_headExists _ b), bind_eq, run_bind_ok hlist, listing_contents]
  show (if b.collected key = [] then Prog.raise .fileNotFound
    else S3StorageAdapter.deleteBatches (S3StorageAdapter.batches (b.collected key))).run _ _ = _
  split
  next hnil =>
    -- nothing is stored there
    have hnot : ∀ o ∈ b.objects, ¬ Covers key o.key := by
      intro o ho hcovers
      have hmem := (mem_collected hne).2 ⟨o, ho, rfl, hcovers⟩
      rw [hnil] at hmem
      cases hmem
    have hfree : b.occupied key = false := by
      rw [Bool.eq_false_iff]
      intro hocc
      obtain ⟨o, ho, hcovers⟩ := occupied_iff.1 hocc
      exact hnot o ho hcovers
    have hall : b.keep (fun k => !decide (Covers key k)) = b := by
      apply keep_all
      intro o ho
      simp [hnot o ho]
    rw [hall, hfree]
    rfl
  next hsome =>
    obtain ⟨k, hk⟩ := List.exists_mem_of_ne_nil _ hsome
    obtain ⟨o, ho, hat, hcovers⟩ := (mem_collected hne).1 hk
    have hocc : b.occupied key = true := occupied_iff.2 ⟨o, ho, hat ▸ hcovers⟩
    rw [run_deleteBatches, hocc, if_pos rfl]
    congr 1
    ext1
    · apply List.filter_congr
      intro o ho
      have hiff : o.key ∈ b.collected key ↔ Covers key o.key := by
        rw [mem_collected hne]
        constructor
        · intro hmem
          obtain ⟨_, -, -, hcov⟩ := hmem
          exact hcov
        · exact fun hcov => ⟨o, ho, rfl, hcov⟩
      simp only [mem_flatten_batches, hiff, decide_not]
    · rfl

theorem run_delete_root (h : objectKey s.adapter path = .ok []) (b : Bucket) :
    (s.delete path).run (serve now) b = (.error .pathTraversal, b) := by
  obtain ⟨logical, hsafe, hkey⟩ := objectKey_ok h
  have hroot : s.adapter.diskRelativePrefix = s.rootPrefix := rfl
  have hboth : logical = [] ∧ s.rootPrefix = [] := by
    rw [hroot] at hkey
    split at hkey
    next hnil => exact ⟨hnil, hkey.symm⟩
    next hsome =>
      split at hkey
      · exact absurd hkey.symm hsome
      · simp at hkey
  rw [S3StorageAdapter.delete, hsafe, bind_eq, run_bind_ok (run_done _ _ _), if_pos hboth]
  rfl

theorem run_read (h : objectKey s.adapter path = .ok key) (hne : key ≠ [])
    (hslash : ¬ ['/'] <:+ key) (b : Bucket) :
    (s.read path).run (serve now) b =
      (match b.get key with
        | some o => .ok o.body
        | none => .error .fileNotFound, b) := by
  rw [S3StorageAdapter.read, bind_eq, run_bind_ok (run_key h b), if_neg (by tauto)]
  unfold S3StorageAdapter.orNotFound
  cases hget : b.get key with
  | none => simp [Prog.catchWith, send, Prog.issue, Prog.attempt, Prog.bind, serve, hget]
  | some o => simp [Prog.catchWith, send, Prog.issue, Prog.attempt, Prog.bind, serve, hget]

/-! ### Listings -/

/-- The nodes of a directory in their order. -/
def nodesUnder (b : Bucket) (lower : Str → Str) (key : Str) : List FileNode :=
  (S3StorageAdapter.directoryNodes (asDir key) (b.listing (asDir key) true none) ++
    S3StorageAdapter.fileNodes (asDir key) (b.listing (asDir key) true none)).insertionSort
      (nodesInOrder lower)

theorem run_list (h : objectKey s.adapter path = .ok key) (b : Bucket) :
    (s.list path).run (serve now) b =
      (if Text.stripSlash (Text.strip path) = [] ∨ b.populated key = true
        then .ok (b.nodesUnder s.lower key) else .error .fileNotFound, b) := by
  have hfound : (s.directoryFound path).run (serve now) b =
      (.ok (decide (Text.stripSlash (Text.strip path) = []) || b.populated key), b) := by
    unfold S3StorageAdapter.directoryFound
    split
    next hroot => simp [hroot]
    next hroot =>
      rw [run_existsPrefixOrMarker h]
      simp [hroot]
  have hlist : (send (.listObjects (asDir key) true none)).run (serve now) b =
      (.ok (b.listing (asDir key) true none), b) := rfl
  rw [S3StorageAdapter.list, bind_eq, run_bind_ok (run_listPrefix h b), bind_eq, run_bind_ok hfound]
  by_cases hthere : Text.stripSlash (Text.strip path) = [] ∨ b.populated key = true
  · rw [if_pos (by simpa using hthere), if_pos hthere, bind_eq, run_bind_ok hlist]
    rfl
  · rw [if_neg (by simpa using hthere), if_neg hthere]
    rfl

end
end Bucket
end WebStorage.S3
