import WebStorage.BucketFaults

set_option autoImplicit false

/-! The rename of the S3 adapter: objects are copied and then deleted, and any of the calls may
fail. -/
namespace WebStorage.S3.Rename
open Effect Effect.Prog Bucket

/-! ### Old and new keys -/

/-- The key of a copy: what lies below the old key goes below the new one. -/
def relocate (old new key : Str) : Str :=
  if asDir old <+: key then asDir new ++ key.drop (asDir old).length else new

/-- The objects that a rename takes: the one at the old key, or else those below it. -/
def Moved (b : Bucket) (old key : Str) : Prop :=
  if old ≠ [] ∧ (b.get old).isSome = true then key = old else asDir old <+: key

/-- The new keys are apart from what is moved, each of them is free or holds the same bytes
already, and nothing below the old key stays behind without such a copy. -/
structure Clear (b : Bucket) (old new : Str) : Prop where
  apart : ∀ o ∈ b.objects, Moved b old o.key → ∀ o' ∈ b.objects, o'.key = relocate old new o.key →
    ¬ Moved b old o'.key ∧ o'.body = o.body
  whole : ∀ o ∈ b.objects, Covers old o.key → ¬ Moved b old o.key →
    ∃ o' ∈ b.objects, o'.key = relocate old new o.key ∧ ¬ Moved b old o'.key ∧ o'.body = o.body

/-- Every object at or below the old key has moved with its bytes, and no other has changed. -/
def AllMoved (b t : Bucket) (old new : Str) : Prop :=
  ∀ o ∈ b.objects, t.content (if Covers old o.key then relocate old new o.key else o.key) = some o.body

/-- The bytes of every object are at its old or at its new key. -/
def NoneLost (b t : Bucket) (old new : Str) : Prop :=
  ∀ o ∈ b.objects, t.content o.key = some o.body ∨
    (Covers old o.key ∧ t.content (relocate old new o.key) = some o.body)

/-! ### Copies of many objects -/

section
variable {fails : Prop} {b t : Bucket} {old new key : Str}

/-- The contents once the keys of a list have been copied. -/
def Copied (content : Str → Option Bytes) (target : Str → Str) (keys : List Str) (t : Bucket) : Prop :=
  ∀ k, (∃ source ∈ keys, target source = k ∧ t.content k = content source) ∨
    ((∀ source ∈ keys, target source ≠ k) ∧ t.content k = content k)

/-- The targets of different keys differ, and none is a source. -/
def Separate (target : Str → Str) (keys : List Str) : Prop :=
  (∀ k ∈ keys, ∀ k' ∈ keys, target k ≠ k') ∧ ∀ k ∈ keys, ∀ k' ∈ keys, target k = target k' → k = k'

theorem copied_written {content : Str → Option Bytes} {target : Str → Str} {all done : List Str}
    {v : Bucket} {source : Str} {body : Bytes} (hsep : Separate target all) (hdone : ∀ k ∈ done, k ∈ all)
    (hsource : source ∈ all) (hcopied : Copied content target done t)
    (hbody : t.content source = some body) (hwritten : Written t v (target source) body) :
    Copied content target (done ++ [source]) v := by
  have hold : content source = some body := by
    rcases hcopied source with hmade | hkept
    · obtain ⟨k, hk, htarget, -⟩ := hmade
      exact absurd htarget (hsep.1 k (hdone k hk) source hsource)
    · rw [← hkept.2]
      exact hbody
  intro k
  by_cases hk : k = target source
  · left
    refine ⟨source, List.mem_append_right _ (List.mem_singleton_self _), hk.symm, ?_⟩
    rw [hwritten k, if_pos hk, hold]
  · rcases hcopied k with hmade | hkept
    · left
      obtain ⟨s, hs, htarget, hcontent⟩ := hmade
      refine ⟨s, List.mem_append_left _ hs, htarget, ?_⟩
      rw [hwritten k, if_neg hk, hcontent]
    · right
      refine ⟨?_, ?_⟩
      · intro s hs
        rcases List.mem_append.1 hs with hs | hs
        · exact hkept.1 s hs
        · rw [List.mem_singleton.1 hs]
          exact fun heq => hk heq.symm
      · rw [hwritten k, if_neg hk, hkept.2]

/-- Nothing disappears while objects are copied. If the targets are separate, the copies are those
of the objects as they were at the start. -/
theorem ends_copyAll {content : Str → Option Bytes} {oldPrefix newPrefix : Str} {all : List Str}
    (keys : List Str) : ∀ (t : Bucket) (done : List Str),
      (∀ k ∈ done, k ∈ all) → (∀ k ∈ keys, k ∈ all) → (∀ k ∈ keys, (t.get k).isSome = true) →
      (Separate (fun k => newPrefix ++ k.drop oldPrefix.length) all →
        Copied content (fun k => newPrefix ++ k.drop oldPrefix.length) done t) →
      Ends fails (S3StorageAdapter.copyAll oldPrefix newPrefix keys) t fun r v =>
        match r with
        | .ok _ => Separate (fun k => newPrefix ++ k.drop oldPrefix.length) all →
            Copied content (fun k => newPrefix ++ k.drop oldPrefix.length) (done ++ keys) v
        | .error _ => fails ∧ (Separate (fun k => newPrefix ++ k.drop oldPrefix.length) all →
            ∃ made, (∀ k ∈ made, k ∈ all) ∧
              Copied content (fun k => newPrefix ++ k.drop oldPrefix.length) made v) := by
  induction keys with
  | nil =>
    intro t done _ _ _ hcopied
    apply ends_done
    rw [List.append_nil]
    exact hcopied
  | cons source keys ih =>
    intro t done hdone hkeys hthere hcopied
    obtain ⟨o, hget⟩ := Option.isSome_iff_exists.1 (hthere source List.mem_cons_self)
    have hsource : source ∈ all := hkeys source List.mem_cons_self
    have hbody : t.content source = some o.body := by
      unfold Bucket.content
      rw [hget]
      rfl
    have hnext : ∀ v, Written t v (newPrefix ++ source.drop oldPrefix.length) o.body →
        Separate (fun k => newPrefix ++ k.drop oldPrefix.length) all →
          Copied content (fun k => newPrefix ++ k.drop oldPrefix.length) (done ++ [source]) v :=
      fun v hwritten hsep => copied_written hsep hdone hsource (hcopied hsep) hbody hwritten
    have hmore : ∀ k ∈ done ++ [source], k ∈ all := by
      intro k hk
      rcases List.mem_append.1 hk with hk | hk
      · exact hdone k hk
      · rw [List.mem_singleton.1 hk]
        exact hsource
    unfold S3StorageAdapter.copyAll
    apply ends_bind (ends_copyObject hget)
    · intro _ v hwritten
      have hrest := ih v (done ++ [source]) hmore (fun k hk => hkeys k (List.mem_cons_of_mem _ hk))
        (by
          intro k hk
          have hsome := hthere k (List.mem_cons_of_mem _ hk)
          have hcontent : (v.content k).isSome = true := by
            rw [hwritten k]
            split
            · rfl
            · unfold Bucket.content
              rw [Option.isSome_map]
              exact hsome
          unfold Bucket.content at hcontent
          rw [Option.isSome_map] at hcontent
          exact hcontent)
        (hnext v hwritten)
      rw [List.append_assoc] at hrest
      exact hrest
    · intro e v h
      obtain ⟨hf, hor⟩ := h
      refine ⟨hf, ?_⟩
      intro hsep
      rcases hor with hsame | hwritten
      · refine ⟨done, hdone, ?_⟩
        intro k
        rw [hsame k]
        exact hcopied hsep k
      · exact ⟨done ++ [source], hmore, hnext v hwritten hsep⟩

end
/-! ### The rename -/

section
variable {fails : Prop} {b : Bucket} {s : S3StorageAdapter} {oldPath newPath old new : Str}

/-- The keys below the old key, as the rename lists them. -/
def sources (b : Bucket) (old : Str) : List Str := (b.entriesUnder (asDir old)).map (·.key)

theorem mem_sources {k : Str} : k ∈ sources b old ↔ ∃ o ∈ b.objects, o.key = k ∧ asDir old <+: k := by
  unfold sources
  rw [List.mem_map]
  constructor
  · intro h
    obtain ⟨e, he, hkey⟩ := h
    obtain ⟨o, ho, hunder, hentry⟩ := mem_entriesUnder.1 he
    have hk : o.key = k := by
      rw [← hkey, hentry]
    exact ⟨o, ho, hk, hk ▸ hunder⟩
  · intro h
    obtain ⟨o, ho, hk, hunder⟩ := h
    exact ⟨_, mem_entriesUnder.2 ⟨o, ho, hk ▸ hunder, rfl⟩, hk⟩

/-- The name of a copy made below the new key. -/
def target (old new key : Str) : Str := asDir new ++ key.drop (asDir old).length

/-- What is left after the rename of a single object. -/
def FileRenamed {α : Type} (fails : Prop) (b : Bucket) (old new : Str) (body : Bytes)
    (r : Except Exc α) (t : Bucket) : Prop :=
  let gone : Prop := ∀ k, t.content k = if k = old then none
    else if k = new then some body else b.content k
  match r with
  | .ok _ => gone
  | .error _ => fails ∧ (gone ∨ Unchanged b t ∨ Written b t new body)

/-- What is left after the rename of all that is below a key. -/
def TreeRenamed {α : Type} (fails : Prop) (b : Bucket) (old new : Str) (r : Except Exc α)
    (t : Bucket) : Prop :=
  match r with
  | .ok _ => (∀ k ∈ sources b old, t.content k = none) ∧
      (Separate (target old new) (sources b old) →
        ∃ v, Copied b.content (target old new) (sources b old) v ∧
          ∀ k, k ∉ sources b old → t.content k = v.content k)
  | .error _ => (sources b old = [] ∧ t = b) ∨
      (fails ∧ (Separate (target old new) (sources b old) →
        ∃ made, (∀ k ∈ made, k ∈ sources b old) ∧
          (Copied b.content (target old new) made t ∨
            ∃ v, Copied b.content (target old new) (sources b old) v ∧
              ∀ k, k ∉ sources b old → t.content k = v.content k)))

theorem ends_renameFile {o : StoredObject} (hget : b.get old = some o) :
    Ends fails ((S3StorageAdapter.copyObject old new).bind fun _ => send (.deleteObject old)) b
      (FileRenamed fails b old new o.body) := by
  apply ends_bind (ends_copyObject hget)
  · intro _ v hwritten
    have hgone : ∀ k, (v.keep fun k => decide (k ≠ old)).content k = if k = old then none
        else if k = new then some o.body else b.content k := by
      intro k
      rw [content_keep, hwritten k]
      by_cases hk : k = old
      · simp [hk]
      · simp [hk]
    apply ends_send
    · exact fun _ => hgone
    · intro hf e _
      exact ⟨⟨hf, .inr (.inr hwritten)⟩, fun _ => ⟨hf, .inl hgone⟩⟩
  · intro e v h
    exact ⟨h.1, .inr h.2⟩

theorem ends_renameTree (b : Bucket) (old new : Str) :
    Ends fails ((send (.listObjects (asDir old) false none)).bind fun listing =>
      if listing.contents.map (·.key) = [] then Prog.raise .fileNotFound
      else (S3StorageAdapter.copyAll (asDir old) (asDir new) (listing.contents.map (·.key))).bind
        fun _ => S3StorageAdapter.deleteBatches
          (S3StorageAdapter.batches (listing.contents.map (·.key)))) b
      (TreeRenamed fails b old new) := by
  have hask : Ends fails (send (.listObjects (asDir old) false none)) b fun r t =>
      t = b ∧ (r = .ok (b.listing (asDir old) false none) ∨ (fails ∧ ∃ e, r = .error e)) :=
    ends_ask (fun _ => rfl) ⟨rfl, .inl rfl⟩ fun hf e _ => ⟨rfl, .inr ⟨hf, e, rfl⟩⟩
  apply ends_bind hask
  · intro listing t h
    obtain ⟨ht, hor⟩ := h
    have hlisting : listing = b.listing (asDir old) false none := by
      rcases hor with hok | hfail
      · exact Except.ok.inj hok
      · obtain ⟨-, e, heq⟩ := hfail
        cases heq
    subst ht
    subst hlisting
    rw [listing_contents]
    show Ends fails (if sources t old = [] then _ else _) t _
    split
    next hnone => exact ends_done (.inl ⟨hnone, rfl⟩)
    next =>
      have hthere : ∀ k ∈ sources t old, (t.get k).isSome = true := by
        intro k hk
        obtain ⟨o, ho, hkey, -⟩ := mem_sources.1 hk
        rw [← hkey, get_of_mem ho]
        rfl
      have hcopy : Ends fails (S3StorageAdapter.copyAll (asDir old) (asDir new) (sources t old)) t
          fun r v =>
            match r with
            | .ok _ => Separate (target old new) (sources t old) →
                Copied t.content (target old new) ([] ++ sources t old) v
            | .error _ => fails ∧ (Separate (target old new) (sources t old) →
                ∃ made, (∀ k ∈ made, k ∈ sources t old) ∧
                  Copied t.content (target old new) made v) :=
        ends_copyAll (sources t old) t [] (fun _ hk => by cases hk) (fun _ hk => hk) hthere
          fun _ k => .inr ⟨fun _ hk => (by cases hk), rfl⟩
      apply ends_bind hcopy
      · intro _ v hcopied
        apply ends_mono (ends_deleteBatches _ v)
        intro r u hu
        have hother : ∀ k, k ∉ sources t old → u.content k = v.content k := by
          intro k hk
          apply hu.1
          rw [mem_flatten_batches]
          exact hk
        cases r with
        | ok a =>
          refine ⟨?_, fun hsep => ⟨v, hcopied hsep, hother⟩⟩
          intro k hk
          exact hu.2 k (mem_flatten_batches.2 hk)
        | error e => exact .inr ⟨hu.2, fun hsep => ⟨[], fun _ hk => (by cases hk), .inr ⟨v, hcopied hsep, hother⟩⟩⟩
      · intro e v h
        refine .inr ⟨h.1, ?_⟩
        intro hsep
        obtain ⟨made, hmade, hcopied⟩ := h.2 hsep
        exact ⟨made, hmade, .inl hcopied⟩
  · intro e t h
    obtain ⟨ht, hor⟩ := h
    rcases hor with hok | hfail
    · cases hok
    · refine .inr ⟨hfail.1, fun _ => ⟨[], fun _ hk => (by cases hk), .inl ?_⟩⟩
      rw [ht]
      exact fun k => .inr ⟨fun _ hk => (by cases hk), rfl⟩

theorem ends_renameAny (fails : Prop) (hold : objectKey s.adapter oldPath = .ok old)
    (hnew : objectKey s.adapter newPath = .ok new) (b : Bucket) :
    (∀ o, old ≠ [] → b.get old = some o →
      Ends fails (s.rename oldPath newPath) b (FileRenamed fails b old new o.body)) ∧
    (old = [] ∨ b.get old = none →
      Ends fails (s.rename oldPath newPath) b (TreeRenamed fails b old new)) := by
  have hstart : s.rename oldPath newPath = (S3StorageAdapter.headExists old).bind fun present =>
      if present = true then
        (S3StorageAdapter.copyObject old new).bind fun _ => send (.deleteObject old)
      else (send (.listObjects (asDir old) false none)).bind fun listing =>
        if listing.contents.map (·.key) = [] then Prog.raise .fileNotFound
        else (S3StorageAdapter.copyAll (asDir old) (asDir new) (listing.contents.map (·.key))).bind
          fun _ => S3StorageAdapter.deleteBatches
            (S3StorageAdapter.batches (listing.contents.map (·.key))) := by
    unfold S3StorageAdapter.rename S3StorageAdapter.listPrefix S3StorageAdapter.key
    rw [hold, hnew]
    rfl
  rw [hstart]
  constructor
  · intro o hne hget
    apply ends_bind (ends_headExists old b)
    · intro present t h
      obtain ⟨ht, hor⟩ := h
      have hpresent : present = true := by
        rcases hor with hok | hfail
        · rw [Except.ok.inj hok, hget, decide_eq_true hne]
          rfl
        · obtain ⟨-, e, heq⟩ := hfail
          cases heq
      rw [hpresent, if_pos rfl, ht]
      exact ends_renameFile hget
    · intro e t h
      obtain ⟨ht, hor⟩ := h
      rcases hor with hok | hfail
      · cases hok
      · exact ⟨hfail.1, .inr (.inl (ht ▸ .refl b))⟩
  · intro hnone
    apply ends_bind (ends_headExists old b)
    · intro present t h
      obtain ⟨ht, hor⟩ := h
      have hpresent : present = false := by
        rcases hor with hok | hfail
        · rw [Except.ok.inj hok]
          rcases hnone with hnil | hfree
          · simp [hnil]
          · simp [hfree]
        · obtain ⟨-, e, heq⟩ := hfail
          cases heq
      rw [hpresent, ht]
      exact ends_renameTree b old new
    · intro e t h
      obtain ⟨ht, hor⟩ := h
      rcases hor with hok | hfail
      · cases hok
      · refine .inr ⟨hfail.1, fun _ => ⟨[], fun _ hk => (by cases hk), .inl ?_⟩⟩
        rw [ht]
        exact fun k => .inr ⟨fun _ hk => (by cases hk), rfl⟩

/-! ### Overlaps -/

theorem key_not_slash {path key : Str} (h : objectKey s.adapter path = .ok key) : ¬ ['/'] <:+ key := by
  obtain ⟨logical, hsafe, hkey⟩ := objectKey_ok h
  have hlogical := not_suffix_of_safe hsafe
  rw [hkey]
  split
  next => exact s.root_stripped
  next hsome =>
    split
    next => exact hlogical
    next =>
      intro hslash
      have hlast : ['/'] <:+ logical := by
        have hform : ∀ root : Str, root ++ '/' :: logical = (root ++ ['/']) ++ logical := by
          intro root
          rw [List.append_assoc]
          rfl
        rw [hform] at hslash
        apply List.suffix_of_suffix_length_le hslash (List.suffix_append _ _)
        exact List.length_pos_iff.2 hsome
      exact hlogical hlast

theorem asDir_of {key : Str} (hne : key ≠ []) (h : ¬ ['/'] <:+ key) : asDir key = key ++ ['/'] := by
  unfold asDir
  rw [if_neg (by tauto)]

theorem not_below_self {key : Str} (hne : key ≠ []) (h : ¬ ['/'] <:+ key) : ¬ asDir key <+: key := by
  intro hprefix
  have hlen := hprefix.length_le
  rw [asDir_of hne h, List.length_append, List.length_singleton] at hlen
  omega

theorem relocate_below {k : Str} (h : asDir old <+: k) : relocate old new k = target old new k := by
  unfold relocate
  rw [if_pos h]
  rfl

theorem relocate_self (hne : old ≠ []) (h : ¬ ['/'] <:+ old) : relocate old new old = new := by
  unfold relocate
  rw [if_neg (not_below_self hne h)]

theorem moved_file {o : StoredObject} (hne : old ≠ []) (hget : b.get old = some o) {k : Str} :
    Moved b old k ↔ k = old := by
  unfold Moved
  rw [if_pos ⟨hne, by rw [hget]; rfl⟩]

theorem moved_tree (h : old = [] ∨ b.get old = none) {k : Str} :
    Moved b old k ↔ asDir old <+: k := by
  unfold Moved
  rw [if_neg]
  intro hboth
  rcases h with hnil | hnone
  · exact hboth.1 hnil
  · rw [hnone] at hboth
    cases hboth.2

/-- Without an object at the old key, all that it covers is moved. -/
theorem covers_tree (h : old = [] ∨ b.get old = none) {o : StoredObject} (ho : o ∈ b.objects) :
    Covers old o.key ↔ asDir old <+: o.key := by
  constructor
  · intro hcovers
    rcases hcovers with heq | hunder
    · rcases h with hnil | hnone
      · rw [hnil]
        exact List.nil_prefix
      · have hthere := get_of_mem ho
        rw [heq, hnone] at hthere
        cases hthere
    · exact hunder
  · exact fun hunder => .inr hunder

/-- If the new key is below the old one, what lies below the old key cannot all have a copy. -/
theorem none_below (hne : new ≠ []) (hslash : ¬ ['/'] <:+ new) (hinside : asDir old <+: new)
    (hcopies : ∀ o ∈ b.objects, asDir old <+: o.key →
      ∃ o' ∈ b.objects, o'.key = relocate old new o.key) :
    ∀ o ∈ b.objects, ¬ asDir old <+: o.key := by
  -- the copy of the longest key would be longer
  have hlonger : ∀ n : Nat, ∀ o ∈ b.objects, asDir old <+: o.key →
      ∃ o' ∈ b.objects, asDir old <+: o'.key ∧ n ≤ o'.key.length := by
    intro n
    induction n with
    | zero => exact fun o ho hunder => ⟨o, ho, hunder, Nat.zero_le _⟩
    | succ n ih =>
      intro o ho hunder
      obtain ⟨o', ho', hunder', hlen⟩ := ih o ho hunder
      obtain ⟨o'', ho'', hkey⟩ := hcopies o' ho' hunder'
      rw [relocate_below hunder', target, asDir_of hne hslash] at hkey
      refine ⟨o'', ho'', ?_, ?_⟩
      · rw [hkey, List.append_assoc]
        exact hinside.trans (List.prefix_append _ _)
      · have hshort := hinside.length_le
        have hcut := hunder'.length_le
        rw [hkey]
        simp only [List.length_append, List.length_singleton, List.length_drop]
        omega
  intro o ho hunder
  obtain ⟨o', ho', -, hlen⟩ := hlonger ((b.objects.map fun o => o.key.length).sum + 1) o ho hunder
  have hle : o'.key.length ≤ (b.objects.map fun o => o.key.length).sum :=
    List.le_sum_of_mem (List.mem_map.2 ⟨o', ho', rfl⟩)
  omega

/-! ### Clear renames -/

theorem fileRenamed_ok (hne : old ≠ []) (hslash : ¬ ['/'] <:+ old) {o : StoredObject}
    (hget : b.get old = some o) (hclear : Clear b old new) {t : Bucket}
    (h : ∀ k, t.content k = if k = old then none else if k = new then some o.body else b.content k) :
    AllMoved b t old new := by
  have ho := get_some hget
  have hself : Moved b old o.key := (moved_file hne hget).2 ho.2
  have hto : relocate old new o.key = new := by
    rw [ho.2]
    exact relocate_self hne hslash
  have hapart : ∀ o' ∈ b.objects, o'.key = new → o'.key ≠ old ∧ o'.body = o.body := by
    intro o' ho' hat
    have hboth := hclear.apart o ho.1 hself o' ho' (hat.trans hto.symm)
    exact ⟨fun heq => hboth.1 ((moved_file hne hget).2 heq), hboth.2⟩
  have hnew : new ≠ old := by
    intro heq
    exact (hapart o ho.1 (ho.2.trans heq.symm)).1 ho.2
  -- what neither moves nor is overwritten keeps its bytes
  have hkept : ∀ o' ∈ b.objects, o'.key ≠ old → t.content o'.key = some o'.body := by
    intro o' ho' hother
    rw [h, if_neg hother]
    split
    next hat => rw [(hapart o' ho' hat).2]
    next => exact content_of_mem ho'
  intro o' ho'
  split
  next hcovers =>
    by_cases hat : o'.key = old
    · have hsame : o' = o := by
        have hget' := get_of_mem ho'
        rw [hat, hget] at hget'
        exact (Option.some.inj hget').symm
      rw [hsame, hto, h, if_neg hnew, if_pos rfl]
    · obtain ⟨o'', ho'', hkey, hstays, hbody⟩ :=
        hclear.whole o' ho' hcovers fun hmoved => hat ((moved_file hne hget).1 hmoved)
      rw [← hkey, ← hbody]
      exact hkept o'' ho'' fun heq => hstays ((moved_file hne hget).2 heq)
  next hcovers =>
    apply hkept o' ho'
    intro heq
    exact hcovers (.inl heq)

theorem noneLost_of_kept {t : Bucket} (h : ∀ o ∈ b.objects, t.content o.key = some o.body) :
    NoneLost b t old new := fun o ho => .inl (h o ho)

theorem noneLost_of_allMoved {t : Bucket} (h : AllMoved b t old new) : NoneLost b t old new := by
  intro o ho
  have hmoved := h o ho
  split at hmoved
  next hcovers => exact .inr ⟨hcovers, hmoved⟩
  next => exact .inl hmoved

theorem fileRenamed_error (hne : old ≠ []) (hslash : ¬ ['/'] <:+ old) {o : StoredObject}
    (hget : b.get old = some o) (hclear : Clear b old new) {t : Bucket}
    (h : Written b t new o.body) : NoneLost b t old new := by
  have ho := get_some hget
  have hto : relocate old new o.key = new := by
    rw [ho.2]
    exact relocate_self hne hslash
  apply noneLost_of_kept
  intro o' ho'
  rw [h]
  split
  next hat =>
    rw [(hclear.apart o ho.1 ((moved_file hne hget).2 ho.2) o' ho' (hat.trans hto.symm)).2]
  next => exact content_of_mem ho'

theorem separate_of_clear (hnone : old = [] ∨ b.get old = none) (hclear : Clear b old new) :
    Separate (target old new) (sources b old) := by
  constructor
  · intro k hk k' hk' heq
    obtain ⟨o, ho, hkey, hunder⟩ := mem_sources.1 hk
    obtain ⟨o', ho', hkey', hunder'⟩ := mem_sources.1 hk'
    have hat : o'.key = relocate old new o.key := by
      rw [hkey', hkey, relocate_below hunder]
      exact heq.symm
    apply (hclear.apart o ho ((moved_tree hnone).2 (hkey ▸ hunder)) o' ho' hat).1
    exact (moved_tree hnone).2 (hkey' ▸ hunder')
  · intro k hk k' hk' heq
    obtain ⟨-, -, -, hunder⟩ := mem_sources.1 hk
    obtain ⟨-, -, -, hunder'⟩ := mem_sources.1 hk'
    obtain ⟨rest, hrest⟩ := hunder
    obtain ⟨rest', hrest'⟩ := hunder'
    have htail := List.append_cancel_left heq
    rw [← hrest, ← hrest', List.drop_left, List.drop_left] at htail
    rw [← hrest, ← hrest', htail]

/-- A copy over an object that is not moved leaves its bytes. -/
theorem copied_kept (hnone : old = [] ∨ b.get old = none) (hclear : Clear b old new)
    {made : List Str} (hmade : ∀ k ∈ made, k ∈ sources b old) {t : Bucket}
    (h : Copied b.content (target old new) made t) :
    ∀ o ∈ b.objects, t.content o.key = some o.body := by
  intro o ho
  rcases h o.key with hcopy | hkept
  · obtain ⟨k, hk, htarget, hcontent⟩ := hcopy
    obtain ⟨o', ho', hkey, hunder⟩ := mem_sources.1 (hmade k hk)
    have hat : o.key = relocate old new o'.key := by
      rw [hkey, relocate_below hunder]
      exact htarget.symm
    have hbody := (hclear.apart o' ho' ((moved_tree hnone).2 (hkey ▸ hunder)) o ho hat).2
    rw [hcontent, ← hkey, content_of_mem ho', hbody]
  · rw [hkept.2]
    exact content_of_mem ho

theorem treeRenamed_moved (hnone : old = [] ∨ b.get old = none) (hclear : Clear b old new)
    {t v : Bucket} (hcopied : Copied b.content (target old new) (sources b old) v)
    (hother : ∀ k, k ∉ sources b old → t.content k = v.content k) : AllMoved b t old new := by
  have hsep := separate_of_clear hnone hclear
  intro o ho
  split
  next hcovers =>
    have hunder := (covers_tree hnone ho).1 hcovers
    have hsource : o.key ∈ sources b old := mem_sources.2 ⟨o, ho, rfl, hunder⟩
    have htarget : target old new o.key ∉ sources b old :=
      fun hmem => hsep.1 o.key hsource _ hmem rfl
    rw [relocate_below hunder, hother _ htarget]
    rcases hcopied (target old new o.key) with hcopy | hkept
    · obtain ⟨k, hk, heq, hcontent⟩ := hcopy
      rw [hcontent, hsep.2 k hk o.key hsource heq]
      exact content_of_mem ho
    · exact absurd rfl (hkept.1 o.key hsource)
  next hcovers =>
    have hout : o.key ∉ sources b old := by
      intro hmem
      obtain ⟨o', -, -, hunder⟩ := mem_sources.1 hmem
      exact hcovers (.inr hunder)
    rw [hother _ hout]
    exact copied_kept hnone hclear (fun _ hk => hk) hcopied o ho

theorem clear_of_file (hne : old ≠ []) (hslash : ¬ ['/'] <:+ old) (hne' : new ≠ [])
    (hslash' : ¬ ['/'] <:+ new) {o : StoredObject} (hget : b.get old = some o) {t : Bucket}
    (h : ∀ k, t.content k = if k = old then none else if k = new then some o.body else b.content k)
    (hmoved : AllMoved b t old new) : Clear b old new := by
  have ho := get_some hget
  have harrived : t.content new = some o.body := by
    have hown := hmoved o ho.1
    rw [if_pos (.inl ho.2), ho.2, relocate_self hne hslash] at hown
    exact hown
  have hnew : new ≠ old := by
    intro heq
    rw [h, if_pos heq] at harrived
    cases harrived
  have hcopies : ∀ o' ∈ b.objects, asDir old <+: o'.key →
      ∃ o'' ∈ b.objects, o''.key = relocate old new o'.key ∧ o''.key ≠ old ∧ o''.body = o'.body := by
    intro o' ho' hunder
    have hown := hmoved o' ho'
    rw [if_pos (.inr hunder), h] at hown
    split at hown
    next => cases hown
    next hother =>
      have hlong : relocate old new o'.key ≠ new := by
        intro heq
        have hlen := congrArg List.length heq
        rw [relocate_below hunder, target, asDir_of hne' hslash'] at hlen
        simp only [List.length_append, List.length_singleton] at hlen
        omega
      rw [if_neg hlong] at hown
      obtain ⟨o'', ho'', hkey, hbody, -⟩ := content_some hown
      exact ⟨o'', ho'', hkey, fun heq => hother (hkey ▸ heq), hbody⟩
  constructor
  case apart =>
    intro o₁ ho₁ hself o' ho' hat
    have heq₁ := (moved_file hne hget).1 hself
    have hsame : o₁ = o := by
      have hget₁ := get_of_mem ho₁
      rw [heq₁, hget] at hget₁
      exact (Option.some.inj hget₁).symm
    rw [heq₁, relocate_self hne hslash] at hat
    refine ⟨fun hmoved' => hnew (hat.symm.trans ((moved_file hne hget).1 hmoved')), ?_⟩
    by_cases hinside : Covers old new
    · -- the copies below the old key would never end
      have hunder : asDir old <+: new := hinside.resolve_left hnew
      have hnothing := none_below hne' hslash' hunder fun o ho hbelow => by
        obtain ⟨o'', ho'', hkey, -⟩ := hcopies o ho hbelow
        exact ⟨o'', ho'', hkey⟩
      exact absurd (hat ▸ hunder) (hnothing o' ho')
    · have hown := hmoved o' ho'
      rw [hat, if_neg hinside, harrived] at hown
      rw [hsame]
      exact (Option.some.inj hown).symm
  case whole =>
    intro o' ho' hcovers hstays
    have hunder : asDir old <+: o'.key :=
      hcovers.resolve_left fun heq => hstays ((moved_file hne hget).2 heq)
    obtain ⟨o'', ho'', hkey, hother, hbody⟩ := hcopies o' ho' hunder
    exact ⟨o'', ho'', hkey, fun hself => hother ((moved_file hne hget).1 hself), hbody⟩

theorem clear_of_tree (hnone : old = [] ∨ b.get old = none) {t : Bucket}
    (hgone : ∀ k ∈ sources b old, t.content k = none) (hmoved : AllMoved b t old new) :
    Clear b old new := by
  constructor
  case apart =>
    intro o ho hself o' ho' hat
    have hunder := (moved_tree hnone).1 hself
    have harrived := hmoved o ho
    rw [if_pos (.inr hunder), ← hat] at harrived
    have hstays : ¬ Moved b old o'.key := by
      intro hself'
      have hsource : o'.key ∈ sources b old :=
        mem_sources.2 ⟨o', ho', rfl, (moved_tree hnone).1 hself'⟩
      rw [hgone _ hsource] at harrived
      cases harrived
    have hout : ¬ Covers old o'.key :=
      fun hcovers => hstays ((moved_tree hnone).2 ((covers_tree hnone ho').1 hcovers))
    have hown := hmoved o' ho'
    rw [if_neg hout, harrived] at hown
    exact ⟨hstays, (Option.some.inj hown).symm⟩
  case whole =>
    intro o ho hcovers hstays
    exact absurd ((moved_tree hnone).2 ((covers_tree hnone ho).1 hcovers)) hstays

/-- The rename moves without loss: what it returns from has moved everything and changed nothing
else, and whatever call fails, nothing is lost. -/
def MovesSafely (s : S3StorageAdapter) (oldPath newPath : Str) (b : Bucket) : Prop :=
  ∀ r t, Exec (Calls True) (s.rename oldPath newPath) b r t →
    ∀ old new, objectKey s.adapter oldPath = .ok old → objectKey s.adapter newPath = .ok new →
      (r = .ok () → AllMoved b t old new) ∧ (∀ e, r = .error e → NoneLost b t old new)

theorem movesSafely_of_clear (hold : objectKey s.adapter oldPath = .ok old)
    (hnew : objectKey s.adapter newPath = .ok new) (hclear : Clear b old new)
    {r : Except Exc Unit} {t : Bucket} (h : Exec (Calls True) (s.rename oldPath newPath) b r t) :
    (r = .ok () → AllMoved b t old new) ∧ (∀ e, r = .error e → NoneLost b t old new) := by
  have hslash := key_not_slash hold
  have hends := ends_renameAny True hold hnew b
  by_cases hnone : old = [] ∨ b.get old = none
  · have hleft := (wp_sound (hends.2 hnone) h).2
    have hsep := separate_of_clear hnone hclear
    cases r with
    | ok a =>
      obtain ⟨v, hcopied, hother⟩ := hleft.2 hsep
      exact ⟨fun _ => treeRenamed_moved hnone hclear hcopied hother, fun _ heq => by cases heq⟩
    | error e =>
      refine ⟨fun heq => (by cases heq), fun _ _ => ?_⟩
      rcases hleft with hnothing | hfailed
      · rw [hnothing.2]
        exact noneLost_of_kept fun o ho => content_of_mem ho
      · obtain ⟨made, hmade, hor⟩ := hfailed.2 hsep
        rcases hor with hcopied | hdeleted
        · exact noneLost_of_kept (copied_kept hnone hclear hmade hcopied)
        · obtain ⟨v, hcopied, hother⟩ := hdeleted
          exact noneLost_of_allMoved (treeRenamed_moved hnone hclear hcopied hother)
  · rw [not_or] at hnone
    obtain ⟨o, hget⟩ := Option.ne_none_iff_exists'.1 hnone.2
    have hleft := (wp_sound (hends.1 o hnone.1 hget) h).2
    cases r with
    | ok a =>
      exact ⟨fun _ => fileRenamed_ok hnone.1 hslash hget hclear hleft, fun _ heq => by cases heq⟩
    | error e =>
      refine ⟨fun heq => (by cases heq), fun _ _ => ?_⟩
      rcases hleft.2 with hgone | hsame | hwritten
      · exact noneLost_of_allMoved (fileRenamed_ok hnone.1 hslash hget hclear hgone)
      · exact noneLost_of_kept fun o ho => (hsame o.key).trans (content_of_mem ho)
      · exact fileRenamed_error hnone.1 hslash hget hclear hwritten

theorem calls_serve (fails : Prop) (c : S3Cmd) (b : Bucket) :
    Calls fails c b (Bucket.serve 0 c b).1 (Bucket.serve 0 c b).2 := .inl ⟨0, rfl⟩

/-- For keys that S3 has, a rename moves without loss exactly if it is clear. -/
theorem rename_moves (s : S3StorageAdapter) (oldPath newPath : Str)
    (hkey : objectKey s.adapter newPath ≠ .ok []) (b : Bucket) :
    MovesSafely s oldPath newPath b ↔
      ∀ old new, objectKey s.adapter oldPath = .ok old → objectKey s.adapter newPath = .ok new →
        Clear b old new := by
  constructor
  · intro hsafe old new hold hnew
    -- the run in which no call fails
    have hrun := exec_run (calls_serve True) (s.rename oldPath newPath) b
    have hfree := exec_run (calls_serve False) (s.rename oldPath newPath) b
    have hboth := hsafe _ _ hrun old new hold hnew
    have hends := ends_renameAny False hold hnew b
    have hnew0 : new ≠ [] := fun heq => hkey (heq ▸ hnew)
    generalize (s.rename oldPath newPath).run (Bucket.serve 0) b = result at hboth hfree
    obtain ⟨r, t⟩ := result
    by_cases hnone : old = [] ∨ b.get old = none
    · have hleft := (wp_sound (hends.2 hnone) hfree).2
      cases r with
      | ok a => exact clear_of_tree hnone hleft.1 (hboth.1 rfl)
      | error e =>
        rcases hleft with hnothing | hfailed
        · -- there is nothing to move
          have hempty : ∀ o ∈ b.objects, ¬ asDir old <+: o.key := by
            intro o ho hunder
            have hmem : o.key ∈ sources b old := mem_sources.2 ⟨o, ho, rfl, hunder⟩
            rw [hnothing.1] at hmem
            cases hmem
          constructor
          · exact fun o ho hself => absurd ((moved_tree hnone).1 hself) (hempty o ho)
          · exact fun o ho hcovers => absurd ((covers_tree hnone ho).1 hcovers) (hempty o ho)
        · exact hfailed.1.elim
    · rw [not_or] at hnone
      obtain ⟨o, hget⟩ := Option.ne_none_iff_exists'.1 hnone.2
      have hleft := (wp_sound (hends.1 o hnone.1 hget) hfree).2
      cases r with
      | ok a =>
        exact clear_of_file hnone.1 (key_not_slash hold) hnew0 (key_not_slash hnew) hget hleft
          (hboth.1 rfl)
      | error e => exact hleft.1.elim
  · intro hclear r t h old new hold hnew
    exact movesSafely_of_clear hold hnew (hclear old new hold hnew) h

end

/-! ### One object -/

/-- The files of a user. -/
def files : S3StorageAdapter := .new "users/u/files".toList (fun _ => "") fun s => s

def object : StoredObject := ⟨"users/u/files/a".toList, [97], 0⟩

def oneObject : Bucket := ⟨[object], List.nodup_singleton _, []⟩

theorem files_keys : objectKey files.adapter "a".toList = .ok "users/u/files/a".toList ∧
    objectKey files.adapter "b".toList = .ok "users/u/files/b".toList := by
  decide +kernel

/-- A file that is renamed to its own name is lost. -/
theorem renamed_to_itself : ¬ MovesSafely files "a".toList "a".toList oneObject := by
  intro hsafe
  have hrun := exec_run (calls_serve True) (files.rename "a".toList "a".toList) oneObject
  have hfree := exec_run (calls_serve False) (files.rename "a".toList "a".toList) oneObject
  have hboth := hsafe _ _ hrun _ _ files_keys.1 files_keys.1
  have hends := (ends_renameAny False files_keys.1 files_keys.1 oneObject).1 object (by decide) rfl
  have hleft := (wp_sound hends hfree).2
  generalize (files.rename "a".toList "a".toList).run (Bucket.serve 0) oneObject = result at hboth hleft
  obtain ⟨r, t⟩ := result
  cases r with
  | ok a =>
    have hgone : t.content "users/u/files/a".toList = none := by
      rw [hleft, if_pos rfl]
    have hmoved := hboth.1 rfl object (List.mem_singleton_self _)
    have hself : relocate "users/u/files/a".toList "users/u/files/a".toList object.key =
        "users/u/files/a".toList := by decide +kernel
    rw [if_pos (.inl rfl), hself, hgone] at hmoved
    cases hmoved
  | error e => exact hleft.1

instance (b : Bucket) (old key : Str) : Decidable (Moved b old key) :=
  inferInstanceAs (Decidable (if old ≠ [] ∧ (b.get old).isSome = true then key = old
    else asDir old <+: key))

/-- The directory `a` with its marker, a file and a directory in it, and a file beside it. -/
def directoryObjects : Bucket where
  objects := [⟨"users/u/files/a/".toList, [], 0⟩, ⟨"users/u/files/a/x".toList, [97], 0⟩,
    ⟨"users/u/files/a/b/y".toList, [98], 0⟩, ⟨"users/u/files/ab".toList, [99], 0⟩]
  key_unique := by decide
  uploads := []

/-- A directory moves with all that is in it. -/
theorem directory_renamed_to_another : MovesSafely files "a".toList "b".toList directoryObjects := by
  have hb : objectKey files.adapter "b".toList ≠ .ok [] := by
    rw [files_keys.2]
    decide
  apply (rename_moves files "a".toList "b".toList hb directoryObjects).2
  intro old new hold hnew
  rw [files_keys.1] at hold
  rw [files_keys.2] at hnew
  cases hold
  cases hnew
  constructor
  case apart => decide +kernel
  case whole => decide +kernel

end WebStorage.S3.Rename
