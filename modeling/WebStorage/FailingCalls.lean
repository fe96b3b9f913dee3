import WebStorage.StorageRename

set_option autoImplicit false

/-! The storage operations of an upload when one call fails: which call it was tells what is left
of the objects. -/
namespace WebStorage.S3
open Effect Effect.Prog

variable {α : Type} {may : S3Cmd → Bool → Prop} {b : Bucket} {key : Str}

/-! ### The write -/

/-- What a write leaves; it also raises when its stream does. -/
def Wrote {α : Type} (may : S3Cmd → Bool → Prop) (failure : Option Exc) (b : Bucket) (key : Str)
    (body : Bytes) (r : Except Exc α) (t : Bucket) : Prop :=
  match r with
  | .ok _ => failure = none ∧ Written b t key body
  | .error _ => (failure.isSome = true ∧ Unchanged b t) ∨ Broken may b key body t

theorem wrote_of_stores {failure : Option Exc} {body : Bytes} {r : Except Exc α} {t : Bucket}
    (hnone : failure = none) (h : StoresOne may b key body r t) : Wrote may failure b key body r t := by
  cases r with
  | ok a => exact ⟨hnone, h⟩
  | error e => exact .inr h

/-- What the full parts of the buffer leave: the rest of it is still to be stored. -/
def PartsStored (may : S3Cmd → Bool → Prop) (b : Bucket) (key : Str) (body : Bytes) (slot : Nat)
    (whole : Bytes) (r : Except Exc (Nat × List (Nat × Str) × Bytes)) (t : Bucket) : Prop :=
  match r with
  | .ok x => ∃ assembled, Assembling b t slot x.2.1 x.1 assembled ∧ assembled ++ x.2.2 = whole
  | .error _ => Broken may b key body t

theorem at_uploadFullParts (body : Bytes) (slot : Nat) (n : Nat) :
    ∀ (t : Bucket) (partNumber : Nat) (parts : List (Nat × Str)) (assembled buffer : Bytes),
      buffer.length ≤ n → Assembling b t slot parts partNumber assembled →
      EndsAt may (S3StorageAdapter.uploadFullParts key (List.replicate slot 'u') partNumber parts
        buffer) t (PartsStored may b key body slot (assembled ++ buffer)) := by
  have hpart := multipartPartSize_pos
  induction n with
  | zero =>
    intro t partNumber parts assembled buffer hlen h
    rw [S3StorageAdapter.uploadFullParts, dif_neg (by omega)]
    exact ends_done ⟨assembled, h, rfl⟩
  | succ n ih =>
    intro t partNumber parts assembled buffer hlen h
    rw [S3StorageAdapter.uploadFullParts]
    split
    next hfull =>
      apply ends_bind (at_uploadPart body (buffer.take multipartPartSize) h)
      · intro tag v hv
        have hsplit : assembled ++ buffer = assembled ++ buffer.take multipartPartSize ++
            buffer.drop multipartPartSize := by
          rw [List.append_assoc, List.take_append_drop]
        rw [hsplit]
        apply ih v _ _ _ _ _ hv
        rw [List.length_drop]
        omega
      · exact fun _ _ hv => hv
    next => exact ends_done ⟨assembled, h, rfl⟩

theorem at_completeMultipart {slot partNumber : Nat} {t : Bucket} {parts : List (Nat × Str)}
    {assembled buffer : Bytes} (h : Assembling b t slot parts partNumber assembled) :
    EndsAt may (S3StorageAdapter.completeMultipart key (List.replicate slot 'u') partNumber parts
      buffer) t (StoresOne may b key (assembled ++ buffer)) := by
  unfold S3StorageAdapter.completeMultipart
  split
  next hnil =>
    rw [hnil, List.append_nil]
    exact at_completeUpload h
  next =>
    apply ends_bind (at_uploadPart (assembled ++ buffer) buffer h)
    · exact fun tag v hv => at_completeUpload hv
    · exact fun _ _ hv => hv

theorem at_uploadChunks (failure : Option Exc) (slot : Nat) (chunks : List Bytes) :
    ∀ (t : Bucket) (partNumber : Nat) (parts : List (Nat × Str)) (assembled buffer : Bytes),
      Assembling b t slot parts partNumber assembled →
      EndsAt may (S3StorageAdapter.uploadChunks key (List.replicate slot 'u') failure chunks partNumber
        parts buffer) t (Wrote may failure b key (assembled ++ buffer ++ chunks.flatten)) := by
  induction chunks with
  | nil =>
    intro t partNumber parts assembled buffer h
    rw [List.flatten_nil, List.append_nil]
    unfold S3StorageAdapter.uploadChunks
    cases failure with
    | some e => exact ends_done (.inl ⟨rfl, h.unchanged⟩)
    | none => exact ends_mono (at_completeMultipart h) fun _ _ hs => wrote_of_stores rfl hs
  | cons chunk chunks ih =>
    intro t partNumber parts assembled buffer h
    unfold S3StorageAdapter.uploadChunks
    apply ends_bind (at_uploadFullParts (assembled ++ buffer ++ (chunk :: chunks).flatten) slot _ t
      partNumber parts assembled (buffer ++ chunk) (Nat.le_refl _) h)
    · intro x v hv
      obtain ⟨partNumber', parts', rest⟩ := x
      obtain ⟨assembled', hassembling, hwhole⟩ := hv
      have hbody : assembled ++ buffer ++ (chunk :: chunks).flatten =
          assembled' ++ rest ++ chunks.flatten := by
        rw [hwhole, List.flatten_cons]
        simp only [List.append_assoc]
      rw [hbody]
      exact ih v _ _ _ _ hassembling
    · exact fun _ _ hv => .inr hv

theorem at_writeMultipart (failure : Option Exc) (chunks : List Bytes) (buffer : Bytes) :
    EndsAt may (S3StorageAdapter.writeMultipart key failure chunks buffer) b
      (Wrote may failure b key (buffer ++ chunks.flatten)) := by
  unfold S3StorageAdapter.writeMultipart
  apply ends_bind (at_createUpload (buffer ++ chunks.flatten))
  · intro uploadId t h
    rcases h with hok | hfail
    · obtain ⟨hid, hassembling⟩ := hok
      cases hid
      have hbody : EndsAt may
          ((S3StorageAdapter.uploadFullParts key (List.replicate b.uploads.length 'u') 1 [] buffer).bind
            fun x => S3StorageAdapter.uploadChunks key (List.replicate b.uploads.length 'u') failure
              chunks x.1 x.2.1 x.2.2) t
          (Wrote may failure b key (buffer ++ chunks.flatten)) := by
        apply ends_bind (at_uploadFullParts (buffer ++ chunks.flatten) b.uploads.length _ t 1 [] []
          buffer (Nat.le_refl _) hassembling)
        · intro x v hv
          obtain ⟨assembled, hnext, hwhole⟩ := hv
          rw [List.nil_append] at hwhole
          rw [← hwhole]
          exact at_uploadChunks failure _ chunks v _ _ _ _ hnext
        · exact fun _ _ hv => .inr hv
      apply ends_catch hbody
      · exact fun _ _ hw => hw
      · intro e v hv
        have habort : EndsAt may ((S3StorageAdapter.abortMultipart key
            (List.replicate b.uploads.length 'u')).bind fun _ => (Prog.raise e : S3M Unit)) v
            (Wrote may failure b key (buffer ++ chunks.flatten)) := by
          apply ends_bind at_abort
          · intro _ v' hv'
            rw [hv'.2]
            exact ends_done hv
          · intro e' v' hv'
            cases hv'.1
        split
        · exact ends_done hv
        · exact habort
    · obtain ⟨e, heq, -⟩ := hfail
      cases heq
  · intro e t h
    rcases h with hok | hfail
    · cases hok.1
    · obtain ⟨-, -, hbroken⟩ := hfail
      exact .inr hbroken

theorem at_writeChunks (failure : Option Exc) (chunks : List Bytes) : ∀ buffer : Bytes,
    EndsAt may (S3StorageAdapter.writeChunks key failure chunks buffer) b
      (Wrote may failure b key (buffer ++ chunks.flatten)) := by
  induction chunks with
  | nil =>
    intro buffer
    rw [List.flatten_nil, List.append_nil]
    unfold S3StorageAdapter.writeChunks
    cases failure with
    | some e => exact ends_done (.inl ⟨rfl, .refl b⟩)
    | none =>
      apply at_send
      · exact fun now => ⟨rfl, fun k => content_put b key buffer now k⟩
      · intro e _
        constructor
        · exact fun hmay => .inr ⟨_, false, hmay, rfl, .inr ⟨Bool.and_false _, .refl b⟩⟩
        · intro hmay now
          exact .inr ⟨_, true, hmay, rfl,
            .inl ⟨by simp [Stores], fun k => content_put b key buffer now k⟩⟩
  | cons chunk chunks ih =>
    intro buffer
    have hbody : buffer ++ (chunk :: chunks).flatten = buffer ++ chunk ++ chunks.flatten := by
      rw [List.flatten_cons, List.append_assoc]
    rw [hbody]
    unfold S3StorageAdapter.writeChunks
    split
    · exact at_writeMultipart failure chunks (buffer ++ chunk)
    · exact ih (buffer ++ chunk)

variable {s : S3StorageAdapter} {path : Str}

/-- A write stores the bytes of its stream at the key, and returns their digest. -/
theorem at_write (hkey : objectKey s.adapter path = .ok key) (hne : key ≠ []) (data : ByteStream) :
    EndsAt may (s.write path data) b fun r t =>
      Wrote may data.failure b key data.chunks.flatten r t ∧
        ∀ digest, r = .ok digest → digest = s.sha256 data.chunks.flatten := by
  have hslash := Rename.key_not_slash hkey
  have hstart : s.write path data =
      (S3StorageAdapter.writeChunks key data.failure data.chunks []).bind
        fun _ => done (.ok (s.sha256 data.chunks.flatten)) := by
    unfold S3StorageAdapter.write S3StorageAdapter.key
    rw [hkey]
    show (if key = [] ∨ ['/'] <:+ key then _ else _) = _
    rw [if_neg (by tauto)]
    rfl
  rw [hstart]
  apply ends_bind (at_writeChunks data.failure data.chunks [])
  · intro _ t h
    apply ends_done
    refine ⟨h, ?_⟩
    intro digest heq
    exact (Except.ok.inj heq).symm
  · intro e t h
    refine ⟨h, ?_⟩
    intro digest heq
    cases heq

/-! ### Directory markers -/

theorem asDir_marker (key : Str) : asDir key = [] ∨ ['/'] <:+ asDir key := by
  unfold asDir
  split
  next hnil => exact hnil
  next => exact .inr (List.suffix_append _ _)

/-- What no directory marker touches. -/
def SameFiles (b t : Bucket) : Prop := ∀ k, k ≠ [] → ¬ ['/'] <:+ k → t.content k = b.content k

theorem SameFiles.trans {b t u : Bucket} (h : SameFiles b t) (h' : SameFiles t u) : SameFiles b u :=
  fun k hne hk => (h' k hne hk).trans (h k hne hk)

/-- A call may fail at any marker; what is no marker is left alone. -/
theorem at_makeMarkers (paths : List Str) : ∀ b : Bucket,
    EndsAt may (s.makeMarkers paths) b fun _ t => SameFiles b t := by
  induction paths with
  | nil => exact fun b => ends_done fun _ _ _ => rfl
  | cons path rest ih =>
    intro b
    unfold S3StorageAdapter.makeMarkers S3StorageAdapter.listPrefix S3StorageAdapter.key
    cases hkey : objectKey s.adapter path with
    | error e => exact ends_done fun _ _ _ => rfl
    | ok key =>
      have hput : ∀ now, SameFiles b (b.put (asDir key) [] now) := by
        intro now k hne hk
        have hother : k ≠ asDir key := by
          intro heq
          rcases asDir_marker key with hnil | hslash
          · exact hne (heq.trans hnil)
          · exact hk (heq ▸ hslash)
        rw [content_put, if_neg hother]
      have hsent : EndsAt may (send (.putObject (asDir key) [])) b fun _ t => SameFiles b t := by
        apply at_send
        · exact fun now => hput now
        · exact fun _ _ => ⟨fun _ _ _ _ => rfl, fun _ now => hput now⟩
      show EndsAt may ((send (.putObject (asDir key) [])).bind fun _ => s.makeMarkers rest) b _
      apply ends_bind hsent
      · intro _ t ht
        exact ends_mono (ih t) fun _ u hu => ht.trans hu
      · exact fun _ _ ht => ht

theorem at_mkdir (b : Bucket) : EndsAt may (s.mkdir path) b fun _ t => SameFiles b t := by
  unfold S3StorageAdapter.mkdir
  cases safeLogicalKey path with
  | error e => exact ends_done fun _ _ _ => rfl
  | ok logical =>
    show EndsAt may (if logical = [] then _ else _) b _
    split
    · exact ends_done fun _ _ _ => rfl
    · exact at_makeMarkers _ b

/-! ### The rename of an object -/

/-- The rename of one object is a copy and a deletion. If it raises, the target is written when
the copy was carried out: then the copy failed late, or the deletion failed. -/
def RenamedOne {α : Type} (may : S3Cmd → Bool → Prop) (b : Bucket) (old new : Str) (body : Bytes)
    (r : Except Exc α) (t : Bucket) : Prop :=
  match r with
  | .ok _ => ∀ k, t.content k = if k = old then none else if k = new then some body else b.content k
  | .error _ => (∃ done, may (.headObject old) done ∧ Unchanged b t) ∨ Broken may b new body t ∨
      ∃ done, may (.deleteObject old) done ∧
        ∀ k, k ≠ old → t.content k = if k = new then some body else b.content k

theorem at_renameFile {oldPath newPath old new : Str} {o : StoredObject}
    (hold : objectKey s.adapter oldPath = .ok old) (hnew : objectKey s.adapter newPath = .ok new)
    (hne : old ≠ []) (hget : b.get old = some o) :
    EndsAt may (s.rename oldPath newPath) b (RenamedOne may b old new o.body) := by
  have hstart : s.rename oldPath newPath = (S3StorageAdapter.headExists old).bind fun present =>
      if present = true then
        (S3StorageAdapter.copyObject old new).bind fun _ => send (.deleteObject old)
      else (send (.listObjects (asDir old) false none)).bind fun listing =>
        if listing.contents.map (·.key) = [] then Prog.raise .fileNotFound
        else (S3StorageAdapter.copyAll (asDir old) (asDir new) (listing.contents.map (·.key))).bind
          fun _ => S3StorageAdapter.deleteBatches
            (S3StorageAdapter.batches (listing.contents.map (·.key))) := by
    unfold S3StorageAdapter.rename S3StorageAdapter.listPrefix S3StorageAdapter.key
    rw [hold, hnew]
    rfl
  rw [hstart]
  apply ends_bind (at_headExists old b)
  · intro present t h
    have hpresent : present = true := by
      rcases h.2 with hok | hfail
      · rw [Except.ok.inj hok, hget, decide_eq_true hne]
        rfl
      · obtain ⟨-, e, heq⟩ := hfail
        cases heq
    rw [hpresent, if_pos rfl, h.1]
    apply ends_bind (at_copyObject hget)
    · intro _ v hwritten
      have hgone : ∀ k, (v.keep fun k => decide (k ≠ old)).content k = if k = old then none
          else if k = new then some o.body else b.content k := by
        intro k
        rw [content_keep, hwritten k]
        by_cases hk : k = old
        · simp [hk]
        · simp [hk]
      apply at_send
      · exact fun _ => hgone
      · intro e _
        constructor
        · intro hmay
          refine .inr (.inr ⟨false, hmay, ?_⟩)
          exact fun k _ => hwritten k
        · intro hmay _
          refine .inr (.inr ⟨true, hmay, ?_⟩)
          intro k hk
          exact (hgone k).trans (if_neg hk)
    · intro e v hv
      rcases hv with hhead | hbroken
      · exact .inl hhead
      · exact .inr (.inl hbroken)
  · intro e t h
    rcases h.2 with hok | hfail
    · cases hok
    · obtain ⟨⟨done, hmay⟩, -⟩ := hfail
      exact .inl ⟨done, hmay, h.1 ▸ .refl b⟩

/-! ### Deletions -/

/-- The calls of a check. -/
def Checks (key : Str) (c : S3Cmd) : Prop :=
  c = .headObject key ∨ c = .headObject (asDir key) ∨ c = .listObjects (asDir key) false (some 1)

theorem queries_exists (hkey : objectKey s.adapter path = .ok key) :
    Queries (Checks key) (s.exists path) := by
  have hstart : s.exists path = (S3StorageAdapter.headExists key).bind fun present =>
      if present = true then pure true
      else (S3StorageAdapter.headExists (asDir key)).bind fun marked =>
        if marked = true then pure true
        else (send (.listObjects (asDir key) false (some 1))).bind fun listing =>
          pure (decide (listing.contents ≠ [] ∨ listing.commonPrefixes ≠ [])) := by
    unfold S3StorageAdapter.exists S3StorageAdapter.existsPrefixOrMarker
      S3StorageAdapter.listPrefix S3StorageAdapter.key
    rw [hkey]
    rfl
  rw [hstart]
  apply queries_bind (queries_mono (queries_headExists key) fun _ hc => .inl hc)
  intro present
  split
  · trivial
  · apply queries_bind (queries_mono (queries_headExists (asDir key)) fun _ hc => .inr (.inl hc))
    intro marked
    split
    · trivial
    · apply queries_bind (queries_mono (queries_listObjects _ _ _) fun _ hc => .inr (.inr hc))
      exact fun _ => trivial

/-- A check changes nothing. -/
theorem at_exists (hkey : objectKey s.adapter path = .ok key) (b : Bucket) :
    EndsAt may (s.exists path) b fun r t => t = b ∧ (r = .ok (b.occupied key) ∨
      (∃ c done, Checks key c ∧ may c done) ∧ ∃ e, r = .error e) := by
  apply ends_mono (at_queries (queries_exists hkey) 0 b)
  intro r t h
  rw [Bucket.run_exists hkey] at h
  exact h

theorem batches_cons (k : Str) (keys : List Str) : ∃ rest,
    S3StorageAdapter.batches (k :: keys) = (k :: keys).take 1000 :: rest ∧
      ∀ batch ∈ rest, ∀ k' ∈ batch, k' ∈ keys := by
  have hcount : ((k :: keys).length + 999) / 1000 = (keys.length) / 1000 + 1 := by
    rw [List.length_cons]
    omega
  refine ⟨(List.range (keys.length / 1000)).map fun i => ((k :: keys).drop ((i + 1) * 1000)).take 1000,
    ?_, ?_⟩
  · unfold S3StorageAdapter.batches
    rw [hcount, List.range_succ_eq_map, List.map_cons, List.map_map]
    rfl
  · intro batch hbatch k' hk'
    obtain ⟨i, -, heq⟩ := List.mem_map.1 hbatch
    rw [← heq] at hk'
    have hdrop : (k :: keys).drop ((i + 1) * 1000) = keys.drop (i * 1000 + 999) := by
      have hsucc : (i + 1) * 1000 = i * 1000 + 999 + 1 := by omega
      rw [hsucc, List.drop_succ_cons]
    rw [hdrop] at hk'
    exact List.mem_of_mem_drop (List.mem_of_mem_take hk')

/-- What is left at a key when a deletion raises at one of its calls. -/
def HalfDeleted (may : S3Cmd → Bool → Prop) (b : Bucket) (key : Str) (t : Bucket) : Prop :=
  ∃ keys done, may (.deleteObjects keys) done ∧
    t.content key = if key ∈ keys ∧ done = false then b.content key else none

/-- The object at the key goes with the first batch. -/
theorem at_deleteFirst {batch : List Str} {rest : List (List Str)} (hmem : key ∈ batch)
    (hrest : ∀ batch' ∈ rest, key ∉ batch') (b : Bucket) :
    EndsAt may (S3StorageAdapter.deleteBatches (batch :: rest)) b fun r t =>
      (∀ k, k ∉ (batch :: rest).flatten → t.content k = b.content k) ∧
        (((∃ a, r = .ok a) ∧ ∀ k ∈ (batch :: rest).flatten, t.content k = none) ∨
          ((∃ e, r = .error e) ∧ HalfDeleted may b key t)) := by
  unfold S3StorageAdapter.deleteBatches
  apply ends_bind (at_deleteObjects batch b)
  · intro _ v hv
    obtain ⟨hother, hor⟩ := hv
    have hgone : ∀ k ∈ batch, v.content k = none := by
      rcases hor with hok | hfail
      · exact hok.2
      · obtain ⟨⟨e, heq⟩, -⟩ := hfail
        cases heq
    apply ends_mono (at_deleteBatches rest v)
    intro r u hu
    obtain ⟨hother', hstill, hor'⟩ := hu
    refine ⟨?_, ?_⟩
    · intro k hk
      rw [List.flatten_cons, List.mem_append, not_or] at hk
      rw [hother' k hk.2, hother k hk.1]
    · rcases hor' with hok | hfail
      · refine .inl ⟨hok.1, ?_⟩
        intro k hk
        rw [List.flatten_cons, List.mem_append] at hk
        rcases hk with hfirst | hlater
        · exact hstill k (hgone k hfirst)
        · exact hok.2 k hlater
      · obtain ⟨herror, later, hlater, done, hmay⟩ := hfail
        refine .inr ⟨herror, later, done, hmay, ?_⟩
        rw [if_neg fun hboth => hrest later hlater hboth.1]
        exact hstill key (hgone key hmem)
  · intro e v hv
    obtain ⟨hother, hor⟩ := hv
    refine ⟨?_, .inr ⟨⟨e, rfl⟩, ?_⟩⟩
    · intro k hk
      rw [List.flatten_cons, List.mem_append, not_or] at hk
      exact hother k hk.1
    · rcases hor with hok | hfail
      · obtain ⟨⟨a, heq⟩, -⟩ := hok
        cases heq
      · rcases hfail.2 with hlost | hdone
        · refine ⟨batch, false, hlost.1, ?_⟩
          rw [if_pos ⟨hmem, rfl⟩, hlost.2]
        · refine ⟨batch, true, hdone.1, ?_⟩
          rw [if_neg (by simp)]
          exact hdone.2 key hmem

/-- What `delete` does with the keys it has collected. -/
theorem at_deleteCollected (hne : key ≠ []) (v : Bucket) :
    EndsAt may (if v.collected key = [] then Prog.raise .fileNotFound
      else S3StorageAdapter.deleteBatches (S3StorageAdapter.batches (v.collected key))) v fun r t =>
      (∀ k, ¬ Bucket.Covers key k → t.content k = v.content k) ∧
        (((∃ a, r = .ok a) ∧ ∀ k, Bucket.Covers key k → t.content k = none) ∨
          ((∃ e, r = .error e) ∧ (v.occupied key = false ∧ t = v ∨ HalfDeleted may v key t))) := by
  -- an object that is covered is collected, and nothing else is
  have hcovered : ∀ k, k ∈ v.collected key → Bucket.Covers key k := by
    intro k hk
    obtain ⟨-, -, -, hcovers⟩ := (Bucket.mem_collected hne).1 hk
    exact hcovers
  have hfree : ∀ k, Bucket.Covers key k → k ∉ v.collected key → v.content k = none := by
    intro k hcovers hk
    cases hcontent : v.content k with
    | none => rfl
    | some body =>
      obtain ⟨o, ho, hat, -⟩ := content_some hcontent
      exact absurd ((Bucket.mem_collected hne).2 ⟨o, ho, hat, hcovers⟩) hk
  split
  next hnil =>
    apply ends_done
    refine ⟨fun _ _ => rfl, .inr ⟨⟨_, rfl⟩, .inl ⟨?_, rfl⟩⟩⟩
    rw [Bool.eq_false_iff]
    intro hocc
    obtain ⟨o, ho, hcovers⟩ := Bucket.occupied_iff.1 hocc
    have hmem := (Bucket.mem_collected hne).2 ⟨o, ho, rfl, hcovers⟩
    rw [hnil] at hmem
    cases hmem
  next =>
    have hframe : ∀ {u : Bucket}, (∀ k, k ∉ (S3StorageAdapter.batches (v.collected key)).flatten →
        u.content k = v.content k) → ∀ k, ¬ Bucket.Covers key k → u.content k = v.content k := by
      intro u hother k hk
      apply hother
      rw [Bucket.mem_flatten_batches]
      exact fun hmem => hk (hcovered k hmem)
    have hall : ∀ {u : Bucket}, (∀ k, k ∉ (S3StorageAdapter.batches (v.collected key)).flatten →
        u.content k = v.content k) →
        (∀ k ∈ (S3StorageAdapter.batches (v.collected key)).flatten, u.content k = none) →
        ∀ k, Bucket.Covers key k → u.content k = none := by
      intro u hother hgone k hk
      by_cases hmem : k ∈ v.collected key
      · exact hgone k (Bucket.mem_flatten_batches.2 hmem)
      · rw [hother k fun hin => hmem (Bucket.mem_flatten_batches.1 hin)]
        exact hfree k hk hmem
    cases hget : v.get key with
    | none =>
      have hnone : v.content key = none := by
        unfold Bucket.content
        rw [hget]
        rfl
      apply ends_mono (at_deleteBatches _ v)
      intro r u hu
      obtain ⟨hother, hstill, hor''⟩ := hu
      refine ⟨hframe hother, hor''.imp ?_ ?_⟩
      · exact fun hok => ⟨hok.1, hall hother hok.2⟩
      · intro hfail
        obtain ⟨herror, batch, -, done, hmay⟩ := hfail
        refine ⟨herror, .inr ⟨batch, done, hmay, ?_⟩⟩
        rw [hnone, ite_self]
        exact hstill key hnone
    | some o =>
      have hfirst : ∃ keys, v.collected key = key :: keys ∧ key ∉ keys := by
        have hpresent : (decide (key ≠ []) && (v.get key).isSome) = true := by
          rw [hget, decide_eq_true hne]
          rfl
        have hform : v.collected key = key :: (dictFromKeys
            ((v.entriesUnder (asDir key)).map (·.key))).filter fun k => decide (k ≠ key) := by
          unfold Bucket.collected
          rw [if_pos hpresent]
          rfl
        refine ⟨_, hform, ?_⟩
        simp
      obtain ⟨keys, hkeys, hnew⟩ := hfirst
      obtain ⟨rest, hbatches, hlater⟩ := batches_cons key keys
      have hmem : key ∈ (key :: keys).take 1000 := by simp
      rw [hkeys, hbatches] at hframe hall ⊢
      apply ends_mono (at_deleteFirst hmem (fun batch hbatch hin => hnew (hlater batch hbatch key hin)) v)
      intro r u hu
      obtain ⟨hother, hor''⟩ := hu
      refine ⟨hframe hother, hor''.imp ?_ ?_⟩
      · exact fun hok => ⟨hok.1, hall hother hok.2⟩
      · exact fun hfail => ⟨hfail.1, .inr hfail.2⟩

/-- A deletion takes what is at the key and below it, or it raises at one of its calls. -/
theorem at_delete (hkey : objectKey s.adapter path = .ok key) (hne : key ≠ []) (b : Bucket) :
    EndsAt may (s.delete path) b fun r t =>
      (∀ k, ¬ Bucket.Covers key k → t.content k = b.content k) ∧
        (((∃ a, r = .ok a) ∧ ∀ k, Bucket.Covers key k → t.content k = none) ∨
          ((∃ e, r = .error e) ∧ (b.occupied key = false ∧ t = b ∨
            (∃ c done, (c = .headObject key ∨ c = .listObjects (asDir key) false none) ∧ may c done ∧
              t = b) ∨ HalfDeleted may b key t))) := by
  obtain ⟨logical, hsafe, hform⟩ := Bucket.objectKey_ok hkey
  have hroot : ¬ (logical = [] ∧ s.rootPrefix = []) := by
    intro hboth
    rw [if_pos hboth.1] at hform
    exact hne (hform.trans hboth.2)
  have hstart : s.delete path = (S3StorageAdapter.headExists key).bind fun present =>
      (send (.listObjects (asDir key) false none)).bind fun listing =>
        if dictFromKeys ((if present then [key] else []) ++ listing.contents.map (·.key)) = [] then
          Prog.raise .fileNotFound
        else S3StorageAdapter.deleteBatches (S3StorageAdapter.batches
          (dictFromKeys ((if present then [key] else []) ++ listing.contents.map (·.key)))) := by
    unfold S3StorageAdapter.delete S3StorageAdapter.listPrefix S3StorageAdapter.key
    rw [hsafe, hkey]
    show (if logical = [] ∧ s.rootPrefix = [] then _ else _) = _
    rw [if_neg hroot]
    rfl
  rw [hstart]
  apply ends_bind (at_headExists key b)
  · intro present t h
    obtain ⟨ht, hor⟩ := h
    subst ht
    have hpresent : present = (decide (key ≠ []) && (t.get key).isSome) := by
      rcases hor with hok | hfail
      · exact Except.ok.inj hok
      · obtain ⟨-, e, heq⟩ := hfail
        cases heq
    have hlist : EndsAt may (send (.listObjects (asDir key) false none)) t fun r v => v = t ∧
        (r = .ok (t.listing (asDir key) false none) ∨
          (∃ done, may (.listObjects (asDir key) false none) done) ∧ ∃ e, r = .error e) :=
      at_ask (fun _ => rfl) ⟨rfl, .inl rfl⟩ fun e _ done hmay => ⟨rfl, .inr ⟨⟨done, hmay⟩, e, rfl⟩⟩
    apply ends_bind hlist
    · intro listing v h
      obtain ⟨hv, hor'⟩ := h
      subst hv
      have hlisting : listing = v.listing (asDir key) false none := by
        rcases hor' with hok | hfail
        · exact Except.ok.inj hok
        · obtain ⟨-, e, heq⟩ := hfail
          cases heq
      subst hpresent
      subst hlisting
      show EndsAt may (if v.collected key = [] then Prog.raise .fileNotFound
        else S3StorageAdapter.deleteBatches (S3StorageAdapter.batches (v.collected key))) v _
      apply ends_mono (at_deleteCollected hne v)
      intro r u hu
      refine ⟨hu.1, hu.2.imp_right ?_⟩
      intro hfail
      exact ⟨hfail.1, hfail.2.imp_right .inr⟩
    · intro e v h
      obtain ⟨hv, hor'⟩ := h
      rcases hor' with hok | hfail
      · cases hok
      · obtain ⟨⟨done, hmay⟩, -⟩ := hfail
        exact ⟨fun k _ => by rw [hv], .inr ⟨⟨e, rfl⟩, .inr (.inl ⟨_, done, .inr rfl, hmay, hv⟩)⟩⟩
  · intro e t h
    obtain ⟨ht, hor⟩ := h
    rcases hor with hok | hfail
    · cases hok
    · obtain ⟨⟨done, hmay⟩, -⟩ := hfail
      exact ⟨fun k _ => by rw [ht], .inr ⟨⟨e, rfl⟩, .inr (.inl ⟨_, done, .inl rfl, hmay, ht⟩)⟩⟩

end WebStorage.S3
