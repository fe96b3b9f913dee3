import WebStorage.FailedUpload
import WebStorage.ReadBack

set_option autoImplicit false

/-! An overwrite: what the path reads as afterwards, whether it returned or raised. -/
namespace WebStorage.FailedOverwrite
open Effect Effect.Prog S3 FileService FailedUpload

attribute [local irreducible] Adapter.toDiskRelativePath normalizePath objectKey

/-! ### Where it stops -/

/-- What a step that raises leaves at the key: the old object, none, or the new one. -/
inductive Stage
  | kept | gone | replaced
deriving DecidableEq

instance (key : Str) (c : S3Cmd) : Decidable (Builds key c) :=
  match c with
  | .putObject k _ => inferInstanceAs (Decidable (k = key))
  | .copyObject _ k => inferInstanceAs (Decidable (k = key))
  | .createMultipartUpload k => inferInstanceAs (Decidable (k = key))
  | .uploadPart k _ _ _ => inferInstanceAs (Decidable (k = key))
  | .uploadPartCopy k _ _ _ _ _ => inferInstanceAs (Decidable (k = key))
  | .completeMultipartUpload k _ _ => inferInstanceAs (Decidable (k = key))
  | .headObject _ => inferInstanceAs (Decidable False)
  | .getObject _ => inferInstanceAs (Decidable False)
  | .deleteObject _ => inferInstanceAs (Decidable False)
  | .deleteObjects _ => inferInstanceAs (Decidable False)
  | .listObjects _ _ _ => inferInstanceAs (Decidable False)
  | .abortMultipartUpload _ _ => inferInstanceAs (Decidable False)

/-- The calls for the key of the temporary object come before the deletion of the old one, except
for those of the rename. -/
def callStage (key tmp : Str) (c : S3Cmd) (carried : Bool) : Stage :=
  if (Stores key c && carried) = true then .replaced
  else if Builds key c then .gone
  else match c with
    | .deleteObject _ => .replaced
    | .deleteObjects keys => if key ∈ keys ∧ carried = false then .kept else .gone
    | .headObject k => if k = tmp then .gone else .kept
    | _ => .kept

def stage (key tmp : Str) : Step → Stage
  | .table operations => if operations = 0 then .kept else .replaced
  | .call c carried => callStage key tmp c carried
  | .stream => .kept

def leftAt (old : Option Bytes) (new : Bytes) : Stage → Option Bytes
  | .kept => old
  | .gone => none
  | .replaced => some new

theorem builds_call {k key : Str} {c : S3Cmd} (h : Builds k c) (hne : k ≠ key) :
    Stores key c = false ∧ ¬ Builds key c := by
  cases c
  case putObject k' body =>
    have hk : k' = k := h
    exact ⟨by simp [Stores, hk, hne], fun hb => hne (hk.symm.trans hb)⟩
  case copyObject source k' =>
    have hk : k' = k := h
    exact ⟨by simp [Stores, hk, hne], fun hb => hne (hk.symm.trans hb)⟩
  case completeMultipartUpload k' uploadId parts =>
    have hk : k' = k := h
    exact ⟨by simp [Stores, hk, hne], fun hb => hne (hk.symm.trans hb)⟩
  case createMultipartUpload k' => exact ⟨rfl, fun hb => hne (Eq.trans (Eq.symm h) hb)⟩
  case uploadPart k' uploadId partNumber body => exact ⟨rfl, fun hb => hne (Eq.trans (Eq.symm h) hb)⟩
  case uploadPartCopy k' uploadId partNumber source first last =>
    exact ⟨rfl, fun hb => hne (Eq.trans (Eq.symm h) hb)⟩
  all_goals cases h

/-- A call of the write leaves the old object. -/
theorem stage_write {key tmp : Str} {c : S3Cmd} {carried : Bool} (h : Builds tmp c)
    (hne : tmp ≠ key) : callStage key tmp c carried = .kept := by
  obtain ⟨hstores, hbuilds⟩ := builds_call h hne
  unfold callStage
  rw [hstores, Bool.false_and, if_neg (by simp), if_neg hbuilds]
  cases c
  all_goals first
    | rfl
    | cases h

/-- So does a call that only asks for the key. -/
theorem stage_ask {key tmp k : Str} {carried : Bool} (hne : k ≠ tmp) :
    callStage key tmp (.headObject k) carried = .kept ∧
      ∀ keyPrefix delimited maxKeys,
        callStage key tmp (.listObjects keyPrefix delimited maxKeys) carried = .kept := by
  refine ⟨?_, fun _ _ _ => rfl⟩
  show (if k = tmp then Stage.gone else Stage.kept) = _
  rw [if_neg hne]

section
variable {host : Host} {s : FileService} {a b t : Attempt} {existing : FileRecord}
  {final key : Str} {data : Bytes} {size : Nat} {now : Time} {userId : Uuid}

/-- What an overwrite leaves alone. -/
def Frame (key tmp : Str) (b t : Bucket) : Prop :=
  ∀ k, ¬ Bucket.Covers tmp k → ¬ Bucket.Covers key k → t.content k = b.content k

/-- What the overwrite has left when its body raises. -/
def Halted (key tmp : Str) (data : Bytes) (b : Bucket) (t : Attempt) : Prop :=
  ∃ step, t.raised = some step ∧ Frame key tmp b t.bucket ∧
    t.bucket.content key = leftAt (b.content key) data (stage key tmp step)

/-- The file, its temporary object and its archive are not below each other. -/
structure Apart (s : FileService) (existing : FileRecord) (key : Str) : Prop where
  beside : ¬ Bucket.Covers key (tmpKey s.adapter existing.id)
  above : ¬ Bucket.Covers (tmpKey s.adapter existing.id) key
  archive : ∀ archivePath k, existing.archivePath = some archivePath → archivePath ≠ [] →
    objectKey diskRootAdapter archivePath = .ok k →
    ¬ Bucket.Covers (tmpKey s.adapter existing.id) k ∧ ¬ Bucket.Covers key k

/-- The file is cleared away, or a step raises on the way. -/
theorem survives_clear (tmp : Str) (data : Bytes) (hplain : s.adapter.Plain)
    (hkey : objectKey s.adapter final = .ok key) (hne : key ≠ []) (hmarker : asDir key ≠ tmp)
    (htmp : tmp ≠ key) (hraised : a.raised = none) :
    Survives host (deleteIfExists s.adapter final) a fun r t =>
      t.db = a.db ∧ a.operations < t.operations ∧
        (∀ k, ¬ Bucket.Covers key k → t.bucket.content k = a.bucket.content k) ∧
        ((∃ x, r = .ok x) ∧ t.raised = none ∧ t.bucket.content key = none ∨
          (∃ e, r = .error e) ∧ ∃ step, t.raised = some step ∧
            t.bucket.content key = leftAt (a.bucket.content key) data (stage key tmp step)) := by
  unfold deleteIfExists
  apply survives_bind (survives_firstExists hplain hkey hraised)
  · intro found u hu
    obtain ⟨hdb, hbucket, hoperations, hor⟩ := hu
    have hfound : found = a.bucket.occupied key ∧ u.raised = none := by
      rcases hor with hok | hfail
      · exact ⟨Except.ok.inj hok.1, hok.2⟩
      · obtain ⟨⟨e, heq⟩, -⟩ := hfail
        cases heq
    have hsame : ∀ k, u.bucket.content k = a.bucket.content k := by
      intro k
      rw [hbucket]
    rw [hfound.1]
    split
    next hocc =>
      rw [← hbucket] at hocc
      apply survives_mono (survives_firstDelete hplain hkey hne hocc hfound.2)
      intro r t ht
      obtain ⟨hdb', hoperations', hother, hor'⟩ := ht
      refine ⟨hdb'.trans hdb, by omega, fun k hk => (hother k hk).trans (hsame k), ?_⟩
      rcases hor' with hok | hfail
      · exact .inl ⟨hok.1, hok.2.1, hok.2.2 key (.inl rfl)⟩
      · right
        obtain ⟨herror, step, hstep, hstopped⟩ := hfail
        refine ⟨herror, step, hstep, ?_⟩
        rcases hstopped with hasked | hdeleted
        · obtain ⟨c, carried, hcall, hc, hkept⟩ := hasked
          rw [hcall, hkept, hsame]
          have hstage : callStage key tmp c carried = .kept := by
            rcases hc with hc | hc
            · rw [hc]
              exact (stage_ask (Ne.symm htmp)).1
            · rw [hc]
              exact (stage_ask (Ne.symm htmp)).2 _ _ _
          show _ = leftAt _ _ (callStage key tmp c carried)
          rw [hstage]
          rfl
        · obtain ⟨keys, carried, hcall, hcontent⟩ := hdeleted
          rw [hcall, hcontent, hsame]
          show _ = leftAt _ _ (if key ∈ keys ∧ carried = false then Stage.kept else Stage.gone)
          split <;> rfl
    next hfree =>
      apply survives_done
      refine ⟨hdb, by omega, fun k _ => hsame k, .inl ⟨⟨(), rfl⟩, hfound.2, ?_⟩⟩
      have hnone := Bucket.get_none_of_covers (Bool.eq_false_iff.2 hfree) (Bucket.covers_self key)
      rw [hsame]
      unfold Bucket.content
      rw [hnone]
      rfl
  · intro e u hu
    obtain ⟨hdb, hbucket, hoperations, hor⟩ := hu
    refine ⟨hdb, by omega, fun k _ => by rw [hbucket], .inr ?_⟩
    rcases hor with hok | hfail
    · cases hok.1
    · obtain ⟨-, c, carried, hstep, hchecks⟩ := hfail
      refine ⟨⟨e, rfl⟩, _, hstep, ?_⟩
      have hstage : callStage key tmp c carried = .kept := by
        rcases hchecks with hc | hc | hc
        · rw [hc]
          exact (stage_ask (Ne.symm htmp)).1
        · rw [hc]
          exact (stage_ask hmarker).1
        · rw [hc]
          exact (stage_ask hmarker).2 _ _ _
      show _ = leftAt _ _ (callStage key tmp c carried)
      rw [hstage, hbucket]
      rfl

/-- The rename stops with the file gone, or with the new one in its place. -/
theorem renamed_stage {tmp : Str} {step : Step} {u v : Bucket} (hmarker : tmp ≠ key)
    (hgone : u.content key = none) (h : RenameStopped u tmp key data step v) (old : Option Bytes) :
    (∀ k, k ≠ tmp → k ≠ key → v.content k = u.content k) ∧
      v.content key = leftAt old data (stage key tmp step) := by
  rcases h with hhead | hcall | hdelete
  · obtain ⟨carried, hstep, hsame⟩ := hhead
    refine ⟨fun k _ _ => hsame k, ?_⟩
    rw [hsame key, hgone, hstep]
    show none = leftAt _ _ (if tmp = tmp then Stage.gone else Stage.kept)
    rw [if_pos rfl]
    rfl
  · obtain ⟨c, carried, hstep, hbuilds, hor⟩ := hcall
    rcases hor with hwritten | hsame
    · refine ⟨fun k _ hk => by rw [hwritten.2 k, if_neg hk], ?_⟩
      rw [hwritten.2 key, if_pos rfl, hstep]
      show _ = leftAt _ _ (callStage key tmp c carried)
      unfold callStage
      rw [if_pos hwritten.1]
      rfl
    · refine ⟨fun k _ _ => hsame.2 k, ?_⟩
      rw [hsame.2 key, hgone, hstep]
      show _ = leftAt _ _ (callStage key tmp c carried)
      unfold callStage
      rw [hsame.1, if_neg (by simp), if_pos hbuilds]
      rfl
  · obtain ⟨carried, hstep, hcontent⟩ := hdelete
    refine ⟨fun k htmp hk => by rw [hcontent k htmp, if_neg hk], ?_⟩
    rw [hcontent key (Ne.symm hmarker), if_pos rfl, hstep]
    rfl

/-- What an overwrite that returns has done. -/
structure Replaced (existing : FileRecord) (key tmp : Str) (data : Bytes) (size : Nat)
    (checksum : Digest) (a t : Attempt) : Prop where
  frame : Frame key tmp a.bucket t.bucket
  content : t.bucket.content key = some data
  records : t.db.records = ((FileRepo.updateSize existing.id size (some checksum)) a.db).2.records

/-! ### The steps -/

theorem halted_table {tmp : Str} {b : Bucket} {operations : Nat}
    (hraised : t.raised = some (.table operations)) (hlate : operations ≠ 0)
    (hframe : Frame key tmp b t.bucket) (hcontent : t.bucket.content key = some data) :
    Halted key tmp data b t := by
  refine ⟨_, hraised, hframe, ?_⟩
  have hstage : stage key tmp (.table operations) = .replaced := if_neg hlate
  rw [hstage, hcontent]
  rfl

/-- The queue asks the tables only. -/
theorem survives_contentChanged {updated : FileRecord} (hraised : a.raised = none)
    (hpath : updated.relativePath ≠ []) :
    Survives host (s.queue.contentChanged updated now) a fun r t => t.bucket = a.bucket ∧
      t.db.records = a.db.records ∧ ∀ e, r = .error e → t.raised = some (.table a.operations) := by
  unfold Enqueue.contentChanged
  have hquiet : Survives host (pure () : FileM Unit) a fun r t => t.bucket = a.bucket ∧
      t.db.records = a.db.records ∧ ∀ e, r = .error e → t.raised = some (.table a.operations) :=
    survives_done ⟨rfl, rfl, fun e he => by cases he⟩
  split
  · exact hquiet
  next hactive =>
    have hplain : ¬ (updated.fileSection = .private ∨ updated.isEncrypted = true) := by
      intro hprivate
      apply hactive
      right
      unfold Enqueue.refusedWithoutRow
      rcases hprivate with hs | he
      · simp [hs]
      · simp [he]
    have hok : (decideRegistrationTarget updated s.queue.settings.maxImageBytes).isOk = true :=
      decide_isOk hplain hpath
    split
    next heq =>
      rw [heq] at hok
      cases hok
    next heq =>
      rw [heq] at hok
      cases hok
    next decision heq =>
      split
      · exact hquiet
      · apply survives_bind (survives_links _ _ a)
        · exact fun _ u hu => survives_done ⟨hu.1, hu.2.2.1, fun e he => by cases he⟩
        · intro e u hu
          refine ⟨hu.1, hu.2.2.1, ?_⟩
          intro e' _
          rw [hu.2.2.2 e rfl, hraised]
          rfl

/-- So does the change of the quota. -/
theorem survives_chargeDelta {delta : Int} {fileSection : FileSection} (hraised : a.raised = none) :
    Survives host (chargeDelta s userId delta fileSection) a fun r t => t.bucket = a.bucket ∧
      t.operations = a.operations ∧ t.db.records = a.db.records ∧
      (∀ x, r = .ok x → t.raised = none) ∧
      ∀ e, r = .error e → t.raised = some (.table a.operations) := by
  have hone : ∀ {f : DbOp QuotaUsage}, (f a.db).2.records = a.db.records →
      Survives host ((db f).bind fun _ => (pure () : FileM Unit)) a fun r t =>
        t.bucket = a.bucket ∧ t.operations = a.operations ∧ t.db.records = a.db.records ∧
        (∀ x, r = .ok x → t.raised = none) ∧
        ∀ e, r = .error e → t.raised = some (.table a.operations) := by
    intro f hkeeps
    apply survives_bind (survives_keeping hkeeps)
    · intro _ u hu
      apply survives_done
      refine ⟨hu.1, hu.2.1, hu.2.2.1, fun _ _ => hu.2.2.2.trans hraised, fun e he => by cases he⟩
    · intro e u hu
      refine ⟨hu.1, hu.2.1, hu.2.2.1, fun x hx => (by cases hx), ?_⟩
      intro e' _
      rw [hu.2.2.2, hraised]
      rfl
  unfold chargeDelta
  split
  · exact hone rfl
  · split
    · exact hone rfl
    · exact survives_done ⟨rfl, rfl, rfl, fun _ _ => hraised, fun e he => by cases he⟩

/-- The tables after the rename. -/
theorem survives_update {tmp : Str} {checksum : Digest} {b : Attempt} {fileSection : FileSection}
    {delta : Int} (hraised : a.raised = none) (hlate : a.operations ≠ 0)
    (hrecord : a.db.records.get existing.id = some existing) (hpath : existing.relativePath ≠ [])
    (hrecords : a.db = b.db) (hframe : Frame key tmp b.bucket a.bucket)
    (hcontent : a.bucket.content key = some data) :
    Survives host ((db (FileRepo.updateSize existing.id size (some checksum))).bind fun
      | none => Prog.raise .fileNotFound
      | some updated =>
        (chargeDelta s userId delta fileSection).bind fun _ =>
        (s.queue.contentChanged updated now).bind fun _ => (pure updated : FileM FileRecord)) a
      fun r t => (∀ x, r = .ok x → Replaced existing key tmp data size checksum b t) ∧
        ∀ e, r = .error e → Halted key tmp data b.bucket t := by
  have hhalted : ∀ {t : Attempt}, t.bucket = a.bucket → t.raised = some (.table a.operations) →
      Halted key tmp data b.bucket t := by
    intro t hbucket ht
    apply halted_table ht hlate
    · rw [hbucket]
      exact hframe
    · rw [hbucket]
      exact hcontent
  apply survives_bind (survives_table _ a)
  · intro found u hu
    obtain ⟨hbucket, hoperations, hnoted, hok⟩ := hu
    obtain ⟨hdb, hfound⟩ := hok found rfl
    have hquiet : u.raised = none := hnoted.trans hraised
    have hthere : ∃ updated : FileRecord, found = some updated ∧
        updated.relativePath = existing.relativePath := by
      have hassigned : found = (a.db.records.update (·.id = existing.id) fun model =>
          { model with
            sizeBytes := size
            checksumSha256 := some checksum <|> model.checksumSha256 }).get existing.id :=
        (Except.ok.inj hfound).symm
      rw [RecordTable.get_update, hrecord] at hassigned
      simp only [Option.map_some, decide_true, if_true] at hassigned
      exact ⟨_, hassigned, rfl⟩
    obtain ⟨updated, hupdated, hsame⟩ := hthere
    subst hupdated
    dsimp only
    apply survives_bind (survives_chargeDelta hquiet)
    · intro _ v hv
      obtain ⟨hbucket', hoperations', hrecords', hstill, -⟩ := hv
      apply survives_bind (survives_contentChanged (hstill () rfl) (hsame ▸ hpath))
      · intro _ x hx
        obtain ⟨hbucket'', hrecords'', -⟩ := hx
        have hbuckets : x.bucket = a.bucket := (hbucket''.trans hbucket').trans hbucket
        apply survives_done
        refine ⟨?_, fun e he => by cases he⟩
        intro _ _
        refine ⟨?_, ?_, ?_⟩
        · rw [hbuckets]
          exact hframe
        · rw [hbuckets]
          exact hcontent
        · rw [hrecords'', hrecords', hdb, hrecords]
      · intro e x hx
        obtain ⟨hbucket'', -, hfail⟩ := hx
        refine ⟨fun _ heq => (by cases heq), ?_⟩
        intro _ _
        apply hhalted ((hbucket''.trans hbucket').trans hbucket)
        rw [hfail e rfl, hoperations', hoperations]
    · intro e v hv
      obtain ⟨hbucket', -, -, -, hfail⟩ := hv
      refine ⟨fun _ heq => (by cases heq), ?_⟩
      intro _ _
      apply hhalted (hbucket'.trans hbucket)
      rw [hfail e rfl, hoperations]
  · intro e u hu
    refine ⟨fun _ heq => (by cases heq), ?_⟩
    intro _ _
    apply hhalted hu.1
    rw [hu.2.2.1, hraised]
    rfl

/-- A write that raises leaves the file. -/
theorem halted_write {tmp : Str} {written : Bytes} {step : Step} (hne : tmp ≠ key)
    (hraised : t.raised = some step) (h : WriteStopped a.bucket tmp written step t.bucket) :
    Halted key tmp data a.bucket t := by
  have hother : ∀ k, k ≠ tmp → t.bucket.content k = a.bucket.content k := by
    intro k hk
    rcases h with hstream | hcall
    · exact hstream.2 k
    · obtain ⟨c, carried, -, -, hor⟩ := hcall
      rcases hor with hwritten | hsame
      · rw [hwritten.2 k, if_neg hk]
      · exact hsame.2 k
  have hkept : stage key tmp step = .kept := by
    rcases h with hstream | hcall
    · rw [hstream.1]
      rfl
    · obtain ⟨c, carried, hstep, hbuilds, -⟩ := hcall
      rw [hstep]
      exact stage_write hbuilds hne
  refine ⟨step, hraised, fun k hk _ => hother k fun heq => hk (.inl heq), ?_⟩
  rw [hother key (Ne.symm hne), hkept]
  rfl

/-- The body of the overwrite: the file is replaced, or one of its steps raises. -/
theorem survives_commitOverwrite {fileSection : FileSection} (hplain : s.adapter.Plain)
    (hroot : s.adapter.diskRelativePrefix ≠ []) (hkey : objectKey s.adapter final = .ok key)
    (hapart : Apart s existing key) (hraised : a.raised = none)
    (hrecord : a.db.records.get existing.id = some existing) (hpath : existing.relativePath ≠ []) :
    Survives host (commitOverwrite s userId existing final data size fileSection now) a fun r t =>
      (∀ x, r = .ok x →
        Replaced existing key (tmpKey s.adapter existing.id) data size (host.sha256 data) a t) ∧
      ∀ e, r = .error e → Halted key (tmpKey s.adapter existing.id) data a.bucket t := by
  have htmp := objectKey_tmp hroot existing.id
  have hnil := tmpKey_ne_nil s.adapter existing.id
  have hne : tmpKey s.adapter existing.id ≠ key := fun heq => hapart.beside (.inl heq)
  have hmarker : asDir key ≠ tmpKey s.adapter existing.id :=
    fun heq => hapart.beside (.inr (heq ▸ List.prefix_rfl))
  unfold commitOverwrite
  apply survives_bind (survives_firstWrite hplain htmp hnil hraised)
  · intro checksum u hu
    obtain ⟨hdb, hoperations, hor⟩ := hu
    have hok : checksum = host.sha256 data ∧ u.raised = none ∧
        Written a.bucket u.bucket (tmpKey s.adapter existing.id) data := by
      rcases hor with hok | hfail
      · exact ⟨Except.ok.inj hok.1, hok.2⟩
      · obtain ⟨⟨e, heq⟩, -⟩ := hfail
        cases heq
    obtain ⟨hchecksum, hquiet, hwritten⟩ := hok
    subst hchecksum
    have hold : ∀ k, k ≠ tmpKey s.adapter existing.id → u.bucket.content k = a.bucket.content k := by
      intro k hk
      rw [hwritten k, if_neg hk]
    apply survives_bind
      (survives_clear (tmpKey s.adapter existing.id) data hplain hkey (key_ne_nil_of_root hroot hkey)
        hmarker hne hquiet)
    · intro _ v hv
      obtain ⟨hdb', hoperations', hother, hor'⟩ := hv
      have hcleared : v.raised = none ∧ v.bucket.content key = none := by
        rcases hor' with hok | hfail
        · exact hok.2
        · obtain ⟨⟨e, heq⟩, -⟩ := hfail
          cases heq
      have hbody : v.bucket.content (tmpKey s.adapter existing.id) = some data := by
        rw [hother _ hapart.beside, hwritten, if_pos rfl]
      have hbefore : ∀ k, k ≠ tmpKey s.adapter existing.id → ¬ Bucket.Covers key k →
          v.bucket.content k = a.bucket.content k :=
        fun k hk hcovers => (hother k hcovers).trans (hold k hk)
      apply survives_bind (survives_firstRename hplain htmp hkey hnil hbody hcleared.1)
      · intro _ x hx
        obtain ⟨hdb'', hoperations'', hor''⟩ := hx
        have hmoved : x.raised = none ∧ ∀ k, x.bucket.content k =
            if k = tmpKey s.adapter existing.id then none
            else if k = key then some data else v.bucket.content k := by
          rcases hor'' with hok | hfail
          · exact hok.2
          · obtain ⟨⟨e, heq⟩, -⟩ := hfail
            cases heq
        have hdbs : x.db = a.db := (hdb''.trans hdb').trans hdb
        apply survives_update hmoved.1 (by omega) (hdbs ▸ hrecord) hpath hdbs
        · intro k hk hcovers
          rw [hmoved.2 k, if_neg fun heq => hk (.inl heq), if_neg fun heq => hcovers (.inl heq)]
          exact hbefore k (fun heq => hk (.inl heq)) hcovers
        · rw [hmoved.2 key, if_neg (Ne.symm hne), if_pos rfl]
      · intro e x hx
        obtain ⟨-, -, hor''⟩ := hx
        refine ⟨fun _ heq => (by cases heq), ?_⟩
        intro _ _
        rcases hor'' with hok | hfail
        · obtain ⟨⟨y, heq⟩, -⟩ := hok
          cases heq
        · obtain ⟨-, step, hstep, hstopped⟩ := hfail
          obtain ⟨hother', hcontent⟩ := renamed_stage hne hcleared.2 hstopped (a.bucket.content key)
          refine ⟨step, hstep, ?_, hcontent⟩
          intro k hk hcovers
          have hneTmp : k ≠ tmpKey s.adapter existing.id := fun heq => hk (.inl heq)
          have hneKey : k ≠ key := fun heq => hcovers (.inl heq)
          exact (hother' k hneTmp hneKey).trans (hbefore k hneTmp hcovers)
    · intro e v hv
      obtain ⟨-, -, hother, hor'⟩ := hv
      refine ⟨fun _ heq => (by cases heq), ?_⟩
      intro _ _
      rcases hor' with hok | hfail
      · obtain ⟨⟨y, heq⟩, -⟩ := hok
        cases heq
      · obtain ⟨-, step, hstep, hcontent⟩ := hfail
        refine ⟨step, hstep, ?_, ?_⟩
        · intro k hk hcovers
          exact (hother k hcovers).trans (hold k fun heq => hk (.inl heq))
        · rw [hcontent, hold key (Ne.symm hne)]
  · intro e u hu
    obtain ⟨-, -, hor⟩ := hu
    refine ⟨fun _ heq => (by cases heq), ?_⟩
    intro _ _
    rcases hor with hok | hfail
    · cases hok.1
    · obtain ⟨-, step, hstep, written, -, hstopped⟩ := hfail
      exact halted_write hne hstep hstopped

theorem updateSize_records {id : Uuid} {checksum : Option Digest} {d d' : Db}
    (h : d.records = d'.records) : ((FileRepo.updateSize id size checksum) d).2.records =
      ((FileRepo.updateSize id size checksum) d').2.records := by
  unfold FileRepo.updateSize FileRepo.assign
  rw [h]

/-- The record is looked up. -/
theorem survives_lookup {path relative : Str} {owner : Option Uuid} {fileSection : FileSection}
    (howner : owner = lookupOwner userId fileSection) (hraised : a.raised = none)
    (hrelative : s.adapter.toDiskRelativePath path = .ok relative)
    (hfound : (FileRepo.getDownloadable owner relative fileSection a.db).1 = .ok (some existing)) :
    Survives host (getRecordBySectionPath s userId path fileSection) a fun r t =>
      t.bucket = a.bucket ∧ t.operations = a.operations ∧
        (r = .ok (some existing) ∧ t.raised = none ∧ t.db = a.db ∨
          (∃ e, r = .error e) ∧ t.raised = some (.table a.operations)) := by
  have hquery : Survives host (lookupIn owner fileSection relative (Text.name path)) a fun r t =>
      t.bucket = a.bucket ∧ t.operations = a.operations ∧
        (r = .ok (some existing) ∧ t.raised = none ∧ t.db = a.db ∨
          (∃ e, r = .error e) ∧ t.raised = some (.table a.operations)) := by
    unfold lookupIn
    apply survives_bind (survives_table _ a)
    · intro found u hu
      obtain ⟨hbucket, hoperations, hnoted, hok⟩ := hu
      obtain ⟨hdb, heq⟩ := hok found rfl
      have hsome : found = some existing := Except.ok.inj (heq.symm.trans hfound)
      subst hsome
      exact survives_done ⟨hbucket, hoperations, .inl ⟨rfl, hnoted.trans hraised, hdb⟩⟩
    · intro e u hu
      refine ⟨hu.1, hu.2.1, .inr ⟨⟨e, rfl⟩, ?_⟩⟩
      rw [hu.2.2.1, hraised]
      rfl
  subst howner
  unfold getRecordBySectionPath toDisk
  rw [hrelative]
  show Survives host (if fileSection = .shared then _ else _) a _
  unfold lookupOwner at hquery
  by_cases hshared : fileSection = .shared
  · rw [if_pos hshared] at hquery ⊢
    exact hquery
  · rw [if_neg hshared] at hquery ⊢
    exact hquery

/-- The quota is looked at, or refuses the overwrite. -/
theorem survives_ensureQuota {extraBytes : Int} {fileSection : FileSection} (hraised : a.raised = none) :
    Survives host (ensureOverwriteQuota s userId extraBytes fileSection) a fun r t =>
      t.bucket = a.bucket ∧ t.operations = a.operations ∧ t.db.records = a.db.records ∧
        (t.raised = none ∨ (∃ e, r = .error e) ∧ t.raised = some (.table a.operations)) := by
  have hquiet : ∀ {r : Except Exc Unit} {u : Attempt}, u.bucket = a.bucket →
      u.operations = a.operations → u.db.records = a.db.records → u.raised = none →
      Survives host (done r : FileM Unit) u fun r t => t.bucket = a.bucket ∧
        t.operations = a.operations ∧ t.db.records = a.db.records ∧
        (t.raised = none ∨ (∃ e, r = .error e) ∧ t.raised = some (.table a.operations)) :=
    fun hbucket hoperations hrecords hnone =>
      survives_done ⟨hbucket, hoperations, hrecords, .inl hnone⟩
  unfold ensureOverwriteQuota
  split
  · exact hquiet rfl rfl rfl hraised
  · have hkeeps : (QuotaRepo.getByUserId s.queue.settings.defaultUserQuotaBytes userId a.db).2.records =
        a.db.records := by
      unfold QuotaRepo.getByUserId
      split <;> rfl
    apply survives_bind (survives_keeping hkeeps)
    · intro usage u hu
      obtain ⟨hbucket, hoperations, hrecords, hnoted⟩ := hu
      have hnone : u.raised = none := hnoted.trans hraised
      split
      · exact hquiet hbucket hoperations hrecords hnone
      · split
        · exact hquiet hbucket hoperations hrecords hnone
        · exact hquiet hbucket hoperations hrecords hnone
    · intro e u hu
      refine ⟨hu.1, hu.2.1, hu.2.2.1, .inr ⟨⟨e, rfl⟩, ?_⟩⟩
      rw [hu.2.2.2, hraised]
      rfl

/-- The clean-up of the temporary object changes nothing of what is left. -/
theorem survives_cleanUp {e : Exc} {b : Bucket} (hplain : s.adapter.Plain)
    (hroot : s.adapter.diskRelativePrefix ≠ []) (hapart : Apart s existing key)
    (h : Halted key (tmpKey s.adapter existing.id) data b t) :
    Survives host ((deleteIfExists s.adapter (tmpPath existing.id)).bind fun _ =>
      (Prog.raise e : FileM FileRecord)) t
      fun r u => (∃ e', r = .error e') ∧ Halted key (tmpKey s.adapter existing.id) data b u := by
  have hkept : ∀ {u : Attempt}, (∀ k, ¬ Bucket.Covers (tmpKey s.adapter existing.id) k →
      u.bucket.content k = t.bucket.content k) →
      (∀ step, t.raised = some step → u.raised = some step) →
      Halted key (tmpKey s.adapter existing.id) data b u := by
    intro u hcontent hraised
    obtain ⟨step, hstep, hframe, hown⟩ := h
    refine ⟨step, hraised step hstep, ?_, ?_⟩
    · intro k hk hcovers
      rw [hcontent k hk, hframe k hk hcovers]
    · rw [hcontent key hapart.above]
      exact hown
  apply survives_bind (survives_deleteIfExists hplain (objectKey_tmp hroot existing.id)
    (tmpKey_ne_nil s.adapter existing.id))
  · exact fun _ u hu => survives_done ⟨⟨e, rfl⟩, hkept hu.1 hu.2⟩
  · exact fun e' u hu => ⟨⟨e', rfl⟩, hkept hu.1 hu.2⟩

/-- The record that is found at its path, and as the one with its id. -/
theorem found_get {d : Db} {owner : Option Uuid} {fileSection : FileSection} {r : FileRecord}
    (hfound : (FileRepo.getDownloadable owner r.relativePath fileSection d).1 = .ok (some r)) :
    d.records.get r.id = some r := by
  have hone : atPath owner fileSection r.relativePath d.records.rows = [r] := scalarOneOrNone_some hfound
  have hin : r ∈ atPath owner fileSection r.relativePath d.records.rows :=
    hone ▸ List.mem_singleton_self r
  exact RecordTable.get_of_mem (List.mem_of_mem_filter hin)

/-- An overwrite replaces the file or has stopped at one of its steps; the quota may refuse it
before the first. -/
theorem survives_overwriteFile {path filename : Str} {fileSection : FileSection} {w : Installation}
    (hplain : s.adapter.Plain) (hroot : s.adapter.diskRelativePrefix ≠ [])
    (hkey : objectKey s.adapter (joinPath (normalizePath path) filename) = .ok key)
    (hapart : Apart s existing key)
    (hrelative : s.adapter.toDiskRelativePath (joinPath (normalizePath path) filename) =
      .ok existing.relativePath)
    (hfound : (FileRepo.getDownloadable (lookupOwner userId fileSection) existing.relativePath
      fileSection w.db).1 = .ok (some existing)) :
    Survives host (s.overwriteFile userId path filename data size fileSection now) (.start w)
      fun r t =>
        (∀ x, r = .ok x → Replaced existing key (tmpKey s.adapter existing.id) data size
          (host.sha256 data) (.start w) t) ∧
        ∀ e, r = .error e → (t.raised = none ∧ t.bucket = w.bucket) ∨
          Halted key (tmpKey s.adapter existing.id) data w.bucket t := by
  have hrecord : w.db.records.get existing.id = some existing := found_get hfound
  obtain ⟨relative, hrelative', hnil⟩ := toDisk_of_key hkey
  have hpath : existing.relativePath ≠ [] := by
    rw [hrelative] at hrelative'
    cases hrelative'
    exact hnil hroot
  have hunmoved : ∀ {u : Attempt} {operations : Nat}, u.bucket = w.bucket → operations = 0 →
      u.raised = some (.table operations) →
      Halted key (tmpKey s.adapter existing.id) data w.bucket u := by
    intro u operations hbucket hzero hraised
    refine ⟨_, hraised, fun k _ _ => by rw [hbucket], ?_⟩
    have hstage : stage key (tmpKey s.adapter existing.id) (.table operations) = .kept := if_pos hzero
    rw [hstage, hbucket]
    rfl
  unfold overwriteFile
  dsimp only
  apply survives_bind (survives_lookup (a := .start w) rfl rfl hrelative hfound)
  · intro found u hu
    obtain ⟨hbucket, hoperations, hor⟩ := hu
    have hok : found = some existing ∧ u.raised = none ∧ u.db = w.db := by
      rcases hor with hok | hfail
      · exact ⟨Except.ok.inj hok.1, hok.2⟩
      · obtain ⟨⟨e, heq⟩, -⟩ := hfail
        cases heq
    obtain ⟨hsome, hquiet, hdb⟩ := hok
    subst hsome
    dsimp only
    apply survives_bind (survives_ensureQuota hquiet)
    · intro _ v hv
      obtain ⟨hbucket', -, hrecords, hor'⟩ := hv
      have hquiet' : v.raised = none := by
        rcases hor' with hnone | hfail
        · exact hnone
        · obtain ⟨⟨e, heq⟩, -⟩ := hfail
          cases heq
      have hbuckets : v.bucket = w.bucket := hbucket'.trans hbucket
      have hrecords' : v.db.records = w.db.records := by
        rw [hrecords, hdb]
      apply survives_catch (survives_commitOverwrite hplain hroot hkey hapart hquiet'
        (hrecords' ▸ hrecord) hpath)
      · intro x t ht
        have hreplaced := ht.1 x rfl
        refine ⟨?_, fun _ heq => (by cases heq)⟩
        intro _ _
        refine ⟨?_, hreplaced.content, ?_⟩
        · intro k hk hcovers
          rw [hreplaced.frame k hk hcovers, hbuckets]
          rfl
        · rw [hreplaced.records]
          exact updateSize_records hrecords'
      · intro e t ht
        have hstopped := ht.2 e rfl
        rw [hbuckets] at hstopped
        apply survives_mono (survives_cleanUp hplain hroot hapart hstopped)
        intro r x hx
        obtain ⟨⟨e', he'⟩, hhalted⟩ := hx
        subst he'
        exact ⟨fun _ heq => (by cases heq), fun _ _ => .inr hhalted⟩
    · intro e v hv
      obtain ⟨hbucket', hoperations', -, hor'⟩ := hv
      refine ⟨fun _ heq => (by cases heq), ?_⟩
      intro _ _
      rcases hor' with hnone | hfail
      · exact .inl ⟨hnone, hbucket'.trans hbucket⟩
      · exact .inr (hunmoved (hbucket'.trans hbucket) hoperations hfail.2)
  · intro e u hu
    refine ⟨fun _ heq => (by cases heq), ?_⟩
    intro _ _
    obtain ⟨hbucket, -, hor⟩ := hu
    rcases hor with hok | hfail
    · cases hok.1
    · exact .inr (hunmoved hbucket rfl hfail.2)

/-! ### What the path reads as -/

/-- The path reads as the bytes, and its record has their size and checksum. -/
structure Whole (host : Host) (s : FileService) (userId : Uuid) (later : Time) (path : Str) (id : Uuid)
    (bytes : Bytes) (w : Installation) : Prop where
  content : reads host s userId later w path = .ok bytes
  record : ∃ r, w.db.records.get id = some r ∧ r.sizeBytes = bytes.length ∧
    r.checksumSha256 = some (host.sha256 bytes)

/-- The record after the update. -/
def resized (r : FileRecord) (size : Nat) (checksum : Digest) : FileRecord :=
  { r with sizeBytes := size, checksumSha256 := some checksum }

/-- Two paths of one recorded path have one key. -/
theorem objectKey_congr {a : Adapter} {path path' relative : Str}
    (h : a.toDiskRelativePath path = .ok relative) (h' : a.toDiskRelativePath path' = .ok relative) :
    objectKey a path = objectKey a path' := by
  have hform : ∀ {p : Str}, a.toDiskRelativePath p = .ok relative → ∃ logical,
      safeLogicalKey p = .ok logical ∧
        relative = if logical = [] then a.diskRelativePrefix
          else a.diskRelativePrefix ++ '/' :: logical := by
    intro p hp
    unfold Adapter.toDiskRelativePath at hp
    cases hsafe : safeLogicalKey p with
    | error e =>
      rw [hsafe] at hp
      cases hp
    | ok logical =>
      refine ⟨logical, rfl, ?_⟩
      rw [hsafe] at hp
      have hp' : (if logical = [] then Except.ok a.diskRelativePrefix
        else Except.ok (a.diskRelativePrefix ++ '/' :: logical)) = Except.ok relative := hp
      split at hp'
      next hnil =>
        rw [if_pos hnil]
        exact (Except.ok.inj hp').symm
      next hsome =>
        rw [if_neg hsome]
        exact (Except.ok.inj hp').symm
  obtain ⟨logical, hsafe, heq⟩ := hform h
  obtain ⟨logical', hsafe', heq'⟩ := hform h'
  have hlogical : logical = logical' := by
    rw [heq] at heq'
    split at heq'
    next hnil =>
      split at heq'
      next hnil' => rw [hnil, hnil']
      next => simp at heq'
    next =>
      split at heq'
      next => simp at heq'
      next => simpa using heq'
  unfold objectKey
  rw [hsafe, hsafe', hlogical]

/-- A file that is not archived reads as the object at its key. -/
theorem reads_hot {path : Str} {w : Installation} {later : Time} {r : FileRecord} {bytes : Bytes}
    (hplain : s.adapter.Plain) (hroot : s.adapter.diskRelativePrefix ≠ [])
    (hrelative : s.adapter.toDiskRelativePath (normalizePath path) = .ok r.relativePath)
    (hkey : objectKey s.adapter (normalizePath path) = .ok key)
    (hfound : (FileRepo.getDownloadable (lookupOwner userId s.fileSection) r.relativePath s.fileSection
      w.db).1 = .ok (some r)) (hhot : r.isArchived = false) :
    reads host s userId later w path = .ok bytes ↔ w.bucket.content key = some bytes := by
  have hne := key_ne_nil_of_root hroot hkey
  have hread : reads host s userId later w path =
      ((store s.adapter (.read (normalizePath path))).run (host.serve later) w).1 := by
    rw [reads_found hrelative hfound]
    unfold readRecord
    rw [hhot]
    rfl
  rw [hread]
  cases hcontent : w.bucket.content key with
  | none =>
    rw [run_read_none hplain hkey hne hcontent]
    constructor
    · intro heq
      cases heq
    · intro heq
      cases heq
  | some body =>
    rw [run_read_some hplain hkey hne hcontent]
    constructor
    · intro heq
      rw [Except.ok.inj heq]
    · intro heq
      rw [Option.some.inj heq]

/-- An archived file reads as before once its archive is as before. -/
theorem reads_archived {path : Str} {v w : Installation} {later : Time} {r r' : FileRecord}
    (hrelative : s.adapter.toDiskRelativePath (normalizePath path) = .ok r.relativePath)
    (hfound : (FileRepo.getDownloadable (lookupOwner userId s.fileSection) r.relativePath s.fileSection
      w.db).1 = .ok (some r))
    (hfound' : (FileRepo.getDownloadable (lookupOwner userId s.fileSection) r.relativePath s.fileSection
      v.db).1 = .ok (some r'))
    (harchived : r.isArchived = true) (hflag : r'.isArchived = r.isArchived)
    (hencrypted : r'.isEncrypted = r.isEncrypted) (harchive : r'.archivePath = r.archivePath)
    (h : ∀ archivePath k, r.archivePath = some archivePath → archivePath ≠ [] →
      objectKey diskRootAdapter archivePath = .ok k → v.bucket.content k = w.bucket.content k) :
    reads host s userId later v path = reads host s userId later w path := by
  rw [reads_found hrelative hfound, reads_found hrelative hfound']
  exact run_readRecord_archived harchived hflag hencrypted harchive h

/-- The updated record is at the path. -/
theorem found_resized {d d' : Db} {owner : Option Uuid} {fileSection : FileSection} {r : FileRecord}
    {checksum : Digest}
    (hfound : (FileRepo.getDownloadable owner r.relativePath fileSection d).1 = .ok (some r))
    (hrecords : d'.records = (FileRepo.updateSize r.id size (some checksum) d).2.records) :
    (FileRepo.getDownloadable owner r.relativePath fileSection d').1 =
        .ok (some (resized r size checksum)) ∧
      d'.records.get r.id = some (resized r size checksum) := by
  have hone : atPath owner fileSection r.relativePath d.records.rows = [r] := scalarOneOrNone_some hfound
  have hget := found_get hfound
  have hrows : d'.records.rows = d.records.rows.map fun x =>
      if x.id = r.id then resized x size checksum else x := by
    rw [hrecords]
    show RecordTable.updated _ _ d.records.rows = _
    unfold RecordTable.updated
    apply List.map_congr_left
    intro x _
    simp only [decide_eq_true_eq]
    rfl
  constructor
  · have hcommute : atPath owner fileSection r.relativePath d'.records.rows =
        (atPath owner fileSection r.relativePath d.records.rows).map fun x =>
          if x.id = r.id then resized x size checksum else x := by
      rw [hrows]
      unfold atPath
      rw [List.filter_map]
      congr 1
      apply List.filter_congr
      intro x _
      dsimp only [Function.comp]
      split <;> rfl
    have hrows' : atPath owner fileSection r.relativePath d'.records.rows =
        [resized r size checksum] := by
      rw [hcommute, hone, List.map_singleton, if_pos rfl]
    show scalarOneOrNone (atPath owner fileSection r.relativePath d'.records.rows) = _
    rw [hrows']
    rfl
  · have hassigned : d'.records.get r.id = (d.records.get r.id).map fun x =>
        if decide (x.id = r.id) then { resized x size checksum with id := x.id } else x := by
      rw [hrecords]
      exact RecordTable.get_update r.id
    rw [hassigned, hget, Option.map_some, decide_eq_true rfl, if_pos rfl]
    rfl

section
variable {readPath : Str} {w : Installation} {later : Time} {old : Bytes}

/-- An overwrite that returns: an archived file still reads as its archive. -/
theorem returned_whole (hplain : s.adapter.Plain) (hroot : s.adapter.diskRelativePrefix ≠ [])
    (hread : s.adapter.toDiskRelativePath (normalizePath readPath) = .ok existing.relativePath)
    (hfound : (FileRepo.getDownloadable (lookupOwner userId s.fileSection) existing.relativePath
      s.fileSection w.db).1 = .ok (some existing))
    (hkey : objectKey s.adapter (normalizePath readPath) = .ok key) (hapart : Apart s existing key)
    (hold : Whole host s userId later readPath existing.id old w)
    (hdone : Replaced existing key (tmpKey s.adapter existing.id) data data.length (host.sha256 data)
      (.start w) t) :
    Whole host s userId later readPath existing.id data t.committed ↔
      existing.isArchived = false ∨ old = data := by
  have hrecords : t.committed.db.records =
      (FileRepo.updateSize existing.id data.length (some (host.sha256 data)) w.db).2.records :=
    hdone.records
  obtain ⟨hfound', hrecord'⟩ := found_resized hfound hrecords
  have hrecord : ∃ r, t.committed.db.records.get existing.id = some r ∧
      r.sizeBytes = data.length ∧ r.checksumSha256 = some (host.sha256 data) :=
    ⟨_, hrecord', rfl, rfl⟩
  by_cases harchived : existing.isArchived = true
  · have hsame : reads host s userId later t.committed readPath = .ok old := by
      rw [← hold.content]
      apply reads_archived hread hfound hfound' harchived rfl rfl rfl
      intro archivePath k hpath hsome hk
      obtain ⟨habove, hbeside⟩ := hapart.archive archivePath k hpath hsome hk
      exact hdone.frame k habove hbeside
    constructor
    · intro hwhole
      right
      have hboth := hsame.symm.trans hwhole.content
      exact Except.ok.inj hboth
    · intro hor
      rcases hor with hhot | heq
      · rw [harchived] at hhot
        cases hhot
      · refine ⟨?_, hrecord⟩
        rw [← heq]
        exact hsame
  · have hhot : existing.isArchived = false := Bool.eq_false_iff.2 harchived
    constructor
    · exact fun _ => .inl hhot
    · intro _
      refine ⟨?_, hrecord⟩
      exact (reads_hot (r := resized existing data.length (host.sha256 data)) hplain hroot hread hkey
        hfound' hhot).2 hdone.content

/-- The record as it was fits new bytes of the same size and checksum. -/
theorem record_fits {bytes : Bytes} (hget : w.db.records.get existing.id = some existing)
    (hold : Whole host s userId later readPath existing.id old w) :
    (∃ r, w.db.records.get existing.id = some r ∧ r.sizeBytes = bytes.length ∧
        r.checksumSha256 = some (host.sha256 bytes)) ↔
      old.length = bytes.length ∧ host.sha256 old = host.sha256 bytes := by
  obtain ⟨existing', hget', hsize, hchecksum⟩ := hold.record
  rw [hget] at hget'
  cases hget'
  constructor
  · intro hother
    obtain ⟨r, hr, hsize', hchecksum'⟩ := hother
    rw [hget] at hr
    cases hr
    rw [hsize] at hsize'
    rw [hchecksum] at hchecksum'
    exact ⟨Int.ofNat.inj hsize', Option.some.inj hchecksum'⟩
  · intro hfits
    refine ⟨existing, hget, ?_, ?_⟩
    · rw [hsize, hfits.1]
    · rw [hchecksum, hfits.2]

/-- An overwrite that raises: the record is as it was, the object as the step has left it. -/
theorem raised_whole (hplain : s.adapter.Plain) (hroot : s.adapter.diskRelativePrefix ≠ [])
    (hread : s.adapter.toDiskRelativePath (normalizePath readPath) = .ok existing.relativePath)
    (hfound : (FileRepo.getDownloadable (lookupOwner userId s.fileSection) existing.relativePath
      s.fileSection w.db).1 = .ok (some existing))
    (hkey : objectKey s.adapter (normalizePath readPath) = .ok key) (hapart : Apart s existing key)
    (hold : Whole host s userId later readPath existing.id old w)
    (hstopped : (t.raised = none ∧ t.bucket = w.bucket) ∨
      Halted key (tmpKey s.adapter existing.id) data w.bucket t) :
    (Whole host s userId later readPath existing.id old (t.rolledBack w) ∨
        Whole host s userId later readPath existing.id data (t.rolledBack w)) ↔
      existing.isArchived = true ∨ ∀ step, t.raised = some step →
        stage key (tmpKey s.adapter existing.id) step = .kept ∨
        stage key (tmpKey s.adapter existing.id) step = .replaced ∧
          old.length = data.length ∧ host.sha256 old = host.sha256 data := by
  have hfits : (∃ r, w.db.records.get existing.id = some r ∧ r.sizeBytes = data.length ∧
        r.checksumSha256 = some (host.sha256 data)) ↔
      old.length = data.length ∧ host.sha256 old = host.sha256 data :=
    record_fits (found_get hfound) hold
  have hrolled : (FileRepo.getDownloadable (lookupOwner userId s.fileSection) existing.relativePath
      s.fileSection (t.rolledBack w).db).1 = .ok (some existing) := hfound
  by_cases harchived : existing.isArchived = true
  · constructor
    · exact fun _ => .inl harchived
    · intro _
      left
      refine ⟨?_, hold.record⟩
      rw [← hold.content]
      apply reads_archived hread hfound hrolled harchived rfl rfl rfl
      intro archivePath k hpath hsome hk
      obtain ⟨habove, hbeside⟩ := hapart.archive archivePath k hpath hsome hk
      rcases hstopped with hquiet | hhalted
      · show t.bucket.content k = _
        rw [hquiet.2]
      · obtain ⟨step, -, hframe, -⟩ := hhalted
        exact hframe k habove hbeside
  · have hhot : existing.isArchived = false := Bool.eq_false_iff.2 harchived
    have hreads : ∀ {bytes : Bytes}, reads host s userId later (t.rolledBack w) readPath = .ok bytes ↔
        t.bucket.content key = some bytes := reads_hot hplain hroot hread hkey hrolled hhot
    have hbefore : w.bucket.content key = some old :=
      (reads_hot hplain hroot hread hkey hfound hhot).1 hold.content
    rcases hstopped with hquiet | hhalted
    · constructor
      · intro _
        right
        intro step hstep
        rw [hquiet.1] at hstep
        cases hstep
      · intro _
        left
        refine ⟨hreads.2 ?_, hold.record⟩
        rw [hquiet.2]
        exact hbefore
    · obtain ⟨step, hstep, -, hcontent⟩ := hhalted
      rw [hbefore] at hcontent
      constructor
      · intro hwhole
        right
        intro step' hstep'
        rw [hstep] at hstep'
        cases hstep'
        have hthere : t.bucket.content key = some old ∨ t.bucket.content key = some data :=
          hwhole.imp (fun h => hreads.1 h.content) fun h => hreads.1 h.content
        cases hstage : stage key (tmpKey s.adapter existing.id) step with
        | kept => exact .inl rfl
        | gone =>
          rw [hstage] at hcontent
          rw [hcontent] at hthere
          rcases hthere with heq | heq
          · cases heq
          · cases heq
        | replaced =>
          right
          refine ⟨rfl, ?_⟩
          rw [hstage] at hcontent
          rcases hwhole with hwhole | hwhole
          · have hboth := hreads.1 hwhole.content
            rw [hcontent] at hboth
            have heq : data = old := Option.some.inj hboth
            rw [heq]
            exact ⟨rfl, rfl⟩
          · exact hfits.1 hwhole.record
      · intro hor
        rcases hor with hboth | hor
        · exact absurd hboth harchived
        · rcases hor step hstep with hkept | hreplaced
          · left
            rw [hkept] at hcontent
            exact ⟨hreads.2 hcontent, hold.record⟩
          · right
            rw [hreplaced.1] at hcontent
            exact ⟨hreads.2 hcontent, hfits.2 hreplaced.2⟩

/-- **An overwrite is all or nothing** exactly when the file is not archived or had these bytes, if
it returns; and if it raises, when the file is archived, or the old object is still there, or
the new one is and the record fits it. -/
theorem overwrite_whole {path filename : Str} {r : Except Exc FileRecord} (hplain : s.adapter.Plain)
    (hroot : s.adapter.diskRelativePrefix ≠ [])
    (hrelative : s.adapter.toDiskRelativePath (joinPath (normalizePath path) filename) =
      .ok existing.relativePath)
    (hread : s.adapter.toDiskRelativePath (normalizePath readPath) = .ok existing.relativePath)
    (hfound : (FileRepo.getDownloadable (lookupOwner userId s.fileSection) existing.relativePath
      s.fileSection w.db).1 = .ok (some existing))
    (hkey : objectKey s.adapter (normalizePath readPath) = .ok key) (hapart : Apart s existing key)
    (hold : Whole host s userId later readPath existing.id old w)
    (hrun : Exec (Outage host) (s.overwriteFile userId path filename data data.length s.fileSection now)
      (.start w) r t) :
    (∀ x, r = .ok x → (Whole host s userId later readPath existing.id data t.committed ↔
      existing.isArchived = false ∨ old = data)) ∧
    ∀ e, r = .error e →
      ((Whole host s userId later readPath existing.id old (t.rolledBack w) ∨
        Whole host s userId later readPath existing.id data (t.rolledBack w)) ↔
      existing.isArchived = true ∨ ∀ step, t.raised = some step →
        stage key (tmpKey s.adapter existing.id) step = .kept ∨
        stage key (tmpKey s.adapter existing.id) step = .replaced ∧
          old.length = data.length ∧ host.sha256 old = host.sha256 data) := by
  have hkey' : objectKey s.adapter (joinPath (normalizePath path) filename) = .ok key :=
    (objectKey_congr hrelative hread).trans hkey
  have hends := (wp_sound (survives_overwriteFile hplain hroot hkey' hapart hrelative hfound) hrun).2
  obtain ⟨hreplaced, hstopped⟩ := hends
  constructor
  · intro x hx
    exact returned_whole hplain hroot hread hfound hkey hapart hold (hreplaced x hx)
  · intro e he
    exact raised_whole hplain hroot hread hfound hkey hapart hold (hstopped e he)

end
end

/-! ### An overwrite that is stopped -/

/-- The file of one byte has been uploaded. -/
def uploaded : Installation := (stoppedAt .stream).2.committed

def uploadedRecord : FileRecord where
  id := .ofDigit 7
  userId := .ofDigit 1
  relativePath := "users/u/files/a.txt".toList
  originalName := "a.txt".toList
  sizeBytes := 1
  isEncrypted := false
  fileSection := .files
  status := .committed
  checksumSha256 := some ""
  createdAt := 0
  lastAccessedAt := 0
  isArchived := false
  archivePath := none

def uploadedKey : Str := "users/u/files/a.txt".toList

/-- Another byte takes its place, and one step raises. -/
def overwrittenAt (stop : Step) : Except Exc FileRecord × Attempt :=
  (sampleService.overwriteFile (.ofDigit 1) [] "a.txt".toList [2] 1 .files 0).run
    (sampleHost.stopAt 0 stop) (.start uploaded)

theorem exec_overwrittenAt (stop : Step) : Exec (Outage sampleHost)
    (sampleService.overwriteFile (.ofDigit 1) [] "a.txt".toList [2] 1 .files 0) (.start uploaded)
    (overwrittenAt stop).1 (overwrittenAt stop).2 :=
  exec_run (outage_stopAt sampleHost 0 stop) _ _

/-- The new object is not copied to the key of the old one, which has been deleted. -/
def lostCopy : Step := .call (.copyObject (tmpKey sampleService.adapter (.ofDigit 7)) uploadedKey) false

theorem reads_lost : (reads sampleHost sampleService (.ofDigit 1) 0
    ((overwrittenAt lostCopy).2.rolledBack uploaded) "a.txt".toList).isOk = false := by
  decide +kernel

/-- The file is missing. -/
theorem overwrite_loses_file : (overwrittenAt lostCopy).1.isOk = false ∧
    ¬ (Whole sampleHost sampleService (.ofDigit 1) 0 "a.txt".toList (.ofDigit 7) [1]
        ((overwrittenAt lostCopy).2.rolledBack uploaded) ∨
      Whole sampleHost sampleService (.ofDigit 1) 0 "a.txt".toList (.ofDigit 7) [2]
        ((overwrittenAt lostCopy).2.rolledBack uploaded)) := by
  refine ⟨by decide +kernel, ?_⟩
  intro hwhole
  have hmissing := reads_lost
  rcases hwhole with hwhole | hwhole
  · rw [hwhole.content] at hmissing
    cases hmissing
  · rw [hwhole.content] at hmissing
    cases hmissing

theorem uploaded_apart : Apart sampleService uploadedRecord uploadedKey where
  beside := by
    unfold Bucket.Covers
    decide +kernel
  above := by
    unfold Bucket.Covers
    decide +kernel
  archive := by
    intro archivePath k hpath
    cases hpath

theorem uploaded_whole : Whole sampleHost sampleService (.ofDigit 1) 0 "a.txt".toList (.ofDigit 7) [1]
    uploaded where
  content := by decide +kernel
  record := ⟨uploadedRecord, by decide +kernel, by decide +kernel, by decide +kernel⟩

/-- Nothing raises, and the path reads as the new byte. -/
theorem overwrite_replaces : Whole sampleHost sampleService (.ofDigit 1) 0 "a.txt".toList (.ofDigit 7) [2]
    (overwrittenAt .stream).2.committed := by
  have hroot : sampleService.adapter.diskRelativePrefix ≠ [] := by decide
  have hpath : sampleService.adapter.toDiskRelativePath (joinPath (normalizePath []) "a.txt".toList) =
      .ok uploadedRecord.relativePath := by decide +kernel
  have hread : sampleService.adapter.toDiskRelativePath (normalizePath "a.txt".toList) =
      .ok uploadedRecord.relativePath := by decide +kernel
  have hkey : objectKey sampleService.adapter (normalizePath "a.txt".toList) = .ok uploadedKey := by
    decide +kernel
  have hfound : (FileRepo.getDownloadable (lookupOwner (.ofDigit 1) sampleService.fileSection)
      uploadedRecord.relativePath sampleService.fileSection uploaded.db).1 =
      .ok (some uploadedRecord) := by decide +kernel
  have hreturns : ∃ x, (overwrittenAt .stream).1 = .ok x := by
    cases hcase : (overwrittenAt .stream).1 with
    | ok x => exact ⟨x, rfl⟩
    | error e =>
      have hok : (overwrittenAt .stream).1.isOk = true := by decide +kernel
      rw [hcase] at hok
      cases hok
  obtain ⟨x, hx⟩ := hreturns
  have hwhole := overwrite_whole sample_plain hroot hpath hread hfound hkey uploaded_apart uploaded_whole
    (exec_overwrittenAt .stream)
  exact (hwhole.1 x hx).2 (.inl rfl)

end WebStorage.FailedOverwrite
