import WebStorage.FailingRequests
import WebStorage.FileService

set_option autoImplicit false

/-! An upload that raises: what it leaves in the bucket once its transaction is rolled back. -/
namespace WebStorage.FailedUpload
open Effect Effect.Prog S3 FileService

attribute [local irreducible] Adapter.toDiskRelativePath normalizePath objectKey

/-- The keys below the temporary directory of a section. -/
def InTmp (a : Adapter) (key : Str) : Prop := a.diskRelativePrefix ++ "/.tmp/".toList <+: key

/-- The uploaded object is at its key once the copy has been carried out: what raises then is the
copy itself, the removal of the temporary object, or a call to the tables. -/
def Late (key : Str) : Step → Prop
  | .table operations => operations ≠ 0
  | .call c carried => (Stores key c && carried) = true ∨ ∃ k, c = .deleteObject k
  | .stream => False

/-- Neither the objects outside the temporary directory nor the tables have changed. -/
structure NoTrace (a : Adapter) (w after : Installation) : Prop where
  objects : ∀ k, ¬ InTmp a k → after.bucket.content k = w.bucket.content k
  records : after.db.records.rows.filter isDownloadable = w.db.records.rows.filter isDownloadable
  quotas : after.db.quotas = w.db.quotas

section
variable {a : Adapter} {key : Str} {id : Uuid}

/-- The key of the temporary object. -/
def tmpKey (a : Adapter) (id : Uuid) : Str := Text.join [a.diskRelativePrefix, tmpDir, id.text]

theorem clean_tmp (id : Uuid) : Clean [tmpDir, id.text] := by
  intro n hn
  rcases List.mem_cons.1 hn with hn | hn
  · rw [hn]
    decide +kernel
  · rw [List.mem_singleton.1 hn]
    exact id.clean

theorem objectKey_tmp (hroot : a.diskRelativePrefix ≠ []) (id : Uuid) :
    objectKey a (tmpPath id) = .ok (tmpKey a id) := by
  have hpath : tmpPath id = Text.join [tmpDir, id.text] := rfl
  rw [hpath, objectKey_join hroot (clean_tmp id)]
  rfl

theorem tmpKey_eq (a : Adapter) (id : Uuid) :
    tmpKey a id = a.diskRelativePrefix ++ "/.tmp/".toList ++ id.text := by
  unfold tmpKey
  rw [Text.join_cons _ (List.cons_ne_nil _ _), Text.join_cons _ (List.cons_ne_nil _ _), List.append_assoc]
  rfl

theorem tmpKey_ne_nil (a : Adapter) (id : Uuid) : tmpKey a id ≠ [] := by
  rw [tmpKey_eq]
  intro heq
  have htail := (List.append_eq_nil_iff.1 heq).2
  exact id.clean.ne_nil htail

theorem inTmp_tmpKey (a : Adapter) (id : Uuid) : InTmp a (tmpKey a id) := by
  rw [tmpKey_eq]
  exact List.prefix_append _ _

/-- All that a temporary key covers is temporary. -/
theorem inTmp_covered (h : Bucket.Covers (tmpKey a id) key) : InTmp a key := by
  rcases h with heq | hunder
  · rw [heq]
    exact inTmp_tmpKey a id
  · have hdir : tmpKey a id <+: asDir (tmpKey a id) := by
      unfold asDir
      split
      · exact List.prefix_rfl
      · exact List.prefix_append _ _
    exact (inTmp_tmpKey a id).trans (hdir.trans hunder)

/-- The key and the recorded path of a section path are refused together. -/
theorem toDisk_of_key {path : Str} (h : objectKey a path = .ok key) :
    ∃ relative, a.toDiskRelativePath path = .ok relative ∧
      (a.diskRelativePrefix ≠ [] → relative ≠ []) := by
  obtain ⟨logical, hsafe, -⟩ := Bucket.objectKey_ok h
  unfold Adapter.toDiskRelativePath
  rw [hsafe]
  by_cases hnil : logical = []
  · exact ⟨a.diskRelativePrefix, by rw [hnil]; rfl, fun hroot => hroot⟩
  · refine ⟨a.diskRelativePrefix ++ '/' :: logical, ?_, ?_⟩
    · show (if logical = [] then _ else _) = _
      rw [if_neg hnil]
      rfl
    · intro _ heq
      have htail := (List.append_eq_nil_iff.1 heq).2
      cases htail

theorem key_of_toDisk {path relative : Str} (h : a.toDiskRelativePath path = .ok relative) :
    ∃ key, objectKey a path = .ok key := by
  unfold Adapter.toDiskRelativePath at h
  unfold objectKey
  cases hsafe : safeLogicalKey path with
  | error e =>
    rw [hsafe] at h
    cases h
  | ok logical => exact ⟨_, rfl⟩

end

section
variable {host : Host} {s : FileService} {a t : Attempt} {record : FileRecord} {final key : Str}
  {data : Bytes} {size : Nat} {now : Time}

/-- What the upload has left when its body raises. -/
def Stopped (s : FileService) (key : Str) (data : Bytes) (a t : Attempt) : Prop :=
  ∃ step, t.raised = some step ∧
    (∀ k, ¬ InTmp s.adapter k → k ≠ key → t.bucket.content k = a.bucket.content k) ∧
    (¬ InTmp s.adapter key → Late key step ∧ t.bucket.content key = some data ∨
      ¬ Late key step ∧ t.bucket.content key = a.bucket.content key)

/-- What it has left when the rename has returned. -/
def Stored (s : FileService) (key : Str) (data : Bytes) (a t : Attempt) : Prop :=
  ∀ k, ¬ InTmp s.adapter k → t.bucket.content k = if k = key then some data else a.bucket.content k

theorem stopped_table {operations : Nat} (hraised : t.raised = some (.table operations))
    (hlate : operations ≠ 0) (h : Stored s key data a t) : Stopped s key data a t := by
  refine ⟨_, hraised, ?_, ?_⟩
  · intro k hk hne
    rw [h k hk, if_neg hne]
  · intro hk
    left
    refine ⟨hlate, ?_⟩
    rw [h key hk, if_pos rfl]

/-- Enqueueing asks the tables only: it raises at one of these calls. -/
theorem survives_enqueue {committed : FileRecord} (hraised : a.raised = none)
    (hpath : committed.relativePath ≠ []) :
    Survives host (s.queue.upload committed now) a fun r t => t.bucket = a.bucket ∧
      ∀ e, r = .error e → t.raised = some (.table a.operations) := by
  unfold Enqueue.upload
  split
  · exact survives_done ⟨rfl, fun e he => by cases he⟩
  next hactive =>
    have hplain : ¬ (committed.fileSection = .private ∨ committed.isEncrypted = true) := by
      intro hprivate
      apply hactive
      right
      unfold Enqueue.refusedWithoutRow
      rcases hprivate with hs | he
      · simp [hs]
      · simp [he]
    have hok : (decideRegistrationTarget committed s.queue.settings.maxImageBytes).isOk = true :=
      decide_isOk hplain hpath
    split
    next heq =>
      rw [heq] at hok
      cases hok
    next heq =>
      rw [heq] at hok
      cases hok
    next decision heq =>
      split
      · exact survives_done ⟨rfl, fun e he => by cases he⟩
      · apply survives_uuid4
        intro id
        apply survives_bind (survives_links _ _ a)
        · exact fun _ u hu => survives_done ⟨hu.1, fun e he => by cases he⟩
        · intro e u hu
          refine ⟨hu.1, ?_⟩
          intro e' he'
          rw [hu.2.2.2 e rfl, hraised]
          rfl

theorem builds_early {c : S3Cmd} {carried : Bool} {k : Str} (h : Builds k c) (hne : k ≠ key) :
    ¬ Late key (.call c carried) := by
  intro hlate
  rcases hlate with hstores | hdeletes
  · cases c
    case putObject k' body =>
      have hk : k' = k := h
      simp [Stores, hk, hne] at hstores
    case copyObject source k' =>
      have hk : k' = k := h
      simp [Stores, hk, hne] at hstores
    case completeMultipartUpload k' uploadId parts =>
      have hk : k' = k := h
      simp [Stores, hk, hne] at hstores
    all_goals cases hstores
  · obtain ⟨k', hc⟩ := hdeletes
    rw [hc] at h
    exact h

theorem stopped_write {k : Str} {written : Bytes} {step : Step} (htmp : InTmp s.adapter k)
    (hraised : t.raised = some step) (h : WriteStopped a.bucket k written step t.bucket) :
    Stopped s key data a t := by
  have hother : ∀ k', ¬ InTmp s.adapter k' → t.bucket.content k' = a.bucket.content k' := by
    intro k' hk'
    have hne : k' ≠ k := fun heq => hk' (heq ▸ htmp)
    rcases h with hstream | hcall
    · exact hstream.2 k'
    · obtain ⟨c, carried, -, -, hor⟩ := hcall
      rcases hor with hwritten | hsame
      · rw [hwritten.2 k', if_neg hne]
      · exact hsame.2 k'
  refine ⟨step, hraised, fun k' hk' _ => hother k' hk', ?_⟩
  intro hk
  right
  refine ⟨?_, hother key hk⟩
  rcases h with hstream | hcall
  · rw [hstream.1]
    exact id
  · obtain ⟨c, carried, hstep, hbuilds, -⟩ := hcall
    rw [hstep]
    exact builds_early hbuilds fun heq => hk (heq ▸ htmp)

theorem stopped_rename {k : Str} {step : Step} {b : Attempt} (htmp : InTmp s.adapter k)
    (hbefore : ∀ k', ¬ InTmp s.adapter k' → b.bucket.content k' = a.bucket.content k')
    (hraised : t.raised = some step) (h : RenameStopped b.bucket k key data step t.bucket) :
    Stopped s key data a t := by
  have hne : ∀ {k'}, ¬ InTmp s.adapter k' → k' ≠ k := fun hk' heq => hk' (heq ▸ htmp)
  refine ⟨step, hraised, ?_, ?_⟩
  · intro k' hk' hother
    rw [← hbefore k' hk']
    rcases h with hhead | hcall | hdelete
    · obtain ⟨-, -, hsame⟩ := hhead
      exact hsame k'
    · obtain ⟨c, carried, -, -, hor⟩ := hcall
      rcases hor with hwritten | hsame
      · rw [hwritten.2 k', if_neg hother]
      · exact hsame.2 k'
    · obtain ⟨-, -, hcontent⟩ := hdelete
      rw [hcontent k' (hne hk'), if_neg hother]
  · intro hk
    rw [← hbefore key hk]
    rcases h with hhead | hcall | hdelete
    · right
      obtain ⟨carried, hstep, hsame⟩ := hhead
      refine ⟨?_, hsame key⟩
      rw [hstep]
      intro hlate
      rcases hlate with hstores | hdeletes
      · cases hstores
      · obtain ⟨k', hc⟩ := hdeletes
        cases hc
    · obtain ⟨c, carried, hstep, hbuilds, hor⟩ := hcall
      rcases hor with hwritten | hsame
      · left
        refine ⟨?_, ?_⟩
        · rw [hstep]
          exact .inl hwritten.1
        · rw [hwritten.2 key, if_pos rfl]
      · right
        refine ⟨?_, hsame.2 key⟩
        rw [hstep]
        intro hlate
        rcases hlate with hstores | hdeletes
        · rw [hsame.1] at hstores
          cases hstores
        · obtain ⟨k', hc⟩ := hdeletes
          rw [hc] at hbuilds
          exact hbuilds
    · left
      obtain ⟨carried, hstep, hcontent⟩ := hdelete
      refine ⟨?_, ?_⟩
      · rw [hstep]
        exact .inr ⟨k, rfl⟩
      · rw [hcontent key (hne hk), if_pos rfl]

/-- The tables after the rename: whatever raises is too late. -/
theorem survives_mark {relative : Str} {checksum : Digest} {b : Attempt} (hraised : a.raised = none)
    (hlate : a.operations ≠ 0) (hrecord : ∃ r, a.db.records.get record.id = some r)
    (hpath : relative ≠ []) (hstored : Stored s key data b a) :
    Survives host ((db (FileRepo.updateStatus record.id .committed (some checksum) (some relative)
        none)).bind fun
      | none => Prog.raise .fileNotFound
      | some committed =>
        (db (QuotaRepo.increment s.queue.settings.defaultUserQuotaBytes record.userId size
          record.fileSection)).bind fun _ =>
        (s.queue.upload committed now).bind fun _ => (pure committed : FileM FileRecord)) a
      fun r t => ∀ e, r = .error e → Stopped s key data b t := by
  have hkept : ∀ {t : Attempt}, t.bucket = a.bucket → Stored s key data b t := by
    intro t ht k hk
    rw [ht]
    exact hstored k hk
  apply survives_bind (survives_table _ a)
  · intro found u hu
    obtain ⟨hbucket, hoperations, hnoted, hok⟩ := hu
    obtain ⟨-, hfound⟩ := hok found rfl
    have hquiet : u.raised = none := hnoted.trans hraised
    obtain ⟨r, hget⟩ := hrecord
    have hthere : ∃ committed : FileRecord, found = some committed ∧ committed.relativePath = relative := by
      have hassigned : found = (a.db.records.update (·.id = record.id) fun model =>
          { model with
            status := .committed
            checksumSha256 := some checksum <|> model.checksumSha256
            relativePath := (some relative).getD model.relativePath
            originalName := none.getD model.originalName }).get record.id := (Except.ok.inj hfound).symm
      rw [RecordTable.get_update, hget] at hassigned
      have hid : r.id = record.id := (RecordTable.get_some hget).2
      simp only [Option.map_some, hid, decide_true, if_true] at hassigned
      exact ⟨_, hassigned, rfl⟩
    obtain ⟨committed, hcommitted, hrelative⟩ := hthere
    subst hcommitted
    dsimp only
    apply survives_bind (survives_table _ u)
    · intro _ v hv
      have hquiet' : v.raised = none := hv.2.2.1.trans hquiet
      have hbucket' : v.bucket = a.bucket := hv.1.trans hbucket
      apply survives_bind (survives_enqueue hquiet' (hrelative ▸ hpath))
      · exact fun _ x _ => survives_done fun e he => by cases he
      · intro e x hx e' he'
        have hx' := hx.2 e rfl
        apply stopped_table hx'
        · rw [hv.2.1, hoperations]
          exact hlate
        · exact hkept (hx.1.trans hbucket')
    · intro e v hv e' he'
      have hv' : v.raised = some (.table u.operations) := by
        rw [hv.2.2.1, hquiet]
        rfl
      apply stopped_table hv'
      · rw [hoperations]
        exact hlate
      · exact hkept (hv.1.trans hbucket)
  · intro e u hu e' he'
    have hu' : u.raised = some (.table a.operations) := by
      rw [hu.2.2.1, hraised]
      rfl
    exact stopped_table hu' hlate (hkept hu.1)

/-- The body of the upload: it raises before the copy has been carried out, or too late. -/
theorem survives_commitUpload (hplain : s.adapter.Plain) (hroot : s.adapter.diskRelativePrefix ≠ [])
    (hkey : objectKey s.adapter final = .ok key) (hraised : a.raised = none)
    (hrecord : ∃ r, a.db.records.get record.id = some r) :
    Survives host (commitUpload s record final data size now) a fun r t =>
      ∀ e, r = .error e → Stopped s key data a t := by
  have htmp := objectKey_tmp hroot record.id
  have hne := tmpKey_ne_nil s.adapter record.id
  have hin := inTmp_tmpKey s.adapter record.id
  obtain ⟨relative, hrelative, hpath⟩ := toDisk_of_key hkey
  unfold commitUpload
  apply survives_bind (survives_firstWrite hplain htmp hne hraised)
  · intro checksum u hu
    obtain ⟨hdb, hoperations, hor⟩ := hu
    have hwritten : u.raised = none ∧ Written a.bucket u.bucket (tmpKey s.adapter record.id) data := by
      rcases hor with hok | hfail
      · exact hok.2
      · obtain ⟨⟨e, heq⟩, -⟩ := hfail
        cases heq
    have hbody : u.bucket.content (tmpKey s.adapter record.id) = some data := by
      rw [hwritten.2, if_pos rfl]
    have hbefore : ∀ k, ¬ InTmp s.adapter k → u.bucket.content k = a.bucket.content k := by
      intro k hk
      have hother : k ≠ tmpKey s.adapter record.id := fun heq => hk (heq ▸ hin)
      rw [hwritten.2, if_neg hother]
    apply survives_bind (survives_firstRename hplain htmp hkey hne hbody hwritten.1)
    · intro _ v hv
      obtain ⟨hdb', hoperations', hor'⟩ := hv
      have hmoved : v.raised = none ∧ Stored s key data a v := by
        rcases hor' with hok | hfail
        · refine ⟨hok.2.1, ?_⟩
          intro k hk
          have hother : k ≠ tmpKey s.adapter record.id := fun heq => hk (heq ▸ hin)
          rw [hok.2.2 k, if_neg hother, hbefore k hk]
        · obtain ⟨⟨e, heq⟩, -⟩ := hfail
          cases heq
      unfold toDisk
      rw [hrelative]
      apply survives_mark hmoved.1 _ _ (hpath hroot) hmoved.2
      · omega
      · rw [hdb', hdb]
        exact hrecord
    · intro e v hv e' he'
      obtain ⟨-, -, hor'⟩ := hv
      rcases hor' with hok | hfail
      · obtain ⟨⟨x, heq⟩, -⟩ := hok
        cases heq
      · obtain ⟨-, step, hstep, hstopped⟩ := hfail
        exact stopped_rename hin hbefore hstep hstopped
  · intro e u hu e' he'
    obtain ⟨-, -, hor⟩ := hu
    rcases hor with hok | hfail
    · cases hok.1
    · obtain ⟨-, step, hstep, written, -, hstopped⟩ := hfail
      exact stopped_write hin hstep hstopped

theorem created_found {id userId : Uuid} {relativePath originalName : Str} {sizeBytes : Int}
    {isEncrypted : Bool} {fileSection : FileSection} {status : FileStatus} {d : Db}
    (h : (FileRepo.create id userId relativePath originalName sizeBytes isEncrypted fileSection status
      now d).1 = .ok record) :
    (FileRepo.create id userId relativePath originalName sizeBytes isEncrypted fileSection status
      now d).2.records.get record.id = some record := by
  unfold FileRepo.create at h ⊢
  dsimp only at h ⊢
  split at h
  next records hadd =>
    cases h
    unfold RecordTable.add at hadd
    split at hadd
    · cases hadd
    · cases hadd
      exact RecordTable.get_of_mem (List.mem_append_right _ (List.mem_singleton_self _))
  next => cases h

/-- What is cleaned up afterwards is temporary. -/
theorem survives_compensation {e : Exc} {id : Uuid} (hplain : s.adapter.Plain)
    (hroot : s.adapter.diskRelativePrefix ≠ []) (h : Stopped s key data a t) :
    Survives host ((deleteIfExists s.adapter (tmpPath id)).bind fun _ =>
      (db (FileRepo.delete id)).bind fun _ => (Prog.raise e : FileM FileRecord)) t
      fun _ u => Stopped s key data a u := by
  have htmp := objectKey_tmp hroot id
  have hkept : ∀ {u : Attempt}, (∀ k, ¬ InTmp s.adapter k → u.bucket.content k = t.bucket.content k) →
      (∀ step, t.raised = some step → u.raised = some step) → Stopped s key data a u := by
    intro u hcontent hraised
    obtain ⟨step, hstep, hother, hown⟩ := h
    refine ⟨step, hraised step hstep, ?_, ?_⟩
    · intro k hk hne
      rw [hcontent k hk, hother k hk hne]
    · intro hk
      rw [hcontent key hk]
      exact hown hk
  have hcleaned : ∀ {u : Attempt}, (∀ k, ¬ Bucket.Covers (tmpKey s.adapter id) k →
      u.bucket.content k = t.bucket.content k) →
      ∀ k, ¬ InTmp s.adapter k → u.bucket.content k = t.bucket.content k :=
    fun hcontent k hk => hcontent k fun hcovers => hk (inTmp_covered hcovers)
  apply survives_bind (survives_deleteIfExists hplain htmp (tmpKey_ne_nil _ _))
  · intro _ u hu
    have hdeleted : ∀ {r : Except Exc (Option FileRecord)} {v : Attempt}, v.bucket = u.bucket →
        v.raised = noted u.raised (.table u.operations) r → Stopped s key data a v := by
      intro r v hbucket hnoted
      apply hkept
      · intro k hk
        rw [hbucket]
        exact hcleaned hu.1 k hk
      · intro step hstep
        rw [hnoted, hu.2 step hstep]
        cases r <;> rfl
    apply survives_bind (survives_table _ u)
    · exact fun _ v hv => survives_done (hdeleted hv.1 hv.2.2.1)
    · exact fun _ v hv => hdeleted hv.1 hv.2.2.1
  · exact fun _ u hu => hkept (hcleaned hu.1) hu.2

/-- An upload that raises was stopped before its record was made, or later. -/
theorem survives_uploadFile {userId : Uuid} {path filename : Str} {fileSection : FileSection}
    (hplain : s.adapter.Plain) (hroot : s.adapter.diskRelativePrefix ≠ []) (w : Installation) :
    Survives host (s.uploadFile userId path filename data size fileSection now) (.start w) fun r t =>
      ∀ e, r = .error e → (t.raised = none ∧ t.bucket = w.bucket) ∨
        ∃ key, objectKey s.adapter (joinPath (normalizePath path) filename) = .ok key ∧
          Stopped s key data (.start w) t := by
  unfold uploadFile toDisk
  dsimp only
  cases hrelative : s.adapter.toDiskRelativePath (joinPath (normalizePath path) filename) with
  | error e =>
    apply survives_done
    exact fun _ _ => .inl ⟨rfl, rfl⟩
  | ok relative =>
    obtain ⟨key, hkey⟩ := key_of_toDisk hrelative
    apply survives_uuid4
    intro id
    apply survives_bind (survives_table _ (.start w))
    · intro record u hu
      obtain ⟨hbucket, -, hnoted, hok⟩ := hu
      obtain ⟨hdb, hcreated⟩ := hok record rfl
      have hquiet : u.raised = none := hnoted
      have hsame : ∀ {v : Attempt}, Stopped s key data u v → Stopped s key data (.start w) v := by
        intro v h
        obtain ⟨step, hstep, hother, hown⟩ := h
        rw [hbucket] at hother hown
        exact ⟨step, hstep, hother, hown⟩
      have hrecord : ∃ r, u.db.records.get record.id = some r := by
        rw [hdb]
        exact ⟨record, created_found hcreated⟩
      apply survives_catch (survives_commitUpload hplain hroot hkey hquiet hrecord)
      · exact fun _ v _ e he => by cases he
      · intro e v hv
        have hstopped := hsame (hv e rfl)
        apply survives_mono (survives_compensation hplain hroot hstopped)
        exact fun _ x hx e' _ => .inr ⟨key, hkey, hx⟩
    · intro e u hu e' he'
      obtain ⟨hbucket, -, hnoted, -⟩ := hu
      refine .inr ⟨key, hkey, .table 0, hnoted, ?_, ?_⟩
      · intro k _ _
        rw [hbucket]
      · intro _
        right
        refine ⟨fun hlate => hlate rfl, ?_⟩
        rw [hbucket]

/-- **A failed upload leaves no trace** exactly when it fails before the object is at its key: with
the record, with the write or with a copy that is not carried out; or when the key is a
temporary one, or held the same bytes. -/
theorem failed_upload_traceless {userId : Uuid} {path filename : Str} {fileSection : FileSection}
    {w : Installation} {e : Exc} (hplain : s.adapter.Plain)
    (hroot : s.adapter.diskRelativePrefix ≠ [])
    (hrun : Exec (Outage host) (s.uploadFile userId path filename data size fileSection now) (.start w)
      (.error e) t) :
    NoTrace s.adapter w (t.rolledBack w) ↔
      ∀ step key, t.raised = some step →
        objectKey s.adapter (joinPath (normalizePath path) filename) = .ok key →
        Late key step → InTmp s.adapter key ∨ w.bucket.content key = some data := by
  have hends := (wp_sound (survives_uploadFile hplain hroot w) hrun).2 e rfl
  constructor
  · intro htrace step key hstep hkey hlate
    by_cases hin : InTmp s.adapter key
    · exact .inl hin
    · right
      rcases hends with hquiet | hstopped
      · rw [hquiet.1] at hstep
        cases hstep
      · obtain ⟨key', hkey', step', hstep', -, hown⟩ := hstopped
        rw [hkey] at hkey'
        cases hkey'
        rw [hstep] at hstep'
        cases hstep'
        rcases hown hin with hstored | hearly
        · rw [← htrace.objects key hin]
          exact hstored.2
        · exact absurd hlate hearly.1
  · intro hcondition
    refine ⟨?_, rfl, rfl⟩
    intro k hk
    rcases hends with hquiet | hstopped
    · show t.bucket.content k = _
      rw [hquiet.2]
    · obtain ⟨key, hkey, step, hstep, hother, hown⟩ := hstopped
      by_cases hat : k = key
      · subst hat
        rcases hown hk with hstored | hearly
        · rcases hcondition step k hstep hkey hstored.1 with hin | hheld
          · exact absurd hin hk
          · exact hstored.2.trans hheld.symm
        · exact hearly.2
      · exact hother k hk hat

end

/-! ### An upload that is stopped -/

def sampleHost : Host := ⟨fun _ => "", id, fun _ => .ofDigit 7⟩

def sampleService : FileService where
  adapter := ⟨"users/u/files".toList, none⟩
  fileSection := .files
  archiveManager := none
  queue := ⟨false, ⟨false, 0, 0, 30⟩⟩

theorem sample_plain : sampleService.adapter.Plain := ⟨rfl, by decide +kernel⟩

def sampleStart : Installation := ⟨⟨.empty, ∅, .empty⟩, .empty⟩

/-- One byte is uploaded as `a.txt`, and one step raises. -/
def stoppedAt (stop : Step) : Except Exc FileRecord × Attempt :=
  (sampleService.uploadFile (.ofDigit 1) [] "a.txt".toList [1] 1 .files 0).run
    (sampleHost.stopAt 0 stop) (.start sampleStart)

theorem exec_stoppedAt (stop : Step) : Exec (Outage sampleHost)
    (sampleService.uploadFile (.ofDigit 1) [] "a.txt".toList [1] 1 .files 0) (.start sampleStart)
    (stoppedAt stop).1 (stoppedAt stop).2 :=
  exec_run (outage_stopAt sampleHost 0 stop) _ _

/-- The record cannot be marked: the object stays. -/
theorem stopped_upload_stays : (stoppedAt (.table 2)).1.isOk = false ∧
    ¬ NoTrace sampleService.adapter sampleStart ((stoppedAt (.table 2)).2.rolledBack sampleStart) := by
  refine ⟨by decide +kernel, ?_⟩
  intro htrace
  have houtside : ¬ InTmp sampleService.adapter "users/u/files/a.txt".toList := by
    unfold InTmp
    decide +kernel
  have hkey := htrace.objects _ houtside
  have hthere : ((stoppedAt (.table 2)).2.rolledBack sampleStart).bucket.content
      "users/u/files/a.txt".toList = some [1] := by decide +kernel
  rw [hthere] at hkey
  cases hkey

/-- The copy of the temporary object onto its key is not carried out. -/
def copyRefused : Step :=
  .call (.copyObject ("users/u/files/.tmp/".toList ++ (Uuid.ofDigit 7).text)
    "users/u/files/a.txt".toList) false

theorem stopped_copy : (stoppedAt copyRefused).1.isOk = false ∧
    (stoppedAt copyRefused).2.raised = some copyRefused := by
  decide +kernel

/-- The temporary object has been stored and is removed again. -/
theorem stopped_copy_traceless :
    NoTrace sampleService.adapter sampleStart ((stoppedAt copyRefused).2.rolledBack sampleStart) := by
  have hroot : sampleService.adapter.diskRelativePrefix ≠ [] := by decide
  have hraised : ∃ e, (stoppedAt copyRefused).1 = .error e := by
    cases hcase : (stoppedAt copyRefused).1 with
    | error e => exact ⟨e, rfl⟩
    | ok r =>
      have hfails := stopped_copy.1
      rw [hcase] at hfails
      cases hfails
  obtain ⟨e, he⟩ := hraised
  have hrun := exec_stoppedAt copyRefused
  rw [he] at hrun
  apply (failed_upload_traceless sample_plain hroot hrun).2
  intro step key hstep _ hlate
  rw [stopped_copy.2] at hstep
  cases hstep
  rcases hlate with hcarried | ⟨k, hdelete⟩
  · rw [Bool.and_false] at hcarried
    cases hcarried
  · cases hdelete

end WebStorage.FailedUpload
