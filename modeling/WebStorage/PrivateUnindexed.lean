import WebStorage.Backfill
import WebStorage.LinkKeys

set_option autoImplicit false

/-! What is never indexed: records of the private section, encrypted records, and records of the
shared, resume and generated sections. -/
namespace WebStorage.PrivateUnindexed
open Effect Effect.Prog
open LinkTable (Inherits Rekeyed)

/-- The records that may be in the index. -/
def Indexable (r : FileRecord) : Prop :=
  (r.fileSection = .files ∨ r.fileSection = .photos) ∧ r.isEncrypted = false

/-- The two rows are versions of one record: its owner, section and encryption stay. -/
structure SameRecord (r r' : FileRecord) : Prop where
  id : r'.id = r.id
  userId : r'.userId = r.userId
  fileSection : r'.fileSection = r.fileSection
  isEncrypted : r'.isEncrypted = r.isEncrypted

/-- The record, or a version of it, is stored. -/
def Stored (d : Db) (record : FileRecord) : Prop := ∃ r ∈ d.records.rows, SameRecord record r

/-- The link is one for the record: its key is that of one of the versions `V` that the record has
had. -/
structure LinkOf (V : FileRecord → Prop) (link : IndexLink) (r : FileRecord) : Prop where
  fileRecordId : link.fileRecordId = some r.id
  fileSection : link.fileSection = r.fileSection
  userId : link.userId = r.userId
  key : ∃ v, V v ∧ SameRecord v r ∧ link.s3Key ∈ objectKeys v

/-- Behind a link is a stored record that may be in the index. -/
def Behind (V : FileRecord → Prop) (d : Db) (link : IndexLink) : Prop :=
  ∃ r ∈ d.records.rows, LinkOf V link r ∧ Indexable r

/-- How the tables change: records stay, and the queue still holds links of indexable records
only. -/
structure Evolves (V : FileRecord → Prop) (d t : Db) : Prop where
  records : ∀ r ∈ d.records.rows, Stored t r
  links : (∀ link ∈ d.links.rows, Behind V d link) → ∀ link ∈ t.links.rows, Behind V t link

variable {α β : Type} {V W : FileRecord → Prop} {d t : Db} {record : FileRecord}

theorem SameRecord.refl (r : FileRecord) : SameRecord r r := ⟨rfl, rfl, rfl, rfl⟩

theorem SameRecord.trans {a b c : FileRecord} (h : SameRecord a b) (h' : SameRecord b c) :
    SameRecord a c :=
  ⟨h'.id.trans h.id, h'.userId.trans h.userId, h'.fileSection.trans h.fileSection,
    h'.isEncrypted.trans h.isEncrypted⟩

theorem SameRecord.indexable {r r' : FileRecord} (h : SameRecord r r') :
    Indexable r' ↔ Indexable r := by
  unfold Indexable
  rw [h.fileSection, h.isEncrypted]

theorem LinkOf.version {link : IndexLink} {r r' : FileRecord} (h : LinkOf V link r)
    (hsame : SameRecord r r') : LinkOf V link r' := by
  obtain ⟨v, hv, hvr, hkey⟩ := h.key
  exact ⟨by rw [h.fileRecordId, hsame.id], by rw [h.fileSection, hsame.fileSection],
    by rw [h.userId, hsame.userId], v, hv, hvr.trans hsame, hkey⟩

theorem Behind.mono {link : IndexLink} (h : Behind V d link) (hVW : ∀ r, V r → W r) :
    Behind W d link := by
  obtain ⟨r, hr, hlink, hindexable⟩ := h
  obtain ⟨v, hv, hvr, hkey⟩ := hlink.key
  exact ⟨r, hr, ⟨hlink.fileRecordId, hlink.fileSection, hlink.userId, v, hVW v hv, hvr, hkey⟩,
    hindexable⟩

/-- As long as the records stay, a link with one behind it keeps it. -/
theorem Behind.stays {link : IndexLink} (h : Behind V d link)
    (hrecords : ∀ r ∈ d.records.rows, Stored t r) : Behind V t link := by
  obtain ⟨r, hr, hlink, hindexable⟩ := h
  obtain ⟨r', hr', hsame⟩ := hrecords r hr
  exact ⟨r', hr', hlink.version hsame, hsame.indexable.2 hindexable⟩

theorem Behind.same {old link : IndexLink} (h : Behind V d old)
    (hsame : LinkTable.SameLink old link) (hkey : link.s3Key = old.s3Key) : Behind V d link := by
  obtain ⟨r, hr, hlink, hindexable⟩ := h
  refine ⟨r, hr, ⟨?_, ?_, ?_, ?_⟩, hindexable⟩
  · rw [hsame.fileRecordId, hlink.fileRecordId]
  · rw [hsame.fileSection, hlink.fileSection]
  · rw [hsame.userId, hlink.userId]
  · rw [hkey]
    exact hlink.key

/-- The link gets a key of another version of its record. -/
theorem Behind.rekeyed {old link : IndexLink} (h : Behind V d old)
    (hsame : LinkTable.SameLink old link) (hrecord : link.fileRecordId = some record.id)
    (hV : V record) (hstored : Stored d record) (hkey : link.s3Key ∈ objectKeys record) :
    Behind V d link := by
  obtain ⟨r, hr, hlink, hindexable⟩ := h
  obtain ⟨r', hr', hversion⟩ := hstored
  have hid : some r.id = some record.id :=
    (hlink.fileRecordId.symm.trans hsame.fileRecordId.symm).trans hrecord
  have hrr : r' = r :=
    RecordTable.eq_of_id hr' hr (hversion.id.trans (Option.some.inj hid).symm)
  rw [hrr] at hversion
  refine ⟨r, hr, ⟨?_, ?_, ?_, record, hV, hversion, hkey⟩, hindexable⟩
  · rw [hsame.fileRecordId, hlink.fileRecordId]
  · rw [hsame.fileSection, hlink.fileSection]
  · rw [hsame.userId, hlink.userId]

theorem Stored.self (h : record ∈ d.records.rows) : Stored d record := ⟨record, h, .refl record⟩

theorem Evolves.refl (d : Db) : Evolves V d d where
  records _ hr := .self hr
  links h := h

theorem Evolves.stored (h : Evolves V d t) (hr : Stored d record) : Stored t record := by
  obtain ⟨r, hmem, hsame⟩ := hr
  obtain ⟨r', hmem', hsame'⟩ := h.records r hmem
  exact ⟨r', hmem', hsame.trans hsame'⟩

theorem Evolves.trans {u : Db} (h : Evolves V d t) (h' : Evolves V t u) : Evolves V d u where
  records r hr := h'.stored (h.records r hr)
  links hlinks := h'.links (h.links hlinks)

/-- Of the records only columns have changed, and the queue holds what it held. -/
theorem evolves_records (hrecords : ∀ r ∈ d.records.rows, Stored t r)
    (hlinks : t.links = d.links) : Evolves V d t where
  records := hrecords
  links h link hlink := by
    rw [hlinks] at hlink
    exact (h link hlink).stays hrecords

/-- Only records have changed, and they are versions of what they were. -/
theorem evolves_update {p : FileRecord → Bool} {f : FileRecord → FileRecord}
    (hf : ∀ r, (f r).userId = r.userId ∧ (f r).fileSection = r.fileSection ∧
      (f r).isEncrypted = r.isEncrypted) :
    Evolves V d { d with records := d.records.update p f } := by
  refine evolves_records (fun r hr => ?_) rfl
  refine ⟨_, List.mem_map_of_mem hr, ?_⟩
  split
  · exact ⟨rfl, (hf r).1, (hf r).2.1, (hf r).2.2⟩
  · exact .refl r

theorem evolves_quotas {quotas : QuotaTable} : Evolves V d { d with quotas := quotas } :=
  evolves_records (fun _ hr => .self hr) rfl

theorem evolves_create (id userId : Uuid) (relativePath originalName : Str) (sizeBytes : Int)
    (isEncrypted : Bool) (fileSection : FileSection) (status : FileStatus) (now : Time) :
    Evolves V d (FileRepo.create id userId relativePath originalName sizeBytes isEncrypted
      fileSection status now d).2 := by
  simp only [FileRepo.create]
  split
  · rename_i records hadd
    unfold RecordTable.add at hadd
    split at hadd
    · cases hadd
    · cases hadd
      exact evolves_records (fun r hr => .self (List.mem_append_left _ hr)) rfl
  · exact .refl d

/-- The queue gives a row no key but one of a known version of its record. -/
theorem evolves_onLinks {f : LinkTable → Except Exc (α × LinkTable)}
    {given : Uuid → Str → Prop}
    (hgiven : ∀ id key, given id key → ∃ record, V record ∧ Stored d record ∧ record.id = id ∧
      key ∈ objectKeys record)
    (hf : ∀ table a table', f table = .ok (a, table') → Rekeyed given table table') :
    Evolves V d (onLinks f d).2 := by
  unfold onLinks
  cases h : f d.links with
  | error e => exact .refl d
  | ok res =>
    refine ⟨fun r hr => .self hr, fun hlinks link hlink => ?_⟩
    obtain ⟨old, hold, hsame, hkey | ⟨id, hid, hkey⟩⟩ := hf _ _ _ h link hlink
    · exact (hlinks old hold).same hsame hkey
    · obtain ⟨record, hV, hstored, hrecord, hkeys⟩ := hgiven id _ hkey
      exact (hlinks old hold).rekeyed hsame (hid.trans (congrArg some hrecord.symm)) hV hstored
        hkeys

theorem evolves_inherits {f : LinkTable → Except Exc (α × LinkTable)}
    (hf : ∀ table a table', f table = .ok (a, table') → Inherits table table') :
    Evolves V d (onLinks f d).2 :=
  evolves_onLinks (fun _ _ hfalse => hfalse.elim) hf

/-- A new queue row for a version of a stored record. -/
theorem evolves_upsertPending {decision : RegistrationDecision} {maxImageBytes : Int} (id : Uuid)
    (now : Time) (hV : V record) (hstored : Stored d record)
    (hdecision : decideRegistrationTarget record maxImageBytes = .ok decision) :
    Evolves V d (onLinks (fun t => t.upsertPending id record decision now) d).2 := by
  simp only [onLinks]
  split
  · rename_i found links h
    refine ⟨fun r hr => .self hr, fun hlinks link hlink => ?_⟩
    rcases LinkTable.upsertPending_rows h link hlink with hold | ⟨hnew, hindexable⟩
    · exact hlinks link hold
    · obtain ⟨r, hr, hsame⟩ := hstored
      refine ⟨r, hr, ?_, hsame.indexable.2 hindexable⟩
      rw [hnew]
      exact ⟨congrArg some hsame.id.symm, hsame.fileSection.symm, hsame.userId.symm,
        record, hV, hsame, decide_key hdecision⟩
  · exact .refl d

/-! ### Programs -/

/-- A command after which every queue row has the key that it had. -/
def Calm : FileCmd → Prop
  | .db f => ∀ (V : FileRecord → Prop) d, Evolves V d (f d).2
  | _ => True

abbrev AllCalm (p : FileM α) : Prop := p.All Calm fun _ _ => True

/-- The tables answer, and hold no version of a record but the known ones. -/
def Within (V : FileRecord → Prop) : Handler FileCmd.Resp Exc Db := fun c d x t =>
  DbAnswers c d x t ∧ ∀ r ∈ t.records.rows, V r

/-- However the program ends, the tables have only evolved. -/
abbrev Safe (V : FileRecord → Prop) (p : FileM α) (d : Db) : Prop :=
  wp (Within V) (fun _ => True) p (fun _ t => Evolves V d t) d

theorem safe_done (r : Except Exc α) : Safe V (done r) d := ⟨trivial, .refl d⟩

theorem AllCalm.safe {p : FileM α} (hp : AllCalm p) (d : Db) : Safe V p d := by
  have hwp : wp (Within V) (Evolves V d) p (fun _ => Evolves V d) d := by
    refine wp_of_all hp (.refl d) ?_
    intro c s x t hc hs hx
    refine ⟨?_, fun _ _ => trivial⟩
    cases c with
    | uuid4 => exact hx.1.1 ▸ hs
    | db f =>
      have hf : f s = (x, t) := hx.1
      have hstep := hc V s
      rw [hf] at hstep
      exact hs.trans hstep
    | store adapter op =>
      have ht : t = s := hx.1
      exact ht ▸ hs
  exact wp_weaken hwp fun _ _ => trivial

theorem safe_after {p : FileM α} (h : Evolves V d t) (hp : Safe V p t) :
    wp (Within V) (fun _ => True) p (fun _ u => Evolves V d u) t :=
  wp_mono hp fun _ _ _ hu => h.trans hu

theorem safe_bind {p : FileM α} {k : α → FileM β} (hp : Safe V p d)
    (hk : ∀ a t, Evolves V d t → Safe V (k a) t) : Safe V (p.bind k) d :=
  wp_bind_of hp (fun a t _ h => safe_after h (hk a t h)) fun _ _ h => h

theorem safe_attempt {p : FileM α} {k : Except Exc α → FileM β} (hp : Safe V p d)
    (hk : ∀ r t, Evolves V d t → Safe V (k r) t) : Safe V (p.attempt.bind k) d := by
  apply (wp_bind _ _ _ _).2
  apply (wp_attempt _ _ _).2
  exact wp_mono hp fun r t _ h => safe_after h (hk r t h)

theorem safe_catch {p : FileM α} {k : Exc → FileM α} (hp : Safe V p d)
    (hk : ∀ e t, Evolves V d t → Safe V (k e) t) : Safe V (p.catchWith k) d :=
  wp_catch_of hp (fun _ _ h => h) fun e t _ h => safe_after h (hk e t h)

theorem safe_db {f : DbOp α} {k : α → FileM β} (hf : Evolves V d (f d).2)
    (hk : ∀ a, (f d).1 = .ok a → (∀ r ∈ (f d).2.records.rows, V r) → Safe V (k a) (f d).2) :
    Safe V ((db f).bind k) d := by
  refine ⟨trivial, fun x t hx => ?_⟩
  obtain ⟨hanswer, hversions⟩ := hx
  have hfd : f d = (x, t) := hanswer
  rw [hfd] at hf hk
  cases x with
  | error e => exact ⟨trivial, hf⟩
  | ok a => exact safe_after hf (hk a rfl hversions)

theorem safe_uuid4 {k : Uuid → FileM β} (hk : ∀ id, Safe V (k id) d) :
    Safe V (uuid4.bind k) d := by
  refine ⟨trivial, fun x t hx => ?_⟩
  have ht : t = d := hx.1.1
  rw [ht]
  cases x with
  | error e => exact safe_done _
  | ok id => exact hk id

theorem safe_ofExcept {x : Except Exc α} {k : α → FileM β}
    (hk : ∀ a, x = .ok a → Safe V (k a) d) : Safe V ((ofExcept x).bind k) d := by
  cases x with
  | error e => exact safe_done _
  | ok a => exact hk a rfl

/-- A call of the queue; a refused link is dropped. -/
theorem safe_links {f : LinkTable → Except Exc (α × LinkTable)} {refused : α}
    (hf : Evolves V d (onLinks f d).2) : Safe V (Enqueue.links f refused) d := by
  refine safe_catch ?_ fun e t _ => ?_
  · rw [← Effect.bind_done (db (onLinks f))]
    exact safe_db hf fun a _ _ => safe_done _
  · split <;> exact safe_done _

theorem calm_stores {p : FileM α} (hp : OnlyStores p) : AllCalm p := by
  refine all_mono hp fun c hc => ?_
  cases c with
  | store adapter op => trivial
  | _ => exact hc.elim

theorem calm_db {f : DbOp α} (hf : ∀ (V : FileRecord → Prop) d, Evolves V d (f d).2) :
    AllCalm (db f) :=
  ⟨hf, fun _ _ => all_done _⟩

theorem calm_links {f : LinkTable → Except Exc (α × LinkTable)} {refused : α}
    (hf : ∀ table a table', f table = .ok (a, table') → Inherits table table') :
    AllCalm (Enqueue.links f refused) := by
  refine all_catchWith (calm_db fun _ d => evolves_inherits hf) fun e => ?_
  split <;> trivial

/-- The repository calls that read, and those that change other columns. -/
theorem calm_select (p : FileRecord → Bool) : AllCalm (db (FileRepo.select p)) :=
  calm_db fun _ d => .refl d

theorem calm_assign (id : Uuid) {f : FileRecord → FileRecord}
    (hf : ∀ r, (f r).userId = r.userId ∧ (f r).fileSection = r.fileSection ∧
      (f r).isEncrypted = r.isEncrypted) :
    AllCalm (db (FileRepo.assign id f)) :=
  calm_db fun _ _ => evolves_update hf

theorem calm_modify (limit : Int) (userId : Uuid) (f : QuotaUsage → QuotaUsage) :
    AllCalm (db (QuotaRepo.modify limit userId f)) :=
  calm_db fun _ _ => evolves_quotas

theorem calm_delete (id : Uuid) : AllCalm (db (FileRepo.delete id)) :=
  calm_assign id fun _ => ⟨rfl, rfl, rfl⟩

theorem calm_ofExcept (x : Except Exc α) : AllCalm (ofExcept x) := all_done x

/-! ### The queue calls -/

theorem safe_upload (q : Enqueue) (now : Time) (hV : V record) (hstored : Stored d record) :
    Safe V (q.upload record now) d := by
  unfold Enqueue.upload
  split
  · exact safe_done _
  split
  · exact safe_done _
  · exact safe_done _
  rename_i decision hdecision
  split
  · exact safe_done _
  · refine safe_uuid4 fun id => ?_
    have hrow := evolves_upsertPending id now hV hstored hdecision
    exact safe_bind (safe_links hrow) fun _ _ _ => safe_done _

theorem safe_contentChanged (q : Enqueue) (now : Time) (hV : V record)
    (hstored : Stored d record) : Safe V (q.contentChanged record now) d := by
  unfold Enqueue.contentChanged
  split
  · exact safe_done _
  split
  · exact safe_done _
  · exact safe_done _
  rename_i decision hdecision
  split
  · exact safe_done _
  · refine safe_bind (safe_links (evolves_onLinks ?_ fun _ _ _ =>
      LinkTable.rekeyed_markContentChanged)) fun _ _ _ => safe_done _
    rintro id key ⟨hid, hkey⟩
    exact ⟨record, hV, hstored, hid.symm, hkey ▸ decide_key hdecision⟩

theorem safe_rekeyLinked (now : Time) (hV : V record) (hstored : Stored d record) :
    Safe V (Enqueue.rekeyLinked record now) d := by
  unfold Enqueue.rekeyLinked
  split
  · exact safe_done _
  · refine safe_bind (safe_links (evolves_onLinks ?_ fun _ _ _ => LinkTable.rekeyed_markRekey))
      fun _ _ _ => safe_done _
    rintro id key ⟨hid, hkey⟩
    exact ⟨record, hV, hstored, hid.symm, hkey ▸ List.mem_cons_self⟩

theorem safe_rekey (q : Enqueue) (now : Time) (hV : V record) (hstored : Stored d record) :
    Safe V (q.rekey record now) d := by
  unfold Enqueue.rekey
  split
  · exact safe_rekeyLinked now hV hstored
  · exact safe_done _

theorem safe_rekeyMany (q : Enqueue) (records : List FileRecord) (now : Time)
    (h : ∀ record ∈ records, V record ∧ Stored d record) :
    Safe V (q.rekeyMany records now) d := by
  have hall : Safe V (Enqueue.rekeyAll now records) d := by
    induction records generalizing d with
    | nil => exact safe_done _
    | cons record records ih =>
      have hfirst := h record List.mem_cons_self
      refine safe_bind (safe_rekeyLinked now hfirst.1 hfirst.2) fun _ t ht => ih ?_
      intro record hrecord
      have hrest := h record (List.mem_cons_of_mem _ hrecord)
      exact ⟨hrest.1, ht.stored hrest.2⟩
  unfold Enqueue.rekeyMany
  split
  · exact hall
  · exact safe_done _

theorem calm_removed (q : Enqueue) (ids : List Uuid) (now : Time) :
    AllCalm (q.removed ids now) := by
  unfold Enqueue.removed
  split
  · trivial
  · exact all_bind (calm_links fun _ _ _ => LinkTable.inherits_removeAll) fun _ => all_done _

theorem calm_archived (q : Enqueue) (record : FileRecord) (now : Time) :
    AllCalm (q.archived record now) := by
  unfold Enqueue.archived
  split
  · trivial
  · exact all_bind (calm_links fun _ _ _ => LinkTable.inherits_markArchived) fun _ => all_done _

/-! ### The services -/

section
-- The paths play no part here, and must not be evaluated.
attribute [local irreducible] Adapter.toDiskRelativePath normalizePath

theorem calm_heal (owner : Option Uuid) (fileSection : FileSection)
    (correctRelativePath originalName : Str) :
    AllCalm (db (FileRepo.heal owner fileSection correctRelativePath originalName)) := by
  refine calm_db fun _ d => ?_
  unfold FileRepo.heal
  split
  · split
    · exact .refl d
    · exact evolves_update fun _ => ⟨rfl, rfl, rfl⟩
  · exact .refl d

theorem calm_lookup (s : FileService) (userId : Uuid) (sectionPath : Str)
    (fileSection : FileSection) :
    AllCalm (s.getRecordBySectionPath userId sectionPath fileSection) := by
  have hdownloadable : ∀ owner path, AllCalm (db (FileRepo.getDownloadable owner path
      fileSection)) := fun _ _ => calm_db fun _ d => .refl d
  refine all_bind (calm_ofExcept _) fun path => ?_
  dsimp only
  split
  · refine all_bind (hdownloadable _ _) fun found => ?_
    split
    · trivial
    · exact calm_heal _ _ _ _
  · refine all_bind (hdownloadable _ _) fun found => ?_
    split
    · trivial
    · exact calm_heal _ _ _ _

theorem calm_getDownloadableRecord (s : FileService) (fileId actorId : Uuid) :
    AllCalm (s.getDownloadableRecord fileId actorId) := by
  refine all_bind (calm_db fun _ d => .refl d) fun found => ?_
  split
  · trivial
  · split_ifs <;> trivial

attribute [local irreducible] FileService.getRecordBySectionPath FileService.getDownloadableRecord
  FileService.isDirectory FileService.deleteObject

theorem calm_chargeDelta (s : FileService) (userId : Uuid) (delta : Int)
    (fileSection : FileSection) : AllCalm (s.chargeDelta userId delta fileSection) := by
  unfold FileService.chargeDelta
  split
  · exact all_bind (calm_modify _ _ _) fun _ => all_done _
  · split
    · exact all_bind (calm_modify _ _ _) fun _ => all_done _
    · trivial

theorem calm_getByUserId (limit : Int) (userId : Uuid) :
    AllCalm (db (QuotaRepo.getByUserId limit userId)) := by
  refine calm_db fun _ d => ?_
  unfold QuotaRepo.getByUserId
  split
  · exact .refl d
  · exact evolves_quotas

theorem calm_ensureOverwriteQuota (s : FileService) (userId : Uuid) (extraBytes : Int)
    (fileSection : FileSection) :
    AllCalm (s.ensureOverwriteQuota userId extraBytes fileSection) := by
  unfold FileService.ensureOverwriteQuota
  split
  · trivial
  · refine all_bind (calm_getByUserId _ _) fun usage => ?_
    split_ifs <;> trivial

/-- An assigned row that comes back is stored, and is one of the versions. -/
theorem safe_assign {id : Uuid} {f : FileRecord → FileRecord} {k : Option FileRecord → FileM α}
    (hf : ∀ r, (f r).userId = r.userId ∧ (f r).fileSection = r.fileSection ∧
      (f r).isEncrypted = r.isEncrypted)
    (hnone : ∀ t, Safe V (k none) t)
    (hsome : ∀ record t, V record → Stored t record → Safe V (k (some record)) t) :
    Safe V ((db (FileRepo.assign id f)).bind k) d := by
  refine safe_db (evolves_update hf) fun found hfound hversions => ?_
  cases found with
  | none => exact hnone _
  | some record =>
    have hget : (d.records.update (·.id = id) f).get id = some record := Except.ok.inj hfound
    have hmem := (RecordTable.get_some hget).1
    exact hsome record _ (hversions record hmem) (.self hmem)

theorem safe_commitOverwrite (s : FileService) (userId : Uuid) (existing : FileRecord)
    (finalPath : Str) (data : Bytes) (size : Nat) (fileSection : FileSection) (now : Time) :
    Safe V (s.commitOverwrite userId existing finalPath data size fileSection now) d := by
  unfold FileService.commitOverwrite
  refine safe_bind ((calm_stores (onlyStores_store _ _)).safe _) fun checksum _ _ => ?_
  refine safe_bind ((calm_stores (onlyStores_deleteIfExists _ _)).safe _) fun _ _ _ => ?_
  refine safe_bind ((calm_stores (onlyStores_store _ _)).safe _) fun _ _ _ => ?_
  refine safe_assign (fun _ => ⟨rfl, rfl, rfl⟩) (fun _ => safe_done _) fun updated t hV ht => ?_
  refine safe_bind ((calm_chargeDelta _ _ _ _).safe _) fun _ u hu => ?_
  exact safe_bind (safe_contentChanged _ _ hV (hu.stored ht)) fun _ _ _ => safe_done _

theorem safe_rename (s : FileService) (actorId fileId : Uuid) (newName : Str) (now : Time) :
    Safe V (s.rename actorId fileId newName now) d := by
  unfold FileService.rename
  refine safe_bind ((calm_getDownloadableRecord _ _ _).safe _) fun record _ _ => ?_
  split
  · exact safe_done _
  · refine safe_bind ((calm_stores (onlyStores_store _ _)).safe _) fun _ _ _ => ?_
    refine safe_ofExcept fun relativePath _ => ?_
    refine safe_assign (fun _ => ⟨rfl, rfl, rfl⟩) (fun _ => safe_done _) fun updated t hV ht => ?_
    exact safe_bind (safe_rekey _ _ hV ht) fun _ _ _ => safe_done _

theorem calm_movePrefix (owner : Option Uuid) (fileSection : FileSection)
    (oldPrefix newPrefix : Str) :
    AllCalm (db (FileRepo.movePrefix owner fileSection oldPrefix newPrefix)) :=
  calm_db fun _ _ => evolves_update fun _ => ⟨rfl, rfl, rfl⟩

theorem safe_renameDirectory (s : FileService) (userId : Uuid) (normalized newPath : Str)
    (now : Time) : Safe V (s.renameDirectory userId normalized newPath now) d := by
  unfold FileService.renameDirectory FileService.enqueueRenamedDescendants
  refine safe_ofExcept fun oldDiskPrefix _ => ?_
  refine safe_ofExcept fun newDiskPrefix _ => ?_
  refine safe_bind ((calm_stores (onlyStores_store _ _)).safe _) fun _ _ _ => ?_
  split
  · exact safe_bind ((calm_movePrefix _ _ _ _).safe _) fun _ _ _ => safe_done _
  · refine safe_bind ((calm_movePrefix _ _ _ _).safe _) fun _ t _ => ?_
    split
    · refine safe_db (.refl t) fun descendants hselected hversions => ?_
      refine safe_rekeyMany _ _ _ fun record hrecord => ?_
      have hrows : _ = descendants := Except.ok.inj hselected
      rw [← hrows] at hrecord
      have hmem := (List.mem_filter.1 hrecord).1
      exact ⟨hversions record hmem, .self hmem⟩
    · exact safe_done _

theorem safe_renameByPath (s : FileService) (userId : Uuid) (path newName : Str) (now : Time) :
    Safe V (s.renameByPath userId path newName now) d := by
  unfold FileService.renameByPath
  refine safe_bind ((calm_stores (onlyStores_store _ _)).safe _) fun present _ _ => ?_
  split
  · exact safe_done _
  refine safe_bind ((calm_stores (onlyStores_isDirectory _ _)).safe _) fun directory _ _ => ?_
  split
  · exact safe_bind (safe_renameDirectory _ _ _ _ _) fun _ _ _ => safe_done _
  refine safe_bind ((calm_lookup _ _ _ _).safe _) fun found _ _ => ?_
  split
  · exact safe_done _
  · exact safe_bind (safe_rename _ _ _ _ _) fun _ _ _ => safe_done _

theorem calm_readByPath (s : FileService) (actorId : Uuid) (path : Str) (now : Time) :
    AllCalm (s.readByPath actorId path now) := by
  unfold FileService.readByPath FileService.recordToRead
  have hread : ∀ record sectionPath, OnlyStores (s.readRecord record sectionPath) := by
    intro record sectionPath
    unfold FileService.readRecord
    split
    · exact onlyStores_streamArchived _ _
    · exact onlyStores_store _ _
  refine all_bind (all_bind (calm_lookup _ _ _ _) fun found => ?_) fun found => ?_
  · split
    · trivial
    · split
      · exact calm_lookup _ _ _ _
      · trivial
  · split
    · refine all_bind (calm_stores (hread _ _)) fun content => ?_
      exact all_bind (calm_assign _ fun _ => ⟨rfl, rfl, rfl⟩) fun _ => all_done _
    · exact calm_stores (onlyStores_store _ _)

theorem calm_deleteFile (s : FileService) (actorId fileId : Uuid) (actorRole : Option Role)
    (now : Time) : AllCalm (s.deleteFile actorId fileId actorRole now) := by
  unfold FileService.deleteFile
  refine all_bind (calm_getDownloadableRecord _ _ _) fun record => ?_
  refine all_bind (calm_stores (onlyStores_ensureCanDelete _ _ _ _)) fun _ => ?_
  refine all_bind (calm_stores (onlyStores_deleteObject _ _)) fun _ => ?_
  refine all_bind (calm_delete _) fun _ => ?_
  exact all_bind (calm_modify _ _ _) fun _ => calm_removed _ _ _

theorem calm_deleteRecords (records : List FileRecord) :
    AllCalm (FileService.deleteRecords records) := by
  induction records with
  | nil => trivial
  | cons record records ih =>
    unfold FileService.deleteRecords FileService.deleteArchive
    refine all_bind ?_ fun _ => all_bind (calm_delete _) fun _ => ih
    split
    · exact calm_stores (onlyStores_deleteArchivedBlob _)
    · trivial

theorem calm_deleteDirectoryRecursive (s : FileService) (userId : Uuid) (path : Str)
    (now : Time) : AllCalm (s.deleteDirectoryRecursive userId path now) := by
  unfold FileService.deleteDirectoryRecursive FileService.releaseBytes
  dsimp only
  split
  · trivial
  refine all_bind (calm_stores (onlyStores_store _ _)) fun present => ?_
  split
  · trivial
  refine all_bind (calm_stores (onlyStores_isDirectory _ _)) fun directory => ?_
  split
  · trivial
  refine all_bind (calm_ofExcept _) fun diskPrefix => ?_
  refine all_bind (calm_select _) fun records => ?_
  refine all_bind (calm_stores (onlyStores_store _ _)) fun _ => ?_
  refine all_bind (calm_deleteRecords _) fun _ => ?_
  refine all_bind ?_ fun _ => all_bind (calm_removed _ _ _) fun _ => all_done _
  split
  · trivial
  · exact all_bind (calm_modify _ _ _) fun _ => all_done _

attribute [local irreducible] FileService.deleteDirectoryRecursive

theorem calm_deleteByPath (s : FileService) (actorId : Uuid) (path : Str)
    (actorRole : Option Role) (now : Time) :
    AllCalm (s.deleteByPath actorId path actorRole now) := by
  unfold FileService.deleteByPath FileService.deleteUntracked
  refine all_bind (calm_lookup _ _ _ _) fun found => ?_
  split
  · exact calm_deleteFile _ _ _ _ _
  refine all_bind (calm_stores (onlyStores_store _ _)) fun present => ?_
  split
  · trivial
  refine all_bind (calm_stores (onlyStores_isDirectory _ _)) fun directory => ?_
  split
  · split
    · exact all_bind (calm_deleteDirectoryRecursive _ _ _ _) fun _ => all_done _
    · exact calm_stores (onlyStores_store _ _)
  · exact calm_stores (onlyStores_store _ _)

theorem calm_deletePhoto (s : PhotoService) (userId fileId : Uuid) (now : Time) :
    AllCalm (s.deletePhoto userId fileId now) := by
  unfold PhotoService.deletePhoto PhotoService.getDownloadableRecord PhotoService.deleteObject
  refine all_bind (all_bind (calm_db fun _ d => .refl d) fun found => ?_) fun record => ?_
  · split
    · trivial
    · split_ifs <;> trivial
  refine all_bind ?_ fun _ => ?_
  · split
    · exact calm_stores (onlyStores_deleteArchivedBlob _)
    · exact calm_stores (onlyStores_deleteIfExists _ _)
  refine all_bind (calm_stores (onlyStores_deleteIfExists _ _)) fun _ => ?_
  refine all_bind (calm_delete _) fun _ => ?_
  exact all_bind (calm_modify _ _ _) fun _ => calm_removed _ _ _

theorem calm_resetPrivateStorage (settings : Settings) (inner : Adapter) (userId : Uuid) :
    AllCalm (resetPrivateStorage settings inner userId) := by
  unfold resetPrivateStorage
  refine all_bind (calm_stores (onlyStores_store _ _)) fun _ => ?_
  refine all_bind (all_catchWith (calm_stores (onlyStores_deleteIfExists _ _)) fun e => ?_)
    fun _ => ?_
  · split <;> trivial
  refine all_bind (calm_stores (onlyStores_store _ _)) fun _ => ?_
  refine all_bind (calm_db fun _ _ => evolves_update fun _ => ⟨rfl, rfl, rfl⟩) fun _ => ?_
  exact all_bind (calm_modify _ _ _) fun _ => all_done _

theorem calm_archiveAll (s : ArchiveService) (now : Time) (records : List FileRecord)
    (report : ArchiveReport) : AllCalm (s.archiveAll now records report) := by
  induction records generalizing report with
  | nil => trivial
  | cons record records ih =>
    have hrecord : AllCalm (s.archiveRecord record now) := by
      unfold ArchiveService.archiveRecord
      refine all_bind (calm_stores (onlyStores_store _ _)) fun present => ?_
      split
      · trivial
      refine all_bind (calm_stores (onlyStores_store _ _)) fun source => ?_
      refine all_bind (calm_stores (onlyStores_store _ _)) fun _ => ?_
      refine all_bind (calm_stores (onlyStores_store _ _)) fun _ => ?_
      refine all_bind (calm_assign _ fun _ => ⟨rfl, rfl, rfl⟩) fun found => ?_
      split
      · trivial
      · exact all_bind (calm_archived _ _ _) fun _ => all_done _
    unfold ArchiveService.archiveAll
    refine all_bind (all_attempt hrecord) fun outcome => ?_
    split <;> exact ih _

theorem calm_runDailyArchive (s : ArchiveService) (now : Time) :
    AllCalm (s.runDailyArchive now) := by
  unfold ArchiveService.runDailyArchive
  refine all_bind (calm_select _) fun candidates => ?_
  refine all_bind (calm_archiveAll _ _ _ _) fun report => ?_
  refine all_bind (calm_select _) fun archived => ?_
  exact all_bind (calm_stores (onlyStores_totalArchivedBytes _ _)) fun _ => all_done _

theorem calm_reconcileAll (settings : Settings) (userIds : List Uuid) (fixed : Nat) :
    AllCalm (Maintenance.reconcileAll settings userIds fixed) := by
  induction userIds generalizing fixed with
  | nil => trivial
  | cons userId userIds ih =>
    unfold Maintenance.reconcileAll Maintenance.reconcileUser
    refine all_bind ?_ fun corrected => ih _
    refine all_bind (calm_db fun _ d => .refl d) fun realTotal => ?_
    refine all_bind (calm_getByUserId _ _) fun usage => ?_
    split
    · trivial
    · exact all_bind (calm_modify _ _ _) fun _ => all_done _

/-! ### Uploads -/

/-- The bytes of a committed record are charged, and the record is queued. -/
theorem safe_charge_upload (q : Enqueue) (limit : Int) (userId : Uuid) (sizeBytes : Int)
    (fileSection : FileSection) (now : Time) (answer : α) (hV : V record)
    (hstored : Stored d record) :
    Safe V ((db (QuotaRepo.increment limit userId sizeBytes fileSection)).bind fun _ =>
      (q.upload record now).bind fun _ => done (.ok answer)) d := by
  refine safe_bind ((calm_modify _ _ _).safe _) fun _ t ht => ?_
  exact safe_bind (safe_upload q now hV (ht.stored hstored)) fun _ _ _ => safe_done _

theorem safe_commitUpload (s : FileService) (record : FileRecord) (finalPath : Str) (data : Bytes)
    (size : Nat) (now : Time) : Safe V (s.commitUpload record finalPath data size now) d := by
  unfold FileService.commitUpload
  refine safe_bind ((calm_stores (onlyStores_store _ _)).safe _) fun checksum _ _ => ?_
  refine safe_bind ((calm_stores (onlyStores_store _ _)).safe _) fun _ _ _ => ?_
  refine safe_bind ((calm_ofExcept _).safe _) fun relativePath _ _ => ?_
  refine safe_assign (fun _ => ⟨rfl, rfl, rfl⟩) (fun _ => safe_done _) fun committed t hV ht => ?_
  exact safe_charge_upload _ _ _ _ _ _ _ hV ht

theorem safe_uploadFile (s : FileService) (userId : Uuid) (path filename : Str) (data : Bytes)
    (size : Nat) (fileSection : FileSection) (now : Time) :
    Safe V (s.uploadFile userId path filename data size fileSection now) d := by
  unfold FileService.uploadFile
  refine safe_bind ((calm_ofExcept _).safe _) fun diskRelativePath _ _ => ?_
  refine safe_uuid4 fun id => ?_
  refine safe_bind ((calm_db fun _ _ => evolves_create _ _ _ _ _ _ _ _ _).safe _)
    fun record _ _ => ?_
  refine safe_catch (safe_commitUpload _ _ _ _ _ _) fun e _ _ => ?_
  refine safe_bind ((calm_stores (onlyStores_deleteIfExists _ _)).safe _) fun _ _ _ => ?_
  exact safe_bind ((calm_delete _).safe _) fun _ _ _ => safe_done _

theorem safe_commitPhoto (s : PhotoService) (record : FileRecord)
    (originalSectionPath diskRelativePath : Str) (data : Bytes) (size : Nat) (now : Time) :
    Safe V (s.commitPhoto record originalSectionPath diskRelativePath data size now) d := by
  unfold PhotoService.commitPhoto
  refine safe_bind ((calm_stores (onlyStores_store _ _)).safe _) fun checksum _ _ => ?_
  refine safe_assign (fun _ => ⟨rfl, rfl, rfl⟩) (fun _ => safe_done _) fun committed t hV ht => ?_
  exact safe_charge_upload _ _ _ _ _ _ _ hV ht

theorem safe_uploadPhoto (s : PhotoService) (userId : Uuid) (filename : Str) (data : Bytes)
    (size : Nat) (now : Time) : Safe V (s.uploadPhoto userId filename data size now) d := by
  unfold PhotoService.uploadPhoto
  dsimp only
  split
  · exact safe_done _
  refine safe_uuid4 fun id => ?_
  refine safe_bind ((calm_db fun _ _ => evolves_create _ _ _ _ _ _ _ _ _).safe _)
    fun record _ _ => ?_
  refine safe_bind ((calm_ofExcept _).safe _) fun diskRelativePath u _ => ?_
  refine safe_catch (safe_commitPhoto _ _ _ _ _ _ _) fun e _ _ => ?_
  refine safe_bind ((calm_stores (onlyStores_deleteIfExists _ _)).safe _) fun _ _ _ => ?_
  exact safe_bind ((calm_delete _).safe _) fun _ _ _ => safe_done _

theorem safe_extractEntry (s : FileService) (userId : Uuid) (sectionPath : Str) (info : ZipInfo)
    (now : Time) : Safe V (s.extractEntry userId sectionPath info now) d := by
  unfold FileService.extractEntry
  refine safe_bind ((calm_ofExcept _).safe _) fun diskRelativePath _ _ => ?_
  refine safe_uuid4 fun id => ?_
  refine safe_bind ((calm_db fun _ _ => evolves_create _ _ _ _ _ _ _ _ _).safe _)
    fun record _ _ => ?_
  refine safe_bind ((calm_stores (onlyStores_store _ _)).safe _) fun checksum _ _ => ?_
  refine safe_bind ((calm_stores (onlyStores_store _ _)).safe _) fun _ _ _ => ?_
  refine safe_bind ((calm_ofExcept _).safe _) fun relativePath _ _ => ?_
  refine safe_assign (fun _ => ⟨rfl, rfl, rfl⟩) (fun t => ?_) fun committed t hV ht => ?_
  · exact safe_bind ((calm_delete _).safe _) fun _ _ _ => safe_done _
  · exact safe_charge_upload _ _ _ _ _ _ _ hV ht

theorem safe_extractAll (s : FileService) (userId : Uuid) (now : Time)
    (paths : List (Str × ZipInfo)) (created : List Str) (counts : Nat × Nat) :
    Safe V (s.extractAll userId now paths created counts) d := by
  induction paths generalizing created counts d with
  | nil => exact safe_done _
  | cons entry rest ih =>
    obtain ⟨sectionPath, info⟩ := entry
    obtain ⟨files, totalBytes⟩ := counts
    unfold FileService.extractAll
    split
    · exact ih _ _
    · refine safe_bind ((calm_stores (onlyStores_ensureParent _ _ _)).safe _) fun _ t _ => ?_
      refine safe_attempt (safe_extractEntry _ _ _ _ _) fun outcome u _ => ?_
      split <;> exact ih _ _

theorem safe_uploadZipFolder (s : FileService) (userId : Uuid) (path zipFilename : Str)
    (zip : Option (List ZipInfo)) (totalUncompressedBytes available : Int) (now : Time) :
    Safe V (s.uploadZipFolder userId path zipFilename zip totalUncompressedBytes available now)
      d := by
  unfold FileService.uploadZipFolder
  split
  · exact safe_done _
  split
  · exact safe_done _
  · exact safe_done _
  · refine safe_bind ((calm_ofExcept _).safe _) fun paths _ _ => ?_
    refine safe_bind ((calm_stores (onlyStores_store _ _)).safe _) fun _ _ _ => ?_
    refine safe_bind ((calm_stores (onlyStores_makeDirectories _ _ _)).safe _) fun _ _ _ => ?_
    exact safe_extractAll _ _ _ _ _ _

theorem safe_overwriteFile (s : FileService) (userId : Uuid) (path filename : Str) (data : Bytes)
    (size : Nat) (fileSection : FileSection) (now : Time) :
    Safe V (s.overwriteFile userId path filename data size fileSection now) d := by
  unfold FileService.overwriteFile
  refine safe_bind ((calm_lookup _ _ _ _).safe _) fun found t _ => ?_
  cases found with
  | none => exact safe_uploadFile _ _ _ _ _ _ _ _
  | some existing =>
    refine safe_bind ((calm_ensureOverwriteQuota _ _ _ _).safe _) fun _ u _ => ?_
    refine safe_catch (safe_commitOverwrite _ _ _ _ _ _ _ _) fun e _ _ => ?_
    refine safe_bind ((calm_stores (onlyStores_deleteIfExists _ _)).safe _) fun _ _ _ => ?_
    exact safe_done _

/-- Every request but the one that drops stale uploads keeps the queue clean. -/
theorem safe_program (now : Time) (request : Request) (hrequest : request ≠ .cleanupPendingRecords) :
    Safe V (request.program now) d := by
  have hignore : ∀ {γ : Type} {p : FileM γ}, Safe V p d → Safe V (ignore p) d :=
    fun hp => safe_bind hp fun _ _ _ => safe_done _
  cases request with
  | uploadFile s userId path filename data size fileSection =>
    exact hignore (safe_uploadFile _ _ _ _ _ _ _ _)
  | overwriteFile s userId path filename data size fileSection =>
    exact hignore (safe_overwriteFile _ _ _ _ _ _ _ _)
  | uploadZipFolder s userId path zipFilename zip total available =>
    exact hignore (safe_uploadZipFolder _ _ _ _ _ _ _ _)
  | createDirectory s path name => exact (calm_stores (onlyStores_store _ _)).safe d
  | rename s actorId fileId newName => exact hignore (safe_rename _ _ _ _ _)
  | renameByPath s userId path newName => exact hignore (safe_renameByPath _ _ _ _ _)
  | readByPath s actorId path => exact hignore ((calm_readByPath _ _ _ _).safe d)
  | deleteFile s actorId fileId actorRole => exact (calm_deleteFile _ _ _ _ _).safe d
  | deleteByPath s actorId path actorRole => exact (calm_deleteByPath _ _ _ _ _).safe d
  | uploadPhoto s userId filename data size => exact hignore (safe_uploadPhoto _ _ _ _ _ _)
  | deletePhoto s userId fileId => exact (calm_deletePhoto _ _ _ _).safe d
  | resetPrivateStorage settings inner userId => exact (calm_resetPrivateStorage _ _ _).safe d
  | runDailyArchive s => exact hignore ((calm_runDailyArchive _ _).safe d)
  | cleanupPendingRecords => exact absurd rfl hrequest
  | cleanupTmpDirs => exact hignore ((calm_stores (onlyStores_cleanupTmpDirs now)).safe d)
  | reconcileQuotas settings =>
    refine hignore (AllCalm.safe ?_ d)
    refine all_bind (calm_db fun _ t => .refl t) fun committed => ?_
    refine all_bind (calm_db fun _ t => .refl t) fun all => ?_
    exact all_bind (calm_reconcileAll _ _ _) fun _ => all_done _

end

end WebStorage.PrivateUnindexed
