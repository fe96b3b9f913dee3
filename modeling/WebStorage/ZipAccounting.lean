import WebStorage.FailedUpload
import WebStorage.QuotaBooks
import WebStorage.ReadBack

set_option autoImplicit false

/-! A ZIP upload in which entries fail: what is counted, and what is left of each entry. -/
namespace WebStorage.ZipAccounting
open Effect Effect.Prog S3 FileService FailedUpload QuotaBooks

attribute [local irreducible] Adapter.toDiskRelativePath normalizePath objectKey

/-! ### Requests in which any call may raise -/

/-- An id that names nothing yet: no record, no temporary object, and no file of the archive. -/
def NewId (taken : Str → Prop) (a : Attempt) (id : Uuid) : Prop :=
  a.db.records.get id = none ∧ ∀ adapter, a.bucket.content (tmpKey adapter id) = none ∧
    ¬ taken (tmpKey adapter id)

/-- Any call may raise, whatever has raised before. Ids are new, and the queue alone refuses private
links. -/
def Tolerated (host : Host) (taken : Str → Prop) : Handler FileCmd.Resp Exc Attempt := fun c a x t =>
  Outage host c { a with raised := none } x t ∧
    match c with
    | .uuid4 => ∀ id, x = .ok id → NewId taken a id
    | .db f => x = .error .privateIndexRefused → x = (f a.db).1 ∧ t.db = (f a.db).2
    | .store _ _ => True

section
variable {α β : Type} {host : Host} {taken : Str → Prop} {a : Attempt}

end

/-! ### The link of an entry -/

/-- There is a link for the record. -/
def Linked (d : Db) (id : Uuid) : Prop := ∃ link ∈ d.links.rows, link.fileRecordId = some id

/-- The registration rule wants a link for the record. -/
def LinkRequired (q : Enqueue) (record : FileRecord) : Prop :=
  q.active = true ∧ Enqueue.refusedWithoutRow record = false ∧
    ∃ decision, decideRegistrationTarget record q.settings.maxImageBytes = .ok decision ∧
      decision.skipCode ≠ some .excludedSection

section
variable {t t' : LinkTable} {id : Uuid} {record : FileRecord} {decision : RegistrationDecision}
  {now : Time} {found : Option IndexLink}

end

section
variable {host : Host} {taken : Str → Prop} {a : Attempt} {q : Enqueue} {record : FileRecord}
  {now : Time}

end
/-! ### One entry -/

section
variable {host : Host} {taken : Str → Prop} {s : FileService} {a u t : Attempt} {userId : Uuid}
  {path key : Str} {info : ZipInfo} {now : Time} {record : FileRecord}

/-- The entry has become a file with a record. -/
structure Made (s : FileService) (userId : Uuid) (path key : Str) (info : ZipInfo)
    (record : FileRecord) (a t : Attempt) : Prop where
  fresh : a.db.records.get record.id = none
  rows : t.db.records.rows = a.db.records.rows ++ [record]
  status : record.status = .committed
  size : record.sizeBytes = info.fileSize
  relative : s.adapter.toDiskRelativePath path = .ok record.relativePath
  content : ∀ k, t.bucket.content k = if k = key then some info.content else a.bucket.content k
  quotas : t.db.quotas = (QuotaRepo.increment s.queue.settings.defaultUserQuotaBytes userId
    info.fileSize s.fileSection a.db).2.quotas
  links : ∀ id, Linked a.db id → Linked t.db id
  linked : LinkRequired s.queue record → Linked t.db record.id

/-- The entry has left at most a pending record. -/
structure Untouched (a t : Attempt) : Prop where
  objects : Unchanged a.bucket t.bucket
  rows : t.db.records = a.db.records ∨ ∃ pending, pending.status = .pending ∧
    a.db.records.get pending.id = none ∧ t.db.records.rows = a.db.records.rows ++ [pending]
  quotas : t.db.quotas = a.db.quotas
  links : t.db.links = a.db.links

/-- What raised does no harm: the creation of the record, the stream, or a call of the write that has
not stored the temporary object. -/
def Harmless (key : Str) (a : Attempt) (step : Step) : Prop :=
  step = .table a.operations ∨ step = .stream ∨ ∃ c carried k, step = .call c carried ∧ Builds k c ∧
    k ≠ key ∧ (Stores k c && carried) = false

/-- The entry has left something: another object, or its bytes at its key. -/
def Spoiled (key : Str) (info : ZipInfo) (a t : Attempt) : Prop :=
  (∃ step, t.raised = some step ∧ ¬ Harmless key a step) ∧
    ((∃ k, t.bucket.content k ≠ a.bucket.content k) ∨ t.bucket.content key = some info.content)

/-- How an entry ends. -/
def Extracted (s : FileService) (userId : Uuid) (path key : Str) (info : ZipInfo) (a : Attempt)
    (r : Except Exc Bool) (t : Attempt) : Prop :=
  (r = .ok true ∧ ∃ record, Made s userId path key info record a t) ∨
    ((∃ e, r = .error e) ∧ (Untouched a t ∧ (∀ step, t.raised = some step → Harmless key a step) ∨
      Spoiled key info a t))

/-- The record of the entry, before it is committed. -/
def pendingRecord (s : FileService) (userId : Uuid) (relative : Str) (info : ZipInfo) (id : Uuid)
    (now : Time) : FileRecord where
  id := id
  userId := userId
  relativePath := relative
  originalName := Text.name (Text.slashes info.filename)
  sizeBytes := info.fileSize
  isEncrypted := decide (s.fileSection = .private)
  fileSection := s.fileSection
  status := .pending
  checksumSha256 := none
  createdAt := now
  lastAccessedAt := now
  isArchived := false
  archivePath := none

/-- The record of the entry, once it is committed. -/
def committedRecord (pending : FileRecord) (checksum : Digest) (relative : Str) : FileRecord :=
  { pending with status := .committed, checksumSha256 := some checksum, relativePath := relative }

theorem commit_new {d : Db} {rows : List FileRecord} {pending : FileRecord} {checksum : Digest}
    {relative : Str} (hrows : d.records.rows = rows ++ [pending])
    (hnew : ∀ r ∈ rows, r.id ≠ pending.id) :
    (FileRepo.updateStatus pending.id .committed (some checksum) (some relative) none d).1 =
      .ok (some (committedRecord pending checksum relative)) ∧
    (FileRepo.updateStatus pending.id .committed (some checksum) (some relative) none d).2.records.rows =
      rows ++ [committedRecord pending checksum relative] := by
  have hupdated : (FileRepo.updateStatus pending.id .committed (some checksum) (some relative) none
      d).2.records.rows = rows ++ [committedRecord pending checksum relative] := by
    show RecordTable.updated _ _ d.records.rows = _
    unfold RecordTable.updated
    rw [hrows, List.map_append, List.map_singleton, if_pos (decide_eq_true rfl)]
    -- the rows before it have other ids
    have hkept : rows.map (fun r => if decide (r.id = pending.id) = true then
        ({ r with
          status := .committed
          checksumSha256 := some checksum <|> r.checksumSha256
          relativePath := (some relative).getD r.relativePath
          originalName := none.getD r.originalName
          id := r.id } : FileRecord) else r) = rows := by
      have hid := List.map_congr_left (f := fun r => if decide (r.id = pending.id) = true then
        ({ r with
          status := .committed
          checksumSha256 := some checksum <|> r.checksumSha256
          relativePath := (some relative).getD r.relativePath
          originalName := none.getD r.originalName
          id := r.id } : FileRecord) else r) (g := id) (l := rows) (by
        intro r hr
        rw [decide_eq_false (hnew r hr)]
        rfl)
      rw [hid, List.map_id]
    rw [hkept]
    rfl
  refine ⟨?_, hupdated⟩
  have hmem : committedRecord pending checksum relative ∈ (FileRepo.updateStatus pending.id .committed
      (some checksum) (some relative) none d).2.records.rows := by
    rw [hupdated]
    exact List.mem_append_right _ (List.mem_singleton_self _)
  have hget := RecordTable.get_of_mem hmem
  show Except.ok _ = _
  exact congrArg Except.ok hget

end
/-! ### The loop over the entries -/

/-- One file entry of the loop, and the state around it. -/
structure Extraction where
  path : Str
  info : ZipInfo
  before : Attempt
  outcome : Except Exc Bool
  after : Attempt

/-- The entry is counted as a file. -/
def Extraction.counted (e : Extraction) : Bool := e.outcome.toOption = some true

/-- What the counted entries add up to. -/
def countedFiles (story : List Extraction) : Nat := (story.filter (·.counted)).length

def countedBytes (story : List Extraction) : Nat :=
  ((story.filter (·.counted)).map (·.info.fileSize)).sum

theorem counted_cons (e : Extraction) (story : List Extraction) :
    countedFiles (e :: story) = (if e.counted then 1 else 0) + countedFiles story ∧
      countedBytes (e :: story) = (if e.counted then e.info.fileSize else 0) + countedBytes story := by
  unfold countedFiles countedBytes
  rw [List.filter_cons]
  by_cases hc : e.counted = true
  · rw [if_pos hc, if_pos hc, if_pos hc, List.length_cons, List.map_cons, List.sum_cons]
    exact ⟨Nat.add_comm _ _, rfl⟩
  · rw [if_neg hc, if_neg hc, if_neg hc]
    exact ⟨(Nat.zero_add _).symm, (Nat.zero_add _).symm⟩

section
variable {host : Host} {taken : Str → Prop} {s : FileService} {userId : Uuid} {now : Time}

end
/-! ### What is left of the archive -/

/-- The committed records that the request has created. -/
def made (w : Installation) (t : Attempt) : List FileRecord :=
  t.db.records.rows.filter fun r => decide (r.status = .committed) && (w.db.records.get r.id).isNone

/-- The record of a counted entry: its object is there, and its link where one is wanted. -/
structure Kept (s : FileService) (t : Attempt) (e : Extraction) (record : FileRecord) : Prop where
  size : record.sizeBytes = e.info.fileSize
  relative : s.adapter.toDiskRelativePath e.path = .ok record.relativePath
  content : ∀ key, objectKey s.adapter e.path = .ok key → t.bucket.content key = some e.info.content
  linked : LinkRequired s.queue record → Linked t.db record.id

/-- The bytes of the entry are at its key. -/
def InPlace (s : FileService) (e : Extraction) : Prop :=
  ∃ key, objectKey s.adapter e.path = .ok key ∧ e.after.bucket.content key = some e.info.content

/-- A failed entry has changed no object, its bytes are not at its key, and no record was committed. -/
structure LeftNothing (s : FileService) (e : Extraction) : Prop where
  objects : Unchanged e.before.bucket e.after.bucket
  final : ¬ InPlace s e
  records : e.after.db.records.rows.filter (fun r => decide (r.status = .committed)) =
    e.before.db.records.rows.filter (fun r => decide (r.status = .committed))

/-- What is reported of the archive is what is there of it. -/
structure Accounted (s : FileService) (userId : Uuid) (w : Installation) (stats : ZipStats)
    (story : List Extraction) (t : Attempt) : Prop where
  kept : List.Forall₂ (Kept s t) (story.filter (·.counted)) (made w t)
  files : (made w t).length = stats.files
  bytes : ((made w t).map (·.sizeBytes)).sum = stats.totalBytes
  charged : ∀ u column, recordedBytes t.db u column =
    recordedBytes w.db u column + due userId s.fileSection stats.totalBytes u column
  failed : ∀ e ∈ story, e.counted = false → LeftNothing s e

/-- What raised in a failed entry does no harm, and the bytes of the entry were not at its key. -/
def Spared (s : FileService) (e : Extraction) : Prop :=
  ∀ key, objectKey s.adapter e.path = .ok key →
    (∀ step, e.after.raised = some step → Harmless key e.before step) ∧
      e.before.bucket.content key ≠ some e.info.content

/-- The failed entries are spared, and the files of one key are the same. -/
structure Sound (s : FileService) (story : List Extraction) : Prop where
  spared : ∀ e ∈ story, e.counted = false → Spared s e
  agree : ∀ e ∈ story, ∀ e' ∈ story, e.counted = true → e'.counted = true → ∀ key,
    objectKey s.adapter e.path = .ok key → objectKey s.adapter e'.path = .ok key →
    e.info.content = e'.info.content

section
variable {host : Host} {taken : Str → Prop} {s : FileService} {userId : Uuid} {now : Time}
  {a t : Attempt}

/-- A part of the request that makes directories only. -/
structure Directories (a t : Attempt) : Prop where
  db : t.db = a.db
  files : SameFiles a.bucket t.bucket

theorem Directories.trans {u : Attempt} (h : Directories a t) (h' : Directories t u) : Directories a u :=
  ⟨h'.db.trans h.db, h.files.trans h'.files⟩

end
/-! ### The sums of the loop -/

/-- The record of a counted entry, but for its object. -/
structure Recorded (s : FileService) (t : Attempt) (e : Extraction) (record : FileRecord) : Prop where
  size : record.sizeBytes = e.info.fileSize
  relative : s.adapter.toDiskRelativePath e.path = .ok record.relativePath
  linked : LinkRequired s.queue record → Linked t.db record.id

/-- What a part of the loop adds to the tables and to the bucket. -/
structure Sums (s : FileService) (userId : Uuid) (a : Attempt) (story : List Extraction) (t : Attempt) :
    Prop where
  rows : ∃ new, t.db.records.rows = a.db.records.rows ++ new ∧
    List.Forall₂ (Recorded s t) (story.filter (·.counted))
      (new.filter fun r => decide (r.status = .committed)) ∧
    ∀ r ∈ new, a.db.records.get r.id = none
  links : ∀ id, Linked a.db id → Linked t.db id
  charged : ∀ u column, recordedBytes t.db u column =
    recordedBytes a.db u column + due userId s.fileSection (countedBytes story) u column
  content : ∀ k v, k ≠ [] → ¬ ['/'] <:+ k →
    (∀ e ∈ story, e.counted = true → objectKey s.adapter e.path = .ok k → e.info.content = v) →
    t.bucket.content k = some v ∨ t.bucket.content k = a.bucket.content k ∧
      ∀ e ∈ story, e.counted = true → objectKey s.adapter e.path ≠ .ok k

section
variable {s : FileService} {userId : Uuid} {a b t : Attempt} {xs ys story : List Extraction}

theorem get_none_of_prefix {new : List FileRecord} {u v : RecordTable} {id : Uuid}
    (hrows : v.rows = u.rows ++ new) (h : v.get id = none) : u.get id = none := by
  cases hget : u.get id with
  | none => rfl
  | some r =>
    obtain ⟨hmem, hid⟩ := RecordTable.get_some hget
    have hmem' : r ∈ v.rows := by
      rw [hrows]
      exact List.mem_append_left _ hmem
    have hfound := RecordTable.get_of_mem hmem'
    rw [hid, h] at hfound
    cases hfound

theorem Recorded.mono {e : Extraction} {record : FileRecord} (h : Recorded s b e record)
    (hlinks : ∀ id, Linked b.db id → Linked t.db id) : Recorded s t e record :=
  ⟨h.size, h.relative, fun hrequired => hlinks _ (h.linked hrequired)⟩

theorem countedBytes_append (xs ys : List Extraction) :
    countedBytes (xs ++ ys) = countedBytes xs + countedBytes ys := by
  unfold countedBytes
  rw [List.filter_append, List.map_append, List.sum_append]

theorem Sums.trans (h : Sums s userId a xs b) (h' : Sums s userId b ys t) :
    Sums s userId a (xs ++ ys) t where
  rows := by
    obtain ⟨new, hrows, hall, hfresh⟩ := h.rows
    obtain ⟨new', hrows', hall', hfresh'⟩ := h'.rows
    refine ⟨new ++ new', ?_, ?_, ?_⟩
    · rw [hrows', hrows, List.append_assoc]
    · rw [List.filter_append, List.filter_append]
      apply List.rel_append _ hall'
      exact hall.imp fun _ _ hrecorded => hrecorded.mono h'.links
    · intro r hr
      rcases List.mem_append.1 hr with hr | hr
      · exact hfresh r hr
      · exact get_none_of_prefix hrows (hfresh' r hr)
  links := fun id hlinked => h'.links id (h.links id hlinked)
  charged := by
    intro u column
    rw [h'.charged, h.charged, countedBytes_append, Nat.cast_add, due_add, add_assoc]
  content := by
    intro k v hne hk hagree
    have hleft := h.content k v hne hk fun e he => hagree e (List.mem_append_left _ he)
    have hright := h'.content k v hne hk fun e he => hagree e (List.mem_append_right _ he)
    rcases hright with hwritten | hsame
    · exact .inl hwritten
    · rw [hsame.1]
      rcases hleft with hwritten | hkept
      · exact .inl hwritten
      · refine .inr ⟨hkept.1, ?_⟩
        intro e he
        rcases List.mem_append.1 he with he | he
        · exact hkept.2 e he
        · exact hsame.2 e he

end
/-! ### The accounts of an archive -/

/-- How one entry of the loop has ended. -/
structure Ended (s : FileService) (userId : Uuid) (e : Extraction) : Prop where
  extracted : ∀ key, objectKey s.adapter e.path = .ok key →
    Extracted s userId e.path key e.info e.before e.outcome e.after
  refused : ∀ exc, objectKey s.adapter e.path = .error exc →
    (∃ exc', e.outcome = .error exc') ∧ e.after = e.before

section
variable {host : Host} {taken : Str → Prop} {s : FileService} {userId : Uuid} {now : Time}
  {a t : Attempt} {story : List Extraction} {e : Extraction}

theorem counted_iff : e.counted = true ↔ e.outcome = .ok true := by
  unfold Extraction.counted
  cases e.outcome with
  | ok found => simp [Except.toOption]
  | error exc => simp [Except.toOption]

theorem Ended.made (h : Ended s userId e) (hcounted : e.counted = true) :
    ∃ key record, objectKey s.adapter e.path = .ok key ∧
      Made s userId e.path key e.info record e.before e.after := by
  have hok := counted_iff.1 hcounted
  cases hkey : objectKey s.adapter e.path with
  | error exc =>
    obtain ⟨⟨exc', heq⟩, -⟩ := h.refused exc hkey
    rw [hok] at heq
    cases heq
  | ok key =>
    rcases h.extracted key hkey with hmade | hfail
    · obtain ⟨-, record, hrecord⟩ := hmade
      exact ⟨key, record, rfl, hrecord⟩
    · obtain ⟨⟨exc, heq⟩, -⟩ := hfail
      rw [hok] at heq
      cases heq

end
/-! ### Sample archives -/

/-- The environment in which one step raises. -/
def tolerant (host : Host) (now : Time) (stop : Step) :
    (c : FileCmd) → Attempt → Except Exc c.Resp × Attempt :=
  fun c a => host.stopAt now stop c { a with raised := none }

section
variable {host : Host} {taken : Str → Prop} {s : FileService} {a : Attempt} {now : Time} {stop : Step}

theorem tolerated_stop {c : FileCmd} (hc : c ≠ .uuid4) :
    Tolerated host taken c a (tolerant host now stop c a).1 (tolerant host now stop c a).2 := by
  refine ⟨outage_stopAt host now stop c _, ?_⟩
  cases c with
  | uuid4 => exact absurd rfl hc
  | db f =>
    show (Host.stopAt host now stop (.db f) { a with raised := none }).1 = _ → _
    unfold tolerant
    rw [Host.stopAt]
    split
    · intro hrefused
      cases hrefused
    · exact fun _ => ⟨rfl, rfl⟩
  | store adapter op => trivial

theorem follows_quiet {α : Type} {p : FileM α} (hp : p.All (fun c => c ≠ .uuid4) fun _ _ => True) :
    p.Follows (Tolerated host taken) (tolerant host now stop) a :=
  follows_of_all hp (fun _ _ hc => tolerated_stop hc) fun _ _ _ _ => trivial

end

/-- The next record gets the next id. -/
def numberingHost : Host := ⟨fun _ => "", id, fun d => .ofDigit d.records.rows.length⟩

/-- The temporary object of the first entry is not stored. -/
def putRefused : Step :=
  .call (.putObject ("users/u/files/.tmp/".toList ++ (Uuid.ofDigit 0).text) [2]) false

def answering : (c : FileCmd) → Attempt → Except Exc c.Resp × Attempt :=
  tolerant numberingHost 0 putRefused

/-- No record has the next id, and only directories are stored. -/
def Vacant (a : Attempt) : Prop :=
  a.db.records.get (numberingHost.newId a.db) = none ∧ ∀ o ∈ a.bucket.objects, ['/'] <:+ o.key

instance (a : Attempt) : Decidable (Vacant a) :=
  inferInstanceAs (Decidable (_ ∧ ∀ o ∈ a.bucket.objects, _))

section
variable {H : Handler FileCmd.Resp Exc Attempt} {s : FileService} {userId : Uuid} {now : Time}
  {path : Str} {info : ZipInfo} {rest : List (Str × ZipInfo)} {created : List Str} {files bytes : Nat}
  {a b : Attempt} {t : Attempt} {r : Except Exc ZipStats}

end

end WebStorage.ZipAccounting
