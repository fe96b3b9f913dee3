import WebStorage.IndexLinks

set_option autoImplicit false

/-! The tables `file_records` and `user_quota_usage` with their repositories. A repository call
is a function on the tables of the session: its answer, and the tables after it. -/
namespace WebStorage

structure RecordTable where
  rows : List FileRecord
  id_unique : (rows.map (·.id)).Nodup

namespace RecordTable

def empty : RecordTable := ⟨[], List.nodup_nil⟩

def get (t : RecordTable) (id : Uuid) : Option FileRecord := t.rows.find? (·.id = id)

def add (t : RecordTable) (row : FileRecord) : Except Exc RecordTable :=
  if h : row.id ∈ t.rows.map (·.id) then .error .integrityError
  else .ok ⟨t.rows ++ [row], by
    rw [List.map_append, List.nodup_append]
    refine ⟨t.id_unique, List.nodup_singleton _, fun a ha b hb hab => h ?_⟩
    rw [List.map_singleton, List.mem_singleton] at hb
    exact hb ▸ hab ▸ ha⟩

/-- The rows after an update of the columns of those that satisfy `p`. -/
def updated (p : FileRecord → Bool) (f : FileRecord → FileRecord) (rows : List FileRecord) :
    List FileRecord :=
  rows.map fun r => if p r then { f r with id := r.id } else r

theorem updated_ids (p : FileRecord → Bool) (f : FileRecord → FileRecord)
    (rows : List FileRecord) : (updated p f rows).map (·.id) = rows.map (·.id) := by
  rw [updated, List.map_map]
  refine List.map_congr_left fun r _ => ?_
  simp only [Function.comp_apply]
  split <;> rfl

def update (t : RecordTable) (p : FileRecord → Bool) (f : FileRecord → FileRecord) :
    RecordTable :=
  ⟨updated p f t.rows, updated_ids p f t.rows ▸ t.id_unique⟩

/-- The rows that satisfy `p` are deleted. -/
def drop (t : RecordTable) (p : FileRecord → Bool) : RecordTable :=
  ⟨t.rows.filter fun r => !p r, t.id_unique.sublist (List.filter_sublist.map _)⟩

theorem get_some {t : RecordTable} {id : Uuid} {row : FileRecord} (h : t.get id = some row) :
    row ∈ t.rows ∧ row.id = id :=
  ⟨List.mem_of_find?_eq_some h, by simpa using List.find?_some h⟩

theorem eq_of_id {t : RecordTable} {a b : FileRecord} (ha : a ∈ t.rows) (hb : b ∈ t.rows)
    (h : a.id = b.id) : a = b :=
  List.inj_on_of_nodup_map t.id_unique ha hb h

theorem get_of_mem {t : RecordTable} {row : FileRecord} (h : row ∈ t.rows) :
    t.get row.id = some row := by
  cases hg : t.get row.id with
  | none => exact absurd (List.find?_eq_none.1 hg row h) (by simp)
  | some r => rw [eq_of_id (get_some hg).1 h (get_some hg).2]

theorem get_update {t : RecordTable} {p : FileRecord → Bool} {f : FileRecord → FileRecord}
    (id : Uuid) : (t.update p f).get id =
      (t.get id).map fun r => if p r then { f r with id := r.id } else r := by
  unfold get update updated
  rw [List.find?_map]
  congr 1
  refine congrArg (fun q => t.rows.find? q) (funext fun r => ?_)
  simp only [Function.comp_apply]
  split <;> rfl

end RecordTable

/-- A row of `user_quota_usage`. -/
structure QuotaUsage where
  totalBytes : Int
  limitBytes : Int
  privateBytes : Int
  privateLimitBytes : Int
  photosBytes : Int
deriving DecidableEq

abbrev QuotaTable := AList fun _ : Uuid => QuotaUsage

structure Db where
  records : RecordTable
  quotas : QuotaTable
  links : LinkTable

/-- A repository call. -/
abbrev DbOp (α : Type) := Db → Except Exc α × Db

def likeAny (p : Str → Bool) : Str → Bool
  | [] => p []
  | c :: s => p (c :: s) || likeAny p s

/-- SQL `LIKE`. `startswith` of the ORM does not escape its argument, so `%` and `_` of a path
are wildcards. -/
def like : Str → Str → Bool
  | [], s => s.isEmpty
  | '%' :: p, s => likeAny (like p) s
  | '_' :: p, s => match s with
    | [] => false
    | _ :: t => like p t
  | '\\' :: c :: p, s => match s with
    | [] => false
    | d :: t => c == d && like p t
  | c :: p, s => match s with
    | [] => false
    | d :: t => c == d && like p t

/-- `column.startswith(pattern)`. -/
def likePrefix (pattern s : Str) : Bool := like (pattern ++ ['%']) s

/-- `scalar_one_or_none`. -/
def scalarOneOrNone : List FileRecord → Except Exc (Option FileRecord)
  | [] => .ok none
  | [row] => .ok (some row)
  | _ => .error .multipleResults

/-- The rows of a section that one owner has, or all of them. -/
def inScope (owner : Option Uuid) (fileSection : FileSection) (r : FileRecord) : Bool :=
  owner.all (· == r.userId) && r.fileSection = fileSection

def isDownloadable (r : FileRecord) : Bool := r.status = .committed || r.status = .archived

namespace FileRepo

def select (p : FileRecord → Bool) : DbOp (List FileRecord) := fun d =>
  (.ok (d.records.rows.filter p), d)

/-- One row, assigned and read back. -/
def assign (id : Uuid) (f : FileRecord → FileRecord) : DbOp (Option FileRecord) := fun d =>
  let records := d.records.update (·.id = id) f
  (.ok (records.get id), { d with records := records })

def create (id userId : Uuid) (relativePath originalName : Str) (sizeBytes : Int)
    (isEncrypted : Bool) (fileSection : FileSection) (status : FileStatus) (now : Time) :
    DbOp FileRecord := fun d =>
  let model : FileRecord :=
    { id := id
      userId := userId
      relativePath := relativePath
      originalName := originalName
      sizeBytes := sizeBytes
      isEncrypted := isEncrypted
      fileSection := fileSection
      status := status
      checksumSha256 := none
      createdAt := now
      lastAccessedAt := now
      isArchived := false
      archivePath := none }
  match d.records.add model with
  | .ok records => (.ok model, { d with records := records })
  | .error e => (.error e, d)

def getById (id : Uuid) : DbOp (Option FileRecord) := fun d => (.ok (d.records.get id), d)

def updateStatus (id : Uuid) (status : FileStatus) (checksumSha256 : Option Digest)
    (relativePath originalName : Option Str) : DbOp (Option FileRecord) :=
  assign id fun model =>
    { model with
      status := status
      checksumSha256 := checksumSha256 <|> model.checksumSha256
      relativePath := relativePath.getD model.relativePath
      originalName := originalName.getD model.originalName }

def updateSize (id : Uuid) (sizeBytes : Int) (checksumSha256 : Option Digest) :
    DbOp (Option FileRecord) :=
  assign id fun model =>
    { model with
      sizeBytes := sizeBytes
      checksumSha256 := checksumSha256 <|> model.checksumSha256 }

/-- The two `get_downloadable_by_relative_path` queries: with an owner, and in a section. -/
def getDownloadable (owner : Option Uuid) (relativePath : Str) (fileSection : FileSection) :
    DbOp (Option FileRecord) := fun d =>
  (scalarOneOrNone (d.records.rows.filter fun r =>
    inScope owner fileSection r && r.relativePath = relativePath && isDownloadable r), d)

def getDownloadableByRelativePath (userId : Uuid) (relativePath : Str)
    (fileSection : FileSection) : DbOp (Option FileRecord) :=
  getDownloadable (some userId) relativePath fileSection

def getDownloadableByRelativePathInSection (relativePath : Str) (fileSection : FileSection) :
    DbOp (Option FileRecord) :=
  getDownloadable none relativePath fileSection

/-- The two `update_relative_path_prefix` calls. -/
def movePrefix (owner : Option Uuid) (fileSection : FileSection) (oldPrefix newPrefix : Str) :
    DbOp Nat := fun d =>
  let matching := fun r : FileRecord => inScope owner fileSection r && r.status = .committed &&
    likePrefix (oldPrefix ++ ['/']) r.relativePath
  (.ok (d.records.rows.countP matching),
    { d with records := d.records.update matching fun r =>
      { r with relativePath := newPrefix ++ r.relativePath.drop oldPrefix.length } })

def updateRelativePathPrefix (userId : Uuid) (fileSection : FileSection)
    (oldPrefix newPrefix : Str) : DbOp Nat :=
  movePrefix (some userId) fileSection oldPrefix newPrefix

def updateRelativePathPrefixInSection (fileSection : FileSection) (oldPrefix newPrefix : Str) :
    DbOp Nat :=
  movePrefix none fileSection oldPrefix newPrefix

def listActiveUnderPrefix (userId : Uuid) (fileSection : FileSection) (pathPrefix : Str) :
    DbOp (List FileRecord) :=
  select fun r => inScope (some userId) fileSection r && isDownloadable r &&
    likePrefix (Text.rstripSlash pathPrefix ++ ['/']) r.relativePath

/-- The two `heal_stale_relative_path` calls: exactly one `COMMITTED` record of that name in the
section is taken for the one that is looked up. -/
def heal (owner : Option Uuid) (fileSection : FileSection)
    (correctRelativePath originalName : Str) : DbOp (Option FileRecord) := fun d =>
  match d.records.rows.filter fun r => inScope owner fileSection r && r.status = .committed &&
      r.originalName = originalName with
  | [model] =>
    if model.relativePath = correctRelativePath then (.ok (some model), d)
    else assign model.id (fun r => { r with relativePath := correctRelativePath }) d
  | _ => (.ok none, d)

def healStaleRelativePath (userId : Uuid) (fileSection : FileSection)
    (correctRelativePath originalName : Str) : DbOp (Option FileRecord) :=
  heal (some userId) fileSection correctRelativePath originalName

def healStaleRelativePathInSection (fileSection : FileSection)
    (correctRelativePath originalName : Str) : DbOp (Option FileRecord) :=
  heal none fileSection correctRelativePath originalName

def deleteAllByUserSection (userId : Uuid) (fileSection : FileSection) : DbOp Nat := fun d =>
  let matching := fun r : FileRecord => inScope (some userId) fileSection r &&
    r.status = .committed
  (.ok (d.records.rows.countP matching),
    { d with records := d.records.update matching fun r => { r with status := .deleted } })

def listCandidatesForArchive (cutoff : Time) : DbOp (List FileRecord) :=
  select fun r => decide (r.lastAccessedAt < cutoff) && r.status = .committed && !r.isArchived

def listArchivedRecords : DbOp (List FileRecord) :=
  select fun r => r.isArchived && r.status = .archived

def markArchived (id : Uuid) (archivePath : Str) : DbOp (Option FileRecord) :=
  assign id fun model =>
    { model with isArchived := true, status := .archived, archivePath := some archivePath }

def touchLastAccessed (id : Uuid) (now : Time) : DbOp (Option FileRecord) :=
  assign id fun model => { model with lastAccessedAt := now }

def delete (id : Uuid) : DbOp (Option FileRecord) :=
  assign id fun model => { model with status := .deleted }

def listStalePending (cutoff : Time) : DbOp (List FileRecord) :=
  select fun r => r.status = .pending && decide (r.createdAt < cutoff)

def hardDelete (id : Uuid) : DbOp Bool := fun d =>
  (.ok (d.records.get id).isSome,
    { d with records := d.records.drop (·.id = id), links := d.links.forget (· = id) })

def listAllByUser (userId : Uuid) : DbOp (List FileRecord) := select (·.userId = userId)

def sumCommittedBytesByUser (userId : Uuid) : DbOp Int := fun d =>
  (.ok ((d.records.rows.filter fun r => r.userId = userId && r.status = .committed).map
    (·.sizeBytes)).sum, d)

def listDistinctUserIdsWithCommitted : DbOp (List Uuid) := fun d =>
  (.ok (dictFromKeys ((d.records.rows.filter (·.status = .committed)).map (·.userId))), d)

end FileRepo

namespace QuotaRepo

/-- The row that `get_by_user_id` adds for a user without one. -/
def newUsage (defaultLimit : Int) : QuotaUsage := ⟨0, defaultLimit, 0, 0, 0⟩

def getByUserId (defaultLimit : Int) (userId : Uuid) : DbOp QuotaUsage := fun d =>
  match d.quotas.lookup userId with
  | some model => (.ok model, d)
  | none => (.ok (newUsage defaultLimit),
    { d with quotas := d.quotas.insert userId (newUsage defaultLimit) })

/-- `get_by_user_id`, then an `UPDATE` of the row. -/
def modify (defaultLimit : Int) (userId : Uuid) (f : QuotaUsage → QuotaUsage) : DbOp QuotaUsage :=
  fun d =>
  let model := f ((d.quotas.lookup userId).getD (newUsage defaultLimit))
  (.ok model, { d with quotas := d.quotas.insert userId model })

def adjust (sizeBytes : Int) (fileSection : FileSection) (usage : QuotaUsage) : QuotaUsage :=
  { usage with
    totalBytes := usage.totalBytes + sizeBytes
    privateBytes := if fileSection = .private then usage.privateBytes + sizeBytes
      else usage.privateBytes
    photosBytes := if fileSection = .photos then usage.photosBytes + sizeBytes
      else usage.photosBytes }

def increment (defaultLimit : Int) (userId : Uuid) (sizeBytes : Int)
    (fileSection : FileSection) : DbOp QuotaUsage :=
  modify defaultLimit userId (adjust sizeBytes fileSection)

def decrement (defaultLimit : Int) (userId : Uuid) (sizeBytes : Int)
    (fileSection : FileSection) : DbOp QuotaUsage :=
  modify defaultLimit userId (adjust (-sizeBytes) fileSection)

def resetPrivateUsage (defaultLimit : Int) (userId : Uuid) : DbOp QuotaUsage :=
  modify defaultLimit userId fun usage =>
    if usage.privateBytes = 0 then usage
    else { usage with totalBytes := usage.totalBytes - usage.privateBytes, privateBytes := 0 }

def updateTotalBytes (defaultLimit : Int) (userId : Uuid) (totalBytes : Int) : DbOp QuotaUsage :=
  modify defaultLimit userId fun usage => { usage with totalBytes := totalBytes }

def listAllUserIds : DbOp (List Uuid) := fun d => (.ok d.quotas.keys, d)

end QuotaRepo

/-- A call of the queue repository within the session of a request. -/
def onLinks {α : Type} (f : LinkTable → Except Exc (α × LinkTable)) : DbOp α := fun d =>
  match f d.links with
  | .ok (a, links) => (.ok a, { d with links := links })
  | .error e => (.error e, d)

theorem onLinks_ok {α : Type} {f : LinkTable → Except Exc (α × LinkTable)} {d : Db} {a : α}
    {links : LinkTable} (h : f d.links = .ok (a, links)) :
    onLinks f d = (.ok a, { d with links := links }) := by
  simp only [onLinks, h]

theorem onLinks_error {α : Type} {f : LinkTable → Except Exc (α × LinkTable)} {d : Db} {e : Exc}
    (h : f d.links = .error e) : onLinks f d = (.error e, d) := by
  simp only [onLinks, h]

example : likePrefix "users/u/files/a_b/".toList "users/u/files/axb/c.txt".toList = true := by
  decide

end WebStorage
