import WebStorage.StorageJobs
import WebStorage.StoredFiles

set_option autoImplicit false

/-! The daily archive run: which records it archives, and that they read as before. -/
namespace WebStorage
open Effect Effect.Prog S3 FileService

attribute [local irreducible] Adapter.toDiskRelativePath normalizePath objectKey

/-! ### Runs in which every call is answered -/

section
variable {α β : Type} {host : Host} {now : Time} {w t : Installation}

end

/-! ### One record -/

namespace ArchiveService

/-- A record that a run with this cut-off takes up. -/
def candidate (cutoff : Time) (r : FileRecord) : Bool :=
  decide (r.lastAccessedAt < cutoff) && r.status = .committed && !r.isArchived

/-- The record after `mark_archived`. -/
def archivedAs (r : FileRecord) : FileRecord :=
  { r with isArchived := true, status := .archived, archivePath := some (archivePathOf r) }

section
variable {s : ArchiveService} {host : Host} {now : Time} {v t : Installation} {r : FileRecord} {k : Str}

/-- The record's path is the key of its object. -/
def OwnKey (r : FileRecord) : Prop :=
  r.relativePath ≠ [] ∧ objectKey diskRootAdapter r.relativePath = .ok r.relativePath

/-- So is the path of its archive. -/
theorem OwnKey.archive (h : OwnKey r) :
    objectKey diskRootAdapter (archivePathOf r) = .ok (archivePathOf r) := by
  apply objectKey_diskRoot_self.2
  unfold archivePathOf
  have hlast : ∀ c ∈ archiveExtension.getLast?, Text.isSpace c = false := by
    intro c hc
    cases hc
    decide
  exact safeLogicalKey_append (objectKey_diskRoot_self.1 h.2) h.1 (by decide) (by decide) (by decide) hlast

theorem OwnKey.not_slash (h : OwnKey r) : ¬ ['/'] <:+ r.relativePath :=
  not_suffix_of_safe (objectKey_diskRoot_self.1 h.2)

/-- No other archive is at the path of the record or below it. -/
theorem archive_not_below {r' : FileRecord} (h : OwnKey r)
    (hbelow : ¬ Bucket.Covers r.relativePath r'.relativePath) (hself : r.relativePath ≠ archivePathOf r') :
    ¬ Bucket.Covers r.relativePath (archivePathOf r') := by
  rintro (hsame | hunder)
  · exact hself hsame.symm
  · rw [Rename.asDir_of h.1 h.not_slash] at hunder
    unfold archivePathOf at hunder
    apply hbelow
    right
    rw [Rename.asDir_of h.1 h.not_slash]
    rcases List.prefix_or_prefix_of_prefix hunder (List.prefix_append r'.relativePath archiveExtension) with
      hin | hover
    · exact hin
    · -- the slash would lie in the extension
      obtain ⟨tail, htail⟩ := hover
      rw [← htail, List.prefix_append_right_inj] at hunder
      by_cases hnil : tail = []
      · rw [hnil, List.append_nil] at htail
        rw [← htail]
      · have hlast : (r'.relativePath ++ tail).getLast? = some '/' := by
          rw [htail, List.getLast?_append]
          rfl
        rw [List.getLast?_append_of_ne_nil _ hnil] at hlast
        have hslash : '/' ∈ archiveExtension := hunder.subset (List.mem_of_getLast? hlast)
        exact absurd hslash (by decide)

/-- The objects and the rows after a record has been archived. -/
structure Moved (s : ArchiveService) (r : FileRecord) (v t : Installation) : Prop where
  content : ∃ body, v.bucket.content r.relativePath = some body ∧
    t.bucket.content (archivePathOf r) = some (s.archiveManager.compress body)
  other : ∀ k, k ≠ archivePathOf r → ¬ Bucket.Covers r.relativePath k →
    t.bucket.content k = v.bucket.content k
  rows : t.db.records.rows = v.db.records.rows.map fun row => if row.id = r.id
    then { row with isArchived := true, status := .archived, archivePath := some (archivePathOf r) }
    else row
  quotas : t.db.quotas = v.db.quotas

variable (host now) in
/-- A write that every call of is answered returns. -/
theorem run_write {a : Adapter} {path key : Str} (data : Bytes) (size : Nat) (hplain : a.Plain)
    (hkey : objectKey a path = .ok key) (hne : key ≠ []) (v : Installation) : ∃ digest b,
    (store a (.write path data size)).run (host.serve now) v = (.ok digest, ⟨v.db, b⟩) ∧
      Written v.bucket b key data := by
  have hkey' := (hplain.objectKey_storage host path).trans hkey
  have hwrote := answered now (at_write (b := v.bucket) hkey' hne ⟨[data], none⟩)
  have hperform : (host.storage a).perform (.write path data size) =
      (host.storage a).write path ⟨[data], none⟩ := rfl
  rw [run_store hplain, hperform]
  rcases hrun : ((host.storage a).write path ⟨[data], none⟩).run (Bucket.serve now) v.bucket with ⟨x, b⟩
  rw [hrun] at hwrote
  cases x with
  | ok digest =>
    have hwritten := hwrote.1.2
    rw [List.flatten_singleton] at hwritten
    exact ⟨digest, b, rfl, hwritten⟩
  | error e =>
    rcases hwrote.1 with hstream | hbroken
    · cases hstream.1
    · obtain ⟨c, carried, hmay, -⟩ := hbroken
      exact hmay.elim

end

/-! ### The run -/

/-- Where the content of a record is stored. -/
def LivesAt (r : FileRecord) (k : Str) : Prop :=
  if r.isArchived = true then ∃ path, r.archivePath = some path ∧ objectKey diskRootAdapter path = .ok k
  else k = r.relativePath

/-- Archiving is in nobody's way: the candidates are stored at the paths of their records, and no
other active record has its content at or below such a path, or where its archive goes. -/
structure Spacious (cutoff : Time) (w : Installation) : Prop where
  own_key : ∀ r ∈ w.db.records.rows, candidate cutoff r = true → OwnKey r
  apart : ∀ r ∈ w.db.records.rows, candidate cutoff r = true → ∀ r' ∈ w.db.records.rows,
    isDownloadable r' = true → r' ≠ r → ∀ k, LivesAt r' k →
      ¬ Bucket.Covers r.relativePath k ∧ k ≠ archivePathOf r

/-- The rows after the records with some ids have been archived. -/
def archivedRows (gone : Uuid → Bool) (rows : List FileRecord) : List FileRecord :=
  rows.map fun r => if gone r.id = true then archivedAs r else r

/-- What the run has done so far. -/
structure Archiving (s : ArchiveService) (cutoff : Time) (w : Installation) (gone : Uuid → Bool)
    (v : Installation) : Prop where
  rows : v.db.records.rows = archivedRows gone w.db.records.rows
  quotas : v.db.quotas = w.db.quotas
  archived : ∀ r ∈ w.db.records.rows, gone r.id = true → candidate cutoff r = true ∧
    ∃ body, w.bucket.content r.relativePath = some body ∧
      v.bucket.content (archivePathOf r) = some (s.archiveManager.compress body)
  kept : ∀ r ∈ w.db.records.rows, isDownloadable r = true → gone r.id = false →
    ∀ k, LivesAt r k → v.bucket.content k = w.bucket.content k

section
variable {s : ArchiveService} {host : Host} {now cutoff : Time} {w v t : Installation} {r : FileRecord}
  {gone : Uuid → Bool}

theorem candidate_spec (h : candidate cutoff r = true) :
    r.status = .committed ∧ r.isArchived = false ∧ isDownloadable r = true := by
  unfold candidate at h
  simp only [Bool.and_eq_true, decide_eq_true_eq, Bool.not_eq_true'] at h
  refine ⟨h.1.2, h.2, ?_⟩
  unfold isDownloadable
  simp [h.1.2]

theorem livesAt_candidate (h : candidate cutoff r = true) {k : Str} :
    LivesAt r k ↔ k = r.relativePath := by
  unfold LivesAt
  rw [(candidate_spec h).2.1, if_neg Bool.false_ne_true]

/-- One more record is archived. -/
theorem Archiving.moved (hspace : Spacious cutoff w) (h : Archiving s cutoff w gone v)
    (hmem : r ∈ w.db.records.rows) (hr : candidate cutoff r = true) (hnew : gone r.id = false)
    (hmoved : Moved s r v t) : Archiving s cutoff w (fun id => gone id || decide (id = r.id)) t := by
  have hsame : ∀ r' ∈ w.db.records.rows, r'.id = r.id → r' = r :=
    fun r' hr' hid => RecordTable.eq_of_id hr' hmem hid
  -- what another active record has is not touched
  have hother : ∀ r' ∈ w.db.records.rows, isDownloadable r' = true → r' ≠ r → ∀ k, LivesAt r' k →
      t.bucket.content k = v.bucket.content k := by
    intro r' hr' hactive hne k hk
    obtain ⟨hcovers, hk'⟩ := hspace.apart r hmem hr r' hr' hactive hne k hk
    exact hmoved.other k hk' hcovers
  refine ⟨?_, hmoved.quotas.trans h.quotas, ?_, ?_⟩
  · rw [hmoved.rows, h.rows]
    unfold archivedRows
    rw [List.map_map]
    apply List.map_congr_left
    intro r' hr'
    by_cases hid : r'.id = r.id
    · rw [hsame r' hr' hid]
      simp [hnew, archivedAs]
    · cases hgone : gone r'.id with
      | true => simp [hgone, archivedAs, hid]
      | false => simp [hgone, hid]
  · intro r' hr' hgone
    by_cases hid : r'.id = r.id
    · rw [hsame r' hr' hid]
      obtain ⟨body, hbody, harchive⟩ := hmoved.content
      have hlives := h.kept r hmem (candidate_spec hr).2.2 hnew r.relativePath ((livesAt_candidate hr).2 rfl)
      exact ⟨hr, body, hlives ▸ hbody, harchive⟩
    · have hearlier : gone r'.id = true := by simpa [hid] using hgone
      obtain ⟨hr'', body, hbody, harchive⟩ := h.archived r' hr' hearlier
      refine ⟨hr'', body, hbody, ?_⟩
      rw [← harchive]
      have hne : r' ≠ r := fun heq => hid (by rw [heq])
      obtain ⟨hcovers, -⟩ := hspace.apart r hmem hr r' hr' (candidate_spec hr'').2.2 hne r'.relativePath
        ((livesAt_candidate hr'').2 rfl)
      apply hmoved.other
      · intro heq
        unfold archivePathOf at heq
        exact hcovers (.inl (List.append_cancel_right heq))
      · exact archive_not_below (hspace.own_key r hmem hr) hcovers ((hspace.apart r' hr' hr'' r hmem
          (candidate_spec hr).2.2 (fun heq => hne heq.symm) r.relativePath ((livesAt_candidate hr).2 rfl)).2)
  · intro r' hr' hactive hgone k hk
    obtain ⟨hearlier, hid⟩ : gone r'.id = false ∧ r'.id ≠ r.id := by simpa using hgone
    have hne : r' ≠ r := fun heq => hid (by rw [heq])
    exact (hother r' hr' hactive hne k hk).trans (h.kept r' hr' hactive hearlier k hk)

theorem archivedRows_filter {p : FileRecord → Bool} {rows : List FileRecord}
    (h : ∀ r ∈ rows, gone r.id = true → p (archivedAs r) = p r) :
    (archivedRows gone rows).filter p = archivedRows gone (rows.filter p) := by
  unfold archivedRows
  rw [List.filter_map]
  congr 1
  apply List.filter_congr
  intro r hr
  cases hgone : gone r.id with
  | true => simp [hgone, h r hr hgone]
  | false => simp [hgone]

/-- A record that was found at a path is still found there, archived or not. -/
theorem Archiving.found (h : Archiving s cutoff w gone v) {owner : Option Uuid}
    {fileSection : FileSection} {relative : Str}
    (hfound : (FileRepo.getDownloadable owner relative fileSection w.db).1 = .ok (some r)) :
    r ∈ w.db.records.rows ∧ r.relativePath = relative ∧ isDownloadable r = true ∧
      (FileRepo.getDownloadable owner relative fileSection v.db).1 =
        .ok (some (if gone r.id = true then archivedAs r else r)) := by
  have hsome : scalarOneOrNone (w.db.records.rows.filter fun row => inScope owner fileSection row &&
      decide (row.relativePath = relative) && isDownloadable row) = .ok (some r) := hfound
  have hrows : (w.db.records.rows.filter fun row => inScope owner fileSection row &&
      decide (row.relativePath = relative) && isDownloadable row) = [r] := by
    -- the lookup finds one row or fails
    cases hlist : w.db.records.rows.filter fun row => inScope owner fileSection row &&
        decide (row.relativePath = relative) && isDownloadable row with
    | nil =>
      rw [hlist] at hsome
      cases hsome
    | cons first rest =>
      rw [hlist] at hsome
      cases rest with
      | nil =>
        cases hsome
        rfl
      | cons second rest => cases hsome
  have hin : r ∈ w.db.records.rows.filter fun row => inScope owner fileSection row &&
      decide (row.relativePath = relative) && isDownloadable row := by
    rw [hrows]
    exact List.mem_singleton_self r
  obtain ⟨hmem, hspec⟩ := List.mem_filter.1 hin
  simp only [Bool.and_eq_true, decide_eq_true_eq] at hspec
  refine ⟨hmem, hspec.1.2, hspec.2, ?_⟩
  show scalarOneOrNone (v.db.records.rows.filter fun row => inScope owner fileSection row &&
      decide (row.relativePath = relative) && isDownloadable row) = _
  rw [h.rows, archivedRows_filter, hrows]
  · rfl
  · intro row hrow hgone
    have hactive := (candidate_spec (h.archived row hrow hgone).1).2.2
    have hstill : isDownloadable (archivedAs row) = true := rfl
    have hscope : inScope owner fileSection (archivedAs row) = inScope owner fileSection row := rfl
    have hplace : (archivedAs row).relativePath = row.relativePath := rfl
    rw [hactive, hstill, hscope, hplace]

end

end ArchiveService
end WebStorage
