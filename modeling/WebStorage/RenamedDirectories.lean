import WebStorage.PrefixQueries
import WebStorage.StoredFiles

set_option autoImplicit false

/-! The rename of a directory: its objects, its records, their index links, and what its files read as. -/
namespace WebStorage
open Effect Effect.Prog S3 FileService FailedUpload FailedOverwrite

attribute [local irreducible] Adapter.toDiskRelativePath normalizePath objectKey

/-! ### The objects -/

section
variable {b t : Bucket} {old new : Str}

end

section
variable {host : Host} {now : Time} {w : Installation} {a : Adapter} {oldPath newPath old new : Str}

end

/-! ### The index links -/

section
variable {host : Host} {now : Time} {w : Installation} {link : IndexLink} {r : FileRecord}
  {records : List FileRecord}

/-- The link of a record after its rekey: it names the new key, and is pending again if RAG has the file. -/
structure Rekeyed (link link' : IndexLink) (key : Str) : Prop where
  s3Key : link'.s3Key = key
  fileRecordId : link'.fileRecordId = link.fileRecordId
  fileSection : link'.fileSection = link.fileSection
  ragFileId : link'.ragFileId = link.ragFileId
  state : link'.state = if link.ragFileId = none then link.state else .pending

/-- The table of links after the rekeys of some records. -/
structure AllRekeyed (records : List FileRecord) (t t' : LinkTable) : Prop where
  own : ∀ r ∈ records, Enqueue.refusedWithoutRow r = false → ∀ link ∈ t.rows,
    link.fileRecordId = some r.id → link.fileSection ≠ .private →
      ∃ link' ∈ t'.rows, link'.id = link.id ∧ Rekeyed link link' r.relativePath
  others : ∀ link ∈ t.rows, (∀ r ∈ records, link.fileRecordId ≠ some r.id) → link ∈ t'.rows

theorem AllRekeyed.cons {t u v : LinkTable} (h : AllRekeyed [r] t u) (h' : AllRekeyed records u v)
    (hr : ∀ r' ∈ records, r'.id ≠ r.id) : AllRekeyed (r :: records) t v where
  own r' hr' hallowed link hlink hf hpublic := by
    rcases List.mem_cons.1 hr' with heq | hlater
    · subst heq
      obtain ⟨link', hlink', hid, hrekeyed⟩ :=
        h.own r' (List.mem_singleton_self _) hallowed link hlink hf hpublic
      refine ⟨link', h'.others link' hlink' ?_, hid, hrekeyed⟩
      intro r'' hr'' hown
      have hsame : some r'.id = some r''.id := hf.symm.trans (hrekeyed.fileRecordId.symm.trans hown)
      exact hr r'' hr'' (Option.some.inj hsame).symm
    · have hkept : link ∈ u.rows := by
        apply h.others link hlink
        intro r'' hr'' hown
        rw [List.mem_singleton.1 hr''] at hown
        exact hr r' hlater (Option.some.inj (hf.symm.trans hown))
      exact h'.own r' hlater hallowed link hkept hf hpublic
  others link hlink hnone := by
    have hkept : link ∈ u.rows := by
      apply h.others link hlink
      intro r' hr'
      rw [List.mem_singleton.1 hr']
      exact hnone r List.mem_cons_self
    exact h'.others link hkept fun r' hr' => hnone r' (List.mem_cons_of_mem _ hr')

theorem AllRekeyed.nothing {t : LinkTable}
    (h : ∀ r ∈ records, Enqueue.refusedWithoutRow r = true ∨ ∀ link ∈ t.rows,
      link.fileRecordId = some r.id → link.fileSection = .private) : AllRekeyed records t t where
  own r hr hallowed link hlink hf hpublic := by
    rcases h r hr with hrefused | hprivate
    · rw [hallowed] at hrefused
      cases hrefused
    · exact absurd (hprivate link hlink hf) hpublic
  others _ hlink _ := hlink

end
/-! ### The records -/

section
variable {host : Host} {s : FileService} {userId : Uuid} {now : Time} {w : Installation}
  {path newPath newName old new : Str} {owner : Option Uuid} {fileSection : FileSection}

/-- The file of the record is below the directory, and the rename takes it along. -/
def Follows (owner : Option Uuid) (fileSection : FileSection) (old : Str) (r : FileRecord) (suffix : Str) :
    Prop :=
  inScope owner fileSection r = true ∧ r.status = .committed ∧ r.relativePath = old ++ '/' :: suffix

end

end WebStorage
