import WebStorage.GeneratedRuns
import WebStorage.PrefixQueries

set_option autoImplicit false

/-! The deletion of a generated run, against the state before the run was stored. -/
namespace WebStorage.GeneratedRuns
open Effect Effect.Prog FileService FailedUpload Generated S3
open PathDeletion (heldKey usageOf usageOf_congr Removal removal_listed released_listed)

attribute [local irreducible] Adapter.toDiskRelativePath normalizePath objectKey

variable {ν : Type}

section
variable {s : GeneratedRuns ν} {host : Host} {userId owner : Uuid} {runId : Str} {now later : Time} {w u t t' : Installation}
  {files : List (Str × Bytes)} {added rows : List FileRecord} {accepted : AcceptedRun ν}
  {created : Moment} {request : RunRequest} {stored : StoredGeneratedRun}

theorem relativeAt_run (hrun : CleanName runId) :
    PathDeletion.relativeAt s.fileService.adapter runId = runKey s runId := by
  have hdisk : s.fileService.adapter.toDiskRelativePath (Text.join [runId]) = .ok (runKey s runId) :=
    toDiskRelativePath_join (Clean.singleton hrun)
  unfold PathDeletion.relativeAt
  show (s.fileService.adapter.toDiskRelativePath (Text.join [runId])).toOption.getD [] = _
  rw [hdisk]
  rfl

theorem runKey_not_slash (hrun : CleanName runId) : ∀ c ∈ (runKey s runId).getLast?, c ≠ '/' := by
  intro c hc
  unfold runKey at hc
  rw [Text.join_cons _ (List.cons_ne_nil _ _), List.getLast?_append, List.getLast?_cons] at hc
  have hlast : runId.getLast? = some c := by
    cases hget : runId.getLast? with
    | none => exact absurd (List.getLast?_eq_none_iff.1 hget) hrun.ne_nil
    | some d =>
      have hd : (Text.join [runId]).getLast? = some d := hget
      rw [hd] at hc
      exact hc
  intro heq
  exact hrun.no_slash (heq ▸ List.mem_of_mem_getLast? hlast)

/-- The deletion of a run lists the user's active records in its directory. -/
theorem listed_run (hsection : s.fileService.fileSection = .generated) (hrun : CleanName runId)
    (hliteral : PrefixQueries.Literal s.fileService.adapter.diskRelativePrefix)
    (hid : PrefixQueries.Literal runId) (r : FileRecord) :
    PathDeletion.listed s.fileService userId runId r = true ↔
      inScope (some userId) .generated r = true ∧ isDownloadable r = true ∧
        runKey s runId ++ ['/'] <+: r.relativePath := by
  have hself : normalizePath runId = runId := normalizePath_name hrun
  have hpattern : PrefixQueries.Literal (runKey s runId ++ ['/']) := by
    obtain ⟨h1, h2, h3⟩ := hliteral
    obtain ⟨h1', h2', h3'⟩ := hid
    unfold PrefixQueries.Literal runKey
    rw [Text.join_cons _ (List.cons_ne_nil _ _)]
    simp [Text.join, h1, h2, h3, h1', h2', h3']
  unfold PathDeletion.listed
  rw [hself, relativeAt_run hrun, Text.rstripSlash_self (runKey_not_slash hrun), Bool.and_eq_true,
    Bool.and_eq_true, PrefixQueries.likePrefix_literal hpattern, hsection, and_assoc]

/-- The listed records are those of the run. -/
theorem filter_listed (hsection : s.fileService.fileSection = .generated) (hrun : CleanName runId)
    (hliteral : PrefixQueries.Literal s.fileService.adapter.diskRelativePrefix)
    (hid : PrefixQueries.Literal runId) (hvacant : Vacant s userId runId w.db)
    (hrows : rows = w.db.records.rows ++ added)
    (hadded : List.Forall₂ (OfFile s userId runId) files added) :
    (∀ r ∈ w.db.records.rows, PathDeletion.listed s.fileService userId runId r = false) ∧
      (∀ r ∈ added, PathDeletion.listed s.fileService userId runId r = true) ∧
      rows.filter (PathDeletion.listed s.fileService userId runId) = added := by
  have hlisted : ∀ r, PathDeletion.listed s.fileService userId runId r = true ↔
      inScope (some userId) .generated r = true ∧ isDownloadable r = true ∧
        runKey s runId ++ ['/'] <+: r.relativePath := listed_run hsection hrun hliteral hid
  have hbefore : ∀ r ∈ w.db.records.rows, PathDeletion.listed s.fileService userId runId r = false := by
    intro r hr
    apply Bool.eq_false_iff.2
    intro hmem
    obtain ⟨hscope, hactive, hbelow⟩ := (hlisted r).1 hmem
    exact hvacant r hr hscope hactive hbelow
  have hafter : ∀ r ∈ added, PathDeletion.listed s.fileService userId runId r = true := by
    intro r hr
    obtain ⟨file, -, hof⟩ := ofFile_of_mem hadded hr
    apply (hlisted r).2
    refine ⟨?_, ?_, ?_⟩
    · unfold inScope
      rw [hof.owner, hof.inSection]
      simp
    · unfold isDownloadable
      rw [hof.status]
      rfl
    · rw [hof.path, fileKey_below]
      exact List.prefix_append _ _
  refine ⟨hbefore, hafter, ?_⟩
  have hnone : w.db.records.rows.filter (PathDeletion.listed s.fileService userId runId) = [] :=
    List.filter_eq_nil_iff.2 fun r hr => by simp [hbefore r hr]
  rw [hrows, List.filter_append, hnone, List.filter_eq_self.2 hafter]
  rfl

theorem bytes_of_records (hadded : List.Forall₂ (OfFile s userId runId) files added) :
    (added.map (·.sizeBytes)).sum = bytesOf files := by
  induction hadded with
  | nil => rfl
  | cons hfirst _ ih =>
    unfold bytesOf at ih ⊢
    rw [List.map_cons, List.sum_cons, List.map_cons, List.sum_cons, ih, hfirst.size]

theorem runIdOf_literal (hyear : 1000 ≤ created.year) (hex : UuidHex) :
    PrefixQueries.Literal (runIdOf created hex) := by
  have hall := mem_runIdOf hyear hex
  exact ⟨fun h => absurd (hall _ h) (by decide), fun h => absurd (hall _ h) (by decide),
    fun h => absurd (hall _ h) (by decide)⟩

/-- What the records, the objects and the quotas are after the deletion. -/
structure Undone (s : GeneratedRuns ν) (w t t' : Installation) : Prop where
  records : ∀ r ∈ w.db.records.rows, t'.db.records.get r.id = some r
  deleted : ∀ r ∈ t.db.records.rows, r ∉ w.db.records.rows →
    ∃ r', t'.db.records.get r.id = some r' ∧ r'.status = .deleted
  objects : ∀ k, k ≠ [] → ¬ ['/'] <:+ k → (∀ id, k ≠ tmpKey s.fileService.adapter id) →
    t'.bucket.content k = w.bucket.content k
  quotas : ∀ u, usageOf s.fileService t'.db u = usageOf s.fileService w.db u

theorem undone_of_removal (hroot : s.fileService.adapter.diskRelativePrefix ≠ [])
    (hsection : s.fileService.fileSection = .generated) (hyear : 1000 ≤ created.year)
    (hliteral : PrefixQueries.Literal s.fileService.adapter.diskRelativePrefix)
    (hvacant : Vacant s userId stored.id w.db)
    (hstored : RunStored s userId request created stored accepted w t)
    (h : Removal s.fileService (PathDeletion.listed s.fileService userId stored.id)
      (fun k => Under (keyAt s.fileService.adapter (normalizePath stored.id)) k ∨
        ∃ r ∈ t.db.records.rows, PathDeletion.listed s.fileService userId stored.id r = true ∧
          r.isArchived = true ∧ Under (heldKey r) k) t t') : Undone s w t t' := by
  obtain ⟨hex, hnamed⟩ := hstored.named
  have hclean : CleanName stored.id := hnamed ▸ runIdOf_clean hyear hex
  have hid : PrefixQueries.Literal stored.id := hnamed ▸ runIdOf_literal hyear hex
  obtain ⟨u, hrecords, hfiles, hquotas, hfiled⟩ := hstored.files
  obtain ⟨added, hrows, hadded⟩ := hfiled.rows
  rw [hrecords] at hrows
  obtain ⟨hbefore, hafter, hfilter⟩ := filter_listed hsection hclean hliteral hid hvacant hrows hadded
  have hself : normalizePath stored.id = stored.id := normalizePath_name hclean
  have hkey : objectKey s.fileService.adapter stored.id = .ok (runKey s stored.id) :=
    objectKey_join hroot (Clean.singleton hclean)
  have hne : runKey s stored.id ≠ [] := key_ne_nil_of_root hroot hkey
  have hslash : ¬ ['/'] <:+ runKey s stored.id := by
    rintro ⟨rest, hrest⟩
    have hlast : '/' ∈ (runKey s stored.id).getLast? := by
      rw [← hrest, List.getLast?_append]
      rfl
    exact runKey_not_slash hclean '/' hlast rfl
  have hhot : ∀ r ∈ t.db.records.rows, PathDeletion.listed s.fileService userId stored.id r = true →
      r.isArchived = false := by
    intro r hr hlisted
    rw [hrows] at hr
    rcases List.mem_append.1 hr with hold | hnew
    · rw [hbefore r hold] at hlisted
      cases hlisted
    · obtain ⟨file, -, hof⟩ := ofFile_of_mem hadded hnew
      exact hof.hot
  constructor
  · intro r hr
    apply h.others r _ (hbefore r hr)
    rw [hrows]
    exact List.mem_append_left _ hr
  · intro r hr hnot
    apply h.deleted r hr
    rw [hrows] at hr
    exact hafter r ((List.mem_append.1 hr).resolve_left hnot)
  · intro k hk hmarker htmp
    by_cases hbelow : Bucket.Covers (runKey s stored.id) k
    · -- nothing was in the directory before, and nothing is left in it
      have hgone := h.objects.gone k (.inl ⟨_, (by rw [hself, keyAt_ok hkey hne]), hbelow⟩)
      have hnone := Bucket.get_none_of_covers (hstored.vacant _ hkey) hbelow
      rw [hgone]
      unfold Bucket.content
      rw [hnone]
      rfl
    · have hkept : t'.bucket.content k = t.bucket.content k := by
        apply h.objects.kept k
        rintro (⟨top, htop, hcovers⟩ | ⟨r, hr, hlisted, harchived, -⟩)
        · rw [hself, keyAt_ok hkey hne] at htop
          cases htop
          exact hbelow hcovers
        · rw [hhot r hr hlisted] at harchived
          cases harchived
      have hother : ∀ file ∈ runFiles accepted (metaBytes s accepted created),
          k ≠ fileKey s stored.id file.1 := by
        intro file _ heq
        apply hbelow
        right
        rw [Rename.asDir_of hne hslash, heq, fileKey_below]
        exact List.prefix_append _ _
      rw [hkept, hfiled.others k hother htmp, hfiles k hk hmarker]
  · intro owner
    rw [h.quotas owner, released_listed, hfilter, bytes_of_records hadded, hfiled.quotas owner, hquotas owner,
      hsection]
    by_cases howner : owner = userId
    · rw [if_pos howner, if_pos howner]
      unfold QuotaRepo.adjust
      simp
    · rw [if_neg howner, if_neg howner, PathDeletion.adjust_zero]

end

/-- A run that is stored and then deleted is undone: the records from before are as they were and those
of the run are marked as deleted, every object but markers and temporary ones has the content it had
before the run, and so have the quotas of everybody. -/
theorem deletion_undoes_run (host : Host) (now later : Time) (s : GeneratedRuns ν) (userId : Uuid)
    (request : RunRequest) (created : Moment) (fresh : Nat → UuidHex) (w t t' : Installation)
    (stored : StoredGeneratedRun) (released : Int) (hplain : s.fileService.adapter.Plain)
    (hroot : s.fileService.adapter.diskRelativePrefix ≠ [])
    (hliteral : PrefixQueries.Literal s.fileService.adapter.diskRelativePrefix)
    (hsection : s.fileService.fileSection = .generated) (hyear : 1000 ≤ created.year)
    (hvacant : Vacant s userId stored.id w.db)
    (hstore : (s.storeRun userId request created fresh now).run (host.serve now) w = (.ok (.ok stored), t))
    (hdelete : (s.deleteRun userId stored.id later).run (host.serve later) t = (.ok released, t')) :
    Undone s w t t' := by
  obtain ⟨accepted, hstored⟩ := (returns_storeRun hplain hroot hyear fresh).ends _ _ hstore stored rfl
  obtain ⟨hex, hnamed⟩ := hstored.named
  have hid : isRunId stored.id = true := hnamed ▸ isRunId_runIdOf hyear hex
  unfold deleteRun at hdelete
  rw [hid, if_neg (by decide)] at hdelete
  have hremoval := (removal_listed hplain hroot).ends _ _ hdelete
  exact undone_of_removal hroot hsection hyear hliteral hvacant hstored hremoval

def sampleDelete : Except Exc Int × Installation :=
  (sampleRuns.deleteRun (.ofDigit 1) sampleStored.id 5).run (runHost.serve 5) sampleStore.2

theorem sampleDelete_eq : sampleDelete.1 = .ok 219 := by decide +kernel

/-- The sample run is gone without a trace in the quotas. -/
theorem sample_run_undone : Undone sampleRuns sampleStart sampleStore.2 sampleDelete.2 := by
  have hstore : (sampleRuns.storeRun (.ofDigit 1) sampleRequest sampleMoment sampleSuffix 0).run
      (runHost.serve 0) sampleStart = (.ok (.ok sampleStored), sampleStore.2) := Prod.ext sampleStore_eq rfl
  have hdelete : (sampleRuns.deleteRun (.ofDigit 1) sampleStored.id 5).run (runHost.serve 5) sampleStore.2 =
      (.ok 219, sampleDelete.2) := Prod.ext sampleDelete_eq rfl
  exact deletion_undoes_run runHost 0 5 sampleRuns (.ofDigit 1) sampleRequest sampleMoment sampleSuffix
    sampleStart sampleStore.2 sampleDelete.2 sampleStored 219 sampleRuns_plain (by decide) (by decide) rfl
    (by decide) (fun r hr => absurd hr List.not_mem_nil) hstore hdelete

end WebStorage.GeneratedRuns
