import WebStorage.PathNames
import WebStorage.TmpCleanup

set_option autoImplicit false

/-! The clean-up of the `.tmp` directories of the volume. -/
namespace WebStorage
open Effect Effect.Prog S3
namespace Maintenance

/-! ### Entries and their times -/

section
variable {s : S3StorageAdapter} {entries : List (Str × Time)} {objects : List ObjectEntry}
  {path entry : Str} {time modified cutoff : Time}

theorem mem_laterOf : (entry, time) ∈ S3StorageAdapter.laterOf entries path modified ↔
    if entry = path then (∃ old, (path, old) ∈ entries ∧ time = max old modified) ∨
      ((∀ old, (path, old) ∉ entries) ∧ time = modified)
    else (entry, time) ∈ entries := by
  unfold S3StorageAdapter.laterOf
  by_cases hknown : entries.any (fun e => decide (e.1 = path)) = true
  · rw [if_pos hknown, List.mem_map]
    obtain ⟨⟨known, since⟩, hmem, hpath⟩ := List.any_eq_true.1 hknown
    have hpath' : known = path := of_decide_eq_true hpath
    rw [hpath'] at hmem
    constructor
    · rintro ⟨e, he, heq⟩
      by_cases hsame : e.1 = path
      · rw [if_pos hsame] at heq
        obtain ⟨hentry, htime⟩ := Prod.mk.inj heq
        rw [if_pos hentry.symm]
        exact .inl ⟨e.2, by rw [← hsame]; exact he, htime.symm⟩
      · rw [if_neg hsame] at heq
        rw [heq] at he hsame
        rw [if_neg hsame]
        exact he
    · intro h
      by_cases hsame : entry = path
      · rw [if_pos hsame] at h
        rcases h with hold | hnew
        · obtain ⟨old, hold, htime⟩ := hold
          exact ⟨(path, old), hold, by rw [if_pos rfl, hsame, htime]⟩
        · exact absurd hmem (hnew.1 since)
      · rw [if_neg hsame] at h
        exact ⟨(entry, time), h, if_neg hsame⟩
  · rw [if_neg hknown, List.mem_append, List.mem_singleton]
    have hnone : ∀ old, (path, old) ∉ entries := by
      intro old hmem
      exact hknown (List.any_eq_true.2 ⟨_, hmem, decide_eq_true rfl⟩)
    by_cases hsame : entry = path
    · rw [if_pos hsame, hsame]
      constructor
      · rintro (hold | hnew)
        · exact absurd hold (hnone time)
        · exact .inr ⟨hnone, (Prod.mk.inj hnew).2⟩
      · rintro (hold | hnew)
        · obtain ⟨old, hold, -⟩ := hold
          exact absurd hold (hnone old)
        · exact .inr (by rw [hnew.2])
    · rw [if_neg hsame]
      constructor
      · rintro (hold | hnew)
        · exact hold
        · exact absurd (Prod.mk.inj hnew).1 hsame
      · exact .inl

/-- An entry is stale when it has been seen and whatever has been seen of it is old. -/
theorem stale_entryTimes (objects : List ObjectEntry) : ∀ entries : List (Str × Time),
    (∀ e t t', (e, t) ∈ entries → (e, t') ∈ entries → t = t') →
    ((∃ t, (entry, t) ∈ s.entryTimes objects entries ∧ t < cutoff) ↔
      ((∃ t, (entry, t) ∈ entries) ∨ ∃ o ∈ objects, s.tmpEntryPathFromKey o.key = some entry) ∧
        (∀ t, (entry, t) ∈ entries → t < cutoff) ∧
        ∀ o ∈ objects, s.tmpEntryPathFromKey o.key = some entry → o.lastModified < cutoff) := by
  induction objects with
  | nil =>
    intro entries hfun
    unfold S3StorageAdapter.entryTimes
    constructor
    · rintro ⟨t, hmem, hold⟩
      refine ⟨.inl ⟨t, hmem⟩, ?_, fun o ho => absurd ho List.not_mem_nil⟩
      intro t' hmem'
      rw [hfun entry t' t hmem' hmem]
      exact hold
    · rintro ⟨hseen, hold, -⟩
      rcases hseen with hmem | ho
      · obtain ⟨t, hmem⟩ := hmem
        exact ⟨t, hmem, hold t hmem⟩
      · obtain ⟨o, ho, -⟩ := ho
        exact absurd ho List.not_mem_nil
  | cons o objects ih =>
    intro entries hfun
    unfold S3StorageAdapter.entryTimes
    cases hentry : s.tmpEntryPathFromKey o.key with
    | none =>
      dsimp only
      rw [ih entries hfun]
      simp [hentry]
    | some path =>
      have hfun' : ∀ e t t', (e, t) ∈ S3StorageAdapter.laterOf entries path o.lastModified →
          (e, t') ∈ S3StorageAdapter.laterOf entries path o.lastModified → t = t' := by
        intro e t t' h h'
        rw [mem_laterOf] at h h'
        by_cases hsame : e = path
        · rw [if_pos hsame] at h h'
          rcases h with ⟨old, hold, htime⟩ | ⟨hnone, htime⟩
          · rcases h' with ⟨old', hold', htime'⟩ | ⟨hnone', -⟩
            · rw [htime, htime', hfun path old old' hold hold']
            · exact absurd hold (hnone' old)
          · rcases h' with ⟨old', hold', -⟩ | ⟨-, htime'⟩
            · exact absurd hold' (hnone old')
            · rw [htime, htime']
        · rw [if_neg hsame] at h h'
          exact hfun e t t' h h'
      dsimp only
      rw [ih _ hfun']
      by_cases hsame : entry = path
      · -- the newest of what was seen and the object counts
        have hseen : ∃ t, (entry, t) ∈ S3StorageAdapter.laterOf entries path o.lastModified := by
          by_cases hknown : ∃ old, (path, old) ∈ entries
          · obtain ⟨old, hold⟩ := hknown
            exact ⟨_, mem_laterOf.2 (by rw [if_pos hsame]; exact .inl ⟨old, hold, rfl⟩)⟩
          · exact ⟨_, mem_laterOf.2 (by
              rw [if_pos hsame]
              exact .inr ⟨fun old hold => hknown ⟨old, hold⟩, rfl⟩)⟩
        have hlater : (∀ t, (entry, t) ∈ S3StorageAdapter.laterOf entries path o.lastModified → t < cutoff) ↔
            (∀ t, (entry, t) ∈ entries → t < cutoff) ∧ o.lastModified < cutoff := by
          constructor
          · intro h
            by_cases hknown : ∃ old, (path, old) ∈ entries
            · obtain ⟨old, hold⟩ := hknown
              have hmax : max old o.lastModified < cutoff := h _ (mem_laterOf.2 (by
                rw [if_pos hsame]
                exact .inl ⟨old, hold, rfl⟩))
              obtain ⟨hold', hnew⟩ := max_lt_iff.1 hmax
              refine ⟨?_, hnew⟩
              intro t ht
              rw [hsame] at ht
              rw [hfun path t old ht hold]
              exact hold'
            · have hnew : o.lastModified < cutoff := h _ (mem_laterOf.2 (by
                rw [if_pos hsame]
                exact .inr ⟨fun old hold => hknown ⟨old, hold⟩, rfl⟩))
              refine ⟨?_, hnew⟩
              intro t ht
              rw [hsame] at ht
              exact absurd ⟨t, ht⟩ hknown
          · rintro ⟨hold, hnew⟩ t ht
            rw [mem_laterOf, if_pos hsame] at ht
            rcases ht with ⟨old, hmem, htime⟩ | ⟨-, htime⟩
            · rw [htime]
              rw [hsame] at hold
              exact max_lt (hold old hmem) hnew
            · rw [htime]
              exact hnew
        rw [hlater]
        constructor
        · rintro ⟨-, ⟨hold, hnew⟩, hrest⟩
          refine ⟨.inr ⟨o, List.mem_cons_self, by rw [hentry, hsame]⟩, hold, ?_⟩
          intro o' ho' hentry'
          rcases List.mem_cons.1 ho' with hfirst | hmem
          · rw [hfirst]
            exact hnew
          · exact hrest o' hmem hentry'
        · rintro ⟨-, hold, hall⟩
          refine ⟨.inl hseen, ⟨hold, hall o List.mem_cons_self (by rw [hentry, hsame])⟩, ?_⟩
          intro o' ho'
          exact hall o' (List.mem_cons_of_mem _ ho')
      · have hother : ∀ t, (entry, t) ∈ S3StorageAdapter.laterOf entries path o.lastModified ↔
            (entry, t) ∈ entries := by
          intro t
          rw [mem_laterOf, if_neg hsame]
        have hpath : path ≠ entry := fun heq => hsame heq.symm
        simp [hother, hentry, hpath]

end

/-! ### Where the entries lie -/

section
variable {s : S3StorageAdapter} {key entry : Str}

theorem clean_tmpDir : CleanName tmpDir := by decide +kernel

/-- The path of an entry has a part `.tmp`. -/
theorem tmp_in_entry (h : s.tmpEntryPathFromKey key = some entry) : tmpDir ∈ Text.split entry := by
  have hjoined : ∀ parts : List Str, (∀ w ∈ parts, '/' ∉ w) → tmpDir ∈ parts →
      tmpDir ∈ Text.split (Text.join parts) := by
    intro parts hparts hmem
    rw [Text.split_join (List.ne_nil_of_mem hmem) hparts]
    exact hmem
  unfold S3StorageAdapter.tmpEntryPathFromKey at h
  dsimp only at h
  obtain ⟨relative, -, hentry⟩ := Option.bind_eq_some_iff.1 h
  split at hentry
  next =>
    split at hentry
    next hlast =>
      rw [← Option.some.inj hentry]
      apply hjoined _ fun w hw => Text.slash_not_mem_of_split hw
      exact List.dropLast_subset _ (List.mem_of_getLast? hlast)
    next => cases hentry
  next =>
    split at hentry
    next hindex =>
      rw [← Option.some.inj hentry]
      apply hjoined _ fun w hw => Text.slash_not_mem_of_split (List.mem_of_mem_take hw)
      have hlt : (Text.split relative).idxOf tmpDir < (Text.split relative).length := by
        show (Text.split relative).idxOf ".tmp".toList < _
        omega
      apply List.mem_take_iff_getElem.2
      refine ⟨(Text.split relative).idxOf tmpDir, ?_, List.getElem_idxOf hlt⟩
      apply lt_min _ hlt
      show _ < (Text.split relative).idxOf ".tmp".toList + 2
      show (Text.split relative).idxOf ".tmp".toList < _
      omega
    next => cases hentry

/-- Whatever lies at or below the key of an entry has a part `.tmp`. -/
theorem tmp_below_entry {k : Str} (h : s.tmpEntryPathFromKey key = some entry)
    (hunder : Under (keyAt diskRootAdapter entry) k) : tmpDir ∈ Text.split k := by
  obtain ⟨top, htop, hcovers⟩ := hunder
  unfold keyAt at htop
  split at htop
  next found hfound =>
    split at htop
    · cases htop
    next hne =>
      have hsame : found = top := Option.some.inj htop
      obtain ⟨logical, hlogical, hform⟩ := Bucket.objectKey_ok hfound
      have hkey : top = logical := by
        rw [← hsame, hform]
        split
        next hnil => exact hnil.symm
        next => exact if_pos rfl
      have hin : tmpDir ∈ Text.split top := by
        rw [hkey]
        exact name_in_key clean_tmpDir (tmp_in_entry h) hlogical
      rcases hcovers with hself | hbelow
      · rw [hself]
        exact hin
      · rw [← hsame] at hbelow hin
        have hslash := not_suffix_of_safe hlogical
        rw [← hkey, ← hsame] at hslash
        rw [Rename.asDir_of hne hslash] at hbelow
        obtain ⟨rest, hrest⟩ := hbelow
        rw [← hrest, List.append_assoc, List.singleton_append, Text.split_append_slash]
        exact List.mem_append_left _ hin
  next => cases htop

end

/-! ### The clean-up -/

/-- All that has been stored for an entry is older than the cut-off. -/
def StaleEntry (host : Host) (cutoff : Time) (b : Bucket) (entry : Str) : Prop :=
  (∃ o ∈ b.objects, (host.storage diskRootAdapter).tmpEntryPathFromKey o.key = some entry) ∧
    ∀ o ∈ b.objects, (host.storage diskRootAdapter).tmpEntryPathFromKey o.key = some entry →
      o.lastModified < cutoff

section
variable {host : Host} {now : Time} {w : Installation} {entry : Str}

variable (host now) in
theorem run_deleteEntry (path : Str) (w : Installation) : ∃ x t,
    (store diskRootAdapter (.delete path)).run (host.serve now) w = (x, t) ∧ t.db = w.db ∧
      Swept (Under (keyAt diskRootAdapter path)) w.bucket t.bucket := by
  cases hkey : objectKey diskRootAdapter path with
  | error e =>
    have hlogical : ∃ e, safeLogicalKey path = .error e := by
      cases hsafe : safeLogicalKey path with
      | error e => exact ⟨e, rfl⟩
      | ok logical =>
        unfold objectKey at hkey
        rw [hsafe] at hkey
        cases hkey
    obtain ⟨e', hsafe⟩ := hlogical
    have hrefused : (store diskRootAdapter (.delete path)).run (host.serve now) w = (.error e', w) := by
      have hdelete : (host.storage diskRootAdapter).delete path = done (.error e') := by
        unfold S3StorageAdapter.delete
        rw [hsafe]
        rfl
      rw [run_store plain_diskRoot, S3StorageAdapter.perform, hdelete]
      rfl
    refine ⟨_, w, hrefused, rfl, ?_⟩
    rw [keyAt_error hkey]
    exact .nowhere w.bucket
  | ok key =>
    by_cases hne : key = []
    · rw [hne] at hkey
      refine ⟨_, w, run_delete_root plain_diskRoot hkey w, rfl, ?_⟩
      rw [keyAt_root hkey]
      exact .nowhere w.bucket
    · refine ⟨_, _, run_delete plain_diskRoot hkey hne w, rfl, ?_⟩
      rw [keyAt_ok hkey hne]
      exact swept_covers w.bucket key

variable (host now) in
theorem run_deleteTmpEntries (paths : List Str) : ∀ (deleted : Nat) (w : Installation), ∃ n t,
    (deleteTmpEntries paths deleted).run (host.serve now) w = (.ok n, t) ∧ t.db = w.db ∧
      Swept (fun k => ∃ path ∈ paths, Under (keyAt diskRootAdapter path) k) w.bucket t.bucket := by
  induction paths with
  | nil =>
    intro deleted w
    refine ⟨deleted, w, rfl, rfl, ?_⟩
    apply (Swept.nothing w.bucket).congr
    intro k
    constructor
    · exact fun h => h.elim
    · rintro ⟨path, hpath, -⟩
      cases hpath
  | cons path paths ih =>
    intro deleted w
    obtain ⟨x, u, hrun, hdb, hfirst⟩ := run_deleteEntry host now path w
    have hrest : ∃ n t, (deleteTmpEntries (path :: paths) deleted).run (host.serve now) w = (.ok n, t) ∧
        t.db = u.db ∧
        Swept (fun k => ∃ path ∈ paths, Under (keyAt diskRootAdapter path) k) u.bucket t.bucket := by
      have hattempt := run_attempt (host.serve now) (store diskRootAdapter (.delete path)) w
      rw [hrun] at hattempt
      unfold deleteTmpEntries
      rw [bind_eq, run_bind_ok hattempt]
      cases x with
      | ok _ => exact ih (deleted + 1) u
      | error _ => exact ih deleted u
    obtain ⟨n, t, hlater, hdb', hothers⟩ := hrest
    refine ⟨n, t, hlater, hdb'.trans hdb, ?_⟩
    apply (hfirst.trans hothers).congr
    intro k
    constructor
    · rintro (hself | ⟨path', hmem, hunder⟩)
      · exact ⟨path, List.mem_cons_self, hself⟩
      · exact ⟨path', List.mem_cons_of_mem _ hmem, hunder⟩
    · rintro ⟨path', hmem, hunder⟩
      rcases List.mem_cons.1 hmem with hself | hlater
      · exact .inl (hself ▸ hunder)
      · exact .inr ⟨path', hlater, hunder⟩

variable (host now) in
theorem run_listStaleTmpEntryPaths (cutoff : Time) (w : Installation) : ∃ paths,
    (store diskRootAdapter (.listStaleTmpEntryPaths cutoff)).run (host.serve now) w = (.ok paths, w) ∧
      ∀ entry, entry ∈ paths ↔ StaleEntry host cutoff w.bucket entry := by
  refine ⟨_, by rw [run_store plain_diskRoot]; rfl, ?_⟩
  intro entry
  have hall : ∀ e : ObjectEntry, e ∈ w.bucket.entriesUnder [] ↔
      ∃ o ∈ w.bucket.objects, e = ⟨o.key, o.body.length, o.lastModified⟩ := by
    intro e
    rw [Bucket.mem_entriesUnder]
    simp
  have hstale := @stale_entryTimes (host.storage diskRootAdapter) entry cutoff
    (w.bucket.entriesUnder []) [] fun e t t' h => absurd h List.not_mem_nil
  rw [List.mem_map]
  constructor
  · rintro ⟨e, he, heq⟩
    obtain ⟨hmem, hold⟩ := List.mem_filter.1 he
    have hfound := hstale.1 ⟨e.2, by rw [← heq]; exact hmem, of_decide_eq_true hold⟩
    obtain ⟨hseen, -, hevery⟩ := hfound
    rcases hseen with hnever | hseen
    · obtain ⟨t, ht⟩ := hnever
      exact absurd ht List.not_mem_nil
    · obtain ⟨e', he', hentry⟩ := hseen
      obtain ⟨o, ho, hsame⟩ := (hall e').1 he'
      rw [hsame] at hentry
      refine ⟨⟨o, ho, hentry⟩, ?_⟩
      intro o' ho' hentry'
      exact hevery _ ((hall _).2 ⟨o', ho', rfl⟩) hentry'
  · rintro ⟨⟨o, ho, hentry⟩, hevery⟩
    obtain ⟨t, hmem, hold⟩ := hstale.2 ⟨.inr ⟨_, (hall _).2 ⟨o, ho, rfl⟩, hentry⟩,
      fun t ht => absurd ht List.not_mem_nil, by
        intro e he hentry'
        obtain ⟨o', ho', hsame⟩ := (hall e).1 he
        rw [hsame] at hentry' ⊢
        exact hevery o' ho' hentry'⟩
    exact ⟨(entry, t), List.mem_filter.2 ⟨hmem, decide_eq_true hold⟩, rfl⟩

end

/-- When every call is answered, the clean-up of the `.tmp` directories leaves the tables alone and
takes away exactly what lies at or below an entry whose newest object is over an hour old. No object
is touched whose key has no part `.tmp`. -/
theorem stale_entries_removed (host : Host) (now : Time) (w : Installation) :
    ∃ n t, (cleanupTmpDirs now).run (host.serve now) w = (.ok n, t) ∧ t.db = w.db ∧
      Swept (fun k => ∃ entry, StaleEntry host (now - hour) w.bucket entry ∧
        Under (keyAt diskRootAdapter entry) k) w.bucket t.bucket ∧
      ∀ k, tmpDir ∉ Text.split k → t.bucket.content k = w.bucket.content k := by
  obtain ⟨paths, hlisted, hpaths⟩ :=
    run_listStaleTmpEntryPaths host now (now - hour) w
  obtain ⟨n, t, hrun, hdb, hswept⟩ := run_deleteTmpEntries host now paths 0 w
  have hexact : Swept (fun k => ∃ entry, StaleEntry host (now - hour) w.bucket entry ∧
      Under (keyAt diskRootAdapter entry) k) w.bucket t.bucket := by
    apply hswept.congr
    intro k
    exact exists_congr fun entry => and_congr_left fun _ => hpaths entry
  refine ⟨n, t, ?_, hdb, hexact, ?_⟩
  · unfold cleanupTmpDirs
    rw [bind_eq, run_bind_ok hlisted]
    exact hrun
  · intro k hk
    apply hexact.kept
    rintro ⟨entry, ⟨⟨o, -, hentry⟩, -⟩, hunder⟩
    exact hk (tmp_below_entry hentry hunder)

end Maintenance
end WebStorage
