import WebStorage.QuotaExact

set_option autoImplicit false

/-! The quota books over whole runs: private resets, the reconciliation, and every sequence of
requests. -/
namespace WebStorage.QuotaBooks
open Effect Effect.Prog

section
attribute [local irreducible] Adapter.toDiskRelativePath
variable {d t : Db} {owner userId u : Uuid} {c : Column} {fileSection : FileSection}

/-! ### The private reset -/

theorem due_sum (bytes : List Int) : (bytes.map fun b => due owner fileSection b u c).sum =
    due owner fileSection bytes.sum u c := by
  induction bytes with
  | nil => exact due_zero.symm
  | cons b rest ih => rw [List.map_cons, List.sum_cons, ih, List.sum_cons, due_add]

/-- No archive blob of the private section holds bytes. -/
def NoArchivedPrivate (d : Db) (userId : Uuid) : Prop :=
  ∀ r ∈ d.records.rows, r.userId = userId → r.fileSection = .private → r.status = .archived →
    r.sizeBytes = 0

/-- A row loses its private weight, and nothing else, when the reset deletes it. -/
theorem weight_reset {r : FileRecord} (harchived : r.userId = userId →
      r.fileSection = .private → r.status = .archived → r.sizeBytes = 0) :
    weight u c (if (inScope (some userId) .private r && r.status = .committed)
      then { r with status := .deleted } else r) + due userId .private
        (weight userId .private r) u c = weight u c r := by
  by_cases hscope : r.userId = userId ∧ r.fileSection = .private
  · obtain ⟨hu, hs⟩ := hscope
    have hin : inScope (some userId) .private r = true := by simp [inScope, hu, hs]
    rcases hst : r.status with _ | _ | _ | _
    · simp [weight, isDownloadable, hst, due]
    · have hdown : isDownloadable r := by simp [isDownloadable, hst]
      have hgone : weight u c { r with status := .deleted } = 0 := weight_not_downloadable rfl
      have hown : weight userId .private r = r.sizeBytes := by
        simp [weight, hu, hs, hdown, Column.counts]
      simp only [hin, hst, decide_true, Bool.and_self, if_true]
      rw [hgone, hown, zero_add, weight_downloadable hdown, hu, hs]
    · have hzero := harchived hu hs hst
      simp [weight, isDownloadable, hst, due, hzero]
    · simp [weight, isDownloadable, hst, due]
  · have hin : inScope (some userId) .private r = false := by
      simp only [inScope, Option.all_some, Bool.and_eq_false_iff]
      by_contra h
      simp only [not_or, Bool.not_eq_false, beq_iff_eq, decide_eq_true_eq] at h
      exact hscope ⟨h.1.symm, h.2⟩
    have hweight : weight userId .private r = 0 := by
      rw [weight, if_neg]
      exact fun h => hscope ⟨h.1, by simpa [Column.counts] using h.2.2⟩
    simp [hin, hweight, due_zero]

theorem off_reset (h : Balanced d) (hnone : NoArchivedPrivate d userId) :
    Off userId .private (-storedBytes d userId .private)
      (FileRepo.deleteAllByUserSection userId .private d).2 where
  drift u c := by
    have hexact := h.exact u c
    have hrows : storedBytes (FileRepo.deleteAllByUserSection userId .private d).2 u c +
        due userId .private (storedBytes d userId .private) u c = storedBytes d u c := by
      rw [stored_weight, stored_weight, stored_weight, ← due_sum, List.map_map]
      simp only [FileRepo.deleteAllByUserSection, RecordTable.update, RecordTable.updated,
        List.map_map, Function.comp_def]
      rw [← List.sum_map_add]
      refine congrArg List.sum (List.map_congr_left fun r hr => ?_)
      exact weight_reset (hnone r hr)
    have hneg : due userId .private (-storedBytes d userId .private) u c =
        -due userId .private (storedBytes d userId .private) u c := by
      unfold due
      split <;> simp
    have hkept : recordedBytes (FileRepo.deleteAllByUserSection userId .private d).2 u c =
        recordedBytes d u c := rfl
    rw [hneg, hkept]
    omega
  size r hr := by
    obtain ⟨r₀, hr₀, ⟨-, rfl⟩ | ⟨-, rfl⟩⟩ := mem_updated hr
    · exact h.size r₀ hr₀
    · exact h.size r hr₀

/-- The reset enters the private bytes of the row with the other sign. -/
theorem resetPrivateUsage_eq (limit : Int) (userId : Uuid) (d : Db) :
    QuotaRepo.resetPrivateUsage limit userId d =
      QuotaRepo.modify limit userId
        (QuotaRepo.adjust (-recordedBytes d userId .private) .private) d := by
  have hcurrent := of_current (d := d) limit userId .private
  unfold QuotaRepo.resetPrivateUsage QuotaRepo.modify
  rw [← hcurrent]
  generalize (d.quotas.lookup userId).getD (QuotaRepo.newUsage limit) = usage
  have hreset : (if usage.privateBytes = 0 then usage
      else { usage with totalBytes := usage.totalBytes - usage.privateBytes, privateBytes := 0 }) =
      QuotaRepo.adjust (-Column.of .private usage) .private usage := by
    unfold QuotaRepo.adjust Column.of
    by_cases hzero : usage.privateBytes = 0
    · rw [if_pos hzero]
      simp [hzero]
      cases usage
      simp_all
    · rw [if_neg hzero]
      simp [sub_eq_add_neg]
  dsimp only
  rw [hreset]

theorem settles_resetPrivateStorage (settings : Settings) (inner : Adapter) (h : Balanced d)
    (hnone : NoArchivedPrivate d userId) :
    Settles (resetPrivateStorage settings inner userId) d := by
  simp only [resetPrivateStorage, bind_eq, pure_eq]
  refine settles_skip (keepsBooks_store _ _) fun _ t ht => ?_
  refine settles_skip (keepsBooks_catch (onlyStores_deleteIfExists _ _).keepsBooks fun e => by
    split <;> trivial) fun _ v hv => ?_
  refine settles_skip (keepsBooks_store _ _) fun _ w hw => ?_
  have hbalanced := SameBooks.balanced hw (SameBooks.balanced hv (SameBooks.balanced ht h))
  have hnone' : NoArchivedPrivate w userId := by
    unfold NoArchivedPrivate
    rw [hw.1, hv.1, ht.1]
    exact hnone
  refine bind_db (fun _ _ => ?_) fun _ _ _ he => by cases he
  refine bind_db (fun _ _ => settles_done ?_) fun _ _ _ he => by cases he
  have hrecorded : recordedBytes (FileRepo.deleteAllByUserSection userId .private w).2 userId
      .private = storedBytes w userId .private := (hbalanced.exact userId .private).symm
  rw [resetPrivateUsage_eq, hrecorded]
  refine balanced_adjust (off_reset hbalanced hnone') ?_
  refine owners_update (fun r hr hd _ => hbalanced.row r hr hd) fun r hr hp => ⟨rfl, fun hd => ?_⟩
  cases hd

/-! ### Reconciliation -/

def bytesOf (p : FileRecord → Bool) (userId : Uuid) (d : Db) : Int :=
  ((d.records.rows.filter fun r => r.userId = userId && p r).map (·.sizeBytes)).sum

def archivedBytes (d : Db) (userId : Uuid) : Int := bytesOf (·.status = .archived) userId d

/-- Nobody has more archived bytes than the mismatch that the reconciliation tolerates. -/
def Within (d : Db) : Prop :=
  ∀ userId, archivedBytes d userId ≤ Maintenance.quotaMismatchThresholdBytes

theorem stored_split (d : Db) (userId : Uuid) : storedBytes d userId .total =
    bytesOf (·.status = .committed) userId d + archivedBytes d userId := by
  unfold storedBytes bytesOf archivedBytes bytesOf
  induction d.records.rows with
  | nil => rfl
  | cons r rest ih =>
    by_cases hu : r.userId = userId
    · rcases hst : r.status with _ | _ | _ | _ <;>
        simp_all [isDownloadable, Column.counts] <;> omega
    · simp_all [isDownloadable, Column.counts]

theorem bytesOf_nonneg (p : FileRecord → Bool) (userId : Uuid)
    (h : ∀ r ∈ d.records.rows, 0 ≤ r.sizeBytes) : 0 ≤ bytesOf p userId d := by
  refine List.sum_nonneg ?_
  intro b hb
  obtain ⟨r, hr, rfl⟩ := List.mem_map.1 hb
  exact h r (List.mem_filter.1 hr).1

/-- The reconciliation would leave the user's row. -/
def Close (d : Db) (userId : Uuid) : Prop :=
  |bytesOf (·.status = .committed) userId d - recordedBytes d userId .total| ≤
    Maintenance.quotaMismatchThresholdBytes

theorem close_iff (h : Balanced d) (userId : Uuid) :
    Close d userId ↔ archivedBytes d userId ≤ Maintenance.quotaMismatchThresholdBytes := by
  have hnonneg : 0 ≤ archivedBytes d userId := bytesOf_nonneg _ _ h.size
  have hdrift : bytesOf (·.status = .committed) userId d - recordedBytes d userId .total =
      -archivedBytes d userId := by
    rw [← h.exact, stored_split]
    omega
  rw [Close, hdrift, abs_neg, abs_of_nonneg hnonneg]

theorem getByUserId_total (limit : Int) (userId : Uuid) (d : Db) :
    ∃ usage, (QuotaRepo.getByUserId limit userId d).1 = .ok usage ∧
      usage.totalBytes = recordedBytes d userId .total ∧
      (QuotaRepo.getByUserId limit userId d).2.records = d.records ∧
      (∀ u, recordedBytes (QuotaRepo.getByUserId limit userId d).2 u .total =
        recordedBytes d u .total) ∧
      (HasRow d userId → (QuotaRepo.getByUserId limit userId d).2 = d) := by
  unfold QuotaRepo.getByUserId
  cases hrow : d.quotas.lookup userId with
  | some usage =>
    refine ⟨usage, rfl, ?_, rfl, fun _ => rfl, fun _ => rfl⟩
    rw [recordedBytes, hrow]
    rfl
  | none =>
    refine ⟨_, rfl, ?_, rfl, fun u => ?_, fun h => ?_⟩
    · rw [recordedBytes, hrow]
      rfl
    · dsimp only
      rw [recorded_insert]
      split
      · rename_i hu
        rw [hu, recordedBytes, hrow]
        rfl
      · rfl
    · rw [HasRow, hrow] at h
      cases h

/-- One turn of the loop: the user's total is close afterwards, and who was close stays so. -/
theorem reconcileUser_spec (settings : Settings) (userId : Uuid) (d : Db) :
    dbWp (Maintenance.reconcileUser settings userId) (fun x t => (∃ fixed, x = .ok fixed) ∧
      Close t userId ∧ (∀ u, Close d u → Close t u) ∧
      (HasRow d userId → Close d userId → t = d)) d := by
  obtain ⟨usage, hget, htotal, hrecords, hrecorded, hsame⟩ :=
    getByUserId_total settings.defaultUserQuotaBytes userId d
  have hclose : ∀ u, Close (QuotaRepo.getByUserId settings.defaultUserQuotaBytes userId d).2 u ↔
      Close d u := by
    intro u
    simp only [Close, bytesOf, hrecords, hrecorded]
  simp only [Maintenance.reconcileUser, bind_eq, pure_eq]
  refine bind_db (fun realTotal hreal => ?_) fun _ he => by cases he
  have hreal' : realTotal = bytesOf (·.status = .committed) userId d := by
    cases hreal
    rfl
  refine bind_db (fun found hfound => ?_) fun e he => ?_
  · have hfound' : usage = found := by
      have := hget.symm.trans hfound
      cases this
      rfl
    subst hfound'
    show dbWp (if |realTotal - usage.totalBytes| ≤ _ then _ else _) _
      (QuotaRepo.getByUserId settings.defaultUserQuotaBytes userId d).2
    rw [hreal', htotal]
    split
    · rename_i hle
      have hle' : Close d userId := hle
      exact ⟨trivial, ⟨_, rfl⟩, (hclose userId).2 hle', fun u hu => (hclose u).2 hu,
        fun hrow _ => hsame hrow⟩
    · rename_i hgt
      refine bind_db (fun _ _ => ?_) fun _ he => by cases he
      have hupdated : ∀ u, Close (QuotaRepo.updateTotalBytes settings.defaultUserQuotaBytes userId
          (bytesOf (·.status = .committed) userId d)
          (QuotaRepo.getByUserId settings.defaultUserQuotaBytes userId d).2).2 u ↔
          u = userId ∨ Close d u := by
        intro u
        unfold Close
        rw [QuotaRepo.updateTotalBytes, QuotaRepo.modify, recorded_insert]
        by_cases hu : u = userId
        · subst hu
          simp only [bytesOf, hrecords, true_or, iff_true]
          simp only [if_true, Column.of, sub_self, abs_zero]
          decide
        · simp only [bytesOf, hrecords, hu, if_false, hrecorded, false_or]
      exact ⟨trivial, ⟨_, rfl⟩, (hupdated userId).2 (.inl rfl),
        fun u hu => (hupdated u).2 (.inr hu), fun _ hle => absurd hle hgt⟩
  · have hboth := hget.symm.trans he
    cases hboth

theorem reconcileAll_spec (settings : Settings) (userIds : List Uuid) (fixed : Nat) (d : Db) :
    dbWp (Maintenance.reconcileAll settings userIds fixed) (fun x t => (∃ n, x = .ok n) ∧
      (∀ u ∈ userIds, Close t u) ∧ (∀ u, Close d u → Close t u) ∧
      ((∀ u ∈ userIds, HasRow d u ∧ Close d u) → t = d)) d := by
  induction userIds generalizing fixed d with
  | nil => exact ⟨trivial, ⟨_, rfl⟩, fun _ hu => absurd hu List.not_mem_nil, fun _ hu => hu,
      fun _ => rfl⟩
  | cons userId userIds ih =>
    simp only [Maintenance.reconcileAll, bind_eq]
    refine bind_spec (reconcileUser_spec settings userId d) (fun corrected t ht => ?_)
      fun e t ht => ?_
    · obtain ⟨-, hclose, hkept, hsame⟩ := ht
      refine wp_mono (ih _ t) fun x v _ hv => ?_
      obtain ⟨hok, hall, hkept', hsame'⟩ := hv
      refine ⟨hok, fun u hu => ?_, fun u hu => hkept' u (hkept u hu), fun hrows => ?_⟩
      · rcases List.mem_cons.1 hu with rfl | hu
        · exact hkept' u hclose
        · exact hall u hu
      · obtain ⟨hrow, hc⟩ := hrows userId List.mem_cons_self
        have hd : t = d := hsame hrow hc
        subst hd
        exact hsame' fun u hu => hrows u (List.mem_cons_of_mem _ hu)
    · obtain ⟨⟨_, he⟩, -⟩ := ht
      cases he

/-- A reconciliation returns; it changes nothing exactly if nobody has too many archived bytes. -/
theorem reconcileQuotas_spec (settings : Settings) (h : Balanced d) :
    dbWp (Maintenance.reconcileQuotas settings) (fun x t => (∃ n, x = .ok n) ∧
      (t = d ↔ Within d)) d := by
  simp only [Maintenance.reconcileQuotas, bind_eq, pure_eq]
  refine bind_db (fun committed hcommitted => ?_) fun _ he => by cases he
  refine bind_db (fun all hall => ?_) fun _ he => by cases he
  have hlisted : ∀ u, u ∉ dictFromKeys (committed ++ all) → archivedBytes d u = 0 := by
    intro u hu
    cases hall
    have hno : ¬ HasRow d u := fun hrow => hu (mem_dictFromKeys.2 (List.mem_append_right _
      (AList.mem_keys.1 (AList.lookup_isSome.1 hrow))))
    unfold archivedBytes bytesOf
    rw [List.filter_eq_nil_iff.2]
    · rfl
    · intro r hr hp
      simp only [Bool.and_eq_true, decide_eq_true_eq] at hp
      exact hno (hp.1 ▸ h.row r hr (by simp [isDownloadable, hp.2]))
  have hrows : ∀ u ∈ dictFromKeys (committed ++ all), HasRow d u := by
    intro u hu
    cases hall
    cases hcommitted
    rcases List.mem_append.1 (mem_dictFromKeys.1 hu) with hu | hu
    · obtain ⟨r, hr, rfl⟩ := List.mem_map.1 (mem_dictFromKeys.1 hu)
      obtain ⟨hr, hst⟩ := List.mem_filter.1 hr
      exact h.row r hr (by simp [isDownloadable, of_decide_eq_true hst])
    · exact AList.lookup_isSome.2 (AList.mem_keys.2 hu)
  refine bind_spec (reconcileAll_spec settings _ 0 d) (fun fixed t ht => ?_) fun e t ht => ?_
  · obtain ⟨-, hclose, -, hsame⟩ := ht
    refine ⟨trivial, ⟨_, rfl⟩, fun he u => ?_, fun hwithin => ?_⟩
    · by_cases hu : u ∈ dictFromKeys (committed ++ all)
      · exact (close_iff h u).1 (he ▸ hclose u hu)
      · rw [hlisted u hu]
        decide
    · exact hsame fun u hu => ⟨hrows u hu, (close_iff h u).2 (hwithin u)⟩
  · obtain ⟨⟨_, he⟩, -⟩ := ht
    cases he

/-! ### Runs -/

/-- An overwrite charges the owner, a reset finds no archived private bytes, and a
reconciliation finds nobody with too many archived bytes. -/
def Allowed (d : Db) : Request × Time → Prop
  | (.overwriteFile s userId path filename _ size fileSection, _) =>
    ChargesOwner s userId path filename size fileSection d
  | (.resetPrivateStorage _ _ userId, _) => NoArchivedPrivate d userId
  | (.reconcileQuotas _, _) => Within d
  | _ => True

/-- No files, and every counter at zero. -/
def Start (d : Db) : Prop :=
  d.records.rows = [] ∧ ∀ userId column, recordedBytes d userId column = 0

theorem balanced_start (h : Start d) : Balanced d where
  exact u c := by
    rw [h.2, storedBytes, h.1]
    rfl
  size r hr := absurd (h.1 ▸ hr) List.not_mem_nil
  row r hr := absurd (h.1 ▸ hr) List.not_mem_nil

theorem settles_ignore {α : Type} {p : FileM α} (h : Settles p d) : Settles (ignore p) d :=
  settles_bind h fun _ _ hb => settles_done hb

/-- What one request preserves. -/
theorem settles_program (request : Request) (now : Time) (h : Balanced d)
    (hallowed : Allowed d (request, now)) : Settles (request.program now) d := by
  cases request with
  | uploadFile s userId path filename data size fileSection =>
    exact settles_ignore (settles_uploadFile s userId path filename data size fileSection now h)
  | overwriteFile s userId path filename data size fileSection =>
    exact settles_ignore
      (settles_overwriteFile s userId path filename data size fileSection now h hallowed)
  | uploadZipFolder s userId path zipFilename zip total available =>
    exact settles_ignore
      (settles_uploadZipFolder s userId path zipFilename zip total available now h)
  | createDirectory s path name =>
    exact Keeps.settles (keeps_of_keepsBooks (keepsBooks_store _ _) h)
  | rename s actorId fileId newName =>
    exact settles_ignore (settles_rename s actorId fileId newName now h)
  | renameByPath s userId path newName =>
    exact settles_ignore (settles_renameByPath s userId path newName now h)
  | readByPath s actorId path => exact settles_ignore (settles_readByPath s actorId path now h)
  | deleteFile s actorId fileId actorRole =>
    exact settles_deleteFile s actorId fileId actorRole now h
  | deleteByPath s actorId path actorRole =>
    exact settles_deleteByPath s actorId path actorRole now h
  | uploadPhoto s userId filename data size =>
    exact settles_ignore (settles_uploadPhoto s userId filename data size now h)
  | deletePhoto s userId fileId => exact settles_deletePhoto s userId fileId now h
  | resetPrivateStorage settings inner userId =>
    exact settles_resetPrivateStorage settings inner h hallowed
  | runDailyArchive s => exact settles_ignore (settles_runDailyArchive s now h)
  | cleanupPendingRecords => exact settles_ignore (settles_cleanupPendingRecords now h)
  | cleanupTmpDirs =>
    exact settles_ignore (Keeps.settles (keeps_of_keepsBooks (onlyStores_cleanupTmpDirs now).keepsBooks h))
  | reconcileQuotas settings =>
    refine settles_ignore (wp_mono (reconcileQuotas_spec settings h) fun x t _ ht _ _ => ?_)
    exact (ht.2.2 hallowed).symm ▸ h

theorem transact_balanced {e : Request × Time} (h : Balanced d) (hallowed : Allowed d e)
    (hstep : Transact d e t) : Balanced t := by
  cases hstep with
  | commit hexec => exact (wp_sound (settles_program _ _ h hallowed) hexec).2 () rfl
  | rollback => exact h

/-- An environment in which every storage call fails and nothing needs a fresh id. -/
def offline : (c : FileCmd) → Db → Except Exc c.Resp × Db
  | .uuid4, d => (.error .other, d)
  | .db f, d => f d
  | .store .., d => (.error .storageUnavailable, d)

theorem offline_answers (c : FileCmd) (d : Db) :
    DbAnswers c d (offline c d).1 (offline c d).2 := by
  cases c with
  | uuid4 => exact ⟨rfl, fun _ he => by cases he⟩
  | db f => rfl
  | store adapter op => rfl

theorem reconcile_keeps_iff (h : Balanced d) (settings : Settings) (now : Time) :
    (∀ t, Transact d (.reconcileQuotas settings, now) t → t = d) ↔ Within d := by
  have hspec : dbWp (ignore (Maintenance.reconcileQuotas settings))
      (fun x t => x = .ok () ∧ (t = d ↔ Within d)) d := by
    refine bind_spec (reconcileQuotas_spec settings h) (fun _ t ht => ⟨trivial, rfl, ht.2⟩)
      fun e t ht => ?_
    obtain ⟨⟨_, he⟩, -⟩ := ht
    cases he
  constructor
  · intro hkeeps
    have hexec := exec_run offline_answers (ignore (Maintenance.reconcileQuotas settings)) d
    obtain ⟨-, hok, hiff⟩ := wp_sound hspec hexec
    refine hiff.1 (hkeeps _ (Transact.commit ?_))
    rw [hok] at hexec
    exact hexec
  · intro hwithin t hstep
    cases hstep with
    | commit hexec => exact (wp_sound hspec hexec).2.2.2 hwithin
    | rollback => rfl

/-- In every run that stays within `Allowed` the books are exact and not negative, and a
reconciliation would change nothing exactly if nobody has too many archived bytes. -/
theorem quota_exact {d₀ : Db} (hstart : Start d₀) (hrun : Steps Transact Allowed d₀ d) :
    (∀ userId column, recordedBytes d userId column = storedBytes d userId column ∧
      0 ≤ recordedBytes d userId column) ∧
    ∀ settings now, (∀ t, Transact d (.reconcileQuotas settings, now) t → t = d) ↔ Within d := by
  have hbalanced : Balanced d := hrun.invariant (balanced_start hstart)
    fun _ _ _ hb hallowed hstep => transact_balanced hb hallowed hstep
  refine ⟨fun u c => ?_, fun settings now => reconcile_keeps_iff hbalanced settings now⟩
  have hexact := hbalanced.exact u c
  refine ⟨hexact.symm, hexact ▸ ?_⟩
  refine List.sum_nonneg ?_
  intro b hb
  obtain ⟨r, hr, rfl⟩ := List.mem_map.1 hb
  exact hbalanced.size r (List.mem_filter.1 hr).1

end

/-! ### An archived file is reconciled and then deleted -/

def user : Uuid := Uuid.ofDigit 1
def fileId : Uuid := Uuid.ofDigit 2

/-- Every storage call succeeds, and `fileId` is handed out once. -/
def online : (c : FileCmd) → Db → Except Exc c.Resp × Db
  | .uuid4, d =>
    if d.records.get fileId = none ∧ d.links.get fileId = none then (.ok fileId, d)
    else (.error .other, d)
  | .db f, d => f d
  | .store _ op, d =>
    match op with
    | .exists _ => (.ok true, d)
    | .read _ => (.ok [], d)
    | .write .. => (.ok "", d)
    | .delete _ => (.ok (), d)
    | .mkdir _ => (.ok (), d)
    | .rename .. => (.ok (), d)
    | .list _ => (.ok [], d)
    | .getSize _ => (.ok 0, d)
    | .listStaleTmpEntryPaths _ => (.ok [], d)

theorem online_answers (c : FileCmd) (d : Db) :
    DbAnswers c d (online c d).1 (online c d).2 := by
  cases c with
  | uuid4 =>
    simp only [online]
    split
    · rename_i hfresh
      refine ⟨rfl, fun id hid => ?_⟩
      cases hid
      exact hfresh
    · exact ⟨rfl, fun _ he => by cases he⟩
  | db f => rfl
  | store adapter op => cases op <;> rfl

def settings : Settings := ⟨false, 0, 0, 30⟩
def queue : Enqueue := ⟨false, settings⟩
def userFiles : FileService := ⟨⟨"users/u/files".toList, none⟩, .files, none, queue⟩
def noFiles : Db := ⟨RecordTable.empty, ∅, LinkTable.empty⟩

def upload (size : Nat) : Request :=
  .uploadFile userFiles user [] "a.bin".toList (List.replicate size 0) size .files

/-- A file above the threshold is uploaded, archived 31 days later, reconciled and deleted. -/
def requests : List (Request × Time) :=
  [(upload 2000000, 0),
    (.runDailyArchive ⟨⟨id, .ok⟩, queue⟩, 31 * ArchiveService.day),
    (.reconcileQuotas settings, 31 * ArchiveService.day),
    (.deleteFile userFiles user fileId none, 31 * ArchiveService.day)]

def serve (d : Db) (e : Request × Time) : Db := (run online (e.1.program e.2) d).2

/-- Every request of the list is permitted and returns. -/
def Served (ok : Db → Request × Time → Prop) : Db → List (Request × Time) → Prop
  | _, [] => True
  | d, e :: es => ok d e ∧ (run online (e.1.program e.2) d).1 = .ok () ∧ Served ok (serve d e) es

theorem steps_serve {ok : Db → Request × Time → Prop} {d₀ d : Db} {es : List (Request × Time)}
    (h : Steps Transact ok d₀ d) (hes : Served ok d es) :
    Steps Transact ok d₀ (es.foldl serve d) := by
  induction es generalizing d with
  | nil => exact h
  | cons e es ih =>
    obtain ⟨hok, hret, hrest⟩ := hes
    have hexec := exec_run online_answers (e.1.program e.2) d
    rw [hret] at hexec
    exact ih (Steps.tail h hok (Transact.commit hexec)) hrest

theorem start_noFiles : Start noFiles := ⟨rfl, fun _ _ => rfl⟩

theorem total_below_zero :
    ¬ ∀ d₀ d, Start d₀ → Steps Transact (fun _ _ => True) d₀ d →
      (∀ userId column, recordedBytes d userId column = storedBytes d userId column ∧
        0 ≤ recordedBytes d userId column) ∧
      ∀ settings now t, Transact d (.reconcileQuotas settings, now) t → t = d := by
  intro hclaim
  have hrun : Steps Transact (fun _ _ => True) noFiles (requests.foldl serve noFiles) := by
    have hserved : Served (fun _ _ => True) noFiles requests :=
      ⟨trivial, rfl, trivial, rfl, trivial, rfl, trivial, rfl, trivial⟩
    exact steps_serve Steps.refl hserved
  have hneg : recordedBytes (requests.foldl serve noFiles) user .total = -2000000 := by rfl
  have hzero := ((hclaim _ _ start_noFiles hrun).1 user .total).2
  omega

def overwrite (size : Nat) : Request :=
  .overwriteFile userFiles user [] "a.bin".toList (List.replicate size 0) size .files

def uploaded : Db := serve noFiles (upload 5, 0)

def overwritten : Db := serve uploaded (overwrite 3, 1)

def reconciled : Db := serve overwritten (.reconcileQuotas settings, 2)

theorem uploaded_owner : ∀ r ∈ uploaded.records.rows, r.userId = user := by decide +kernel

/-- Where nothing is archived, a reconciliation has nothing to correct. -/
theorem within_of_committed {d : Db} (h : ∀ r ∈ d.records.rows, r.status = .committed) : Within d := by
  intro userId
  have hnone : d.records.rows.filter (fun r => decide (r.userId = userId) &&
      decide (r.status = .archived)) = [] := by
    apply List.filter_eq_nil_iff.2
    intro r hr
    simp [h r hr]
  unfold archivedBytes bytesOf
  rw [hnone]
  decide

theorem overwritten_within : Within overwritten := within_of_committed (by decide +kernel)

theorem reconciled_within : Within reconciled := within_of_committed (by decide +kernel)

/-- A file is uploaded, overwritten by a shorter one, and the counters are reconciled. -/
theorem quota_exact_overwrite :
    recordedBytes reconciled user .total = 3 ∧
      recordedBytes reconciled user .total = storedBytes reconciled user .total ∧
      ∀ t, Transact reconciled (.reconcileQuotas settings, 3) t → t = reconciled := by
  have hcharges : Allowed uploaded (overwrite 3, 1) :=
    fun diskPath r _ haddressed => .inl (uploaded_owner r haddressed.spec.1)
  have hserved : Served Allowed noFiles
      [(upload 5, 0), (overwrite 3, 1), (.reconcileQuotas settings, 2)] :=
    ⟨trivial, rfl, hcharges, rfl, overwritten_within, rfl, trivial⟩
  have hexact := quota_exact start_noFiles (steps_serve Steps.refl hserved)
  exact ⟨rfl, (hexact.1 user .total).1, (hexact.2 settings 3).2 reconciled_within⟩

end WebStorage.QuotaBooks
