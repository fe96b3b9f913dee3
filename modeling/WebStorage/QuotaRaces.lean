import WebStorage.QuotaRequests

set_option autoImplicit false

/-! When the total of a user agrees with the stored files although requests run side by side, and
when the limit holds. -/
namespace WebStorage.QuotaRaces
open Effect Effect.Prog QuotaBooks

variable {a : Account} {limit : Int} {d t : Db} {p q : QuotaM Unit} {covered : Prop}

/-! ### How far a request has come -/

/-- A checked charge stays within the limit as long as the total has not risen since. -/
def Room (limit : Int) (checked : Option Int) (bytes : Int) : Prop :=
  ∀ seen, checked = some seen → seen + bytes ≤ limit

/-- The record of an upload under way. -/
def QuotaCmd.held : QuotaCmd → Option FileRecord
  | .write record => some record
  | .commit record => some record
  | .discard record => some record
  | _ => none

def held (p : QuotaM Unit) : Option FileRecord := p.next.bind QuotaCmd.held

/-- A request that has nothing to enter and no upload under way. -/
def Fresh (p : QuotaM Unit) : Prop := unentered p = 0 ∧ held p = none

/-- The rest of a request. What has been checked leaves room for what is still to be charged. -/
inductive Stage (limit : Int) : QuotaM Unit → Prop
  | ended (r) : Stage limit (done r)
  | checking (size : Nat) {k : Int → QuotaM Unit} :
      (∀ seen, seen + size ≤ limit → Stage limit (k seen)) → (∀ seen, Fresh (k seen)) →
      Stage limit ((ensureUploadQuota size).bind k)
  | creating (fileSection : FileSection) (size : Nat) {checked rest} : Room limit checked size →
      Stage limit rest → Fresh rest →
      Stage limit ((uploadFile fileSection size checked).bind fun _ => rest)
  | storing (record : FileRecord) (fileSection : FileSection) (size : Nat) {checked rest} :
      record.sizeBytes = size → Room limit checked size → Stage limit rest → Fresh rest →
      Stage limit ((storeUpload record fileSection size checked).bind fun _ => rest)
  | failing (record : FileRecord) (e : Exc) (rest) :
      Stage limit ((failUpload record e).bind fun _ => rest)
  | committing (record : FileRecord) (fileSection : FileSection) (size : Nat) {checked rest} :
      record.sizeBytes = size → Room limit checked size → Stage limit rest → Fresh rest →
      Stage limit ((commitUpload record fileSection size checked).bind fun _ => rest)
  | charging (bytes : Int) (fileSection : FileSection) {checked rest} :
      Room limit checked bytes → Stage limit rest → Fresh rest →
      Stage limit ((charge bytes fileSection checked).bind fun _ => rest)
  | finding (fileSection : FileSection) (size : Nat) : Stage limit (overwriteFile fileSection size)
  | measuring (existing : FileRecord) (fileSection : FileSection) (size : Nat) :
      0 < size - existing.sizeBytes → Stage limit ((ensureOverwriteQuota (size - existing.sizeBytes) fileSection).bind
        fun checked => replaceFile existing fileSection size checked)
  | replacing (existing : FileRecord) (fileSection : FileSection) (size : Nat) {checked} :
      Room limit checked (size - existing.sizeBytes) →
      Stage limit (replaceFile existing fileSection size checked)
  | resizing (existing : FileRecord) (fileSection : FileSection) (size : Nat) {checked} :
      Room limit checked (size - existing.sizeBytes) →
      Stage limit (resizeFile existing fileSection size checked)
  | releasing (bytes : Int) (fileSection : FileSection) : 0 ≤ bytes →
      Stage limit (release bytes fileSection)
  | reading (actorId id : Uuid) : Stage limit (deleteFile actorId id)
  | removing (record : FileRecord) : Stage limit (removeFile record)
  | marking (record : FileRecord) : Stage limit (markDeleted record)

theorem fresh_uploadAll (fileSection : FileSection) (seen : Int) (sizes : List Nat) :
    Fresh (uploadAll fileSection seen sizes) := by
  cases sizes with
  | nil => exact ⟨rfl, rfl⟩
  | cons size sizes => exact ⟨rfl, rfl⟩

theorem stage_uploadAll (fileSection : FileSection) (sizes : List Nat) (seen : Int)
    (h : seen + (sizes.sum : Nat) ≤ limit) : Stage limit (uploadAll fileSection seen sizes) := by
  induction sizes generalizing seen with
  | nil => exact Stage.ended _
  | cons size sizes ih =>
    rw [List.sum_cons, Nat.cast_add] at h
    refine Stage.creating fileSection size ?_ (ih _ (by omega)) (fresh_uploadAll _ _ _)
    intro seen' hseen
    cases hseen
    omega

theorem stage_uploadFile (fileSection : FileSection) (size : Nat) {checked : Option Int}
    (h : Room limit checked size) : Stage limit (uploadFile fileSection size checked) := by
  rw [← bind_done (uploadFile fileSection size checked)]
  exact Stage.creating fileSection size h (Stage.ended (.ok ())) ⟨rfl, rfl⟩

theorem stage_charge (bytes : Int) (fileSection : FileSection) {checked : Option Int}
    (h : Room limit checked bytes) : Stage limit (charge bytes fileSection checked) := by
  rw [← bind_done (charge bytes fileSection checked)]
  exact Stage.charging bytes fileSection h (Stage.ended (.ok ())) ⟨rfl, rfl⟩

theorem Request.stage (h : Request p) : Stage limit p := by
  cases h with
  | upload fileSection size =>
    refine Stage.checking size (fun seen hseen => stage_uploadFile fileSection size ?_)
      fun seen => ⟨rfl, rfl⟩
    intro seen' hseen'
    cases hseen'
    exact hseen
  | generate fileSection sizes =>
    exact Stage.checking sizes.sum (fun seen hseen => stage_uploadAll fileSection sizes seen hseen)
      fun seen => fresh_uploadAll _ _ _
  | overwrite fileSection size => exact Stage.finding fileSection size
  | delete actorId id => exact Stage.reading actorId id

theorem Request.fresh (h : Request p) : Fresh p := by
  cases h <;> exact ⟨rfl, rfl⟩

/-! ### What a step does to the tables -/

/-- The record of an upload: nobody else counts it, finds it or changes it. -/
def Pending (a : Account) (d : Db) (record : FileRecord) : Prop :=
  ∃ r, d.records.get record.id = some r ∧ r.status = .pending ∧ r.userId = a.userId ∧
    r.sizeBytes = record.sizeBytes

def Sizes (d : Db) : Prop := ∀ r ∈ d.records.rows, 0 ≤ r.sizeBytes

/-- The tables after a step, but for the row of `id`. -/
structure Besides (a : Account) (id : Uuid) (d t : Db) : Prop where
  pending : ∀ record, record.id ≠ id → Pending a d record → Pending a t record
  sizes : Sizes d → Sizes t
  limit : a.limit t = a.limit d

theorem weight_of_pending {r : FileRecord} (h : r.status = .pending) (u : Uuid) (c : Column) :
    weight u c r = 0 := weight_not_downloadable (by simp [isDownloadable, h])

theorem weight_of_active {r : FileRecord} (howner : r.userId = a.userId) (h : isDownloadable r) :
    weight a.userId .total r = r.sizeBytes := by
  simp [weight, howner, h, Column.counts]

/-- One row is rewritten, and stays a row of some size. -/
theorem besides_assign {r : FileRecord} {f : FileRecord → FileRecord} {id : Uuid}
    (hget : d.records.get id = some r) (hsize : 0 ≤ r.sizeBytes → 0 ≤ (f r).sizeBytes) :
    Besides a id d (FileRepo.assign id f d).2 where
  pending record hne hpending := by
    obtain ⟨r', hget', hstatus, howner, hsize'⟩ := hpending
    refine ⟨r', ?_, hstatus, howner, hsize'⟩
    have hid : r'.id ≠ id := by
      rw [(RecordTable.get_some hget').2]
      exact hne
    simp only [FileRepo.assign, RecordTable.get_update, hget', Option.map_some,
      decide_eq_true_eq, if_neg hid]
  sizes hsizes r₁ hr₁ := by
    obtain ⟨r₀, hr₀, ⟨hid, rfl⟩ | ⟨-, rfl⟩⟩ := mem_updated hr₁
    · have hsame : r₀ = r := RecordTable.eq_of_id hr₀ (RecordTable.get_some hget).1
        (by rw [(RecordTable.get_some hget).2]; simpa using hid)
      rw [hsame] at hr₀ ⊢
      exact hsize (hsizes r hr₀)
    · exact hsizes r₁ hr₀
  limit := rfl

theorem stored_assign {r : FileRecord} {f : FileRecord → FileRecord} {id : Uuid}
    (hget : d.records.get id = some r) :
    a.stored (FileRepo.assign id f d).2 = a.stored d - weight a.userId .total r +
      weight a.userId .total { f r with id := r.id } := by
  have hid := (RecordTable.get_some hget).2
  subst hid
  exact stored_update_one hget a.userId .total

theorem total_assign (id : Uuid) (f : FileRecord → FileRecord) :
    a.total (FileRepo.assign id f d).2 = a.total d := rfl

theorem assign_found {r : FileRecord} {f : FileRecord → FileRecord} {id : Uuid}
    (hget : d.records.get id = some r) :
    (FileRepo.assign id f d).1 = .ok (some { f r with id := r.id }) := by
  have hid := (RecordTable.get_some hget).2
  exact assign_get id f (hid ▸ hget) hid

/-- A charge or a release changes the total by its bytes, and nothing else that counts. -/
theorem adjusted {bytes : Int} {fileSection : FileSection}
    (h : t = (QuotaRepo.modify a.defaultLimit a.userId (QuotaRepo.adjust bytes fileSection) d).2) :
    a.total t = a.total d + bytes ∧ a.stored t = a.stored d ∧ t.records = d.records ∧
      a.limit t = a.limit d := by
  subst h
  refine ⟨?_, rfl, rfl, ?_⟩
  · unfold Account.total
    rw [QuotaRepo.modify, recorded_insert, if_pos rfl, of_adjust, of_current]
    rfl
  · unfold Account.limit
    rw [QuotaRepo.modify, AList.lookup_insert]
    rfl

/-- The quota row is read, or made with nothing in it. -/
theorem usage_read {x : Except Exc QuotaUsage}
    (h : QuotaRepo.getByUserId a.defaultLimit a.userId d = (x, t)) :
    (∃ usage, x = .ok usage ∧ usage.totalBytes = a.total d ∧ usage.limitBytes = a.limit d) ∧
      a.total t = a.total d ∧ a.stored t = a.stored d ∧ t.records = d.records ∧
        a.limit t = a.limit d := by
  unfold QuotaRepo.getByUserId at h
  cases hrow : d.quotas.lookup a.userId with
  | some usage =>
    rw [hrow] at h
    cases h
    refine ⟨⟨usage, rfl, ?_, ?_⟩, rfl, rfl, rfl, rfl⟩
    · simp [Account.total, recordedBytes, hrow, Column.of]
    · simp [Account.limit, hrow]
  | none =>
    rw [hrow] at h
    cases h
    refine ⟨⟨_, rfl, ?_, ?_⟩, ?_, rfl, rfl, ?_⟩
    · simp [Account.total, recordedBytes, hrow, QuotaRepo.newUsage]
    · simp [Account.limit, hrow]
    · unfold Account.total
      rw [recorded_insert, if_pos rfl]
      simp [recordedBytes, hrow, QuotaRepo.newUsage, Column.of]
    · unfold Account.limit
      simp [hrow]

/-- One step of one request, from `p` over the tables `d` to `q` over `t`. Where what it charges is
covered, the limit holds. -/
structure Advanced (a : Account) (limit : Int) (covered : Prop) (p : QuotaM Unit) (d : Db)
    (q : QuotaM Unit) (t : Db) : Prop where
  stage : Stage limit q
  drift : a.stored t - a.total t - unentered q = a.stored d - a.total d - unentered p
  total_le : covered → a.total t ≤ max limit (a.total d)
  limit_eq : a.limit t = a.limit d
  sizes : Sizes d → Sizes t
  kept : ∀ record, (∀ own, held p = some own → own.id ≠ record.id) → Pending a d record →
    Pending a t record
  held : ∀ record, held q = some record →
    Pending a t record ∧ (held p = some record ∨ d.records.get record.id = none)

/-- Nothing that counts has changed. -/
structure Same (a : Account) (d t : Db) : Prop where
  total : a.total t = a.total d
  stored : a.stored t = a.stored d
  records : t.records = d.records
  limit : a.limit t = a.limit d

theorem Same.refl (a : Account) (d : Db) : Same a d d := ⟨rfl, rfl, rfl, rfl⟩

theorem Same.pending (h : Same a d t) {record : FileRecord} (hpending : Pending a d record) :
    Pending a t record := by
  unfold Pending at *
  rw [h.records]
  exact hpending

theorem Same.sizes (h : Same a d t) (hsizes : Sizes d) : Sizes t := by
  unfold Sizes at *
  rw [h.records]
  exact hsizes

theorem advanced_same (h : Same a d t) (hq : Stage limit q) (hp : unentered p = 0)
    (hq' : unentered q = 0) (hheld : ∀ record, held q = some record → held p = some record)
    (howned : ∀ record, held p = some record → Pending a d record) :
    Advanced a limit covered p d q t where
  stage := hq
  drift := by rw [h.total, h.stored, hp, hq']
  total_le _ := by
    rw [h.total]
    exact le_max_right _ _
  limit_eq := h.limit
  sizes := h.sizes
  kept record _ hpending := h.pending hpending
  held record hrecord := ⟨h.pending (howned record (hheld record hrecord)), .inl (hheld record hrecord)⟩

/-- A step of a request without an upload under way. -/
theorem advanced_fresh (h : Same a d t) (hq : Stage limit q) (hp : Fresh p) (hq' : Fresh q) :
    Advanced a limit covered p d q t := by
  refine advanced_same h hq hp.1 hq'.1 (fun record hrecord => ?_) fun record hrecord => ?_
  · rw [hq'.2] at hrecord
    cases hrecord
  · rw [hp.2] at hrecord
    cases hrecord

/-- The total moves by what was to be entered. -/
theorem advanced_entered {bytes : Int} (htotal : a.total t = a.total d + bytes)
    (hstored : a.stored t = a.stored d) (hrecords : t.records = d.records)
    (hlimit : a.limit t = a.limit d) (hq : Stage limit q) (hfresh : Fresh q)
    (hp : unentered p = bytes) (hle : covered → a.total t ≤ max limit (a.total d)) :
    Advanced a limit covered p d q t where
  stage := hq
  drift := by
    rw [htotal, hstored, hp, hfresh.1]
    omega
  total_le := hle
  limit_eq := hlimit
  sizes hsizes := by
    unfold Sizes at *
    rw [hrecords]
    exact hsizes
  kept record _ hpending := by
    unfold Pending at *
    rw [hrecords]
    exact hpending
  held record hrecord := by
    rw [hfresh.2] at hrecord
    cases hrecord

/-- One row is rewritten: what it counted for before and counts for now is to be entered. -/
theorem advanced_assign {r : FileRecord} {f : FileRecord → FileRecord} {id : Uuid}
    {before after : Int} (hget : d.records.get id = some r)
    (hsize : 0 ≤ r.sizeBytes → 0 ≤ (f r).sizeBytes) (hq : Stage limit q) (hheld : held q = none)
    (hbefore : weight a.userId .total r = before)
    (hafter : weight a.userId .total { f r with id := r.id } = after)
    (hdue : unentered q = unentered p - before + after)
    (hown : ∀ record, Pending a d record → record.id = id → ∃ own, held p = some own ∧
      own.id = record.id) : Advanced a limit covered p d q (FileRepo.assign id f d).2 where
  stage := hq
  drift := by
    rw [stored_assign hget, total_assign, hdue, hbefore, hafter]
    omega
  total_le _ := le_max_right _ _
  limit_eq := rfl
  sizes := (besides_assign (a := a) hget hsize).sizes
  kept record hother hpending := by
    refine (besides_assign hget hsize).pending record (fun hid => ?_) hpending
    obtain ⟨own, hheld', hid'⟩ := hown record hpending hid
    exact hother own hheld' hid'
  held record hrecord := by
    rw [hheld] at hrecord
    cases hrecord

theorem wouldExceed_false {used limit bytes : Int} (hpos : 0 < limit)
    (h : wouldExceed used limit bytes = false) : used + bytes ≤ limit := by
  have hlimited : ¬ limit ≤ 0 := not_le.2 hpos
  simp only [wouldExceed, hlimited, decide_false, Bool.not_false, Bool.true_and,
    decide_eq_false_iff_not] at h
  omega

theorem served_eq {α : Type} {y : α × Db} {x : α} (h : y = (x, t)) : x = y.1 ∧ t = y.2 :=
  ⟨(congrArg Prod.fst h).symm, (congrArg Prod.snd h).symm⟩

/-- A new record of an upload. -/
theorem advanced_create {fileSection : FileSection} {size : Nat} {record : FileRecord} {id : Uuid}
    {relativePath originalName : Str} {isEncrypted : Bool} {now : Time}
    (hget : d.records.get id = none)
    (hcreate : FileRepo.create id a.userId relativePath originalName size isEncrypted fileSection
      .pending now d = (.ok record, t)) (hq : Stage limit q) (hp : Fresh p)
    (hdue : unentered q = 0) (hheld : held q = some record) :
    Advanced a limit covered p d q t := by
  obtain ⟨⟨records, hadd, ht⟩, hid, hstatus, hsize, howner, -⟩ :=
    create_ok (congrArg Prod.fst hcreate)
  have ht' : t = { d with records := records } := (congrArg Prod.snd hcreate).symm.trans ht
  obtain ⟨hrows, hnew⟩ := add_spec hadd
  subst ht'
  -- a pending record is not stored yet
  have hstored : a.stored { d with records := records } = a.stored d := by
    unfold Account.stored
    rw [stored_weight, stored_weight, hrows, List.map_append, List.sum_append, List.map_singleton,
      List.sum_singleton, weight_of_pending hstatus, add_zero]
  have hkeep : ∀ r ∈ d.records.rows, records.get r.id = some r := by
    intro r hr
    apply RecordTable.get_of_mem
    rw [hrows]
    exact List.mem_append_left _ hr
  refine ⟨hq, ?_, fun _ => le_max_right _ _, rfl, ?_, ?_, ?_⟩
  · rw [hstored, hdue, hp.1]
    rfl
  · intro hsizes r hr
    have hr' : r ∈ d.records.rows ++ [record] := hrows ▸ hr
    rcases List.mem_append.1 hr' with hold | hnew'
    · exact hsizes r hold
    · rw [List.mem_singleton.1 hnew', hsize]
      exact Int.natCast_nonneg size
  · intro other _ hpending
    obtain ⟨r, hr, hrest⟩ := hpending
    refine ⟨r, ?_, hrest⟩
    have hkept := hkeep r (RecordTable.get_some hr).1
    rwa [(RecordTable.get_some hr).2] at hkept
  · intro other hother
    rw [hheld] at hother
    cases hother
    exact ⟨⟨record, hnew, hstatus, howner, rfl⟩, .inr (hid ▸ hget)⟩

/-- What a request can do in one step. -/
theorem advance {c : QuotaCmd} {k : Except Exc c.Resp → QuotaM Unit} {x : Except Exc c.Resp}
    (hstage : Stage limit (call c k)) (hserve : a.Serve c d x t) (hread : a.AsRead d c)
    (hlimit : a.limit d = limit) (hpos : 0 < limit) (hsizes : Sizes d)
    (howned : ∀ record, held (call c k) = some record → Pending a d record) :
    Advanced a limit (a.Undisturbed d c) (call c k) d (k x) t := by
  -- one case for each place at which a request can stand
  generalize hp : call c k = p at hstage howned ⊢
  cases hstage with
  | ended r => cases hp
  | checking size hk hfresh =>
    have hp' : call c k = call .getByUserId _ := hp
    cases hp'
    obtain ⟨⟨usage, rfl, hused, hlimited⟩, htotal, hstored, hrecords, hlimit'⟩ :=
      usage_read hserve
    have hsame : Same a d t := ⟨htotal, hstored, hrecords, hlimit'⟩
    show Advanced a limit _ _ d (Prog.bind (if wouldExceed usage.totalBytes usage.limitBytes size then
      raise _ else done (.ok usage.totalBytes)) _) t
    by_cases hexceeds : wouldExceed usage.totalBytes usage.limitBytes size
    · rw [if_pos hexceeds]
      exact advanced_fresh hsame (Stage.ended _) ⟨rfl, rfl⟩ ⟨rfl, rfl⟩
    · rw [if_neg hexceeds]
      -- the check saw room for the bytes
      have hfits : usage.totalBytes + size ≤ limit := by
        rw [← hlimit, ← hlimited]
        exact wouldExceed_false (by omega) (by simpa using hexceeds)
      exact advanced_fresh hsame (hk _ hfits) ⟨rfl, rfl⟩ (hfresh _)
  | creating fileSection size hroom hrest hfresh =>
    have hp' : call c k = call (.create fileSection size) _ := hp
    cases hp'
    obtain ⟨id, relativePath, originalName, now, hnone, hcreate⟩ := hserve
    cases x with
    | error e =>
      have ht : t = d := (congrArg Prod.snd hcreate).symm.trans
        (create_error (congrArg Prod.fst hcreate))
      rw [ht]
      exact advanced_fresh (.refl a d) (Stage.ended _) ⟨rfl, rfl⟩ ⟨rfl, rfl⟩
    | ok record =>
      have hsize := (create_ok (congrArg Prod.fst hcreate)).2.2.2.1
      exact advanced_create hnone hcreate (Stage.storing record fileSection size hsize hroom hrest
        hfresh) ⟨rfl, rfl⟩ rfl rfl
  | storing record fileSection size hsize hroom hrest hfresh =>
    have hp' : call c k = call (.write record) _ := hp
    cases hp'
    have ht : t = d := hserve
    rw [ht]
    cases x with
    | error e =>
      exact advanced_same (.refl a d) (Stage.failing record e _) rfl rfl (fun _ h => h) howned
    | ok _ =>
      exact advanced_same (.refl a d) (Stage.committing record fileSection size hsize hroom hrest
        hfresh) rfl rfl (fun _ h => h) howned
  | failing record e rest =>
    have hp' : call c k = call (.discard record) _ := hp
    cases hp'
    obtain ⟨r, hget, hstatus, howner, hsize⟩ := howned record rfl
    have hdelete : FileRepo.delete record.id d = (x, t) := hserve
    obtain ⟨hx, ht⟩ := served_eq hdelete
    replace hx := hx.trans (assign_found hget)
    rw [ht, hx]
    exact advanced_assign hget id (Stage.ended _) rfl (weight_of_pending hstatus _ _)
      (weight_not_downloadable rfl) rfl fun other _ hid => ⟨record, rfl, hid.symm⟩
  | committing record fileSection size hsize hroom hrest hfresh =>
    have hp' : call c k = call (.commit record) _ := hp
    cases hp'
    obtain ⟨r, hget, hstatus, howner, hsize'⟩ := howned record rfl
    obtain ⟨checksum, relativePath, hcommit⟩ := hserve
    obtain ⟨hx, ht⟩ := served_eq hcommit
    replace hx := hx.trans (assign_found hget)
    rw [ht, hx]
    refine advanced_assign hget id (Stage.charging size fileSection hroom hrest hfresh) rfl
      (weight_of_pending hstatus _ _) (weight_of_active howner rfl) ?_
      fun other _ hid => ⟨record, rfl, hid.symm⟩
    show (size : Int) = 0 - 0 + r.sizeBytes
    omega
  | charging bytes fileSection hroom hrest hfresh =>
    rename_i checked rest
    have hp' : call c k = call (.increment bytes fileSection checked) _ := hp
    cases hp'
    have hincrement : QuotaRepo.increment a.defaultLimit a.userId bytes fileSection d = (x, t) :=
      hserve
    obtain ⟨hx, ht⟩ := served_eq hincrement
    obtain ⟨htotal, hstored, hrecords, hlimit'⟩ := adjusted ht
    rw [hx]
    refine advanced_entered htotal hstored hrecords hlimit' hrest hfresh rfl fun hund => ?_
    have hfits : a.total d + bytes ≤ limit := by
      cases checked with
      | none => exact hlimit ▸ wouldExceed_false (hlimit ▸ hpos) hund
      | some seen =>
        -- the total has not risen since the check, so there still is room
        have hrisen : a.total d ≤ seen := hund
        have hleft := hroom seen rfl
        omega
    omega
  | finding fileSection size =>
    have hp' : call c k = call (.findByPath fileSection) _ := hp
    cases hp'
    obtain ⟨ht, hfound⟩ := hserve
    rw [ht]
    cases x with
    | error e => exact advanced_fresh (.refl a d) (Stage.ended _) ⟨rfl, rfl⟩ ⟨rfl, rfl⟩
    | ok found =>
      cases found with
      | none =>
        exact advanced_fresh (.refl a d) (stage_uploadFile fileSection size nofun) ⟨rfl, rfl⟩
          ⟨rfl, rfl⟩
      | some existing =>
        show Advanced a limit _ _ d ((ensureOverwriteQuota (size - existing.sizeBytes)
          fileSection).bind _) d
        by_cases hmore : size - existing.sizeBytes ≤ 0
        · rw [ensureOverwriteQuota, if_pos hmore]
          exact advanced_fresh (.refl a d) (Stage.replacing existing fileSection size nofun)
            ⟨rfl, rfl⟩ ⟨rfl, rfl⟩
        · refine advanced_fresh (.refl a d) (Stage.measuring existing fileSection size
            (not_le.1 hmore)) ⟨rfl, rfl⟩ ?_
          rw [ensureOverwriteQuota, if_neg hmore]
          exact ⟨rfl, rfl⟩
  | measuring existing fileSection size hmore =>
    rw [ensureOverwriteQuota, if_neg (not_le.2 hmore)] at hp ⊢
    have hp' : call c k = call .getByUserId _ := hp
    cases hp'
    obtain ⟨⟨usage, rfl, hused, hlimited⟩, htotal, hstored, hrecords, hlimit'⟩ :=
      usage_read hserve
    have hsame : Same a d t := ⟨htotal, hstored, hrecords, hlimit'⟩
    show Advanced a limit _ _ d (Prog.bind (if wouldExceed usage.totalBytes usage.limitBytes
      (size - existing.sizeBytes) then raise _ else if fileSection = .private ∧ wouldExceed
      usage.privateBytes usage.privateLimitBytes (size - existing.sizeBytes) then raise _
      else done (.ok (some usage.totalBytes))) _) t
    by_cases hexceeds : wouldExceed usage.totalBytes usage.limitBytes (size - existing.sizeBytes)
    · rw [if_pos hexceeds]
      exact advanced_fresh hsame (Stage.ended _) ⟨rfl, rfl⟩ ⟨rfl, rfl⟩
    · rw [if_neg hexceeds]
      split
      · exact advanced_fresh hsame (Stage.ended _) ⟨rfl, rfl⟩ ⟨rfl, rfl⟩
      · have hroom : Room limit (some usage.totalBytes) (size - existing.sizeBytes) := by
          intro seen hseen
          cases hseen
          rw [← hlimit, ← hlimited]
          exact wouldExceed_false (by omega) (by simpa using hexceeds)
        exact advanced_fresh hsame (Stage.replacing existing fileSection size hroom) ⟨rfl, rfl⟩
          ⟨rfl, rfl⟩
  | replacing existing fileSection size hroom =>
    have hp' : call c k = call (.replace existing) _ := hp
    cases hp'
    have ht : t = d := hserve
    rw [ht]
    cases x with
    | error e => exact advanced_fresh (.refl a d) (Stage.ended _) ⟨rfl, rfl⟩ ⟨rfl, rfl⟩
    | ok _ =>
      exact advanced_fresh (.refl a d) (Stage.resizing existing fileSection size hroom) ⟨rfl, rfl⟩
        ⟨rfl, rfl⟩
  | resizing existing fileSection size hroom =>
    rename_i checked
    have hp' : call c k = call (.updateSize existing size) _ := hp
    cases hp'
    obtain ⟨r, hget, howner, hactive, hsize⟩ : a.Unchanged d existing := hread
    obtain ⟨checksum, hupdate⟩ := hserve
    obtain ⟨hx, ht⟩ := served_eq hupdate
    replace hx := hx.trans (assign_found hget)
    rw [ht, hx]
    have hnotPending : ∀ record, Pending a d record → record.id = existing.id →
        ∃ own, held (resizeFile existing fileSection size checked) = some own ∧
          own.id = record.id := by
      intro record hpending hid
      obtain ⟨r', hget', hstatus', -⟩ := hpending
      rw [hid, hget] at hget'
      cases hget'
      simp [isDownloadable, hstatus'] at hactive
    show Advanced a limit _ _ d (chargeDelta (size - existing.sizeBytes) fileSection checked) _
    have hnonneg : 0 ≤ r.sizeBytes → (0 : Int) ≤ size := fun _ => Int.natCast_nonneg size
    have hweight : weight a.userId .total r = existing.sizeBytes := by
      rw [weight_of_active howner hactive, hsize]
    unfold chargeDelta
    split
    · refine advanced_assign hget hnonneg (stage_charge _ fileSection hroom) rfl hweight
        (weight_of_active howner hactive) ?_ hnotPending
      show (size : Int) - existing.sizeBytes = 0 - existing.sizeBytes + size
      omega
    split
    · refine advanced_assign hget hnonneg (Stage.releasing _ fileSection (by omega)) rfl hweight
        (weight_of_active howner hactive) ?_ hnotPending
      show -(-((size : Int) - existing.sizeBytes)) = 0 - existing.sizeBytes + size
      omega
    · refine advanced_assign hget hnonneg (Stage.ended _) rfl hweight
        (weight_of_active howner hactive) ?_ hnotPending
      show (0 : Int) = 0 - existing.sizeBytes + size
      omega
  | releasing bytes fileSection hnonneg =>
    have hp' : call c k = call (.decrement bytes fileSection) _ := hp
    cases hp'
    have hdecrement : QuotaRepo.decrement a.defaultLimit a.userId bytes fileSection d = (x, t) :=
      hserve
    obtain ⟨hx, ht⟩ := served_eq hdecrement
    obtain ⟨htotal, hstored, hrecords, hlimit'⟩ := adjusted ht
    rw [hx]
    refine advanced_entered htotal hstored hrecords hlimit' (Stage.ended _) ⟨rfl, rfl⟩ rfl fun _ => ?_
    omega
  | reading actorId id =>
    have hp' : call c k = call (.getById id) _ := hp
    cases hp'
    have hread : FileRepo.getById id d = (x, t) := hserve
    cases hread
    generalize d.records.get id = found
    cases found with
    | none => exact advanced_fresh (.refl a d) (Stage.ended _) ⟨rfl, rfl⟩ ⟨rfl, rfl⟩
    | some record =>
      show Advanced a limit _ _ d (if isDownloadable record = false then raise _
        else if record.userId ≠ actorId then raise _ else removeFile record) d
      split
      · exact advanced_fresh (.refl a d) (Stage.ended _) ⟨rfl, rfl⟩ ⟨rfl, rfl⟩
      split
      · exact advanced_fresh (.refl a d) (Stage.ended _) ⟨rfl, rfl⟩ ⟨rfl, rfl⟩
      · exact advanced_fresh (.refl a d) (Stage.removing record) ⟨rfl, rfl⟩ ⟨rfl, rfl⟩
  | removing record =>
    have hp' : call c k = call (.deleteObject record) _ := hp
    cases hp'
    have ht : t = d := hserve
    rw [ht]
    cases x with
    | error e => exact advanced_fresh (.refl a d) (Stage.ended _) ⟨rfl, rfl⟩ ⟨rfl, rfl⟩
    | ok _ => exact advanced_fresh (.refl a d) (Stage.marking record) ⟨rfl, rfl⟩ ⟨rfl, rfl⟩
  | marking record =>
    have hp' : call c k = call (.delete record) _ := hp
    cases hp'
    obtain ⟨r, hget, howner, hactive, hsize⟩ : a.Unchanged d record := hread
    have hdelete : FileRepo.delete record.id d = (x, t) := hserve
    obtain ⟨hx, ht⟩ := served_eq hdelete
    replace hx := hx.trans (assign_found hget)
    have hnonneg : 0 ≤ record.sizeBytes := hsize ▸ hsizes r (RecordTable.get_some hget).1
    rw [ht, hx]
    refine advanced_assign hget id (Stage.releasing _ record.fileSection hnonneg) rfl
      (weight_of_active howner hactive) (weight_not_downloadable rfl) ?_ ?_
    · show -record.sizeBytes = 0 - r.sizeBytes + 0
      omega
    · intro other hpending hid
      obtain ⟨r', hget', hstatus', -⟩ := hpending
      rw [hid, hget] at hget'
      cases hget'
      simp [isDownloadable, hstatus'] at hactive

/-! ### Runs -/

/-- The stored files and the total differ by what is about to be entered; what was checked leaves
room; and uploads under way have a record each. -/
structure Booked (a : Account) (limit : Int) (s : Requests) : Prop where
  stages : ∀ p ∈ s.running, Stage limit p
  drift : a.stored s.shared = a.total s.shared + (s.running.map unentered).sum
  limit_eq : a.limit s.shared = limit
  sizes : Sizes s.shared
  pending : ∀ p ∈ s.running, ∀ record, held p = some record → Pending a s.shared record
  apart : ∀ (i j : Nat) (p q : QuotaM Unit), i ≠ j → s.running[i]? = some p →
    s.running[j]? = some q → ∀ r r', held p = some r → held q = some r' → r.id ≠ r'.id

/-- Nobody has asked yet, the books are right, and the user has a limit. -/
structure Start (a : Account) (s : Requests) : Prop where
  running : s.running = []
  exact : a.stored s.shared = a.total s.shared
  sizes : Sizes s.shared
  limited : 0 < a.limit s.shared

theorem Start.booked {s : Requests} (h : Start a s) : Booked a (a.limit s.shared) s where
  stages := by
    rw [h.running]
    exact fun p hp => absurd hp List.not_mem_nil
  drift := by
    rw [h.running, h.exact]
    exact (add_zero _).symm
  limit_eq := rfl
  sizes := h.sizes
  pending := by
    rw [h.running]
    exact fun p hp => absurd hp List.not_mem_nil
  apart i j p q _ hi := by
    rw [h.running] at hi
    cases hi

section
variable {s u : Requests} {e : Turn}

theorem booked_start (h : Booked a limit s) (hp : Request p) :
    Booked a limit ⟨s.shared, s.running ++ [p]⟩ where
  stages := forall_start h.stages hp.stage
  drift := by
    have hdrift := h.drift
    simp only [List.map_append, List.map_cons, List.map_nil, List.sum_append, List.sum_cons,
      List.sum_nil, hp.fresh.1]
    omega
  limit_eq := h.limit_eq
  sizes := h.sizes
  pending := forall_start h.pending fun record hheld => by
    rw [hp.fresh.2] at hheld
    cases hheld
  apart i j p' q' hij hi hj r r' hr hr' := by
    -- the new request has no upload under way
    have hold : ∀ (n : Nat) (x : QuotaM Unit) (y : FileRecord), (s.running ++ [p])[n]? = some x → held x = some y →
        s.running[n]? = some x := by
      intro n x y hn hx
      rcases Nat.lt_or_ge n s.running.length with hlt | hge
      · rwa [List.getElem?_append_left hlt] at hn
      · rw [List.getElem?_append_right hge] at hn
        have hxp : x = p := List.mem_singleton.1 (List.mem_of_getElem? hn)
        rw [hxp, hp.fresh.2] at hx
        cases hx
    exact h.apart i j p' q' hij (hold i p' r hi hr) (hold j q' r' hj hr') r r' hr hr'

theorem booked_advance {i : Nat} (h : Booked a limit s) (hi : s.running[i]? = some p)
    (hadvanced : Advanced a limit covered p s.shared q t) : Booked a limit ⟨t, s.running.set i q⟩ where
  stages := forall_set h.stages hadvanced.stage
  drift := by
    have hsum := sum_set (q := q) unentered hi
    have hdrift := h.drift
    have hstep := hadvanced.drift
    dsimp only
    omega
  limit_eq := hadvanced.limit_eq.trans h.limit_eq
  sizes := hadvanced.sizes h.sizes
  pending p' hp' record hheld := by
    obtain ⟨j, hj⟩ := List.getElem?_of_mem hp'
    rcases getElem?_set_cases hj with ⟨rfl, rfl⟩ | ⟨hne, hold⟩
    · exact (hadvanced.held record hheld).1
    · refine hadvanced.kept record (fun own hown => ?_)
        (h.pending p' (List.mem_of_getElem? hold) record hheld)
      exact h.apart i j p p' hne.symm hi hold own record hown hheld
  apart j k p' q' hjk hj hk r r' hr hr' := by
    -- only the request that moved can hold another record than before, and that one is new
    have hmoved : ∀ (n : Nat) (x : QuotaM Unit) (y : FileRecord), n ≠ i → s.running[n]? = some x → held x = some y →
        ∀ own, held q = some own → own.id ≠ y.id := by
      intro n x y hn hx hy own hown hid
      rcases (hadvanced.held own hown).2 with hold | hnew
      · exact h.apart i n p x hn.symm hi hx own y hold hy hid
      · obtain ⟨row, hrow, -⟩ := h.pending x (List.mem_of_getElem? hx) y hy
        rw [hid, hrow] at hnew
        cases hnew
    rcases getElem?_set_cases hj with ⟨rfl, rfl⟩ | ⟨hne, hold⟩
    · rcases getElem?_set_cases hk with ⟨rfl, rfl⟩ | ⟨hne', hold'⟩
      · exact absurd rfl hjk
      · exact hmoved k q' r' hne' hold' hr' r hr
    · rcases getElem?_set_cases hk with ⟨rfl, rfl⟩ | ⟨hne', hold'⟩
      · exact (hmoved j p' r hne hold hr r' hr').symm
      · exact h.apart j k p' q' hjk hold hold' r r' hr hr'

/-- A request that dies has nothing to enter, so it can be taken out of the books. -/
theorem booked_die {i : Nat} {x : Exc} (h : Booked a limit s)
    (hdue : ∀ p, s.running[i]? = some p → unentered p = 0) :
    Booked a limit ⟨s.shared, s.running.set i (raise x)⟩ := by
  cases hi : s.running[i]? with
  | none =>
    rw [set_out_of_range hi]
    exact h
  | some p =>
    have hdead : Advanced a limit True p s.shared (raise x) s.shared := by
      refine advanced_same (.refl a _) (Stage.ended _) (hdue p hi) rfl (fun _ hnone => by cases hnone)
        fun record hrecord => ?_
      exact h.pending p (List.mem_of_getElem? hi) record hrecord
    exact booked_advance h hi hdead

theorem booked_step (h : Booked a limit s) (hpos : 0 < limit) (hread : a.RecordsAsRead s e)
    (hstep : a.Step s e u) :
    Booked a limit u ∧ (a.Orderly s e → a.total u.shared ≤ max limit (a.total s.shared)) := by
  obtain ⟨hpool, hdies⟩ := hstep
  cases hpool with
  | start hp => exact ⟨booked_start h hp, fun _ => le_max_right _ _⟩
  | advance hi hserve =>
    have hmem := List.mem_of_getElem? hi
    have hadvanced := advance (h.stages _ hmem) hserve (hread _ _ hi rfl) h.limit_eq hpos
      h.sizes fun record => h.pending _ hmem record
    exact ⟨booked_advance h hi hadvanced, fun horderly => hadvanced.total_le (horderly _ _ hi rfl)⟩
  | die => exact ⟨booked_die h fun p hi => hdies _ p rfl hi, fun _ => le_max_right _ _⟩
  | outside hnone => exact hnone.elim

/-- In a run whose requests find the records that they overwrite or delete as they read them: a
step that charges against a total that has not risen since its check does not bring the total
above the limit, and when all requests have ended the total is the sum of the active records. -/
theorem quota_holds {start : Requests} (h0 : Start a start)
    (h : Steps a.Step a.RecordsAsRead start s) :
    (∀ e u, a.Orderly s e → a.Step s e u →
      a.total u.shared ≤ max (a.limit s.shared) (a.total s.shared)) ∧
    ((∀ p ∈ s.running, ∃ r, p = done r) → a.total s.shared = a.stored s.shared) := by
  have hbooked : Booked a (a.limit start.shared) s :=
    h.invariant h0.booked fun _ _ _ hs hread hstep => (booked_step hs h0.limited hread hstep).1
  refine ⟨fun e u hok hstep => ?_, fun hended => ?_⟩
  · rw [hbooked.limit_eq]
    exact (booked_step hbooked h0.limited hok.recordsAsRead hstep).2 hok
  · have hnone : (s.running.map unentered).sum = 0 := by
      refine List.sum_eq_zero fun n hn => ?_
      obtain ⟨p, hp, rfl⟩ := List.mem_map.1 hn
      obtain ⟨r, rfl⟩ := hended p hp
      rfl
    rw [hbooked.drift, hnone, add_zero]

end

/-! ### Two uploads, and two deletions -/

def owner : Account := ⟨.ofDigit 2, 1⟩

/-- Everything goes through, and a new record gets the next id. -/
def answer (a : Account) : (c : QuotaCmd) → Db → Except Exc c.Resp × Db
  | .getByUserId, d => QuotaRepo.getByUserId a.defaultLimit a.userId d
  | .create fileSection size, d => FileRepo.create (.ofDigit d.records.rows.length) a.userId [] []
    size (fileSection = .private) fileSection .pending 0 d
  | .write _, d => (.ok (), d)
  | .commit record, d => FileRepo.updateStatus record.id .committed none none none d
  | .discard record, d => FileRepo.delete record.id d
  | .findByPath _, d => (.ok none, d)
  | .replace _, d => (.ok (), d)
  | .updateSize existing size, d => FileRepo.updateSize existing.id size none d
  | .getById id, d => FileRepo.getById id d
  | .deleteObject _, d => (.ok (), d)
  | .delete record, d => FileRepo.delete record.id d
  | .increment bytes fileSection _, d =>
    QuotaRepo.increment a.defaultLimit a.userId bytes fileSection d
  | .decrement bytes fileSection, d =>
    QuotaRepo.decrement a.defaultLimit a.userId bytes fileSection d

/-- The next id is free. -/
def free : QuotaCmd → Db → Bool
  | .create .., d => (d.records.get (.ofDigit d.records.rows.length)).isNone
  | _, _ => true

/-- The next id is free, and no stored record is changed. -/
def storing (c : QuotaCmd) (d : Db) : Bool :=
  free c d && match c with
    | .updateSize .. => false
    | .delete _ => false
    | _ => true

/-- The requests take their turns in this order, as long as `allowed` says so. -/
def takeTurns (a : Account) (allowed : QuotaCmd → Db → Bool) :
    List Nat → Requests → Option Requests
  | [], s => some s
  | i :: turns, s => match s.running[i]? with
    | some (.call c k) =>
      if allowed c s.shared then
        takeTurns a allowed turns
          ⟨(answer a c s.shared).2, s.running.set i (k (answer a c s.shared).1)⟩
      else none
    | _ => none

theorem serve_answer {c : QuotaCmd} {d : Db} (hfree : free c d = true) :
    a.Serve c d (answer a c d).1 (answer a c d).2 := by
  cases c with
  | create fileSection size => exact ⟨_, [], [], 0, Option.isNone_iff_eq_none.1 hfree, rfl⟩
  | commit record => exact ⟨none, none, rfl⟩
  | findByPath fileSection =>
    refine ⟨rfl, ?_⟩
    intro existing hfound
    have hnone : (.ok none : Except Exc (Option FileRecord)) = .ok (some existing) := hfound
    cases hnone
  | updateSize existing size => exact ⟨none, rfl⟩
  | _ => exact rfl

theorem free_of_storing {c : QuotaCmd} {d : Db} (h : storing c d = true) : free c d = true :=
  (Bool.and_eq_true_iff.1 h).1

theorem asRead_of_storing {c : QuotaCmd} {d : Db} (h : storing c d = true) : a.AsRead d c := by
  cases c with
  | updateSize existing size => cases (Bool.and_eq_true_iff.1 h).2
  | delete record => cases (Bool.and_eq_true_iff.1 h).2
  | _ => trivial

section
variable {ok : Requests → Turn → Prop} {s u start : Requests}

theorem steps_request (h : Steps a.Step ok start s) (hok : ok s .start) (hp : Request p) :
    Steps a.Step ok start ⟨s.shared, s.running ++ [p]⟩ :=
  Steps.tail h hok ⟨Pool.Step.start hp, nofun⟩

theorem steps_takeTurns {allowed : QuotaCmd → Db → Bool} {turns : List Nat}
    (hfree : ∀ c d, allowed c d = true → free c d = true)
    (hok : ∀ (s : Requests) i c k, s.running[i]? = some (.call c k) →
      allowed c s.shared = true → ok s (.advance i))
    (h : Steps a.Step ok start s) (hrun : takeTurns a allowed turns s = some u) :
    Steps a.Step ok start u := by
  induction turns generalizing s with
  | nil =>
    cases hrun
    exact h
  | cons i turns ih =>
    unfold takeTurns at hrun
    split at hrun
    · rename_i c k hi
      split at hrun
      · rename_i hallowed
        have hstep : a.Step s (.advance i)
            ⟨(answer a c s.shared).2, s.running.set i (k (answer a c s.shared).1)⟩ :=
          ⟨Pool.Step.advance hi (serve_answer (hfree _ _ hallowed)), nofun⟩
        exact ih (Steps.tail h (hok s i c k hi hallowed) hstep) hrun
      · cases hrun
    · cases hrun

end

def Unrestricted (_ : Requests) (_ : Turn) : Prop := True

/-- No files, and room for one byte. -/
def emptyDb : Db := ⟨.empty, ∅, .empty⟩

/-- One file of one byte. -/
def fullDb : Db where
  records := ⟨[⟨.ofDigit 0, .ofDigit 2, [], [], 1, false, .files, .committed, none, 0, 0, false,
    none⟩], by decide⟩
  quotas := (∅ : QuotaTable).insert (.ofDigit 2) ⟨1, 1, 0, 0, 0⟩
  links := .empty

theorem start_empty : Start owner ⟨emptyDb, []⟩ where
  running := rfl
  exact := by decide
  sizes _ hr := absurd hr List.not_mem_nil
  limited := by decide

theorem start_full : Start owner ⟨fullDb, []⟩ where
  running := rfl
  exact := by decide
  sizes := by
    intro r hr
    rw [List.mem_singleton.1 hr]
    decide
  limited := by decide

def oneByte : QuotaM Unit := do
  let checked ← ensureUploadQuota 1
  uploadFile .files 1 (some checked)

theorem oneByte_request : Request oneByte := Request.upload .files 1

/-- Two uploads pass the check before either is charged. -/
def twoUploads : Option Requests :=
  takeTurns owner free [0, 1, 0, 1, 0, 1, 0, 1, 0] ⟨emptyDb, [oneByte, oneByte]⟩

def deleteFirst : QuotaM Unit := deleteFile (.ofDigit 2) (.ofDigit 0)

/-- Two deletions find the same file before either has marked it. -/
def twoDeletions : Option Requests :=
  takeTurns owner free [0, 1, 0, 0, 0, 1, 1, 1] ⟨fullDb, [deleteFirst, deleteFirst]⟩

/-- The two uploads have marked their records, and none is charged. -/
def twoMarked : Option Requests :=
  takeTurns owner storing [0, 1, 0, 1, 0, 1, 0, 1] ⟨emptyDb, [oneByte, oneByte]⟩

def twoCharged : Option Requests :=
  takeTurns owner storing [0, 1, 0, 1, 0, 1, 0, 1, 0, 1] ⟨emptyDb, [oneByte, oneByte]⟩

theorem twoUploads_runs : ∃ s, twoUploads = some s ∧
    (∃ k, s.running[1]? = some (.call (.increment 1 .files (some 0)) k)) ∧
      owner.total s.shared = 1 ∧ owner.limit s.shared = 1 :=
  ⟨_, rfl, ⟨_, rfl⟩, by decide, by decide⟩

theorem twoDeletions_runs : ∃ s, twoDeletions = some s ∧
    s.running = [done (.ok ()), done (.ok ())] ∧ owner.total s.shared = -1 ∧
      owner.stored s.shared = 0 :=
  ⟨_, rfl, rfl, by decide, by decide⟩

theorem twoMarked_runs : ∃ s, twoMarked = some s ∧
    (∃ k, s.running[0]? = some (.call (.increment 1 .files (some 0)) k)) ∧
      owner.total s.shared = 0 ∧ owner.limit s.shared = 1 :=
  ⟨_, rfl, ⟨_, rfl⟩, by decide, by decide⟩

theorem twoCharged_runs : ∃ s, twoCharged = some s ∧
    s.running = [done (.ok ()), done (.ok ())] ∧ owner.total s.shared = 2 :=
  ⟨_, rfl, rfl, by decide⟩

theorem steps_storing {turns : List Nat} {s : Requests}
    (hrun : takeTurns owner storing turns ⟨emptyDb, [oneByte, oneByte]⟩ = some s) :
    Steps owner.Step owner.RecordsAsRead ⟨emptyDb, []⟩ s := by
  have hstarted : Steps owner.Step owner.RecordsAsRead ⟨emptyDb, []⟩ ⟨emptyDb, [oneByte, oneByte]⟩ :=
    steps_request (steps_request Steps.refl trivial oneByte_request) trivial oneByte_request
  apply steps_takeTurns (fun _ _ hstoring => free_of_storing hstoring) _ hstarted hrun
  intro s i c k hi hstoring p c' hp hnext
  -- the step that is due is the one of the program that stands there
  obtain rfl : Prog.call c k = p := Option.some.inj (hi.symm.trans hp)
  obtain rfl : c = c' := Option.some.inj hnext
  exact asRead_of_storing hstoring

/-- Of two uploads that pass the check side by side the second charge goes over the limit, and of
two deletions of one file both release its bytes. -/
theorem quota_passed :
    (¬ ∀ a start s e u, Start a start → Steps a.Step Unrestricted start s → a.Step s e u →
      a.total u.shared ≤ max (a.limit s.shared) (a.total s.shared)) ∧
    (¬ ∀ a start s, Start a start → Steps a.Step Unrestricted start s →
      (∀ p ∈ s.running, ∃ r, p = done r) → a.total s.shared = a.stored s.shared) := by
  have hok : ∀ s e, Unrestricted s e := fun _ _ => trivial
  constructor
  · intro h
    obtain ⟨s, hrun, ⟨k, hk⟩, htotal, hlimit⟩ := twoUploads_runs
    have hstarted : Steps owner.Step Unrestricted ⟨emptyDb, []⟩ ⟨emptyDb, [oneByte, oneByte]⟩ :=
      steps_request (steps_request Steps.refl (hok _ _) oneByte_request) (hok _ _) oneByte_request
    have hreached := steps_takeTurns (fun _ _ hfree => hfree) (fun _ _ _ _ _ _ => hok _ _)
      hstarted hrun
    have hstep : owner.Step s (.advance 1)
        ⟨(answer owner (.increment 1 .files (some 0)) s.shared).2,
          s.running.set 1 (k (answer owner (.increment 1 .files (some 0)) s.shared).1)⟩ :=
      ⟨Pool.Step.advance hk (serve_answer rfl), nofun⟩
    have hle := h owner _ s _ _ start_empty hreached hstep
    have hcharged : owner.total (answer owner (.increment 1 .files (some 0)) s.shared).2 =
        owner.total s.shared + 1 := (adjusted rfl).1
    rw [htotal, hlimit] at hle
    rw [htotal] at hcharged
    have hover : owner.total (answer owner (.increment 1 .files (some 0)) s.shared).2 ≤ 1 := hle
    omega
  · intro h
    obtain ⟨s, hrun, hended, htotal, hstored⟩ := twoDeletions_runs
    have hrequest : Request deleteFirst := Request.delete _ _
    have hstarted : Steps owner.Step Unrestricted ⟨fullDb, []⟩ ⟨fullDb, [deleteFirst, deleteFirst]⟩ :=
      steps_request (steps_request Steps.refl (hok _ _) hrequest) (hok _ _) hrequest
    have hreached := steps_takeTurns (fun _ _ hfree => hfree) (fun _ _ _ _ _ _ => hok _ _)
      hstarted hrun
    have hexact := h owner _ s start_full hreached (by simp [hended])
    rw [htotal, hstored] at hexact
    exact absurd hexact (by decide)

/-- Of two uploads side by side the first charge stays within the limit; and when both have ended,
the total is what they have stored, although it has passed the limit. -/
theorem quota_holds_uploads :
    (∃ s u : Requests, owner.Step s (.advance 0) u ∧ owner.total u.shared = 1 ∧
      owner.total u.shared ≤ max (owner.limit s.shared) (owner.total s.shared)) ∧
    ∃ s : Requests, s.running = [done (.ok ()), done (.ok ())] ∧ owner.total s.shared = 2 ∧
      owner.total s.shared = owner.stored s.shared := by
  constructor
  · obtain ⟨s, hrun, ⟨k, hk⟩, htotal, -⟩ := twoMarked_runs
    have hstep : owner.Step s (.advance 0)
        ⟨(answer owner (.increment 1 .files (some 0)) s.shared).2,
          s.running.set 0 (k (answer owner (.increment 1 .files (some 0)) s.shared).1)⟩ :=
      ⟨Pool.Step.advance hk (serve_answer rfl), fun _ _ hdie _ => by cases hdie⟩
    have horderly : owner.Orderly s (.advance 0) := by
      intro p c hp hnext
      obtain rfl : Prog.call _ k = p := Option.some.inj (hk.symm.trans hp)
      obtain rfl : QuotaCmd.increment 1 .files (some 0) = c := Option.some.inj hnext
      exact le_of_eq htotal
    have hcharged : owner.total (answer owner (.increment 1 .files (some 0)) s.shared).2 =
        owner.total s.shared + 1 := (adjusted rfl).1
    refine ⟨s, _, hstep, ?_, (quota_holds start_empty (steps_storing hrun)).1 _ _ horderly hstep⟩
    rw [hcharged, htotal]
    rfl
  · obtain ⟨s, hrun, hended, htotal⟩ := twoCharged_runs
    exact ⟨s, hended, htotal, (quota_holds start_empty (steps_storing hrun)).2 (by simp [hended])⟩

end WebStorage.QuotaRaces
