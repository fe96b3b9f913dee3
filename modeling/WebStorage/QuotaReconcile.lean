import WebStorage.Installation
import WebStorage.StorageJobs

set_option autoImplicit false

/-! The reconciliation of the quota totals with the records. -/
namespace WebStorage
open Effect Effect.Prog
namespace Maintenance

/-- The bytes of the committed records of a user; archived records do not count. -/
def committedBytes (rows : List FileRecord) (userId : Uuid) : Int :=
  ((rows.filter fun r => r.userId = userId && r.status = .committed).map (·.sizeBytes)).sum

/-- The row of a user, or the row that the first look at it adds. -/
def usageOf (settings : Settings) (quotas : QuotaTable) (userId : Uuid) : QuotaUsage :=
  (quotas.lookup userId).getD (QuotaRepo.newUsage settings.defaultUserQuotaBytes)

/-- Whether a total is too far from the records. -/
def mismatched (realTotal : Int) (usage : QuotaUsage) : Bool :=
  decide (quotaMismatchThresholdBytes < |realTotal - usage.totalBytes|)

/-- A row after the reconciliation. -/
def corrected (realTotal : Int) (usage : QuotaUsage) : QuotaUsage :=
  if mismatched realTotal usage = true then { usage with totalBytes := realTotal } else usage

section
variable {realTotal : Int} {usage : QuotaUsage}

theorem corrected_within (realTotal : Int) (usage : QuotaUsage) :
    |realTotal - (corrected realTotal usage).totalBytes| ≤ quotaMismatchThresholdBytes := by
  unfold corrected
  split
  next =>
    have hzero : realTotal - realTotal = 0 := by omega
    show |realTotal - realTotal| ≤ quotaMismatchThresholdBytes
    rw [hzero]
    decide
  next hnear =>
    unfold mismatched at hnear
    rw [decide_eq_true_iff] at hnear
    exact not_lt.1 hnear

theorem not_mismatched_corrected (realTotal : Int) (usage : QuotaUsage) :
    mismatched realTotal (corrected realTotal usage) = false := by
  unfold mismatched
  exact decide_eq_false (not_lt.2 (corrected_within realTotal usage))

theorem corrected_total (realTotal : Int) (usage : QuotaUsage) :
    (corrected realTotal usage).totalBytes = usage.totalBytes ∨
      (corrected realTotal usage).totalBytes = realTotal := by
  unfold corrected
  split
  · exact .inr rfl
  · exact .inl rfl

/-- Nothing but the total is corrected. -/
theorem corrected_rest (realTotal : Int) (usage : QuotaUsage) :
    corrected realTotal usage = { usage with totalBytes := (corrected realTotal usage).totalBytes } := by
  unfold corrected
  split <;> rfl

end

/-! ### The loop over the users -/

section
variable {host : Host} {settings : Settings} {now : Time} {w t u : Installation}
  {userIds : List Uuid} {userId : Uuid}

/-- The rows of some users are corrected, and nothing else is touched. -/
structure Reconciled (settings : Settings) (userIds : List Uuid) (w t : Installation) : Prop where
  bucket : t.bucket = w.bucket
  records : t.db.records = w.db.records
  links : t.db.links = w.db.links
  quotas : ∀ v, t.db.quotas.lookup v = if v ∈ userIds
    then some (corrected (committedBytes w.db.records.rows v) (usageOf settings w.db.quotas v))
    else w.db.quotas.lookup v

theorem Reconciled.nothing (settings : Settings) (w : Installation) : Reconciled settings [] w w :=
  ⟨rfl, rfl, rfl, fun _ => (if_neg List.not_mem_nil).symm⟩

/-- The users are corrected one after the other. -/
theorem Reconciled.cons (h : Reconciled settings [userId] w t) (h' : Reconciled settings userIds t u)
    (hnew : userId ∉ userIds) : Reconciled settings (userId :: userIds) w u where
  bucket := h'.bucket.trans h.bucket
  records := h'.records.trans h.records
  links := h'.links.trans h.links
  quotas v := by
    have hlater := h'.quotas v
    have hfirst := h.quotas v
    rw [h.records] at hlater
    rw [hlater]
    by_cases hv : v ∈ userIds
    · have hother : v ≠ userId := fun heq => hnew (heq ▸ hv)
      have hsame : usageOf settings t.db.quotas v = usageOf settings w.db.quotas v := by
        unfold usageOf
        rw [hfirst, if_neg (by simpa using hother)]
      rw [if_pos hv, if_pos (List.mem_cons_of_mem _ hv), hsame]
    · rw [if_neg hv, hfirst]
      by_cases hself : v = userId
      · rw [if_pos (by simpa using hself), if_pos (by simp [hself])]
      · rw [if_neg (by simpa using hself), if_neg (by simp [hself, hv])]

theorem run_reconcileUser (host : Host) (settings : Settings) (userId : Uuid) (now : Time)
    (w : Installation) : ∃ t, (reconcileUser settings userId).run (host.serve now) w =
        (.ok (mismatched (committedBytes w.db.records.rows userId)
          (usageOf settings w.db.quotas userId)), t) ∧
      Reconciled settings [userId] w t := by
  have hsum : (db (FileRepo.sumCommittedBytesByUser userId)).run (host.serve now) w =
      (.ok (committedBytes w.db.records.rows userId), w) := rfl
  -- the first look at a user adds the row that is then read
  obtain ⟨v, hlook, hbucket, hrecords, hlinks, hquotas⟩ : ∃ v,
      (db (QuotaRepo.getByUserId settings.defaultUserQuotaBytes userId)).run (host.serve now) w =
        (.ok (usageOf settings w.db.quotas userId), v) ∧ v.bucket = w.bucket ∧
      v.db.records = w.db.records ∧ v.db.links = w.db.links ∧ ∀ u, v.db.quotas.lookup u =
        if u = userId then some (usageOf settings w.db.quotas userId) else w.db.quotas.lookup u := by
    rw [run_db]
    unfold QuotaRepo.getByUserId usageOf
    cases hrow : w.db.quotas.lookup userId with
    | some usage =>
      refine ⟨w, rfl, rfl, rfl, rfl, ?_⟩
      intro u
      by_cases hu : u = userId
      · rw [if_pos hu, hu]
        exact hrow
      · rw [if_neg hu]
    | none =>
      refine ⟨_, rfl, rfl, rfl, rfl, ?_⟩
      intro u
      by_cases hu : u = userId
      · rw [if_pos hu, hu]
        exact AList.lookup_insert _
      · rw [if_neg hu]
        exact AList.lookup_insert_ne hu
  unfold reconcileUser
  rw [bind_eq, run_bind_ok hsum, bind_eq, run_bind_ok hlook]
  unfold mismatched
  split
  next hnear =>
    refine ⟨v, by rw [decide_eq_false (not_lt.2 hnear)]; rfl, hbucket, hrecords, hlinks, ?_⟩
    intro u
    rw [hquotas u]
    by_cases hu : u = userId
    · have hkept : mismatched (committedBytes w.db.records.rows userId)
          (usageOf settings w.db.quotas userId) = false := decide_eq_false (not_lt.2 hnear)
      rw [if_pos hu, if_pos (by simpa using hu), hu, corrected, hkept, if_neg Bool.false_ne_true]
    · rw [if_neg hu, if_neg (by simpa using hu)]
  next hfar =>
    have hwrite : (db (QuotaRepo.updateTotalBytes settings.defaultUserQuotaBytes userId
        (committedBytes w.db.records.rows userId))).run (host.serve now) v =
        (.ok { usageOf settings v.db.quotas userId with
            totalBytes := committedBytes w.db.records.rows userId },
          ⟨{ v.db with quotas := v.db.quotas.insert userId { usageOf settings v.db.quotas userId with
            totalBytes := committedBytes w.db.records.rows userId } }, v.bucket⟩) := rfl
    have hread : usageOf settings v.db.quotas userId = usageOf settings w.db.quotas userId := by
      unfold usageOf
      rw [hquotas userId, if_pos rfl]
      rfl
    rw [hread] at hwrite
    rw [decide_eq_true (not_le.1 hfar), bind_eq, run_bind_ok hwrite]
    refine ⟨_, rfl, hbucket, hrecords, hlinks, ?_⟩
    intro u
    show (v.db.quotas.insert userId _).lookup u = _
    by_cases hu : u = userId
    · have hoff : mismatched (committedBytes w.db.records.rows userId)
          (usageOf settings w.db.quotas userId) = true := decide_eq_true (not_le.1 hfar)
      rw [if_pos (by simpa using hu), hu, AList.lookup_insert, corrected, hoff, if_pos rfl]
    · rw [if_neg (by simpa using hu), AList.lookup_insert_ne hu, hquotas u, if_neg hu]

/-- Whatever the order of the users, everyone is corrected once. -/
theorem run_reconcileAll (host : Host) (settings : Settings) (now : Time) (userIds : List Uuid) :
    ∀ (fixed : Nat) (w : Installation), userIds.Nodup →
      ∃ t, (reconcileAll settings userIds fixed).run (host.serve now) w =
          (.ok (fixed + userIds.countP fun v => mismatched (committedBytes w.db.records.rows v)
            (usageOf settings w.db.quotas v)), t) ∧
        Reconciled settings userIds w t := by
  induction userIds with
  | nil => exact fun fixed w _ => ⟨w, rfl, .nothing settings w⟩
  | cons userId userIds ih =>
    intro fixed w hnodup
    rw [List.nodup_cons] at hnodup
    obtain ⟨t, hfirst, hone⟩ := run_reconcileUser host settings userId now w
    obtain ⟨u, hrest, hothers⟩ := ih (if mismatched (committedBytes w.db.records.rows userId)
      (usageOf settings w.db.quotas userId) = true then fixed + 1 else fixed) t hnodup.2
    refine ⟨u, ?_, hone.cons hothers hnodup.1⟩
    have hcount : (userIds.countP fun v => mismatched (committedBytes t.db.records.rows v)
        (usageOf settings t.db.quotas v)) =
        userIds.countP fun v => mismatched (committedBytes w.db.records.rows v)
          (usageOf settings w.db.quotas v) := by
      apply List.countP_congr
      intro v hv
      have hother : v ≠ userId := fun heq => hnodup.1 (heq ▸ hv)
      unfold usageOf
      rw [hone.records, hone.quotas v, if_neg (by simpa using hother)]
    unfold reconcileAll
    rw [bind_eq, run_bind_ok hfirst, hrest, hcount, List.countP_cons]
    congr 2
    split <;> omega

/-- The users that the reconciliation looks at: those with a committed record or a row. -/
def Accounted (d : Db) (userId : Uuid) : Prop :=
  (∃ r ∈ d.records.rows, r.userId = userId ∧ r.status = .committed) ∨ userId ∈ d.quotas

/-- The users in the order of the loop. -/
def accounted (d : Db) : List Uuid :=
  dictFromKeys (dictFromKeys ((d.records.rows.filter (·.status = .committed)).map (·.userId)) ++
    d.quotas.keys)

theorem mem_accounted {d : Db} : userId ∈ accounted d ↔ Accounted d userId := by
  unfold accounted Accounted
  rw [mem_dictFromKeys, List.mem_append, mem_dictFromKeys, List.mem_map, AList.mem_keys]
  apply or_congr_left
  constructor
  · rintro ⟨r, hr, huser⟩
    obtain ⟨hmem, hstatus⟩ := List.mem_filter.1 hr
    exact ⟨r, hmem, huser, of_decide_eq_true hstatus⟩
  · rintro ⟨r, hmem, huser, hstatus⟩
    exact ⟨r, List.mem_filter.2 ⟨hmem, decide_eq_true hstatus⟩, huser⟩

theorem run_reconcileQuotas (host : Host) (settings : Settings) (now : Time) (w : Installation) :
    ∃ t, (reconcileQuotas settings).run (host.serve now) w =
        (.ok ((accounted w.db).length, (accounted w.db).countP fun v =>
          mismatched (committedBytes w.db.records.rows v) (usageOf settings w.db.quotas v)), t) ∧
      Reconciled settings (accounted w.db) w t := by
  obtain ⟨t, hrun, hdone⟩ :=
    run_reconcileAll host settings now (accounted w.db) 0 w (nodup_dictFromKeys _)
  refine ⟨t, ?_, hdone⟩
  have hcommitted : (db FileRepo.listDistinctUserIdsWithCommitted).run (host.serve now) w =
      (.ok (dictFromKeys ((w.db.records.rows.filter (·.status = .committed)).map (·.userId))), w) := rfl
  have hall : (db QuotaRepo.listAllUserIds).run (host.serve now) w = (.ok w.db.quotas.keys, w) := rfl
  rw [Nat.zero_add] at hrun
  unfold reconcileQuotas
  rw [bind_eq, run_bind_ok hcommitted, bind_eq, run_bind_ok hall, bind_eq]
  exact run_bind_ok hrun _

end

/-- After a reconciliation the total of every user with a committed record or a quota row is within
the threshold of the bytes of their committed records, where it is either as before or exactly these
bytes; their other columns, everybody else's rows, the records, the links and the objects are as they
were. A second reconciliation looks at the same number of users, corrects nobody and leaves every row
as it is. -/
theorem totals_reconciled (host : Host) (settings : Settings) (now later : Time) (w : Installation) :
    ∃ checked fixed t, (reconcileQuotas settings).run (host.serve now) w = (.ok (checked, fixed), t) ∧
      t.bucket = w.bucket ∧ t.db.records = w.db.records ∧ t.db.links = w.db.links ∧
      (∀ userId, Accounted w.db userId → ∃ usage, t.db.quotas.lookup userId = some usage ∧
        usage = { usageOf settings w.db.quotas userId with totalBytes := usage.totalBytes } ∧
        |committedBytes w.db.records.rows userId - usage.totalBytes| ≤ quotaMismatchThresholdBytes ∧
        (usage.totalBytes = (usageOf settings w.db.quotas userId).totalBytes ∨
          usage.totalBytes = committedBytes w.db.records.rows userId)) ∧
      (∀ userId, ¬ Accounted w.db userId → t.db.quotas.lookup userId = none) ∧
      ∃ t', (reconcileQuotas settings).run (host.serve later) t = (.ok (checked, 0), t') ∧
        t'.bucket = w.bucket ∧ t'.db.records = w.db.records ∧ t'.db.links = w.db.links ∧
        ∀ userId, t'.db.quotas.lookup userId = t.db.quotas.lookup userId := by
  obtain ⟨t, hrun, hfirst⟩ := run_reconcileQuotas host settings now w
  obtain ⟨t', hagain, hsecond⟩ := run_reconcileQuotas host settings later t
  have hrow : ∀ v, Accounted w.db v → t.db.quotas.lookup v =
      some (corrected (committedBytes w.db.records.rows v) (usageOf settings w.db.quotas v)) :=
    fun v hv => (hfirst.quotas v).trans (if_pos (mem_accounted.2 hv))
  have hnone : ∀ v, ¬ Accounted w.db v → t.db.quotas.lookup v = none := by
    intro v hv
    rw [hfirst.quotas v, if_neg fun hmem => hv (mem_accounted.1 hmem)]
    exact AList.lookup_eq_none.2 fun hmem => hv (.inr hmem)
  have hsame : ∀ v, Accounted t.db v ↔ Accounted w.db v := by
    intro v
    constructor
    · rintro (hcommitted | hmem)
      · rw [hfirst.records] at hcommitted
        exact .inl hcommitted
      · by_contra hv
        exact AList.lookup_eq_none.1 (hnone v hv) hmem
    · intro hv
      right
      rw [← AList.lookup_isSome, hrow v hv]
      rfl
  -- everyone who is looked at again has been corrected
  have hsettled : ∀ v ∈ accounted t.db,
      mismatched (committedBytes t.db.records.rows v) (usageOf settings t.db.quotas v) = false := by
    intro v hv
    have hlookup := hrow v ((hsame v).1 (mem_accounted.1 hv))
    have husage : usageOf settings t.db.quotas v =
        corrected (committedBytes w.db.records.rows v) (usageOf settings w.db.quotas v) := by
      unfold usageOf
      rw [hlookup]
      rfl
    rw [husage, hfirst.records]
    exact not_mismatched_corrected _ _
  have hlength : (accounted t.db).length = (accounted w.db).length := by
    apply List.Perm.length_eq
    apply (List.perm_ext_iff_of_nodup (nodup_dictFromKeys _) (nodup_dictFromKeys _)).2
    intro v
    exact mem_accounted.trans ((hsame v).trans mem_accounted.symm)
  have hnobody : ((accounted t.db).countP fun v =>
      mismatched (committedBytes t.db.records.rows v) (usageOf settings t.db.quotas v)) = 0 := by
    apply List.countP_eq_zero.2
    intro v hv
    rw [hsettled v hv]
    exact Bool.false_ne_true
  rw [hlength, hnobody] at hagain
  refine ⟨_, _, t, hrun, hfirst.bucket, hfirst.records, hfirst.links, ?_, hnone, t', hagain,
    hsecond.bucket.trans hfirst.bucket, hsecond.records.trans hfirst.records,
    hsecond.links.trans hfirst.links, ?_⟩
  · intro v hv
    exact ⟨_, hrow v hv, corrected_rest _ _, corrected_within _ _, corrected_total _ _⟩
  · intro v
    rw [hsecond.quotas v]
    split
    next hmem =>
      have hlookup := hrow v ((hsame v).1 (mem_accounted.1 hmem))
      have hkept := hsettled v hmem
      rw [corrected, hkept, if_neg Bool.false_ne_true]
      unfold usageOf
      rw [hlookup]
      rfl
    next => rfl

end Maintenance
end WebStorage
