import WebStorage.PrivateUnindexed
import WebStorage.NoOrphans

set_option autoImplicit false

/-! Runs of everything that reaches the queue or RAG: requests, single queue calls, backfill and
retries, with ticks and notifications under way between them. Beside the tables stand the versions
of records that they have held, and everything that was sent to RAG. -/
namespace WebStorage.PrivateUnindexed
open Effect Effect.Prog

/-! ### The system -/

structure Backend where
  db : Db
  seen : List FileRecord
  sent : List SyncCmd
  running : List (Sync Unit)

/-- Nothing has been sent, and nothing is under way. -/
def Backend.quiet (d : Db) : Backend := ⟨d, d.records.rows, [], []⟩

/-- The key and the owner that a registration or a rekey names. -/
def named : SyncCmd → Option (Str × Uuid)
  | .register _ manifest userId => some (manifest.s3Key, userId)
  | .rekey _ target userId => some (target.s3Key, userId)
  | _ => none

/-- The queue answers from its table; records, objects and RAG answer anything. -/
def QueueServes : (c : SyncCmd) → Db → Except Exc c.Resp → Db → Prop
  | .applyTransition linkId tr now, d, x, d' =>
    onLinks (fun t => t.applyTransition linkId tr now) d = (x, d')
  | .claimDue limit now, d, x, d' => x = d.links.claimDue limit now ∧ d' = d
  | .getByFileRecordId fileRecordId, d, x, d' =>
    x = .ok (d.links.byFileRecordId fileRecordId) ∧ d' = d
  | _, d, _, d' => d' = d

/-- Any call can also fail. -/
def SyncAnswers : Handler SyncCmd.Resp Exc Db := fun c d x d' =>
  (∃ e, x = .error e ∧ d' = d) ∨ QueueServes c d x d'

/-- The tables answer, and the versions of records that they then hold are noted. -/
def Recorded : Handler FileCmd.Resp Exc (Db × List FileRecord) := fun c s x t =>
  DbAnswers c s.1 x t.1 ∧ t.2 = s.2 ++ t.1.records.rows

/-- The functions of the enqueue module. -/
inductive EnqueueCall
  | upload (record : FileRecord)
  | contentChanged (record : FileRecord)
  | rekey (record : FileRecord)
  | rekeyMany (records : List FileRecord)
  | removed (fileRecordIds : List Uuid)
  | archived (record : FileRecord)

def EnqueueCall.program (q : Enqueue) (now : Time) : EnqueueCall → FileM Unit
  | .upload record => q.upload record now
  | .contentChanged record => q.contentChanged record now
  | .rekey record => q.rekey record now
  | .rekeyMany records => q.rekeyMany records now
  | .removed fileRecordIds => q.removed fileRecordIds now
  | .archived record => q.archived record now

/-- The record was read from the table, in this version or before its latest change. -/
def Backend.Read (w : Backend) (record : FileRecord) : Prop :=
  record ∈ w.seen ∧ Stored w.db record

def EnqueueCall.Known (w : Backend) : EnqueueCall → Prop
  | .upload record => w.Read record
  | .contentChanged record => w.Read record
  | .rekey record => w.Read record
  | .rekeyMany records => ∀ record ∈ records, w.Read record
  | .removed _ => True
  | .archived record => w.Read record

inductive Operation
  | request (request : Request)
  | enqueue (q : Enqueue) (call : EnqueueCall)
  | backfill (enabled : Bool) (limit : Option Int) (after : Option BackfillCursor)
      (indexBatchSize maxImageBytes : Int)
  | retryFailed (state : Option Str) (batchSize : Int)
  | tick (job : IndexSyncJob)
  | notify (job : IndexSyncJob) (enabled : Bool) (fileRecordIds : List Uuid)
  | command
  | leave

/-- A transaction over the tables commits, or leaves them as they were. -/
inductive Committed {α : Type} (p : FileM α) (w : Backend) : Backend → Prop
  | commit {a d seen} : Exec Recorded p (w.db, w.seen) (.ok a) (d, seen) →
      Committed p w { w with db := d, seen := seen }
  | rollback : Committed p w w

/-- Ticks and notifications are answered one command at a time, and the others go on in between.
One that has come to its end, or is given up, is gone; what it wrote may then be taken back. -/
inductive Step (w : Backend) : Operation × Time → Backend → Prop
  | request {request now w'} : request ≠ .cleanupPendingRecords →
      Committed (request.program now) w w' → Step w (.request request, now) w'
  | enqueue {q call now w'} : call.Known w → Committed (call.program q now) w w' →
      Step w (.enqueue q call, now) w'
  | backfill {enabled limit after indexBatchSize maxImageBytes now w'} :
      Committed (Backfill.backfill enabled limit after indexBatchSize maxImageBytes now) w w' →
      Step w (.backfill enabled limit after indexBatchSize maxImageBytes, now) w'
  | retryFailed {state batchSize now w'} :
      Committed (retryFailedIndex state batchSize now) w w' →
      Step w (.retryFailed state batchSize, now) w'
  | tick {job now} : Step w (.tick job, now)
      { w with running := ((job.run now).bind fun _ => done (.ok ())) :: w.running }
  | notify {job enabled fileRecordIds now} : Step w (.notify job enabled fileRecordIds, now)
      { w with running := notifyIndexLinks job enabled fileRecordIds now :: w.running }
  | command {c k x d rest now} : w.running.Perm (.call c k :: rest) → SyncAnswers c w.db x d →
      Step w (.command, now)
        { w with
          db := d
          sent := if (named c).isSome then w.sent ++ [c] else w.sent
          running := k x :: rest }
  | leave {p rest links now} : w.running.Perm (p :: rest) →
      LinkTable.Inherits w.db.links links →
      Step w (.leave, now) { w with db := { w.db with links := links }, running := rest }

/-! ### Transactions over the tables -/

variable {V W : FileRecord → Prop} {w w' : Backend} {d d' : Db} {now : Time}
  {record : FileRecord}

/-- What a transaction notes is what it is restricted to. -/
theorem exec_recorded {α : Type} {p : FileM α} {s t : Db × List FileRecord}
    {r : Except Exc α} (h : Exec Recorded p s r t) :
    (∀ v ∈ s.2, v ∈ t.2) ∧ Exec (Within (· ∈ t.2)) p s.1 r t.1 := by
  induction h with
  | done r s => exact ⟨fun _ hv => hv, .done _ _⟩
  | call hc _ ih =>
    obtain ⟨hanswer, hnoted⟩ := hc
    obtain ⟨hgrows, hexec⟩ := ih
    rw [hnoted] at hgrows
    refine ⟨fun v hv => hgrows v (List.mem_append_left _ hv), .call ⟨hanswer, ?_⟩ hexec⟩
    exact fun v hv => hgrows v (List.mem_append_right _ hv)

/-- The versions of records only become more, and with all of them the transaction is safe. -/
theorem Committed.evolves {α : Type} {p : FileM α}
    (hp : ∀ V : FileRecord → Prop, (∀ v ∈ w.seen, V v) → Safe V p w.db)
    (h : Committed p w w') :
    (∀ v ∈ w.seen, v ∈ w'.seen) ∧ Evolves (· ∈ w'.seen) w.db w'.db ∧ w'.sent = w.sent ∧
      w'.running = w.running := by
  cases h with
  | commit hx =>
    obtain ⟨hgrows, hexec⟩ := exec_recorded hx
    exact ⟨hgrows, (wp_sound (hp _ hgrows) hexec).2, rfl, rfl⟩
  | rollback => exact ⟨fun _ hv => hv, .refl _, rfl, rfl⟩

theorem safe_enqueueRecord (maxImageBytes : Int) (now : Time) (hV : V record)
    (hstored : Stored d record) : Safe V (Backfill.enqueueRecord record maxImageBytes now) d := by
  refine safe_catch ?_ fun e t _ => safe_done _
  refine safe_ofExcept fun decision hdecision => ?_
  refine safe_uuid4 fun id => ?_
  exact safe_db (evolves_upsertPending id now hV hstored hdecision) fun _ _ _ => safe_done _

theorem safe_enqueuePage (maxImageBytes : Int) (now : Time) (records : List FileRecord)
    (counts : Nat × Nat) (h : ∀ record ∈ records, V record ∧ Stored d record) :
    Safe V (Backfill.enqueuePage maxImageBytes now records counts) d := by
  induction records generalizing counts d with
  | nil => exact safe_done _
  | cons record records ih =>
    obtain ⟨enqueued, skipped⟩ := counts
    unfold Backfill.enqueuePage
    have hfirst := h record List.mem_cons_self
    refine safe_bind (safe_enqueueRecord maxImageBytes now hfirst.1 hfirst.2) fun taken t ht => ?_
    have hrest : ∀ record ∈ records, V record ∧ Stored t record := by
      intro record hrecord
      have hlater := h record (List.mem_cons_of_mem _ hrecord)
      exact ⟨hlater.1, ht.stored hlater.2⟩
    split
    · exact ih _ hrest
    · exact ih _ hrest

theorem safe_backfill (enabled : Bool) (limit : Option Int) (after : Option BackfillCursor)
    (indexBatchSize maxImageBytes : Int) (now : Time) :
    Safe V (Backfill.backfill enabled limit after indexBatchSize maxImageBytes now) d := by
  unfold Backfill.backfill
  split
  · exact safe_done _
  refine safe_ofExcept fun limit _ => ?_
  have hsame : (LinkRepo.backfillCandidates limit after d).2 = d := by
    unfold LinkRepo.backfillCandidates
    split <;> rfl
  refine safe_db (by rw [hsame]; exact .refl d) fun candidates hcandidates hversions => ?_
  rw [hsame] at hversions ⊢
  have hknown : ∀ record ∈ candidates, V record ∧ Stored d record := by
    intro record hrecord
    unfold LinkRepo.backfillCandidates at hcandidates
    split at hcandidates
    · cases hcandidates
    · cases hcandidates
      have hsorted := (List.perm_insertionSort recordsOldestFirst _).subset
        (List.mem_of_mem_take hrecord)
      have hrow := (List.mem_filter.1 hsorted).1
      exact ⟨hversions record hrow, .self hrow⟩
  refine safe_bind (safe_enqueuePage maxImageBytes now candidates (0, 0) hknown)
    fun counts t _ => ?_
  exact safe_bind ((calm_db fun _ d => .refl d).safe t) fun _ _ _ => safe_done _

theorem calm_retryFailedIndex (state : Option Str) (batchSize : Int) (now : Time) :
    AllCalm (retryFailedIndex state batchSize now) := by
  unfold retryFailedIndex
  split
  · trivial
  split
  · trivial
  · exact calm_db fun _ d => evolves_inherits fun _ _ _ => LinkTable.inherits_retryFailed

theorem safe_enqueue (q : Enqueue) (call : EnqueueCall) (now : Time) (h : call.Known w)
    (hV : ∀ v ∈ w.seen, V v) : Safe V (call.program q now) w.db := by
  cases call with
  | upload record => exact safe_upload q now (hV record h.1) h.2
  | contentChanged record => exact safe_contentChanged q now (hV record h.1) h.2
  | rekey record => exact safe_rekey q now (hV record h.1) h.2
  | rekeyMany records =>
    exact safe_rekeyMany q records now fun record hrecord =>
      ⟨hV record (h record hrecord).1, (h record hrecord).2⟩
  | removed fileRecordIds => exact (calm_removed q fileRecordIds now).safe w.db
  | archived record => exact (calm_archived q record now).safe w.db

/-! ### The sync programs -/

/-- The key is one of a version that an indexable record of this owner has had. -/
def NamesIndexable (V : FileRecord → Prop) (key : Str) (userId : Uuid) : Prop :=
  ∃ v, V v ∧ Indexable v ∧ v.userId = userId ∧ key ∈ objectKeys v

/-- What is sent names an indexable record, and what is written leaves the key of a row. -/
def Permitted (V : FileRecord → Prop) : SyncCmd → Prop
  | .applyTransition _ tr _ => tr.s3Key = none
  | .register _ manifest userId => NamesIndexable V manifest.s3Key userId
  | .rekey _ target userId => NamesIndexable V target.s3Key userId
  | _ => True

def NamedBy (V : FileRecord → Prop) (link : IndexLink) : Prop :=
  NamesIndexable V link.s3Key link.userId

/-- The queue hands out such links only. -/
def HandsOut (V : FileRecord → Prop) : (c : SyncCmd) → c.Resp → Prop
  | .applyTransition .., found => ∀ link : IndexLink, found = some link → NamedBy V link
  | .claimDue .., links => ∀ link ∈ links, NamedBy V link
  | .getByFileRecordId _, found => ∀ link : IndexLink, found = some link → NamedBy V link
  | _, _ => True

abbrev Honest (V : FileRecord → Prop) {α : Type} (p : Sync α) : Prop :=
  p.All (Permitted V) (HandsOut V)

theorem NamesIndexable.mono {key : Str} {userId : Uuid} (h : NamesIndexable V key userId)
    (hVW : ∀ v, V v → W v) : NamesIndexable W key userId := by
  obtain ⟨v, hv, hrest⟩ := h
  exact ⟨v, hVW v hv, hrest⟩

theorem Behind.named {link : IndexLink} (h : Behind V d link) : NamedBy V link := by
  obtain ⟨r, -, hlink, hindexable⟩ := h
  obtain ⟨v, hv, hsame, hkey⟩ := hlink.key
  exact ⟨v, hv, hsame.indexable.1 hindexable, hsame.userId.symm.trans hlink.userId.symm, hkey⟩

section
open IndexSyncJob
variable {job : IndexSyncJob} {link : IndexLink}

theorem honest_write {α : Type} {tr : Transition} {f : Option IndexLink → Sync α}
    (htr : tr.s3Key = none)
    (hf : ∀ found, (∀ link, found = some link → NamedBy V link) → Honest V (f found)) :
    Honest V ((write link now tr).bind f) :=
  all_issue_bind htr hf

theorem honest_outcome {tr : Transition} {o : Outcome} (htr : tr.s3Key = none) :
    Honest V ((write link now tr).bind fun _ => done (.ok o)) :=
  honest_write htr fun _ _ => all_done _

/-- A command, tried and answered. -/
theorem honest_attempt {α : Type} {c : SyncCmd} {f : Except Exc c.Resp → Sync α}
    (hc : Permitted V c) (hf : ∀ x, Honest V (f x)) : Honest V ((send c).attempt.bind f) :=
  all_bind (all_attempt ⟨hc, fun _ _ => trivial⟩) hf

theorem honest_scheduleRetry (code : String) :
    Honest V (scheduleRetry job link now code) := by
  simp only [scheduleRetry]
  split <;> exact honest_outcome rfl

theorem honest_fail (code : String) : Honest V (fail link now code) := honest_outcome rfl

theorem honest_missObject : Honest V (missObject job link now) := by
  simp only [missObject]
  split
  · exact honest_fail _
  · split <;> exact honest_outcome rfl

theorem honest_readObjectHash : Honest V (readObjectHash job link now) := by
  have hmiss : Honest V ((missObject job link now).bind fun o =>
      done (.ok (.inl o : Outcome ⊕ (Digest × Nat)))) :=
    all_bind honest_missObject fun _ => all_done _
  have hread : Honest V (readPayloadHash job link now) := by
    refine honest_attempt trivial fun x => ?_
    split
    · trivial
    · exact hmiss
    · trivial
  refine all_bind (all_catchWith ⟨trivial, fun _ _ => trivial⟩ ?_) fun present => ?_
  · intro e
    split <;> trivial
  · split
    · exact hmiss
    · exact hread

theorem honest_locate : Honest V (locate job link now) := by
  unfold locate
  split
  · exact honest_readObjectHash
  · simp only [bind_eq, pure_eq]
    refine honest_attempt trivial fun x => ?_
    split
    · trivial
    · exact all_bind (honest_fail _) fun _ => all_done _
    · trivial

theorem honest_displayName : Honest V (displayName link) := by
  unfold displayName
  split
  · trivial
  · exact ⟨trivial, fun _ _ => trivial⟩

/-- The manifest is one for the key of the link. -/
theorem honest_register (hlink : NamedBy V link) : Honest V (register job link now) := by
  unfold register
  split
  · exact honest_outcome rfl
  simp only [manifest, bind_eq, pure_eq, Effect.bind_assoc]
  refine all_bind honest_locate fun located => ?_
  cases located with
  | inl outcome => exact all_done _
  | inr payload =>
    obtain ⟨digest, size⟩ := payload
    dsimp only
    rw [Effect.bind_assoc]
    refine all_bind honest_displayName fun originalName => ?_
    refine honest_attempt hlink fun x => ?_
    split
    · exact honest_outcome rfl
    · unfold onRegisterHttp adoptDuplicate
      split
      · split
        · exact honest_fail _
        · split <;> exact honest_outcome rfl
      · exact honest_fail _
    · trivial

theorem honest_deleteVectors : Honest V (deleteVectors job link now) := by
  unfold deleteVectors
  split
  · trivial
  · simp only [bind_eq, pure_eq]
    refine honest_attempt trivial fun x => ?_
    split
    · trivial
    · split
      · trivial
      · split
        · exact all_bind (honest_scheduleRetry _) fun _ => all_done _
        · exact all_bind (honest_fail _) fun _ => all_done _
    · trivial

theorem honest_reindex (hlink : NamedBy V link) : Honest V (reindex job link now) := by
  unfold reindex
  split
  · exact honest_register hlink
  · simp only [bind_eq, pure_eq]
    refine all_bind honest_deleteVectors fun outcome => ?_
    split
    · trivial
    · refine honest_write rfl fun found hfound => ?_
      split
      · trivial
      · exact honest_register (hfound _ rfl)

theorem honest_rekey (hlink : NamedBy V link) : Honest V (rekey job link now) := by
  unfold rekey
  split
  · exact honest_register hlink
  simp only [bind_eq, pure_eq]
  refine all_bind honest_locate fun located => ?_
  split
  · trivial
  · refine honest_attempt hlink fun x => ?_
    split
    · exact honest_outcome rfl
    · simp only [onRekeyHttp, bind_eq, pure_eq]
      split
      · refine honest_write rfl fun found hfound => ?_
        split
        · trivial
        · exact honest_reindex (hfound _ rfl)
      · split <;> exact honest_fail _
    · trivial

theorem honest_poll (hlink : NamedBy V link) : Honest V (poll job link now) := by
  unfold poll
  split
  · exact honest_register hlink
  simp only [bind_eq]
  refine honest_attempt trivial fun x => ?_
  unfold onPollAnswer
  split
  · simp only [onPolledCard]
    split_ifs <;> exact honest_outcome rfl
  · split <;> exact honest_outcome rfl
  · trivial

theorem honest_remove (terminal : IndexLinkState) :
    Honest V (remove job link now terminal) := by
  unfold remove
  split
  · exact honest_outcome rfl
  · simp only [bind_eq, pure_eq]
    refine all_bind honest_deleteVectors fun outcome => ?_
    split
    · trivial
    · exact honest_outcome rfl

theorem honest_process (hlink : NamedBy V link) : Honest V (process job link now) := by
  refine all_catchWith (all_catchWith ?_ ?_) fun _ => all_done _
  · unfold dispatch
    split
    · trivial
    · exact honest_poll hlink
    · exact honest_remove _
    · exact honest_remove _
    · exact honest_reindex hlink
    · split
      · exact honest_rekey hlink
      · exact honest_register hlink
    · trivial
    · trivial
  · intro e
    unfold onProcessError
    split
    · exact honest_scheduleRetry _
    · exact honest_fail _
    · trivial

theorem honest_processAll (links : List IndexLink) (h : ∀ link ∈ links, NamedBy V link) :
    Honest V (processAll job now links) := by
  induction links with
  | nil => trivial
  | cons link rest ih =>
    refine all_bind (honest_process (h link List.mem_cons_self)) fun outcome => ?_
    exact all_bind (ih fun l hl => h l (List.mem_cons_of_mem _ hl)) fun _ => all_done _

theorem honest_run (job : IndexSyncJob) (now : Time) : Honest V (job.run now) := by
  unfold IndexSyncJob.run
  split
  · trivial
  · refine all_issue_bind trivial fun links hlinks => ?_
    exact all_bind (honest_processAll links hlinks) fun _ => all_done _

theorem honest_notify (job : IndexSyncJob) (enabled : Bool) (ids : List Uuid) (now : Time) :
    Honest V (notifyIndexLinks job enabled ids now) := by
  have hall : ∀ ids, Honest V (notifyAll job now ids) := by
    intro ids
    induction ids with
    | nil => trivial
    | cons id rest ih =>
      refine all_issue_bind trivial fun found hfound => ?_
      cases found with
      | none => exact ih
      | some link =>
        dsimp only
        split
        · exact all_bind (all_attempt (honest_process (hfound link rfl))) fun _ => ih
        · exact ih
  unfold notifyIndexLinks
  split
  · exact hall _
  · trivial

end

/-! ### What a run keeps -/

/-- Behind every queue row and everything sent to RAG is a record that may be in the index, and
what is under way goes on like this whatever versions of records come up. -/
structure Clean (w : Backend) : Prop where
  links : ∀ link ∈ w.db.links.rows, Behind (· ∈ w.seen) w.db link
  sent : ∀ c ∈ w.sent, ∀ key userId, named c = some (key, userId) →
    NamesIndexable (· ∈ w.seen) key userId
  running : ∀ p ∈ w.running, ∀ V : FileRecord → Prop, (∀ v ∈ w.seen, V v) → Honest V p

theorem Clean.committed {α : Type} {p : FileM α} (h : Clean w)
    (hp : ∀ V : FileRecord → Prop, (∀ v ∈ w.seen, V v) → Safe V p w.db)
    (hstep : Committed p w w') : Clean w' := by
  obtain ⟨hgrows, hevolves, hsent, hrunning⟩ := hstep.evolves hp
  refine ⟨?_, ?_, ?_⟩
  · exact hevolves.links fun link hlink => (h.links link hlink).mono hgrows
  · rw [hsent]
    intro c hc key userId hnamed
    exact (h.sent c hc key userId hnamed).mono hgrows
  · rw [hrunning]
    intro p hp V hV
    exact h.running p hp V fun v hv => hV v (hgrows v hv)

/-- What the queue hands out has an indexable record behind it, and so has what it then holds. -/
theorem Clean.served {c : SyncCmd} {x : Except Exc c.Resp} (h : Clean w)
    (hc : Permitted (· ∈ w.seen) c) (hx : SyncAnswers c w.db x d) :
    (∀ link ∈ d.links.rows, Behind (· ∈ w.seen) d link) ∧
      ∀ a, x = .ok a → HandsOut (· ∈ w.seen) c a := by
  rcases hx with ⟨e, he, hd⟩ | hserves
  · rw [hd, he]
    exact ⟨h.links, fun a ha => by cases ha⟩
  cases c with
  | applyTransition linkId tr now =>
    have happly : onLinks (fun t => t.applyTransition linkId tr now) w.db = (x, d) := hserves
    have hevolves : Evolves (· ∈ w.seen) w.db
        (onLinks (fun t => t.applyTransition linkId tr now) w.db).2 :=
      evolves_inherits fun _ _ _ => LinkTable.inherits_applyTransition hc
    rw [happly] at hevolves
    have hlinks := hevolves.links h.links
    refine ⟨hlinks, fun found hfound link hlink => ?_⟩
    -- the row that is handed out is one of the table after the write
    have hrow : link ∈ d.links.rows := by
      unfold onLinks at happly
      cases ht : w.db.links.applyTransition linkId tr now with
      | error e =>
        simp only [ht] at happly
        cases happly
        cases hfound
      | ok res =>
        simp only [ht] at happly
        cases happly
        cases hfound
        exact LinkTable.applyTransition_found ht hlink
    exact (hlinks link hrow).named
  | claimDue limit now =>
    obtain ⟨hclaim, hd⟩ := hserves
    rw [hd]
    refine ⟨h.links, fun links hok link hlink => ?_⟩
    have hclaimed : w.db.links.claimDue limit now = .ok links := hclaim.symm.trans hok
    exact (h.links link ((LinkTable.claimDue_spec hclaimed).2 link hlink).1).named
  | getByFileRecordId fileRecordId =>
    obtain ⟨hfind, hd⟩ := hserves
    rw [hd]
    refine ⟨h.links, fun found hok link hlink => ?_⟩
    have hfound : w.db.links.byFileRecordId fileRecordId = some link := by
      rw [← hlink]
      exact Except.ok.inj (hfind.symm.trans hok)
    exact (h.links link (LinkTable.byFileRecordId_some hfound).1).named
  | _ =>
    have hd : d = w.db := hserves
    rw [hd]
    exact ⟨h.links, fun _ _ => trivial⟩

theorem HandsOut.mono {c : SyncCmd} {a : c.Resp} (h : HandsOut V c a)
    (hVW : ∀ v, V v → W v) : HandsOut W c a := by
  cases c with
  | applyTransition linkId tr now => exact fun link hlink => (h link hlink).mono hVW
  | claimDue limit now => exact fun link hlink => (h link hlink).mono hVW
  | getByFileRecordId fileRecordId => exact fun link hlink => (h link hlink).mono hVW
  | _ => trivial

theorem clean_step {e : Operation × Time} (h : Clean w) (hstep : Step w e w') : Clean w' := by
  cases hstep with
  | request hrequest hcommitted => exact h.committed (fun _ _ => safe_program _ _ hrequest) hcommitted
  | enqueue hknown hcommitted =>
    exact h.committed (fun _ hV => safe_enqueue _ _ _ hknown hV) hcommitted
  | backfill hcommitted => exact h.committed (fun _ _ => safe_backfill _ _ _ _ _ _) hcommitted
  | retryFailed hcommitted =>
    exact h.committed (fun _ _ => (calm_retryFailedIndex _ _ _).safe _) hcommitted
  | @tick job now =>
    refine ⟨h.links, h.sent, fun p hp V hV => ?_⟩
    rcases List.mem_cons.1 hp with rfl | hold
    · exact all_bind (honest_run job now) fun _ => all_done _
    · exact h.running p hold V hV
  | @notify job enabled fileRecordIds now =>
    refine ⟨h.links, h.sent, fun p hp V hV => ?_⟩
    rcases List.mem_cons.1 hp with rfl | hold
    · exact honest_notify job enabled fileRecordIds now
    · exact h.running p hold V hV
  | @command c k x d rest now hperm hanswers =>
    have hissued := h.running _ (hperm.mem_iff.2 List.mem_cons_self)
    have hpermitted := (hissued (· ∈ w.seen) fun _ hv => hv).1
    obtain ⟨hlinks, hhanded⟩ := h.served hpermitted hanswers
    refine ⟨hlinks, ?_, fun p hp V hV => ?_⟩
    · -- What is sent now is permitted; the rest was sent before.
      intro c' hc' key userId hnamed
      have hcases : c' ∈ w.sent ∨ c' = c := by
        dsimp only at hc'
        split at hc'
        · exact (List.mem_append.1 hc').imp_right List.mem_singleton.1
        · exact .inl hc'
      rcases hcases with hold | rfl
      · exact h.sent c' hold key userId hnamed
      · cases c' <;> cases hnamed <;> exact hpermitted
    · rcases List.mem_cons.1 hp with rfl | hold
      · exact (hissued V hV).2 x fun a ha => (hhanded a ha).mono hV
      · exact h.running p (hperm.mem_iff.2 (List.mem_cons_of_mem _ hold)) V hV
  | leave hperm hinherits =>
    refine ⟨fun link hlink => ?_, h.sent, fun p hp => ?_⟩
    · obtain ⟨old, hold, hsame, hkey | ⟨_, _, hfalse⟩⟩ := hinherits link hlink
      · exact (h.links old hold).same hsame hkey
      · exact hfalse.elim
    · exact h.running p (hperm.mem_iff.2 (List.mem_cons_of_mem _ hp))

/-- From an empty queue, whatever runs: a queue row is for a stored record of the files or photos
section that is not encrypted, and a request to RAG names the owner and a path of such a record. -/
theorem private_unindexed {start : Db} (hqueue : start.links.rows = [])
    (h : Steps Step (fun _ _ => True) (.quiet start) w) :
    (∀ link ∈ w.db.links.rows, ∃ r ∈ w.db.records.rows,
      LinkOf (· ∈ w.seen) link r ∧ Indexable r) ∧
    ∀ c ∈ w.sent, ∀ key userId, named c = some (key, userId) →
      ∃ v ∈ w.seen, Indexable v ∧ v.userId = userId ∧ key ∈ objectKeys v := by
  have hclean : Clean w := by
    refine h.invariant ⟨fun link hlink => ?_, ?_, ?_⟩ fun _ _ _ hw _ hstep => clean_step hw hstep
    · have hnone : link ∈ start.links.rows := hlink
      rw [hqueue] at hnone
      exact absurd hnone List.not_mem_nil
    · exact fun _ hc => absurd hc List.not_mem_nil
    · exact fun _ hp => absurd hp List.not_mem_nil
  exact ⟨hclean.links, hclean.sent⟩

/-! ### One document and one vault file -/

open RagEntries (sampleJob sampleRecord)

def vaultRecord : FileRecord :=
  { sampleRecord with
    id := .ofDigit 6
    relativePath := "users/00000000-0000-0000-0000-000000000002/private/b.pdf".toList
    fileSection := .private
    isEncrypted := true }

def sampleDb : Db where
  records := ⟨[sampleRecord, vaultRecord], by decide⟩
  quotas := ∅
  links := .empty

def sampleQueue : Enqueue := ⟨true, ⟨true, 20000000, 0, 30⟩⟩

/-- The vault file is refused. -/
theorem sample_refused : Step (.quiet sampleDb)
    (.enqueue sampleQueue (.upload vaultRecord), 0) (.quiet sampleDb) := by
  have hread : vaultRecord ∈ sampleDb.records.rows := List.mem_cons_of_mem _ List.mem_cons_self
  exact .enqueue ⟨hread, .self hread⟩ (.commit (Exec.done _ _))

def queuedDb : Db :=
  (onLinks (fun t => t.upsertPending (.ofDigit 3) sampleRecord (RagEntries.sampleDecision []) 0)
    sampleDb).2

/-- Each of the two calls of the transaction finds the two records. -/
def queued : Backend :=
  { Backend.quiet queuedDb with
    seen := sampleDb.records.rows ++ sampleDb.records.rows ++ queuedDb.records.rows }

theorem sample_queued : Step (.quiet sampleDb)
    (.enqueue sampleQueue (.upload sampleRecord), 0) queued := by
  refine .enqueue ⟨List.mem_cons_self, .self List.mem_cons_self⟩ (.commit (a := ()) ?_)
  refine Exec.call (x := .ok (.ofDigit 3))
    (t := (sampleDb, sampleDb.records.rows ++ sampleDb.records.rows))
    ⟨⟨rfl, fun id hid => ?_⟩, rfl⟩ ?_
  · cases hid
    exact ⟨by decide, by decide⟩
  · exact Exec.call (t := (queuedDb, queued.seen)) ⟨rfl, rfl⟩ (Exec.done _ _)

/-- Everything answers, and RAG takes the registration. -/
def sampleAnswer : (c : SyncCmd) → Db → Except Exc c.Resp × Db
  | .applyTransition linkId tr now, d => onLinks (fun t => t.applyTransition linkId tr now) d
  | .claimDue limit now, d => (d.links.claimDue limit now, d)
  | .getByFileRecordId fileRecordId, d => (.ok (d.links.byFileRecordId fileRecordId), d)
  | .originalName _, d => (.ok none, d)
  | .objectExists _, d => (.ok true, d)
  | .objectRead _, d => (.ok [], d)
  | .objectSize _, d => (.ok 0, d)
  | .register .., d => (.ok ⟨.ofDigit 4, "uploaded".toList, none⟩, d)
  | .rekey ragFileId .., d => (.ok ⟨ragFileId, "ready".toList, none⟩, d)
  | .deleteVectors .., d => (.ok (), d)
  | .getFile ragFileId _, d => (.ok ⟨ragFileId, "ready".toList, none⟩, d)

theorem answers_sampleAnswer (c : SyncCmd) (d : Db) :
    SyncAnswers c d (sampleAnswer c d).1 (sampleAnswer c d).2 := by
  cases c with
  | applyTransition linkId tr now => exact .inr rfl
  | claimDue limit now => exact .inr ⟨rfl, rfl⟩
  | getByFileRecordId fileRecordId => exact .inr ⟨rfl, rfl⟩
  | _ => exact .inr rfl

/-- The answers, with a note of what is sent. -/
def notingAnswer (c : SyncCmd) (s : Db × List SyncCmd) :
    Except Exc c.Resp × (Db × List SyncCmd) :=
  ((sampleAnswer c s.1).1, (sampleAnswer c s.1).2,
    if (named c).isSome then s.2 ++ [c] else s.2)

/-- A program that is under way can be answered to its end. -/
theorem steps_answered {start : Backend} (p : Sync Unit) (d : Db) (seen : List FileRecord)
    (sent : List SyncCmd) (h : Steps Step (fun _ _ => True) start ⟨d, seen, sent, [p]⟩) :
    Steps Step (fun _ _ => True) start
      ⟨(p.run notingAnswer (d, sent)).2.1, seen, (p.run notingAnswer (d, sent)).2.2,
        [.done (p.run notingAnswer (d, sent)).1]⟩ := by
  induction p generalizing d sent with
  | done r => exact h
  | call c k ih =>
    have hstep : Step ⟨d, seen, sent, [.call c k]⟩ (.command, 0)
        ⟨(sampleAnswer c d).2, seen, if (named c).isSome then sent ++ [c] else sent,
          [k (sampleAnswer c d).1]⟩ := .command (.refl _) (answers_sampleAnswer c d)
    exact ih _ _ _ (h.tail trivial hstep)

def tickProgram : Sync Unit := (sampleJob.run 0).bind fun _ => done (.ok ())

/-- What is there after the tick. -/
def ticked : Backend where
  db := (tickProgram.run notingAnswer (queuedDb, [])).2.1
  seen := queued.seen
  sent := (tickProgram.run notingAnswer (queuedDb, [])).2.2
  running := [.done (tickProgram.run notingAnswer (queuedDb, [])).1]

/-- The vault file is refused, and the document is queued and registered under its own path. -/
theorem private_unindexed_sample :
    Step (.quiet sampleDb) (.enqueue sampleQueue (.upload vaultRecord), 0) (.quiet sampleDb) ∧
    ticked.sent.map named = [some (sampleRecord.relativePath, sampleRecord.userId)] ∧
    (∀ link ∈ ticked.db.links.rows, ∃ r ∈ ticked.db.records.rows,
      LinkOf (· ∈ ticked.seen) link r ∧ Indexable r) ∧
    ∀ c ∈ ticked.sent, ∀ key userId, named c = some (key, userId) →
      ∃ v ∈ ticked.seen, Indexable v ∧ v.userId = userId ∧ key ∈ objectKeys v := by
  have hrefused : Steps Step (fun _ _ => True) (.quiet sampleDb) (.quiet sampleDb) :=
    Steps.tail Steps.refl trivial sample_refused
  have hqueued : Steps Step (fun _ _ => True) (.quiet sampleDb) queued :=
    hrefused.tail trivial sample_queued
  have htick : Step queued (.tick sampleJob, 0) ⟨queuedDb, queued.seen, [], [tickProgram]⟩ := .tick
  have hticking := hqueued.tail trivial htick
  have hticked : Steps Step (fun _ _ => True) (.quiet sampleDb) ticked :=
    steps_answered tickProgram queuedDb queued.seen [] hticking
  exact ⟨sample_refused, by decide, private_unindexed rfl hticked⟩

end WebStorage.PrivateUnindexed
