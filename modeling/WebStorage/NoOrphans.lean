import WebStorage.WorkerEntries

set_option autoImplicit false

/-! Runs of one link: uploads, overwrites, renames, the deletion and the administrator's reset,
with worker transactions in between that commit or die. -/
namespace WebStorage.RagEntries
open Effect Effect.Prog
open LinkTable (contentChangedTransition rekeyTransition removedTransition retryTransition)

/-- What happens to the link, one after the other. -/
inductive Event
  | tick (now : Time)
  | notify (fileRecordIds : List Uuid) (now : Time)
  | contentChanged (fileRecordId : Uuid) (payload : Bytes) (decision : RegistrationDecision)
      (now : Time)
  | rekey (fileRecordId : Uuid) (s3Key : Str) (now : Time)
  | removed (fileRecordIds : List Uuid) (now : Time)
  | retryFailed (limit : Int) (now : Time)

/-- A worker's transaction commits, or the process dies in it: then the row is the old one and
what RAG did stays. -/
inductive Transaction {α : Type} (p : Sync α) (w : World) : World → Prop
  | commit {a w'} : Exec Answers p w (.ok a) w' → Transaction p w w'
  | rollback {w'} : Reaches Answers p w w' → Transaction p w { w' with table := w.table }

inductive Step (job : IndexSyncJob) (w : World) : Event → World → Prop
  | tick {now w'} : Clock now → Transaction (job.run now) w w' → Step job w (.tick now) w'
  | notify {ids now w'} : Clock now → Transaction (notifyIndexLinks job true ids now) w w' →
      Step job w (.notify ids now) w'
  | contentChanged {id payload decision now link table} :
      decision.contentSha256 = none ∨ decision.contentSha256 = some (job.sha256 payload) →
      w.table.markContentChanged id decision now = .ok (some link, table) →
      Step job w (.contentChanged id payload decision now) ⟨table, w.live, payload⟩
  | rekey {id s3Key now link table} : w.table.markRekey id s3Key now = .ok (link, table) →
      Step job w (.rekey id s3Key now) { w with table := table }
  | removed {ids now links table} : w.table.markRemoved ids now = .ok (links, table) →
      Step job w (.removed ids now) { w with table := table }
  | retryFailed {limit now n table} : w.table.retryFailed limit now = .ok (n, table) →
      Step job w (.retryFailed limit now) { w with table := table }

/-- The upload has queued the link, and RAG has not heard of it. -/
structure Start (job : IndexSyncJob) (w : World) : Prop where
  queued : ∃ id record decision now link,
    LinkTable.empty.upsertPending id record decision now = .ok (some link, w.table) ∧
      (decision.contentSha256 = none ∨ decision.contentSha256 = some (job.sha256 w.payload))
  live : w.live = []

/-- Every live entry is the one its row names. -/
def Settled (w : World) : Prop := ∀ row ∈ w.table.rows, ∀ f ∈ w.live, row.ragFileId = some f.id

/-- New content and the removal wait until no entry is hidden from the row, and so does a reset
that would poll the id the row has. -/
def Allowed (job : IndexSyncJob) (w : World) : Event → Prop
  | .contentChanged _ payload _ _ => Settled w ∨ job.sha256 payload = job.sha256 w.payload
  | .removed .. => Settled w
  | .retryFailed .. => Settled w ∨ ∀ row ∈ w.table.rows, row.ragFileId = none
  | _ => True

def NoOrphan (w : World) : Prop := ∀ row ∈ w.table.rows,
  (row.state = .indexed → ∃ f, w.live = [f] ∧ row.ragFileId = some f.id) ∧
  (row.state = .removed → row.nextAttemptAt = some confirmedRemovalAt → w.live = [])

def Inv (job : IndexSyncJob) (w : World) : Prop :=
  ∃ row, w.table = .one row ∧ LinkInv (job.sha256 w.payload) row w.live

section
variable {job : IndexSyncJob} {w w' : World}

theorem Transaction.inv {α : Type} {p : Sync α} (h : Transaction p w w')
    {row : IndexLink} (ht : w.table = .one row)
    (hp : wp Answers (Crash job row) p (fun _ => Good job row) w) : Inv job w' := by
  cases h with
  | commit hx =>
    obtain ⟨-, row', ht', -, hinv⟩ := wp_sound hp hx
    exact ⟨row', ht', hinv⟩
  | rollback hx =>
    have hcrash := wp_crash hp hx
    exact ⟨row, ht, hcrash⟩

theorem Inv.noOrphan (h : Inv job w) : NoOrphan w := by
  obtain ⟨row, ht, hinv⟩ := h
  intro row' hrow'
  rw [ht, LinkTable.one_rows, List.mem_singleton] at hrow'
  subst hrow'
  refine ⟨fun hi => ?_, hinv.confirmed⟩
  obtain ⟨f, hf, hr⟩ := hinv.indexed hi
  exact ⟨f, hinv.eq_singleton hf, hr⟩

theorem Start.inv (h : Start job w) : Inv job w := by
  obtain ⟨id, record, decision, now, link, hq, hd⟩ := h.queued
  simp only [LinkTable.upsertPending] at hq
  split_ifs at hq with hp he
  · cases hq
  simp only [LinkTable.byFileRecordId, LinkTable.empty, List.find?_nil, LinkTable.insert,
    List.nil_append, LinkTable.flush_singleton] at hq
  have ht : w.table = .one (LinkTable.insertedLink id record decision now) := by
    cases hq' : w.table
    rw [hq'] at hq
    cases hq
    rfl
  refine ⟨_, ht, ?_⟩
  rw [h.live]
  refine ⟨fun hs => hp (.inl hs), hd, by simp, by simp, fun hi => ?_, fun _ _ => rfl⟩
  simp only [LinkTable.insertedLink] at hi
  split at hi <;> cases hi

theorem LinkInv.contentChanged {digest digest' : Digest} {row : IndexLink} {live : List RagFile}
    {decision : RegistrationDecision} (now : Time) (h : LinkInv digest row live)
    (hd : decision.contentSha256 = none ∨ decision.contentSha256 = some digest')
    (hok : (∀ f ∈ live, row.ragFileId = some f.id) ∨ digest' = digest) :
    LinkInv digest' ((contentChangedTransition row.ragFileId decision).apply now row) live := by
  have hm : MayHide ((contentChangedTransition row.ragFileId decision).apply now row) := by
    cases hr : row.ragFileId <;>
      simp [MayHide, Transition.apply, Transition.assign, contentChangedTransition, hr]
  refine ⟨h.section_ne, hd, h.single, ?_, fun hi => absurd hi hm.1, fun hi => absurd hi hm.2.1⟩
  intro f hf hne
  rcases hok with hok | rfl
  · exact absurd (hok f hf) hne
  · exact ⟨hm, (h.hidden f hf hne).2⟩

theorem LinkInv.rekeyed {digest : Digest} {row : IndexLink} {live : List RagFile}
    (s3Key : Str) (now : Time) (h : LinkInv digest row live) :
    LinkInv digest ((rekeyTransition s3Key now).apply now row) live := by
  have hm : MayHide ((rekeyTransition s3Key now).apply now row) := by
    simp [MayHide, Transition.apply, Transition.assign, rekeyTransition]
  refine ⟨h.section_ne, h.content, h.single, ?_, fun hi => absurd hi hm.1,
    fun hi => absurd hi hm.2.1⟩
  intro f hf hne
  exact ⟨hm, (h.hidden f hf hne).2⟩

theorem LinkInv.removed {digest : Digest} {row : IndexLink} {live : List RagFile} (now : Time)
    (h : LinkInv digest row live) (hok : ∀ f ∈ live, row.ragFileId = some f.id) :
    LinkInv digest (removedTransition.apply now row) live :=
  ⟨h.section_ne, h.content, h.single, fun f hf hne => absurd (hok f hf) hne,
    (fun hi => by cases hi), (fun _ hs => by cases hs)⟩

theorem LinkInv.retried {digest : Digest} {row : IndexLink} {live : List RagFile} (now : Time)
    (h : LinkInv digest row live)
    (hok : (∀ f ∈ live, row.ragFileId = some f.id) ∨ row.ragFileId = none) :
    LinkInv digest ((retryTransition row.ragFileId).apply now row) live := by
  have hstate : ((retryTransition row.ragFileId).apply now row).state = .submitted ∨
      ((retryTransition row.ragFileId).apply now row).state = .pending := by
    cases hr : row.ragFileId <;> simp [Transition.apply, Transition.assign, retryTransition, hr]
  refine ⟨h.section_ne, h.content, h.single, ?_, ?_, ?_⟩
  · intro f hf hne
    rcases hok with hok | hr
    · exact absurd (hok f hf) hne
    · refine ⟨?_, (h.hidden f hf hne).2⟩
      simp [MayHide, Transition.apply, Transition.assign, retryTransition, hr]
  · intro hi
    rcases hstate with hs | hs <;> simp [hs] at hi
  · intro hi
    rcases hstate with hs | hs <;> simp [hs] at hi

theorem Step.inv {e : Event} (h : Inv job w) (hok : Allowed job w e) (hst : Step job w e w') :
    Inv job w' := by
  obtain ⟨row, ht, hinv⟩ := h
  have hcrash : Crash job row w := hinv
  have hrow : row ∈ w.table.rows := by simp [ht]
  cases hst with
  | tick hn htr => exact htr.inv ht (keeps_run hn ht hinv)
  | notify hn htr =>
    refine htr.inv ht ?_
    simp only [notifyIndexLinks, if_true]
    exact keeps_notifyAll hn hinv _ (nodup_dictFromKeys _) ⟨row, ht, ⟨rfl, rfl⟩, hinv⟩ (.inl ht)
  | contentChanged hd hq =>
    rw [ht] at hq
    exact ⟨_, LinkTable.markContentChanged_one hinv.section_ne hq,
      hinv.contentChanged _ hd (hok.imp_left fun hs => hs row hrow)⟩
  | rekey hq =>
    rw [ht] at hq
    rcases LinkTable.markRekey_one hinv.section_ne hq with rfl | ⟨-, rfl⟩ | ⟨-, rfl⟩
    · exact ⟨row, rfl, hinv⟩
    · refine ⟨_, rfl, hinv.section_ne, hinv.content, hinv.single, ?_, hinv.indexed, hinv.confirmed⟩
      exact hinv.hidden
    · exact ⟨_, rfl, hinv.rekeyed _ _⟩
  | removed hq =>
    rw [ht] at hq
    obtain ⟨row', rfl, hinv', -⟩ := LinkTable.markRemoved_one
      (P := fun r => LinkInv (job.sha256 w.payload) r w.live ∧
        ∀ f ∈ w.live, r.ragFileId = some f.id)
      (fun r hr => ⟨hr.1.removed _ hr.2, hr.2⟩) (fun r hr => hr.1.section_ne)
      ⟨hinv, hok row hrow⟩ hq
    exact ⟨row', rfl, hinv'⟩
  | retryFailed hq =>
    rw [ht] at hq
    rcases LinkTable.retryFailed_one hinv.section_ne hq with rfl | ⟨-, rfl⟩
    · exact ⟨row, rfl, hinv⟩
    · exact ⟨_, rfl, hinv.retried _ (hok.imp (fun hs => hs row hrow) fun hr => hr row hrow)⟩

/-- As long as new content, the removal and a reset wait for hidden entries to be taken up, an
indexed link has one entry in RAG and a confirmed removal leaves none. -/
theorem no_orphan (h0 : Start job w) (h : Steps (Step job) (Allowed job) w w') : NoOrphan w' :=
  (h.invariant h0.inv fun _ _ _ => Step.inv).noOrphan

end

/-- RAG as it answers when calls go through, except that the answers to registrations can be
lost on the way back. -/
def ragAnswer (lose : Bool) (fresh : Uuid) :
    (c : SyncCmd) → World → Except Exc c.Resp × World
  | .applyTransition linkId tr now, w => match w.table.applyTransition linkId tr now with
    | .ok (link, table) => (.ok link, { w with table := table })
    | .error e => (.error e, w)
  | .claimDue limit now, w => (w.table.claimDue limit now, w)
  | .getByFileRecordId fileRecordId, w => (.ok (w.table.byFileRecordId fileRecordId), w)
  | .originalName _, w => (.ok none, w)
  | .objectExists _, w => (.ok true, w)
  | .objectRead _, w => (.ok w.payload, w)
  | .objectSize _, w => (.ok w.payload.length, w)
  | .register _ manifest _, w =>
    match w.live.find? (·.contentSha256 = manifest.contentSha256) with
    | some file => (.error (.ragHttp 409 (some errorDuplicateFile) (some file.id)), w)
    | none =>
      if ∀ f ∈ w.live, f.id ≠ fresh then
        (if lose then .error (.ragUnavailable (some errorTimeout))
          else .ok ⟨fresh, "uploaded".toList, none⟩,
          { w with live := ⟨fresh, manifest.contentSha256, manifest.s3Key⟩ :: w.live })
      else (.error (.ragUnavailable none), w)
  | .rekey .., w => (.error (.ragUnavailable none), w)
  | .deleteVectors ragFileId _, w =>
    if ∃ f ∈ w.live, f.id = ragFileId then
      (.ok (), { w with live := w.live.filter (·.id ≠ ragFileId) })
    else (.error (.ragHttp 404 none none), w)
  | .getFile ragFileId _, w =>
    if ∃ f ∈ w.live, f.id = ragFileId then (.ok ⟨ragFileId, "ready".toList, none⟩, w)
    else (.error (.ragHttp 404 none none), w)

theorem lostAnswer_unavailable {α : Type} (code : Option String) :
    LostAnswer (.error (.ragUnavailable code) : Except Exc α) :=
  ⟨.ragUnavailable code, trivial, rfl⟩

theorem not_goneStatus_ready : ¬ GoneStatus "ready".toList := by
  unfold GoneStatus
  decide

theorem answers_ragAnswer (lose : Bool) (fresh : Uuid) (c : SyncCmd) (w : World) :
    Answers c w (ragAnswer lose fresh c w).1 (ragAnswer lose fresh c w).2 := by
  cases c with
  | applyTransition linkId tr now =>
    simp only [Answers, ragAnswer]
    split <;> simp_all
  | register collection manifest userId =>
    simp only [Answers, ragAnswer, Registers]
    cases hfind : w.live.find? (·.contentSha256 = manifest.contentSha256) with
    | some file => exact ⟨rfl, .inl rfl⟩
    | none =>
      dsimp only
      split
      · rename_i hfresh
        refine .inr ⟨⟨fresh, "uploaded".toList, none⟩, hfresh, rfl, ?_⟩
        cases lose
        · exact .inl rfl
        · exact .inr (lostAnswer_unavailable _)
      · exact .inl ⟨rfl, lostAnswer_unavailable _⟩
  | rekey ragFileId target userId =>
    simp only [Answers, ragAnswer, Rekeys]
    split
    · exact ⟨trivial, .inr (lostAnswer_unavailable _)⟩
    · exact .inl ⟨trivial, .inr (lostAnswer_unavailable _)⟩
  | deleteVectors ragFileId userId =>
    simp only [Answers, ragAnswer, Deletes]
    split
    · exact .inr ⟨rfl, .inl rfl⟩
    · exact ⟨rfl, .inr (.inr ⟨404, none, none, rfl, rfl⟩)⟩
  | getFile ragFileId userId =>
    simp only [Answers, ragAnswer, Polls]
    split
    · exact ⟨rfl, .inr ⟨_, rfl, not_goneStatus_ready, rfl⟩⟩
    · exact ⟨rfl, .inr (.inl ⟨none, none, rfl⟩)⟩
  | _ => simp [Answers, ragAnswer]

def sampleJob : IndexSyncJob where
  batchSize := 50
  maxAttempts := 8
  maxWaitSeconds := 3600
  sha256 payload := if payload = [] then
      "e3b0c44298fc1c149afbf4c8996fb92427ae41e4649b934ca495991b7852b855"
    else "ca978112ca1bbdcafac231b39a23dc4da786eff8147c4e72b9807785afee48bb"

def sampleRecord : FileRecord where
  id := .ofDigit 1
  userId := .ofDigit 2
  relativePath := "users/00000000-0000-0000-0000-000000000002/files/a.pdf".toList
  originalName := "a.pdf".toList
  sizeBytes := 0
  isEncrypted := false
  fileSection := .files
  status := .committed
  checksumSha256 := some "e3b0c44298fc1c149afbf4c8996fb92427ae41e4649b934ca495991b7852b855"
  createdAt := 0
  lastAccessedAt := 0
  isArchived := false
  archivePath := none

def sampleDecision (payload : Bytes) : RegistrationDecision where
  kind := .document
  s3Key := sampleRecord.relativePath
  contentType := pdfContentType
  contentSha256 := some (sampleJob.sha256 payload)
  skipCode := none
  skip_iff := by decide
  preview_hash := nofun
  key_ne := by decide
  type_ne := by decide

def uploadedLink : IndexLink :=
  LinkTable.insertedLink (.ofDigit 3) sampleRecord (sampleDecision []) 0

def uploaded : World := ⟨.one uploadedLink, [], []⟩

/-- One tick in which RAG answers by `ragAnswer`. -/
def ticked (lose : Bool) (fresh : Uuid) (now : Time) (w : World) : World :=
  (Prog.run (ragAnswer lose fresh) (sampleJob.run now) w).2

def overwritten (w : World) : World :=
  match w.table.markContentChanged sampleRecord.id (sampleDecision [97]) 1000000 with
  | .ok (_, table) => ⟨table, w.live, [97]⟩
  | .error _ => w

theorem start_uploaded : Start sampleJob uploaded where
  queued := ⟨.ofDigit 3, sampleRecord, sampleDecision [], 0, uploadedLink, rfl, .inr rfl⟩
  live := rfl

theorem step_ticked {lose : Bool} {fresh : Uuid} {now : Int} {w : World}
    {result : IndexSyncResult} (hn : Clock now)
    (hr : (Prog.run (ragAnswer lose fresh) (sampleJob.run now) w).1 = .ok result) :
    Step sampleJob w (.tick now) (ticked lose fresh now w) :=
  .tick hn (.commit (hr ▸ exec_run (answers_ragAnswer lose fresh) _ w))

def lostWorld : World := ticked true (.ofDigit 4) 0 uploaded
def retriedWorld : World := ticked false (.ofDigit 5) 100000000 lostWorld
def polledWorld : World := ticked false (.ofDigit 5) 200000000 retriedWorld

/-- A registration whose answer was lost is found again by the retry. -/
theorem no_orphan_retried : NoOrphan polledWorld ∧
    polledWorld.table.rows.map (·.state) = [.indexed] := by
  have h1 : Step sampleJob uploaded (.tick 0) lostWorld := step_ticked (by decide) rfl
  have h2 : Step sampleJob lostWorld (.tick 100000000) retriedWorld :=
    step_ticked (by decide) rfl
  have h3 : Step sampleJob retriedWorld (.tick 200000000) polledWorld :=
    step_ticked (by decide) rfl
  refine ⟨no_orphan start_uploaded (.tail (.tail (.tail .refl ?_ h1) ?_ h2) ?_ h3), rfl⟩
  · trivial
  · trivial
  · trivial

def overwrittenWorld : World := overwritten lostWorld
def reregisteredWorld : World := ticked false (.ofDigit 5) 100000000 overwrittenWorld
def orphanedWorld : World := ticked false (.ofDigit 5) 200000000 reregisteredWorld

/-- An overwrite between the lost registration and its retry leaves the first entry behind. -/
theorem orphan_after_overwrite : Start sampleJob uploaded ∧
    Steps (Step sampleJob) (fun _ _ => True) uploaded orphanedWorld ∧
    ¬ NoOrphan orphanedWorld := by
  have h1 : Step sampleJob uploaded (.tick 0) lostWorld := step_ticked (by decide) rfl
  have h2 : Step sampleJob lostWorld
      (.contentChanged sampleRecord.id [97] (sampleDecision [97]) 1000000) overwrittenWorld :=
    .contentChanged (.inr rfl) rfl
  have h3 : Step sampleJob overwrittenWorld (.tick 100000000) reregisteredWorld :=
    step_ticked (by decide) rfl
  have h4 : Step sampleJob reregisteredWorld (.tick 200000000) orphanedWorld :=
    step_ticked (by decide) rfl
  refine ⟨start_uploaded, .tail (.tail (.tail (.tail .refl trivial h1) trivial h2)
    trivial h3) trivial h4, ?_⟩
  intro h
  have hlen : orphanedWorld.live.length = 2 := rfl
  obtain ⟨row, hrow, hstate⟩ : ∃ row ∈ orphanedWorld.table.rows, row.state = .indexed :=
    ⟨_, List.mem_cons_self, rfl⟩
  obtain ⟨f, hf, -⟩ := (h row hrow).1 hstate
  rw [hf] at hlen
  simp at hlen

end WebStorage.RagEntries
