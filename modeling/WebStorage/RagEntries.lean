import WebStorage.SyncJob

set_option autoImplicit false

/-! RAG as the set of live files that originated from one link, the worker that talks to it
over calls whose answers can be lost, and the requests that change the link in between. No
other link has the same content, so no other file of the user takes part. -/
namespace WebStorage.RagEntries
open Effect

structure RagFile where
  id : Uuid
  contentSha256 : Digest
  s3Key : Str
deriving DecidableEq

structure World where
  table : LinkTable
  live : List RagFile
  /-- The bytes under the key that the link names. -/
  payload : Bytes

/-- An answer that leaves it open whether RAG carried the call out. -/
def Lost : Exc → Prop
  | .ragUnavailable _ => True
  | .ragHttp statusCode _ _ => statusCode ≠ 404 ∧ statusCode ≠ 409
  | .other => True
  | _ => False

def LostAnswer {α : Type} (x : Except Exc α) : Prop := ∃ e, Lost e ∧ x = .error e

/-- RAG reports a file that it is deleting. -/
def GoneStatus (status : Str) : Prop :=
  Text.lower (Text.strip status) = "deleting".toList ∨
    Text.lower (Text.strip status) = "deleted".toList

def Registers (manifest : RagManifest) (w : World) (x : Except Exc RagFileCard) (w' : World) :
    Prop :=
  match w.live.find? (·.contentSha256 = manifest.contentSha256) with
  | some file => w' = w ∧
      (x = .error (.ragHttp 409 (some errorDuplicateFile) (some file.id)) ∨ LostAnswer x)
  | none => (w' = w ∧ LostAnswer x) ∨ ∃ card : RagFileCard, (∀ f ∈ w.live, f.id ≠ card.fileId) ∧
      w' = { w with live := ⟨card.fileId, manifest.contentSha256, manifest.s3Key⟩ :: w.live } ∧
      (x = .ok card ∨ LostAnswer x)

def Rekeys (ragFileId : Uuid) (target : RagObjectKey) (w : World) (x : Except Exc RagFileCard)
    (w' : World) : Prop :=
  match w.live.find? (·.id = ragFileId) with
  | none => w' = w ∧ ((∃ code file, x = .error (.ragHttp 404 code file)) ∨ LostAnswer x)
  | some file =>
    (w' = w ∧ ((∃ d, x = .error (.ragHttp 409 (some errorContentChanged) d)) ∨ LostAnswer x)) ∨
    (file.contentSha256 = target.contentSha256 ∧
      w' = { w with live := w.live.map fun f =>
        if f.id = ragFileId then { f with s3Key := target.s3Key } else f } ∧
      ((∃ card : RagFileCard, card.fileId = ragFileId ∧ x = .ok card) ∨ LostAnswer x))

def Deletes (ragFileId : Uuid) (w : World) (x : Except Exc Unit) (w' : World) : Prop :=
  if ∃ f ∈ w.live, f.id = ragFileId then
    (w' = w ∧ LostAnswer x) ∨
    (w' = { w with live := w.live.filter (·.id ≠ ragFileId) } ∧ (x = .ok () ∨ LostAnswer x))
  else w' = w ∧ (x = .ok () ∨ LostAnswer x ∨ ∃ statusCode errorCode file,
    vectorsAlreadyGone statusCode errorCode ∧ x = .error (.ragHttp statusCode errorCode file))

def Polls (ragFileId : Uuid) (w : World) (x : Except Exc RagFileCard) (w' : World) : Prop :=
  w' = w ∧
  if ∃ f ∈ w.live, f.id = ragFileId then
    LostAnswer x ∨ ∃ card : RagFileCard, card.fileId = ragFileId ∧ ¬ GoneStatus card.status ∧
      x = .ok card
  else
    LostAnswer x ∨ (∃ code file, x = .error (.ragHttp 404 code file)) ∨
      ∃ card : RagFileCard, GoneStatus card.status ∧ x = .ok card

/-- What a worker's command can be answered. The queue is exact; the object store may be
unreadable, and a read yields the bytes that are there. -/
def Answers : Handler SyncCmd.Resp Exc World
  | .applyTransition linkId tr now, w, x, w' =>
    match w.table.applyTransition linkId tr now with
    | .ok (link, table) => x = .ok link ∧ w' = { w with table := table }
    | .error e => x = .error e ∧ w' = w
  | .claimDue limit now, w, x, w' => x = w.table.claimDue limit now ∧ w' = w
  | .getByFileRecordId fileRecordId, w, x, w' =>
    x = .ok (w.table.byFileRecordId fileRecordId) ∧ w' = w
  | .originalName _, w, _, w' => w' = w
  | .objectExists _, w, _, w' => w' = w
  | .objectRead _, w, x, w' => w' = w ∧ ∀ payload : Bytes, x = .ok payload → payload = w.payload
  | .objectSize _, w, _, w' => w' = w
  | .register _ manifest _, w, x, w' => Registers manifest w x w'
  | .rekey ragFileId target _, w, x, w' => Rekeys ragFileId target w x w'
  | .deleteVectors ragFileId _, w, x, w' => Deletes ragFileId w x w'
  | .getFile ragFileId _, w, x, w' => Polls ragFileId w x w'

/-- A row whose link may have an entry in RAG that the row does not name. -/
def MayHide (row : IndexLink) : Prop :=
  row.state ≠ .indexed ∧ row.state ≠ .removed ∧ row.state ≠ .archived ∧
    (row.state = .submitted → row.ragFileId = none)

/-- What ties the row to RAG. An entry the row does not name holds the current content, so
that the next registration is answered with it. -/
structure LinkInv (digest : Digest) (row : IndexLink) (live : List RagFile) : Prop where
  section_ne : row.fileSection ≠ .private
  content : row.contentSha256 = none ∨ row.contentSha256 = some digest
  single : live.length ≤ 1
  hidden : ∀ f ∈ live, row.ragFileId ≠ some f.id → MayHide row ∧ f.contentSha256 = digest
  indexed : row.state = .indexed → ∃ f ∈ live, row.ragFileId = some f.id
  confirmed : row.state = .removed → row.nextAttemptAt = some confirmedRemovalAt → live = []

/-- A clock that leaves room for the longest backoff before the removal stamp. -/
def Clock (now : Int) : Prop := now + 3600 * 1000000 < confirmedRemovalAt

instance : DecidablePred Clock := fun _ => inferInstanceAs (Decidable (_ < _))

namespace LinkInv
variable {digest : Digest} {row : IndexLink} {live : List RagFile}

theorem giveUp (h : LinkInv digest row live) {tr : Transition} (now : Time)
    (hs : tr.state = some .failed ∨ tr.state = some .skipped ∨ tr.state = some .reindexPending)
    (hr : tr.ragFileId = none) (hc : tr.contentSha256 = none) :
    LinkInv digest (tr.apply now row) live := by
  have hrag : (tr.apply now row).ragFileId = row.ragFileId := by
    simp [Transition.apply, Transition.assign, hr]
  have hsha : (tr.apply now row).contentSha256 = row.contentSha256 := by
    simp [Transition.apply, Transition.assign, hc]
  have hide : MayHide (tr.apply now row) := by
    rcases hs with hs | hs | hs <;> simp [MayHide, Transition.apply, Transition.assign, hs]
  refine ⟨h.section_ne, ?_, h.single, ?_, fun hi => absurd hi hide.1, fun hi => absurd hi hide.2.1⟩
  · rw [hsha]
    exact h.content
  · intro f hf hne
    exact ⟨hide, (h.hidden f hf (hrag ▸ hne)).2⟩

theorem later (h : LinkInv digest row live) {tr : Transition} (now : Time)
    (hs : tr.state = none) (hr : tr.ragFileId = none) (hc : tr.contentSha256 = none)
    (hn : tr.nextAttemptAt ≠ some (some confirmedRemovalAt)) :
    LinkInv digest (tr.apply now row) live := by
  have hstate : (tr.apply now row).state = row.state := by
    simp [Transition.apply, Transition.assign, hs]
  have hrag : (tr.apply now row).ragFileId = row.ragFileId := by
    simp [Transition.apply, Transition.assign, hr]
  have hsha : (tr.apply now row).contentSha256 = row.contentSha256 := by
    simp [Transition.apply, Transition.assign, hc]
  refine ⟨h.section_ne, ?_, h.single, ?_, ?_, ?_⟩
  · rw [hsha]
    exact h.content
  · intro f hf hne
    simpa only [MayHide, hstate, hrag] using h.hidden f hf (hrag ▸ hne)
  · rw [hstate, hrag]
    exact h.indexed
  · intro hi hstamp
    rw [hstate] at hi
    apply h.confirmed hi
    cases hnext : tr.nextAttemptAt with
    | none => simpa [Transition.apply, Transition.assign, hnext] using hstamp
    | some next =>
      have : next = some confirmedRemovalAt := by
        simpa [Transition.apply, Transition.assign, hnext] using hstamp
      exact absurd (hnext.trans (congrArg some this)) hn

theorem filter (h : LinkInv digest row live) (hi : row.state ≠ .indexed) (p : RagFile → Bool) :
    LinkInv digest row (live.filter p) where
  section_ne := h.section_ne
  content := h.content
  single := (List.length_filter_le p live).trans h.single
  hidden f hf := h.hidden f (List.mem_of_mem_filter hf)
  indexed hi' := absurd hi' hi
  confirmed hr hs := by rw [h.confirmed hr hs, List.filter_nil]

theorem map (h : LinkInv digest row live) (g : RagFile → RagFile) (hid : ∀ f, (g f).id = f.id)
    (hsha : ∀ f, (g f).contentSha256 = f.contentSha256) : LinkInv digest row (live.map g) where
  section_ne := h.section_ne
  content := h.content
  single := by simpa using h.single
  hidden f hf hne := by
    obtain ⟨f, hmem, rfl⟩ := List.mem_map.1 hf
    rw [hid] at hne
    rw [hsha]
    exact h.hidden f hmem hne
  indexed hi := by
    obtain ⟨f, hf, hr⟩ := h.indexed hi
    exact ⟨g f, List.mem_map_of_mem hf, by rw [hid, hr]⟩
  confirmed hr hs := by rw [h.confirmed hr hs, List.map_nil]

end LinkInv

theorem backoff_le (attempts : Nat) : backoff attempts ≤ 3600 * 1000000 :=
  Int.mul_le_mul_of_nonneg_right (min_le_left _ _) (by decide)

theorem backoff_ne {now : Int} (h : Clock now) (attempts : Nat) :
    some (some (now + backoff attempts)) ≠ some (some confirmedRemovalAt) := by
  have hb := backoff_le attempts
  have hc : now + 3600 * 1000000 < confirmedRemovalAt := h
  intro he
  have hn : now + backoff attempts = confirmedRemovalAt := by simpa using he
  omega

end WebStorage.RagEntries
