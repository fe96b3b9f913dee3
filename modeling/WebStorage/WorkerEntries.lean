import WebStorage.RagEntries

set_option autoImplicit false

/-! What one worker transaction does to a link and to RAG, at its end and wherever it is cut
off. -/
namespace WebStorage.RagEntries
open Effect Effect.Prog IndexSyncJob

section
variable (job : IndexSyncJob) (row₀ : IndexLink)

/-- The row that a rollback restores still fits RAG. -/
def Crash (w : World) : Prop := LinkInv (job.sha256 w.payload) row₀ w.live

def SameLink (row row' : IndexLink) : Prop :=
  row.id = row'.id ∧ row.fileRecordId = row'.fileRecordId

/-- The row in the session fits RAG. -/
def Good (w : World) : Prop :=
  ∃ row, w.table = .one row ∧ SameLink row row₀ ∧ LinkInv (job.sha256 w.payload) row w.live

variable {job row₀} {now : Int} {link row : IndexLink} {w : World}

theorem wp_write {tr : Transition} {Q : Except Exc (Option IndexLink) → World → Prop}
    (ht : w.table = .one row) (hid : link.id = row.id) (hs : row.fileSection ≠ .private)
    (hc : Crash job row₀ w)
    (hq : Q (.ok (some (tr.apply now row))) { w with table := .one (tr.apply now row) }) :
    wp Answers (Crash job row₀) (write link now tr) Q w := by
  refine ⟨hc, ?_⟩
  intro x w' hx
  simp only [Answers, ht, hid, LinkTable.applyTransition_one row tr now hs] at hx
  obtain ⟨rfl, rfl⟩ := hx
  exact ⟨hc, hq⟩

theorem keeps_write {tr : Transition} {o : Outcome} (hid : link.id = row₀.id)
    (hc : Crash job row₀ w) (hg : Good job row₀ w)
    (hk : ∀ row, LinkInv (job.sha256 w.payload) row w.live →
      LinkInv (job.sha256 w.payload) (tr.apply now row) w.live) :
    wp Answers (Crash job row₀) ((write link now tr).bind fun _ => done (.ok o))
      (fun _ => Good job row₀) w := by
  obtain ⟨row, ht, hr, hinv⟩ := hg
  rw [wp_bind]
  refine wp_write ht (hid.trans hr.1.symm) hinv.section_ne hc ?_
  exact ⟨hc, tr.apply now row, rfl, hr, hk row hinv⟩

theorem keeps_fail (code : String) (hid : link.id = row₀.id) (hc : Crash job row₀ w)
    (hg : Good job row₀ w) :
    wp Answers (Crash job row₀) (fail link now code) (fun _ => Good job row₀) w :=
  keeps_write hid hc hg fun _ h => h.giveUp now (.inl rfl) rfl rfl

theorem keeps_skip (code : String) (hid : link.id = row₀.id) (hc : Crash job row₀ w)
    (hg : Good job row₀ w) :
    wp Answers (Crash job row₀) (skip link now code) (fun _ => Good job row₀) w :=
  keeps_write hid hc hg fun _ h => h.giveUp now (.inr (.inl rfl)) rfl rfl

theorem keeps_scheduleRetry (hn : Clock now) (code : String) (hid : link.id = row₀.id)
    (hc : Crash job row₀ w) (hg : Good job row₀ w) :
    wp Answers (Crash job row₀) (scheduleRetry job link now code) (fun _ => Good job row₀) w := by
  simp only [scheduleRetry]
  split
  · exact keeps_write hid hc hg fun _ h => h.giveUp now (.inl rfl) rfl rfl
  · exact keeps_write hid hc hg fun _ h => h.later now rfl rfl rfl (backoff_ne hn _)

theorem keeps_missObject (hn : Clock now) (hid : link.id = row₀.id) (hc : Crash job row₀ w)
    (hg : Good job row₀ w) :
    wp Answers (Crash job row₀) (missObject job link now) (fun _ => Good job row₀) w := by
  simp only [missObject]
  split
  · exact keeps_fail _ hid hc hg
  · split
    · exact keeps_write hid hc hg fun _ h => h.giveUp now (.inr (.inl rfl)) rfl rfl
    · exact keeps_write hid hc hg fun _ h => h.later now rfl rfl rfl (backoff_ne hn _)

/-- What reading the object yields: the digest of the bytes that are there, or an outcome. -/
def Located (job : IndexSyncJob) (row₀ : IndexLink) (w : World) {α : Type}
    (digestOf : α → Digest) : Except Exc (Outcome ⊕ α) → World → Prop
  | .ok (.inr a), w' => w' = w ∧ digestOf a = job.sha256 w.payload
  | .ok (.inl _), w' => Good job row₀ w'
  | .error _, w' => Good job row₀ w'

/-- Ending a reading with the outcome of a write. -/
theorem located_outcome {α : Type} (digestOf : α → Digest) {p : Sync Outcome}
    (hp : wp Answers (Crash job row₀) p (fun _ => Good job row₀) w) :
    wp Answers (Crash job row₀) (p.bind fun o => done (.ok (.inl o)))
      (Located job row₀ w digestOf) w := by
  rw [wp_bind]
  refine wp_mono hp ?_
  rintro (e | o) w' hc hg
  · exact hg
  · exact ⟨hc, hg⟩

theorem located_readPayloadHash (hn : Clock now) (hid : link.id = row₀.id)
    (hc : Crash job row₀ w) (hg : Good job row₀ w) :
    wp Answers (Crash job row₀) (readPayloadHash job link now)
      (Located job row₀ w Prod.fst) w := by
  simp only [readPayloadHash, bind_eq, pure_eq, wp_bind (Prog.attempt _), wp_attempt]
  refine ⟨hc, ?_⟩
  rintro x w' ⟨rfl, hx⟩
  refine ⟨hc, ?_⟩
  rcases x with e | payload
  · split
    · rename_i heq
      cases heq
    · exact located_outcome _ (keeps_missObject hn hid hc hg)
    · exact ⟨hc, hg⟩
  · exact ⟨hc, rfl, by rw [hx payload rfl]⟩

theorem located_readObjectHash (hn : Clock now) (hid : link.id = row₀.id)
    (hc : Crash job row₀ w) (hg : Good job row₀ w) :
    wp Answers (Crash job row₀) (readObjectHash job link now)
      (Located job row₀ w Prod.fst) w := by
  have hmiss := located_outcome (Prod.fst : Digest × Nat → Digest)
    (keeps_missObject hn hid hc hg)
  have hread := located_readPayloadHash hn hid hc hg
  simp only [readObjectHash, bind_eq, pure_eq, wp_bind (objectPresent _)]
  refine wp_catchWith ⟨hc, ?_⟩
  rintro x w' rfl
  refine ⟨hc, ?_⟩
  rcases x with e | present
  · dsimp only
    split
    · exact ⟨hc, hmiss⟩
    · exact ⟨hc, hg⟩
  · cases present with
    | false => exact hmiss
    | true => exact hread

theorem located_locate (hn : Clock now) (hid : link.id = row₀.id) (hc : Crash job row₀ w)
    (hg : Good job row₀ w)
    (hl : link.contentSha256 = none ∨ link.contentSha256 = some (job.sha256 w.payload)) :
    wp Answers (Crash job row₀) (locate job link now) (Located job row₀ w Prod.fst) w := by
  rcases hl with hl | hl
  · simp only [locate, hl]
    exact located_readObjectHash hn hid hc hg
  · simp only [locate, hl, bind_eq, pure_eq, wp_bind (Prog.attempt _), wp_attempt]
    refine ⟨hc, ?_⟩
    rintro x w' rfl
    refine ⟨hc, ?_⟩
    rcases x with e | size
    · split
      · rename_i heq
        cases heq
      · exact located_outcome _ (keeps_fail _ hid hc hg)
      · exact ⟨hc, hg⟩
    · exact ⟨hc, rfl, rfl⟩

theorem located_manifest (hn : Clock now) (hid : link.id = row₀.id) (hc : Crash job row₀ w)
    (hg : Good job row₀ w)
    (hl : link.contentSha256 = none ∨ link.contentSha256 = some (job.sha256 w.payload)) :
    wp Answers (Crash job row₀) (manifest job link now)
      (Located job row₀ w RagManifest.contentSha256) w := by
  simp only [manifest, bind_eq, wp_bind]
  refine wp_mono (located_locate hn hid hc hg hl) ?_
  rintro (e | o | ⟨digest, size⟩) w' hc' hloc
  · exact hloc
  · exact ⟨hc', hloc⟩
  · obtain ⟨rfl, hd⟩ := hloc
    simp only [displayName, wp_bind]
    split
    · exact ⟨hc, hc, rfl, hd⟩
    · refine ⟨hc, ?_⟩
      rintro x w' rfl
      refine ⟨hc, ?_⟩
      rcases x with e | originalName
      · exact hg
      · exact ⟨hc, rfl, hd⟩

/-- A row that takes the id of the only live entry, and leaves the queue for `state`. -/
theorem LinkInv.take {digest : Digest} {live : List RagFile} {file : RagFile} {tr : Transition}
    {hu : Option (Option Digest)} (h : LinkInv digest row live) (hlive : live = [file])
    (hs : tr.state = some .submitted ∨ tr.state = some .indexed)
    (hr : tr.ragFileId = some (some file.id)) (hc : tr.contentSha256 = hu)
    (hh : hu = none ∨ hu = some (some digest)) : LinkInv digest (tr.apply now row) live := by
  have hrag : (tr.apply now row).ragFileId = some file.id := by
    simp [Transition.apply, Transition.assign, hr]
  refine ⟨h.section_ne, ?_, h.single, ?_, ?_, ?_⟩
  · rcases hh with hh | hh
    · simpa [Transition.apply, Transition.assign, hc, hh] using h.content
    · exact .inr (by simp [Transition.apply, Transition.assign, hc, hh])
  · intro f hf hne
    rw [hlive, List.mem_singleton] at hf
    exact absurd (hrag.trans (by rw [hf])) hne
  · intro _
    exact ⟨file, by simp [hlive], hrag⟩
  · intro hi
    rcases hs with hs | hs <;> simp [Transition.apply, Transition.assign, hs] at hi

theorem hashUpdate_cases (digest : Digest)
    : hashUpdate link digest = none ∨ hashUpdate link digest = some (some digest) := by
  unfold hashUpdate
  split <;> simp

theorem keeps_succeed {state : IndexLinkState} {file : RagFile} {hu : Option (Option Digest)}
    (hid : link.id = row₀.id) (hc : Crash job row₀ w) (hg : Good job row₀ w)
    (hlive : w.live = [file]) (hs : state = .submitted ∨ state = .indexed)
    (hh : hu = none ∨ hu = some (some (job.sha256 w.payload))) :
    wp Answers (Crash job row₀) (succeed link now state (some (some file.id)) hu)
      (fun _ => Good job row₀) w := by
  refine keeps_write hid hc hg fun _ h => h.take hlive ?_ rfl rfl hh
  rcases hs with rfl | rfl <;> simp

/-- The only live entry has the id that a live entry has. -/
theorem LinkInv.eq_singleton {digest : Digest} {live : List RagFile} {f : RagFile}
    (h : LinkInv digest row live) (hf : f ∈ live) : live = [f] := by
  obtain ⟨file, hfile⟩ := List.length_eq_one_iff.1
    (le_antisymm h.single (List.length_pos_of_mem hf))
  rw [hfile] at hf ⊢
  rw [List.mem_singleton.1 hf]

theorem LinkInv.entered {digest : Digest} {live : List RagFile} (h : LinkInv digest row live)
    (hm : MayHide row) {file : RagFile} (hf : file.contentSha256 = digest) :
    LinkInv digest row [file] where
  section_ne := h.section_ne
  content := h.content
  single := by simp
  hidden f hmem _ := ⟨hm, by rw [List.mem_singleton.1 hmem, hf]⟩
  indexed hi := absurd hi hm.1
  confirmed hi := absurd hi hm.2.1

/-- After a registration RAG still fits both the row and the row a rollback would restore, and
an answer that was not lost names the only live entry. -/
theorem registers_spec {prepared : RagManifest} {x : Except Exc RagFileCard} {w' : World}
    (hx : Registers prepared w x w') (hd : prepared.contentSha256 = job.sha256 w.payload)
    (hinv : LinkInv (job.sha256 w.payload) row w.live) (hr : row.ragFileId = none)
    (hm : MayHide row) (hm₀ : MayHide row₀) (hc : Crash job row₀ w) :
    w'.table = w.table ∧ LinkInv (job.sha256 w'.payload) row w'.live ∧ Crash job row₀ w' ∧
      w'.payload = w.payload ∧ (LostAnswer x ∨ ∃ file, w'.live = [file] ∧
        ((∃ card : RagFileCard, card.fileId = file.id ∧ x = .ok card) ∨
          x = .error (.ragHttp 409 (some errorDuplicateFile) (some file.id)))) := by
  unfold Registers at hx
  split at hx
  · rename_i file hfind
    obtain ⟨rfl, hx⟩ := hx
    have hlive : w'.live = [file] := hinv.eq_singleton (List.mem_of_find?_eq_some hfind)
    exact ⟨rfl, hinv, hc, rfl, hx.elim (fun h => .inr ⟨file, hlive, .inr h⟩) .inl⟩
  · rename_i hfind
    -- Whatever RAG already held would carry the same hash, so it holds nothing.
    have hempty : w.live = [] := by
      cases hl : w.live with
      | nil => rfl
      | cons f fs =>
        have hf := (hinv.hidden f (by simp [hl]) (by simp [hr])).2
        have := List.find?_eq_none.1 hfind f (by simp [hl])
        exact absurd (by simpa [hd] using hf) this
    rcases hx with ⟨rfl, hlost⟩ | ⟨card, hnew, rfl, hx⟩
    · exact ⟨rfl, hinv, hc, rfl, .inl hlost⟩
    · refine ⟨rfl, ?_, ?_, rfl, ?_⟩
      · simpa [hempty] using hinv.entered hm hd
      · simpa [Crash, hempty] using LinkInv.entered hc hm₀ hd
      · rcases hx with rfl | hlost
        · exact .inr ⟨_, by rw [hempty], .inl ⟨card, rfl, rfl⟩⟩
        · exact .inl hlost

/-- Registering a row that names no entry. What it may hide is found again by its content. -/
theorem keeps_register (hn : Clock now) (ht : w.table = .one row) (hid : SameLink row row₀)
    (hinv : LinkInv (job.sha256 w.payload) row w.live) (hr : row.ragFileId = none)
    (hm : MayHide row) (hm₀ : MayHide row₀) (hc : Crash job row₀ w) :
    wp Answers (Crash job row₀) (register job row now) (fun _ => Good job row₀) w := by
  have hg : Good job row₀ w := ⟨row, ht, hid, hinv⟩
  unfold register
  split
  · exact keeps_skip _ hid.1 hc hg
  simp only [bind_eq, pure_eq, wp_bind]
  refine wp_mono (located_manifest hn hid.1 hc hg hinv.content) ?_
  rintro (e | o | prepared) w' hc' hloc
  · exact hloc
  · exact ⟨hc', hloc⟩
  obtain ⟨rfl, hd⟩ := hloc
  simp only [wp_bind, wp_attempt]
  refine ⟨hc, ?_⟩
  intro x w'' hx
  obtain ⟨ht'', hinv'', hc'', hp, hans⟩ := registers_spec hx hd hinv hr hm hm₀ hc
  have hg'' : Good job row₀ w'' := ⟨row, ht''.trans ht, hid, hinv''⟩
  rw [← hp] at hd
  refine ⟨hc'', ?_⟩
  rcases hans with ⟨e, he, rfl⟩ | ⟨file, hlive, ⟨card, hcard, rfl⟩ | rfl⟩
  · split
    · rename_i heq
      cases heq
    · rename_i heq
      cases heq
      rw [onRegisterHttp, if_neg (fun h => he.2 h.1)]
      exact keeps_fail _ hid.1 hc'' hg''
    · exact ⟨hc'', hg''⟩
  · dsimp only
    rw [acceptRegistration, hcard]
    exact keeps_succeed hid.1 hc'' hg'' hlive (.inl rfl) (hd ▸ hashUpdate_cases _)
  · dsimp only
    rw [onRegisterHttp, if_pos ⟨rfl, rfl⟩]
    simp only [adoptDuplicate, hr, Option.isSome_none, Bool.false_eq_true, false_and, if_false]
    exact keeps_succeed hid.1 hc'' hg'' hlive (.inl rfl) (hd ▸ hashUpdate_cases _)

theorem deletes_spec {ragFileId : Uuid} {x : Except Exc Unit} {w' : World}
    (hx : Deletes ragFileId w x w') : w'.table = w.table ∧ w'.payload = w.payload ∧
      ((LostAnswer x ∧ (w'.live = w.live ∨ w'.live = w.live.filter (·.id ≠ ragFileId))) ∨
        (w'.live = w.live.filter (·.id ≠ ragFileId) ∧ (x = .ok () ∨
          ∃ statusCode errorCode file, vectorsAlreadyGone statusCode errorCode ∧
            x = .error (.ragHttp statusCode errorCode file)))) := by
  unfold Deletes at hx
  split at hx
  · rcases hx with ⟨rfl, hx⟩ | ⟨rfl, rfl | hx⟩
    · exact ⟨rfl, rfl, .inl ⟨hx, .inl rfl⟩⟩
    · exact ⟨rfl, rfl, .inr ⟨rfl, .inl rfl⟩⟩
    · exact ⟨rfl, rfl, .inl ⟨hx, .inr rfl⟩⟩
  · rename_i hnot
    have hsame : w.live = w.live.filter (·.id ≠ ragFileId) := by
      refine (List.filter_eq_self.2 ?_).symm
      intro f hf
      simpa using fun he => hnot ⟨f, hf, he⟩
    obtain ⟨rfl, rfl | hx | hx⟩ := hx
    · exact ⟨rfl, rfl, .inr ⟨hsame, .inl rfl⟩⟩
    · exact ⟨rfl, rfl, .inl ⟨hx, .inl rfl⟩⟩
    · exact ⟨rfl, rfl, .inr ⟨hsame, .inr hx⟩⟩

theorem lost_not_gone {statusCode : Nat} {errorCode : Option String} {file : Option Uuid}
    (h : Lost (.ragHttp statusCode errorCode file)) :
    vectorsAlreadyGone statusCode errorCode = false := by
  simp [vectorsAlreadyGone, h.1, h.2]

/-- After a delete that did not end the processing, no entry has the row's id any more. -/
theorem keeps_deleteVectors {ragFileId : Uuid} (hn : Clock now) (ht : w.table = .one row)
    (hid : SameLink row row₀) (hinv : LinkInv (job.sha256 w.payload) row w.live)
    (hr : row.ragFileId = some ragFileId) (hi : row.state ≠ .indexed)
    (hi₀ : row₀.state ≠ .indexed) (hc : Crash job row₀ w) :
    wp Answers (Crash job row₀) (deleteVectors job row now) (fun r w' => match r with
      | .ok none => w'.table = w.table ∧ w'.payload = w.payload ∧
        w'.live = w.live.filter (·.id ≠ ragFileId)
      | .ok (some _) => Good job row₀ w'
      | .error _ => Good job row₀ w') w := by
  simp only [deleteVectors, hr, bind_eq, pure_eq, wp_bind, wp_attempt]
  refine ⟨hc, ?_⟩
  intro x w' hx
  obtain ⟨ht', hp', hans⟩ := deletes_spec hx
  have hlive : w'.live = w.live ∨ w'.live = w.live.filter (·.id ≠ ragFileId) :=
    hans.elim (·.2) (fun h => .inr h.1)
  have hfits : ∀ r : IndexLink, r.state ≠ .indexed → LinkInv (job.sha256 w.payload) r w.live →
      LinkInv (job.sha256 w'.payload) r w'.live := by
    intro r hri hrinv
    rw [hp']
    rcases hlive with hlive | hlive
    · exact hlive ▸ hrinv
    · exact hlive ▸ hrinv.filter hri _
  have hc' : Crash job row₀ w' := hfits row₀ hi₀ hc
  have hg' : Good job row₀ w' := ⟨row, ht'.trans ht, hid, hfits row hi hinv⟩
  refine ⟨hc', ?_⟩
  rcases hans with ⟨⟨e, he, rfl⟩, -⟩ | ⟨hgone, rfl | ⟨statusCode, errorCode, file, hs, rfl⟩⟩
  · split
    · rename_i heq
      cases heq
    · rename_i heq
      cases heq
      rw [lost_not_gone he, if_neg (by simp)]
      split
      · rw [wp_bind]
        refine wp_mono (keeps_scheduleRetry hn _ hid.1 hc' hg') ?_
        rintro (e | o) w'' hc'' hg''
        · exact hg''
        · exact ⟨hc'', hg''⟩
      · rw [wp_bind]
        refine wp_mono (keeps_fail _ hid.1 hc' hg') ?_
        rintro (e | o) w'' hc'' hg''
        · exact hg''
        · exact ⟨hc'', hg''⟩
    · exact ⟨hc', hg'⟩
  · exact ⟨hc', ht', hp', hgone⟩
  · simp only [hs, if_true]
    exact ⟨hc', ht', hp', hgone⟩

/-- Clearing the id of a row whose entry is gone. -/
theorem LinkInv.clear {digest : Digest} {live : List RagFile} {ragFileId : Uuid} (now : Time)
    (h : LinkInv digest row live) (hm : MayHide row) (hr : row.ragFileId = some ragFileId) :
    LinkInv digest (({ ragFileId := some none } : Transition).apply now row)
      (live.filter (·.id ≠ ragFileId)) := by
  have hf := h.filter hm.1 (·.id ≠ ragFileId)
  refine ⟨hf.section_ne, hf.content, hf.single, ?_, fun hi => absurd hi hm.1,
    fun hi => absurd hi hm.2.1⟩
  intro f hmem _
  obtain ⟨hlive, hne⟩ := List.mem_filter.1 hmem
  refine ⟨⟨hm.1, hm.2.1, hm.2.2.1, fun _ => rfl⟩, (h.hidden f hlive ?_).2⟩
  rw [hr]
  simpa using Ne.symm (by simpa using hne)

theorem keeps_reindex (hn : Clock now) (ht : w.table = .one row) (hid : SameLink row row₀)
    (hinv : LinkInv (job.sha256 w.payload) row w.live) (hm : MayHide row) (hm₀ : MayHide row₀)
    (hc : Crash job row₀ w) :
    wp Answers (Crash job row₀) (reindex job row now) (fun _ => Good job row₀) w := by
  unfold reindex
  split
  · rename_i hr
    exact keeps_register hn ht hid hinv hr hm hm₀ hc
  · rename_i ragFileId hr
    simp only [bind_eq, pure_eq, wp_bind]
    refine wp_mono (keeps_deleteVectors hn ht hid hinv hr hm.1 hm₀.1 hc) ?_
    rintro (e | _ | o) w' hc' hpost
    · exact hpost
    · obtain ⟨ht', hp', hl'⟩ := hpost
      simp only [wp_bind]
      refine wp_write (ht'.trans ht) rfl hinv.section_ne hc' ?_
      have hclear := hinv.clear now hm hr
      rw [← hl', ← hp'] at hclear
      exact keeps_register hn rfl hid hclear rfl ⟨hm.1, hm.2.1, hm.2.2.1, fun _ => rfl⟩ hm₀ hc'
    · exact ⟨hc', hpost⟩

theorem rekeys_spec {ragFileId : Uuid} {target : RagObjectKey} {x : Except Exc RagFileCard}
    {w' : World} (hx : Rekeys ragFileId target w x w') :
    w'.table = w.table ∧ w'.payload = w.payload ∧
      (∃ g : RagFile → RagFile, (∀ f, (g f).id = f.id) ∧
        (∀ f, (g f).contentSha256 = f.contentSha256) ∧ w'.live = w.live.map g) ∧
      (LostAnswer x ∨ (∃ code file, x = .error (.ragHttp 404 code file)) ∨
        (∃ d, x = .error (.ragHttp 409 (some errorContentChanged) d)) ∨
        ∃ card : RagFileCard, card.fileId = ragFileId ∧ x = .ok card ∧
          ∃ f ∈ w'.live, f.id = ragFileId) := by
  have hsame : ∃ g : RagFile → RagFile, (∀ f, (g f).id = f.id) ∧
      (∀ f, (g f).contentSha256 = f.contentSha256) ∧ w.live = w.live.map g :=
    ⟨id, fun _ => rfl, fun _ => rfl, by simp⟩
  unfold Rekeys at hx
  split at hx
  · obtain ⟨rfl, hx | hx⟩ := hx
    · exact ⟨rfl, rfl, hsame, .inr (.inl hx)⟩
    · exact ⟨rfl, rfl, hsame, .inl hx⟩
  · rename_i file hfind
    rcases hx with ⟨rfl, hx | hx⟩ | ⟨-, rfl, hx⟩
    · exact ⟨rfl, rfl, hsame, .inr (.inr (.inl hx))⟩
    · exact ⟨rfl, rfl, hsame, .inl hx⟩
    · refine ⟨rfl, rfl, ⟨_, ?_, ?_, rfl⟩, ?_⟩
      · intro f
        split <;> rfl
      · intro f
        split <;> rfl
      · rcases hx with ⟨card, hcard, rfl⟩ | hx
        · refine .inr (.inr (.inr ⟨card, hcard, rfl, _,
            List.mem_map_of_mem (List.mem_of_find?_eq_some hfind), ?_⟩))
          have := List.find?_some hfind
          split <;> simpa using this
        · exact .inl hx

theorem keeps_rekey (hn : Clock now) (ht : w.table = .one row) (hid : SameLink row row₀)
    (hinv : LinkInv (job.sha256 w.payload) row w.live) (hm : MayHide row) (hm₀ : MayHide row₀)
    (hc : Crash job row₀ w) :
    wp Answers (Crash job row₀) (rekey job row now) (fun _ => Good job row₀) w := by
  have hg : Good job row₀ w := ⟨row, ht, hid, hinv⟩
  unfold rekey
  split
  · rename_i hr
    exact keeps_register hn ht hid hinv hr hm hm₀ hc
  rename_i ragFileId hr
  simp only [bind_eq, pure_eq, wp_bind]
  refine wp_mono (located_locate hn hid.1 hc hg hinv.content) ?_
  rintro (e | o | ⟨digest, size⟩) w' hc' hloc
  · exact hloc
  · exact ⟨hc', hloc⟩
  obtain ⟨rfl, rfl⟩ := hloc
  simp only [wp_bind, wp_attempt]
  refine ⟨hc, ?_⟩
  intro x w'' hx
  obtain ⟨ht'', hp, ⟨g, hgid, hgsha, hl⟩, hans⟩ := rekeys_spec hx
  have hinv'' : LinkInv (job.sha256 w''.payload) row w''.live := by
    rw [hp, hl]
    exact hinv.map g hgid hgsha
  have hc'' : Crash job row₀ w'' := by
    unfold Crash
    rw [hp, hl]
    exact LinkInv.map hc g hgid hgsha
  have hg'' : Good job row₀ w'' := ⟨row, ht''.trans ht, hid, hinv''⟩
  refine ⟨hc'', ?_⟩
  rcases hans with ⟨e, he, rfl⟩ | ⟨code, file, rfl⟩ | ⟨d, rfl⟩ | ⟨card, hcard, rfl, f, hf, hfid⟩
  · split
    · rename_i heq
      cases heq
    · rename_i heq
      cases heq
      rw [onRekeyHttp, if_neg (fun h => he.2 h.1), if_neg he.1]
      exact keeps_fail _ hid.1 hc'' hg''
    · exact ⟨hc'', hg''⟩
  · dsimp only
    rw [onRekeyHttp, if_neg (by simp), if_pos rfl]
    exact keeps_fail _ hid.1 hc'' hg''
  · dsimp only
    rw [onRekeyHttp, if_pos ⟨rfl, rfl⟩]
    simp only [bind_eq, wp_bind]
    refine wp_write (ht''.trans ht) rfl hinv.section_ne hc'' ?_
    refine keeps_reindex hn rfl hid (hinv''.giveUp now (.inr (.inr rfl)) rfl rfl) ?_ hm₀ hc''
    simp [MayHide, Transition.apply, Transition.assign]
  · dsimp only
    rw [hcard, ← hfid]
    exact keeps_succeed hid.1 hc'' hg'' (hinv''.eq_singleton hf) (.inr rfl)
      (hp ▸ hashUpdate_cases _)

theorem LinkInv.settled {digest : Digest} {tr : Transition} (now : Time)
    (h : LinkInv digest row []) (hs : tr.state = some .removed ∨ tr.state = some .archived)
    (hc : tr.contentSha256 = none) : LinkInv digest (tr.apply now row) [] where
  section_ne := h.section_ne
  content := by simpa [Transition.apply, Transition.assign, hc] using h.content
  single := by simp
  hidden := by simp
  indexed hi := by
    rcases hs with hs | hs <;> simp [Transition.apply, Transition.assign, hs] at hi
  confirmed _ _ := rfl

theorem keeps_settle {terminal : IndexLinkState} (hid : link.id = row₀.id)
    (hc : Crash job row₀ w) (hg : Good job row₀ w) (hlive : w.live = [])
    (hs : terminal = .removed ∨ terminal = .archived) :
    wp Answers (Crash job row₀) (settle link now terminal) (fun _ => Good job row₀) w := by
  refine keeps_write hid hc hg fun row h => ?_
  rw [hlive] at h ⊢
  exact h.settled now (hs.imp (congrArg some) (congrArg some)) rfl

/-- Where nothing can be hidden, RAG holds at most the entry the row names. -/
theorem LinkInv.named {digest : Digest} {live : List RagFile} (h : LinkInv digest row live)
    (hm : ¬ MayHide row) {f : RagFile} (hf : f ∈ live) : row.ragFileId = some f.id := by
  by_contra hne
  exact hm (h.hidden f hf hne).1

theorem LinkInv.eq_nil {digest : Digest} {live : List RagFile} (h : LinkInv digest row live)
    (hm : ¬ MayHide row) (hne : ∀ f ∈ live, row.ragFileId ≠ some f.id) : live = [] :=
  List.eq_nil_iff_forall_not_mem.2 fun f hf => hne f hf (h.named hm hf)

section
variable (hn : Clock now) (ht : w.table = .one row₀) (hc : Crash job row₀ w)
include hn ht hc

theorem keeps_poll (hs : row₀.state = .submitted) :
    wp Answers (Crash job row₀) (poll job row₀ now) (fun _ => Good job row₀) w := by
  unfold poll
  split
  · rename_i hr
    have hm : MayHide row₀ := by simp [MayHide, hs, hr]
    exact keeps_register hn ht ⟨rfl, rfl⟩ hc hr hm hm hc
  rename_i ragFileId hr
  have hm : ¬ MayHide row₀ := by simp [MayHide, hs, hr]
  have hg : Good job row₀ w := ⟨row₀, ht, ⟨rfl, rfl⟩, hc⟩
  have hempty (h : ¬ ∃ f ∈ w.live, f.id = ragFileId) : w.live = [] := by
    refine LinkInv.eq_nil hc hm fun f hf he => h ⟨f, hf, ?_⟩
    simpa [hr, eq_comm] using he
  simp only [bind_eq, wp_bind, wp_attempt]
  refine ⟨hc, ?_⟩
  rintro x w' ⟨rfl, hx⟩
  refine ⟨hc, ?_⟩
  have hlost (hl : LostAnswer x) : wp Answers (Crash job row₀) (onPollAnswer job row₀ now x)
      (fun _ => Good job row₀) w' := by
    obtain ⟨e, he, rfl⟩ := hl
    unfold onPollAnswer
    split
    · rename_i heq
      cases heq
    · rename_i heq
      cases heq
      rw [if_neg he.1]
      exact keeps_fail _ rfl hc hg
    · exact ⟨hc, hg⟩
  split at hx
  · rename_i hex
    rcases hx with hl | ⟨card, hcard, hgone, rfl⟩
    · exact hlost hl
    · obtain ⟨f, hf, hfid⟩ := hex
      simp only [onPollAnswer, onPolledCard]
      split_ifs with h1 h2 h3 h4
      · rw [hcard, ← hfid]
        exact keeps_succeed rfl hc hg (LinkInv.eq_singleton hc hf) (.inr rfl) (.inl rfl)
      · exact keeps_fail _ rfl hc hg
      · exact absurd h3 hgone
      · exact keeps_fail _ rfl hc hg
      · exact keeps_write rfl hc hg fun _ h => h.later now rfl rfl rfl (backoff_ne hn _)
  · rename_i hex
    rcases hx with hl | ⟨code, file, rfl⟩ | ⟨card, hgone, rfl⟩
    · exact hlost hl
    · exact keeps_settle rfl hc hg (hempty hex) (.inl rfl)
    · have hready : ¬ Text.lower (Text.strip card.status) = "ready".toList := by
        rcases hgone with h | h <;> rw [h] <;> decide
      have herror : ¬ Text.lower (Text.strip card.status) = "error".toList := by
        rcases hgone with h | h <;> rw [h] <;> decide
      unfold GoneStatus at hgone
      simp only [onPollAnswer, onPolledCard, if_neg hready, if_neg herror, if_pos hgone]
      exact keeps_settle rfl hc hg (hempty hex) (.inl rfl)

theorem keeps_remove {terminal : IndexLinkState} (hs : row₀.state = terminal)
    (hterm : terminal = .removed ∨ terminal = .archived) :
    wp Answers (Crash job row₀) (remove job row₀ now terminal) (fun _ => Good job row₀) w := by
  have hg : Good job row₀ w := ⟨row₀, ht, ⟨rfl, rfl⟩, hc⟩
  have hm : ¬ MayHide row₀ := by rcases hterm with rfl | rfl <;> simp [MayHide, hs]
  have hi : row₀.state ≠ .indexed := by rcases hterm with rfl | rfl <;> simp [hs]
  unfold remove
  split
  · rename_i hr
    exact keeps_settle rfl hc hg (LinkInv.eq_nil hc hm (by simp [hr])) hterm
  rename_i ragFileId hr
  simp only [bind_eq, pure_eq, wp_bind]
  refine wp_mono (keeps_deleteVectors hn ht ⟨rfl, rfl⟩ hc hr hi hi hc) ?_
  rintro (e | _ | o) w' hc' hpost
  · exact hpost
  · obtain ⟨ht', hp', hl'⟩ := hpost
    have hempty : w'.live = [] := by
      rw [hl', List.filter_eq_nil_iff]
      intro f hf
      have hname := LinkInv.named hc hm hf
      rw [hr, Option.some.injEq] at hname
      simp [hname]
    exact keeps_settle rfl hc' ⟨row₀, ht'.trans ht, ⟨rfl, rfl⟩, hc'⟩ hempty hterm
  · exact ⟨hc', hpost⟩

theorem keeps_dispatch :
    wp Answers (Crash job row₀) (dispatch job row₀ now) (fun _ => Good job row₀) w := by
  have hg : Good job row₀ w := ⟨row₀, ht, ⟨rfl, rfl⟩, hc⟩
  unfold dispatch
  split
  · exact ⟨hc, hg⟩
  · rename_i hs
    exact keeps_poll hn ht hc hs
  · rename_i hs
    exact keeps_remove hn ht hc hs (.inl rfl)
  · rename_i hs
    exact keeps_remove hn ht hc hs (.inr rfl)
  · rename_i hs
    have hm : MayHide row₀ := by simp [MayHide, hs]
    exact keeps_reindex hn ht ⟨rfl, rfl⟩ hc hm hm hc
  · rename_i hs
    have hm : MayHide row₀ := by simp [MayHide, hs]
    split
    · exact keeps_rekey hn ht ⟨rfl, rfl⟩ hc hm hm hc
    · rename_i hr
      exact keeps_register hn ht ⟨rfl, rfl⟩ hc hr hm hm hc
  · exact ⟨hc, hg⟩
  · exact ⟨hc, hg⟩

omit ht in
theorem keeps_onProcessError (hg : Good job row₀ w) (e : Exc) :
    wp Answers (Crash job row₀) (onProcessError job row₀ now e) (fun _ => Good job row₀) w := by
  unfold onProcessError
  split
  · exact keeps_scheduleRetry hn _ rfl hc hg
  · exact keeps_fail _ rfl hc hg
  · exact ⟨hc, hg⟩

theorem keeps_process :
    wp Answers (Crash job row₀) (process job row₀ now) (fun _ => Good job row₀) w := by
  refine wp_catchWith (wp_catchWith ?_)
  refine wp_mono (keeps_dispatch hn ht hc) ?_
  rintro (e | o) w' hc' hg'
  · refine wp_mono (keeps_onProcessError hn hc' hg' e) ?_
    rintro (e | o) w'' hc'' hg''
    · exact ⟨hc'', hg''⟩
    · exact hg''
  · exact hg'

theorem keeps_run :
    wp Answers (Crash job row₀) (job.run now) (fun _ => Good job row₀) w := by
  have hg : Good job row₀ w := ⟨row₀, ht, ⟨rfl, rfl⟩, hc⟩
  unfold IndexSyncJob.run
  split
  · exact ⟨hc, hg⟩
  simp only [bind_eq, pure_eq, wp_bind]
  refine ⟨hc, ?_⟩
  rintro x w' ⟨rfl, rfl⟩
  refine ⟨hc, ?_⟩
  rcases heq : w'.table.claimDue job.batchSize now with e | links
  · exact hg
  · rw [ht] at heq
    rcases LinkTable.claimDue_one row₀ heq with rfl | rfl
    · exact ⟨hc, hc, hg⟩
    · simp only [processAll, bind_eq, pure_eq, wp_bind]
      refine wp_mono (keeps_process hn ht hc) ?_
      rintro (e | o) w'' hc'' hg''
      · exact hg''
      · exact ⟨hc'', hc'', hc'', hg''⟩

omit ht in
/-- One notification processes the link at most once, since its ids are distinct. -/
theorem keeps_notifyAll (ids : List Uuid) (hids : ids.Nodup) (hg : Good job row₀ w)
    (hfirst : w.table = .one row₀ ∨ ∀ id ∈ ids, row₀.fileRecordId ≠ some id) :
    wp Answers (Crash job row₀) (notifyAll job now ids) (fun _ => Good job row₀) w := by
  induction ids generalizing w with
  | nil => exact ⟨hc, hg⟩
  | cons id ids ih =>
    obtain ⟨hnot, hids⟩ := List.nodup_cons.1 hids
    simp only [notifyAll, bind_eq, wp_bind]
    refine ⟨hc, ?_⟩
    rintro x w' ⟨rfl, rfl⟩
    refine ⟨hc, ?_⟩
    have hskip : wp Answers (Crash job row₀) (notifyAll job now ids)
        (fun _ => Good job row₀) w' :=
      ih hc hids hg (hfirst.imp_right fun h i hi => h i (List.mem_cons_of_mem _ hi))
    obtain ⟨row, ht, hsame, -⟩ := hg
    simp only [ht, LinkTable.byFileRecordId_one]
    split
    · rename_i hfound
      split at hfound
      · rename_i hrow
        cases hfound
        -- Only the row as the transaction found it can still have its id among `ids`.
        have hrow₀ : w'.table = .one row₀ :=
          hfirst.resolve_right fun h => h id List.mem_cons_self (hsame.2 ▸ hrow)
        have hrow : row = row₀ := by
          have := congrArg LinkTable.rows (ht.symm.trans hrow₀)
          simpa using this
        subst hrow
        split
        · rw [wp_bind, wp_attempt]
          refine wp_mono (keeps_process hn hrow₀ hc) ?_
          intro r w'' hc'' hg''
          refine ih hc'' hids hg'' (.inr fun i hi he => hnot ?_)
          rename_i hrow _
          rw [hrow, Option.some.injEq] at he
          exact he ▸ hi
        · exact hskip
      · cases hfound
    · exact hskip

end
end

end WebStorage.RagEntries
