import WebStorage.BucketFaults
import WebStorage.EffectInvariant
import WebStorage.Installation
import WebStorage.Requests
import WebStorage.StorageContainment

set_option autoImplicit false

/-! What is one user's in the tables and in the bucket, and what the calls of others may do to it. -/
namespace WebStorage.Tenants
open Effect Effect.Prog S3

/-! ### Objects -/

section
variable {K : Str → Prop} {b t : Bucket} {k : Str}

/-- A call changes no object but those whose keys it names. -/
theorem serve_elsewhere (now : Time) (c : S3Cmd) (b : Bucket) (hk : k ∉ c.keys) :
    (Bucket.serve now c b).2.content k = b.content k := by
  have hstored : ∀ uploadId partNumber body, (b.storePart uploadId partNumber body).2.content k = b.content k := by
    intro uploadId partNumber body
    unfold Bucket.storePart
    split
    · rfl
    · rfl
  cases c with
  | headObject key => unfold Bucket.serve; dsimp only; split <;> rfl
  | getObject key => unfold Bucket.serve; dsimp only; split <;> rfl
  | putObject key body =>
    have hne : k ≠ key := fun heq => hk (heq ▸ List.mem_singleton_self _)
    show (b.put key body now).content k = _
    rw [content_put, if_neg hne]
  | copyObject source key =>
    have hne : k ≠ key := fun heq => hk (heq ▸ List.mem_cons_of_mem _ (List.mem_singleton_self _))
    unfold Bucket.serve
    dsimp only
    split
    · rw [content_put, if_neg hne]
    · rfl
  | deleteObject key =>
    have hne : k ≠ key := fun heq => hk (heq ▸ List.mem_singleton_self _)
    show (b.keep fun x => decide (x ≠ key)).content k = _
    rw [content_keep, if_pos (decide_eq_true hne)]
  | deleteObjects keys =>
    have hne : k ∉ keys := hk
    show (b.keep fun x => decide (x ∉ keys)).content k = _
    rw [content_keep, if_pos (decide_eq_true hne)]
  | listObjects keyPrefix delimited maxKeys => rfl
  | createMultipartUpload key => rfl
  | uploadPart key uploadId partNumber body => exact hstored _ _ _
  | uploadPartCopy key uploadId partNumber source first last =>
    unfold Bucket.serve
    dsimp only
    split
    · exact hstored _ _ _
    · rfl
  | completeMultipartUpload key uploadId parts =>
    have hne : k ≠ key := fun heq => hk (heq ▸ List.mem_singleton_self _)
    unfold Bucket.serve
    dsimp only
    split
    · rw [content_put, if_neg hne]
    · rfl
  | abortMultipartUpload key uploadId => rfl

/-- A listing is answered with what is under its prefix. -/
theorem serve_listed (now : Time) (c : S3Cmd) (b : Bucket) {a : c.Resp}
    (h : (Bucket.serve now c b).1 = .ok a) : Listed c a := by
  cases c
  case listObjects keyPrefix delimited maxKeys =>
    have ha : b.listing keyPrefix delimited maxKeys = a := Except.ok.inj h
    intro e he
    rw [← ha] at he
    have hentry : e ∈ b.entriesUnder keyPrefix := by
      unfold Bucket.listing at he
      dsimp only at he
      split at he
      · exact List.mem_of_mem_filter he
      · cases maxKeys with
        | none => exact he
        | some n => exact List.mem_of_mem_take he
    obtain ⟨o, -, hunder, heq⟩ := Bucket.mem_entriesUnder.1 hentry
    rw [heq]
    exact hunder
  all_goals trivial

/-- A program changes no object whose key it never names, whichever calls fail. -/
theorem elsewhere {α : Type} {p : S3M α} {r : Except Exc α} (hp : AllNames K p)
    (h : Exec (Calls True) p b r t) (hk : ¬ K k) : t.content k = b.content k := by
  have hwp := wp_of_all (H := Calls True) (I := fun t => t.content k = b.content k) hp rfl (by
    intro c s x u hnames hs hcall
    have hout : k ∉ c.keys := fun hmem => hk (hnames k hmem)
    rcases hcall with ⟨now, hserved⟩ | ⟨-, e, -, herror, hstate⟩
    · have hx : x = (Bucket.serve now c s).1 := congrArg Prod.fst hserved
      have hu : u = (Bucket.serve now c s).2 := congrArg Prod.snd hserved
      refine ⟨?_, ?_⟩
      · rw [hu, serve_elsewhere now c s hout]
        exact hs
      · intro a ha
        exact serve_listed now c s (hx.symm.trans ha)
    · refine ⟨?_, ?_⟩
      · rcases hstate with hsame | ⟨now, hdone⟩
        · rw [hsame]
          exact hs
        · rw [hdone, serve_elsewhere now c s hout]
          exact hs
      · intro a ha
        rw [herror] at ha
        cases ha)
  exact (wp_sound hwp h).2

end

/-! ### Tables -/

/-- The records of a user. -/
def rowsOf (v : Uuid) (d : Db) : List FileRecord := d.records.rows.filter fun r => r.userId = v

/-- Whether a link belongs to one of the user's records. -/
def linkedTo (v : Uuid) (d : Db) (link : IndexLink) : Bool :=
  (rowsOf v d).any fun r => decide (link.fileRecordId = some r.id)

/-- What the tables hold for a user. -/
structure View where
  records : List FileRecord
  quota : Option QuotaUsage
  links : List IndexLink

def viewOf (v : Uuid) (d : Db) : View :=
  ⟨rowsOf v d, d.quotas.lookup v, d.links.rows.filter (linkedTo v d)⟩

/-- The archive of a record of somebody else. -/
def OthersArchive (v : Uuid) (d : Db) (archivePath : Str) : Prop :=
  ∃ r ∈ d.records.rows, r.userId ≠ v ∧ r.archivePath = some archivePath

/-- The user has what they had, and nobody else has come by a new archive. -/
structure SameView (v : Uuid) (d₀ d : Db) : Prop where
  view : viewOf v d = viewOf v d₀
  archives : ∀ archivePath, OthersArchive v d archivePath → OthersArchive v d₀ archivePath

/-- No record of the user has the id. -/
def NotOf (v : Uuid) (d : Db) (id : Uuid) : Prop := ∀ r ∈ rowsOf v d, r.id ≠ id

/-- A record of somebody else, as the tables had it or may have made it. -/
structure Other (v : Uuid) (d₀ : Db) (r : FileRecord) : Prop where
  owner : r.userId ≠ v
  id : NotOf v d₀ r.id
  archive : ∀ archivePath, r.archivePath = some archivePath → OthersArchive v d₀ archivePath

section
variable {v : Uuid} {d₀ d : Db} {r : FileRecord}

theorem mem_rowsOf : r ∈ rowsOf v d ↔ r ∈ d.records.rows ∧ r.userId = v := by
  unfold rowsOf
  rw [List.mem_filter, decide_eq_true_iff]

theorem SameView.refl (v : Uuid) (d : Db) : SameView v d d := ⟨rfl, fun _ h => h⟩

theorem SameView.rows (h : SameView v d₀ d) : rowsOf v d = rowsOf v d₀ := congrArg View.records h.view

theorem SameView.notOf (h : SameView v d₀ d) {id : Uuid} : NotOf v d id ↔ NotOf v d₀ id := by
  unfold NotOf
  rw [h.rows]

/-- A record of somebody else has an id that none of the user's records has. -/
theorem notOf_of_row (hr : r ∈ d.records.rows) (howner : r.userId ≠ v) : NotOf v d r.id := by
  intro x hx heq
  obtain ⟨hx, hv⟩ := mem_rowsOf.1 hx
  rw [RecordTable.eq_of_id hx hr heq] at hv
  exact howner hv

theorem SameView.other (h : SameView v d₀ d) (hr : r ∈ d.records.rows) (howner : r.userId ≠ v) :
    Other v d₀ r where
  owner := howner
  id := h.notOf.1 (notOf_of_row hr howner)
  archive p hp := h.archives p ⟨r, hr, howner, hp⟩

/-- The record of an id that is not the user's. -/
theorem SameView.other_of_id (h : SameView v d₀ d) {id : Uuid} (hid : NotOf v d₀ id)
    (hget : d.records.get id = some r) : Other v d₀ r := by
  obtain ⟨hr, heq⟩ := RecordTable.get_some hget
  apply h.other hr
  intro howner
  exact h.notOf.2 hid r (mem_rowsOf.2 ⟨hr, howner⟩) heq

/-- Rows outside a selection may change as long as they stay outside. -/
theorem filter_map_same {α : Type} {p : α → Bool} {f : α → α} {l : List α} (h : ∀ x ∈ l, p (f x) = p x)
    (hsame : ∀ x ∈ l, p x = true → f x = x) : (l.map f).filter p = l.filter p := by
  induction l with
  | nil => rfl
  | cons x l ih =>
    have hrest := ih (fun y hy => h y (List.mem_cons_of_mem _ hy))
      fun y hy => hsame y (List.mem_cons_of_mem _ hy)
    have hx := h x List.mem_cons_self
    rw [List.map_cons, List.filter_cons, List.filter_cons, hx, hrest]
    by_cases hp : p x = true
    · rw [if_pos hp, if_pos hp, hsame x List.mem_cons_self hp]
    · rw [if_neg hp, if_neg hp]

/-- What of the tables has to be the same for the view to be the same. -/
theorem SameView.step (h : SameView v d₀ d) {e : Db} (hrows : rowsOf v e = rowsOf v d)
    (harchives : ∀ p, OthersArchive v e p → OthersArchive v d p)
    (hquota : e.quotas.lookup v = d.quotas.lookup v)
    (hlinks : e.links.rows.filter (linkedTo v d) = d.links.rows.filter (linkedTo v d)) :
    SameView v d₀ e where
  view := by
    have hlinked : linkedTo v e = linkedTo v d := by
      unfold linkedTo
      rw [hrows]
    rw [← h.view]
    unfold viewOf
    rw [hlinked, hrows, hquota, hlinks]
  archives p hp := h.archives p (harchives p hp)

theorem SameView.query (h : SameView v d₀ d) {e : Db} (heq : e = d) : SameView v d₀ e := heq ▸ h

/-! #### Calls of the record repository -/

/-- Records of others may be updated. -/
theorem SameView.update (h : SameView v d₀ d) {p : FileRecord → Bool} {f : FileRecord → FileRecord}
    (hp : ∀ r ∈ d.records.rows, p r = true → r.userId ≠ v)
    (hf : ∀ r, (f r).userId = r.userId ∧ (f r).archivePath = r.archivePath) :
    SameView v d₀ { d with records := d.records.update p f } := by
  obtain ⟨g, hg⟩ : ∃ g : FileRecord → FileRecord, g = fun r => if p r then { f r with id := r.id } else r :=
    ⟨_, rfl⟩
  have hmap : (d.records.update p f).rows = d.records.rows.map g := by
    rw [hg]
    rfl
  have hsame : ∀ r, (g r).userId = r.userId ∧ (g r).archivePath = r.archivePath := by
    intro r
    rw [hg]
    dsimp only
    split
    · exact hf r
    · exact ⟨rfl, rfl⟩
  apply h.step
  case hquota => rfl
  case hlinks => rfl
  · unfold rowsOf
    show (d.records.update p f).rows.filter _ = _
    rw [hmap]
    apply filter_map_same
    · intro r _
      rw [(hsame r).1]
    · intro r hr hown
      have hnot : ¬ p r = true := fun hsome => hp r hr hsome (of_decide_eq_true hown)
      rw [hg]
      exact if_neg hnot
  · intro path harchive
    obtain ⟨r, hr, howner, hpath⟩ := harchive
    have hr' : r ∈ d.records.rows.map g := hmap ▸ hr
    obtain ⟨x, hx, hxr⟩ := List.mem_map.1 hr'
    refine ⟨x, hx, ?_, ?_⟩
    · rw [← (hsame x).1, hxr]
      exact howner
    · rw [← (hsame x).2, hxr]
      exact hpath

/-- A record of somebody else is assigned. -/
theorem SameView.assign (h : SameView v d₀ d) {id : Uuid} {f : FileRecord → FileRecord}
    (hid : NotOf v d₀ id) (hf : ∀ r, (f r).userId = r.userId ∧ (f r).archivePath = r.archivePath) :
    SameView v d₀ (FileRepo.assign id f d).2 ∧
      ∀ found, (FileRepo.assign id f d).1 = .ok (some found) → Other v d₀ found := by
  have hsame : SameView v d₀ (FileRepo.assign id f d).2 := by
    apply h.update _ hf
    intro r hr hown howner
    exact h.notOf.2 hid r (mem_rowsOf.2 ⟨hr, howner⟩) (of_decide_eq_true hown)
  refine ⟨hsame, ?_⟩
  intro found hfound
  exact hsame.other_of_id hid (Except.ok.inj hfound)

/-- Somebody else creates a record. -/
theorem SameView.create (h : SameView v d₀ d) {id u : Uuid} {path name : Str} {size : Int}
    {encrypted : Bool} {fileSection : FileSection} {status : FileStatus} {now : Time} (hu : u ≠ v) :
    SameView v d₀ (FileRepo.create id u path name size encrypted fileSection status now d).2 ∧
      ∀ made, (FileRepo.create id u path name size encrypted fileSection status now d).1 = .ok made →
        Other v d₀ made ∧ made.userId = u := by
  unfold FileRepo.create
  dsimp only
  split
  next records hadd =>
    unfold RecordTable.add at hadd
    split at hadd
    · cases hadd
    · obtain ⟨row, hrow⟩ : ∃ row : FileRecord, row =
          ⟨id, u, path, name, size, encrypted, fileSection, status, none, now, now, false, none⟩ := ⟨_, rfl⟩
      have hrows : records.rows = d.records.rows ++ [row] := by
        rw [hrow]
        cases hadd
        rfl
      have hother : row.userId ≠ v := by
        rw [hrow]
        exact hu
      have hsame : SameView v d₀ { d with records := records } := by
        apply h.step
        case hquota => rfl
        case hlinks => rfl
        · unfold rowsOf
          show records.rows.filter _ = _
          rw [hrows, List.filter_append, List.filter_singleton, decide_eq_false hother]
          exact List.append_nil _
        · rintro p ⟨r, hr, howner, hpath⟩
          have hr' : r ∈ d.records.rows ++ [row] := hrows ▸ hr
          rcases List.mem_append.1 hr' with hr' | hr'
          · exact ⟨r, hr', howner, hpath⟩
          · rw [List.mem_singleton.1 hr', hrow] at hpath
            cases hpath
      refine ⟨hsame, ?_⟩
      intro made hmade
      have hmem : row ∈ ({ d with records := records } : Db).records.rows := by
        show row ∈ records.rows
        rw [hrows]
        exact List.mem_append_right _ (List.mem_singleton_self _)
      rw [← Except.ok.inj hmade, ← hrow]
      refine ⟨hsame.other hmem hother, ?_⟩
      rw [hrow]
  next => exact ⟨h, fun made hmade => by cases hmade⟩

theorem inScope_owner {u : Uuid} {fileSection : FileSection} (h : inScope (some u) fileSection r = true) :
    r.userId = u := by
  unfold inScope at h
  rw [Bool.and_eq_true, Option.all_some, beq_iff_eq] at h
  exact h.1.symm

/-- Somebody else looks up a path. -/
theorem SameView.getDownloadable (h : SameView v d₀ d) {u : Uuid} {path : Str} {fileSection : FileSection}
    (hu : u ≠ v) : ∀ found, (FileRepo.getDownloadable (some u) path fileSection d).1 = .ok (some found) →
      Other v d₀ found ∧ found.userId = u := by
  intro found hfound
  have hin : found ∈ d.records.rows.filter fun r =>
      inScope (some u) fileSection r && r.relativePath = path && isDownloadable r := by
    unfold FileRepo.getDownloadable scalarOneOrNone at hfound
    dsimp only at hfound
    split at hfound
    next => cases hfound
    next row hrows =>
      cases hfound
      rw [hrows]
      exact List.mem_singleton_self _
    next => cases hfound
  obtain ⟨hr, hsuits⟩ := List.mem_filter.1 hin
  rw [Bool.and_eq_true, Bool.and_eq_true] at hsuits
  have howner := inScope_owner hsuits.1.1
  exact ⟨h.other hr (howner ▸ hu), howner⟩

/-- Somebody else's stale path is healed. -/
theorem SameView.heal (h : SameView v d₀ d) {u : Uuid} {path name : Str} {fileSection : FileSection}
    (hu : u ≠ v) : SameView v d₀ (FileRepo.heal (some u) fileSection path name d).2 ∧
      ∀ found, (FileRepo.heal (some u) fileSection path name d).1 = .ok (some found) → Other v d₀ found := by
  unfold FileRepo.heal
  split
  next model hrows =>
    have hin : model ∈ d.records.rows.filter fun r =>
        inScope (some u) fileSection r && r.status = .committed && r.originalName = name :=
      hrows ▸ List.mem_singleton_self _
    obtain ⟨hr, hsuits⟩ := List.mem_filter.1 hin
    rw [Bool.and_eq_true, Bool.and_eq_true] at hsuits
    have howner : model.userId ≠ v := inScope_owner hsuits.1.1 ▸ hu
    have hother := h.other hr howner
    split
    · refine ⟨h, ?_⟩
      intro found hfound
      rw [← Option.some.inj (Except.ok.inj hfound)]
      exact hother
    · exact h.assign hother.id fun r => ⟨rfl, rfl⟩
  next => exact ⟨h, fun found hfound => by cases hfound⟩

theorem SameView.movePrefix (h : SameView v d₀ d) {u : Uuid} {fileSection : FileSection} {old new : Str}
    (hu : u ≠ v) : SameView v d₀ (FileRepo.movePrefix (some u) fileSection old new d).2 := by
  apply h.update
  · intro r _ hmatch
    rw [Bool.and_eq_true, Bool.and_eq_true] at hmatch
    rw [inScope_owner hmatch.1.1]
    exact hu
  · exact fun r => ⟨rfl, rfl⟩

theorem SameView.deleteAllByUserSection (h : SameView v d₀ d) {u : Uuid} {fileSection : FileSection}
    (hu : u ≠ v) : SameView v d₀ (FileRepo.deleteAllByUserSection u fileSection d).2 := by
  apply h.update
  · intro r _ hmatch
    rw [Bool.and_eq_true] at hmatch
    rw [inScope_owner hmatch.1]
    exact hu
  · exact fun r => ⟨rfl, rfl⟩

/-- Somebody else's usage changes. -/
theorem SameView.modify (h : SameView v d₀ d) {u : Uuid} {limit : Int} {f : QuotaUsage → QuotaUsage}
    (hu : u ≠ v) : SameView v d₀ (QuotaRepo.modify limit u f d).2 := by
  apply h.step
  case hrows => rfl
  case harchives => exact fun p hp => hp
  case hquota => exact AList.lookup_insert_ne (Ne.symm hu)
  case hlinks => rfl

theorem SameView.getByUserId (h : SameView v d₀ d) {u : Uuid} {limit : Int} (hu : u ≠ v) :
    SameView v d₀ (QuotaRepo.getByUserId limit u d).2 := by
  unfold QuotaRepo.getByUserId
  split
  · exact h
  · apply h.step
    case hrows => rfl
    case harchives => exact fun p hp => hp
    case hquota => exact AList.lookup_insert_ne (Ne.symm hu)
    case hlinks => rfl

/-! #### Calls of the queue -/

/-- The table has the same links of a selection. -/
def SameLinks (p : IndexLink → Bool) (t t' : LinkTable) : Prop := t'.rows.filter p = t.rows.filter p

/-- The selection goes by the record of a link. -/
def ByRecord (p : IndexLink → Bool) : Prop :=
  ∀ link link', link.fileRecordId = link'.fileRecordId → p link = p link'

section
variable {p : IndexLink → Bool} {t t' : LinkTable} {now : Time} {α : Type}

theorem byRecord_linkedTo (v : Uuid) (d : Db) : ByRecord (linkedTo v d) := by
  intro link link' heq
  unfold linkedTo
  rw [heq]

theorem linkedTo_of_not {id : Uuid} (hid : NotOf v d id) {link : IndexLink}
    (hlink : link.fileRecordId = some id) : linkedTo v d link = false := by
  apply Bool.eq_false_iff.2
  intro hsome
  obtain ⟨r, hr, heq⟩ := List.any_eq_true.1 hsome
  have hids : some id = some r.id := hlink.symm.trans (of_decide_eq_true heq)
  exact hid r hr (Option.some.inj hids).symm

theorem sameLinks_set {row : IndexLink} (hold : ∀ link ∈ t.rows, link.id = row.id → p link = false)
    (hrow : p row = false) (h : t.set row = .ok t') : SameLinks p t t' := by
  have hrows : t'.rows = LinkTable.replace t.rows row := LinkTable.flush_rows h
  unfold SameLinks
  rw [hrows]
  unfold LinkTable.replace
  apply filter_map_same
  · intro link hlink
    split
    next heq => rw [hrow, hold link hlink heq]
    next => rfl
  · intro link hlink hsome
    split
    next heq =>
      rw [hold link hlink heq] at hsome
      cases hsome
    next => rfl

theorem sameLinks_transition (hp : ByRecord p) {linkId : Uuid} {tr : Transition} {found : Option IndexLink}
    (hold : ∀ link ∈ t.rows, link.id = linkId → p link = false)
    (h : t.applyTransition linkId tr now = .ok (found, t')) : SameLinks p t t' := by
  unfold LinkTable.applyTransition at h
  split at h
  next =>
    cases h
    rfl
  next model hmodel =>
    obtain ⟨hmem, hid⟩ := LinkTable.get_some hmodel
    split at h
    next => cases h
    next =>
      dsimp only at h
      cases hset : t.set (tr.apply now model) with
      | error e =>
        rw [hset] at h
        cases h
      | ok u =>
        rw [hset] at h
        cases h
        apply sameLinks_set _ _ hset
        · intro link hlink heq
          exact hold link hlink (heq.trans hid)
        · rw [hp (tr.apply now model) model rfl]
          exact hold model hmem hid

/-- The link that a queue call finds for a record. -/
theorem others_link {id : Uuid} (hid : ∀ link, link.fileRecordId = some id → p link = false)
    {model : IndexLink} (hmodel : t.byFileRecordId id = some model) :
    ∀ link ∈ t.rows, link.id = model.id → p link = false := by
  obtain ⟨hmem, hown⟩ := LinkTable.byFileRecordId_some hmodel
  intro link hlink heq
  rw [LinkTable.eq_of_id hlink hmem heq]
  exact hid model hown

theorem sameLinks_upsertPending {id : Uuid} {record : FileRecord}
    {decision : RegistrationDecision} {found : Option IndexLink}
    (hid : ∀ link, link.fileRecordId = some record.id → p link = false)
    (h : t.upsertPending id record decision now = .ok (found, t')) : SameLinks p t t' := by
  unfold LinkTable.upsertPending at h
  split at h
  · cases h
  · split at h
    · cases h
      rfl
    · split at h
      next existing hexisting =>
        split at h
        · cases h
        · cases h
          rfl
      next =>
        dsimp only at h
        cases hinsert : t.insert (LinkTable.insertedLink id record decision now) with
        | error e =>
          rw [hinsert] at h
          cases h
        | ok u =>
          rw [hinsert] at h
          cases h
          have hrows : t'.rows = t.rows ++ [LinkTable.insertedLink id record decision now] :=
            LinkTable.flush_rows hinsert
          unfold SameLinks
          rw [hrows, List.filter_append, List.filter_singleton, hid _ rfl]
          exact List.append_nil _

theorem sameLinks_markContentChanged (hp : ByRecord p) {id : Uuid} {decision : RegistrationDecision}
    {found : Option IndexLink} (hid : ∀ link, link.fileRecordId = some id → p link = false)
    (h : t.markContentChanged id decision now = .ok (found, t')) : SameLinks p t t' := by
  unfold LinkTable.markContentChanged at h
  split at h
  next =>
    cases h
    rfl
  next model hmodel =>
    split at h
    · cases h
    · exact sameLinks_transition hp (others_link hid hmodel) h

theorem sameLinks_markRekey (hp : ByRecord p) {id : Uuid} {key : Str}
    {found : Option IndexLink} (hid : ∀ link, link.fileRecordId = some id → p link = false)
    (h : t.markRekey id key now = .ok (found, t')) : SameLinks p t t' := by
  unfold LinkTable.markRekey at h
  split at h
  next =>
    cases h
    rfl
  next model hmodel =>
    have hothers := others_link hid hmodel
    split at h
    · cases h
    · split at h
      · split at h
        · cases h
          rfl
        · dsimp only at h
          cases hset : t.set { model with s3Key := key, updatedAt := now } with
          | error e =>
            rw [hset] at h
            cases h
          | ok u =>
            rw [hset] at h
            cases h
            apply sameLinks_set _ _ hset
            · exact hothers
            · have hsame : p { model with s3Key := key, updatedAt := now } = p model := hp _ _ rfl
              rw [hsame]
              exact hothers model (LinkTable.byFileRecordId_some hmodel).1 rfl
      · exact sameLinks_transition hp hothers h

theorem sameLinks_removeAll (hp : ByRecord p) {models links : List IndexLink}
    (hmodels : ∀ model ∈ models, ∀ link ∈ t.rows, link.id = model.id → p link = false)
    (h : LinkTable.removeAll models now t = .ok (links, t')) : SameLinks p t t' := by
  induction models generalizing t links with
  | nil =>
    cases h
    rfl
  | cons model rest ih =>
    unfold LinkTable.removeAll at h
    cases hfirst : t.applyTransition model.id LinkTable.removedTransition now with
    | error e =>
      rw [hfirst] at h
      cases h
    | ok result =>
      obtain ⟨link, u⟩ := result
      have hone : SameLinks p t u :=
        sameLinks_transition hp (hmodels model List.mem_cons_self) hfirst
      cases hrest : LinkTable.removeAll rest now u with
      | error e =>
        simp only [hfirst, hrest, Bind.bind, Except.bind] at h
        cases h
      | ok result =>
        obtain ⟨later, w⟩ := result
        simp only [hfirst, hrest, Bind.bind, Except.bind] at h
        cases h
        have hlater : ∀ m ∈ rest, ∀ link ∈ u.rows, link.id = m.id → p link = false := by
          intro m hm link hlink heq
          apply Bool.eq_false_iff.2
          intro hsome
          -- a selected link was in the table before
          have hbefore : link ∈ t.rows.filter p := by
            rw [← hone]
            exact List.mem_filter.2 ⟨hlink, hsome⟩
          have hnot := hmodels m (List.mem_cons_of_mem _ hm) link (List.mem_filter.1 hbefore).1 heq
          rw [hnot] at hsome
          cases hsome
        exact (ih hlater hrest).trans hone

theorem sameLinks_markRemoved (hp : ByRecord p) {ids : List Uuid} {links : List IndexLink}
    (hids : ∀ id ∈ ids, ∀ link, link.fileRecordId = some id → p link = false)
    (h : t.markRemoved ids now = .ok (links, t')) : SameLinks p t t' := by
  apply sameLinks_removeAll hp _ h
  intro model hmodel
  obtain ⟨id, hid, hfound⟩ := List.mem_filterMap.1 hmodel
  exact others_link (hids id (mem_dictFromKeys.1 hid)) hfound

/-- A queue call that leaves the user's links alone leaves all of the user's alone. -/
theorem SameView.links (h : SameView v d₀ d) {f : LinkTable → Except Exc (α × LinkTable)}
    (hf : ∀ a t', f d.links = .ok (a, t') → SameLinks (linkedTo v d) d.links t') :
    SameView v d₀ (onLinks f d).2 := by
  unfold onLinks
  split
  next a links hok =>
    apply h.step
    case hrows => rfl
    case harchives => exact fun p hp => hp
    case hquota => rfl
    case hlinks => exact hf a links hok
  next => exact h

end

end
/-! ### The environment of a request -/

/-- The keys that no adapter of others reaches, and no archive of theirs. -/
structure Sheltered (v : Uuid) (A : Adapter → Prop) (d₀ : Db) (k : Str) : Prop where
  adapters : ∀ a, A a → ¬ Within a.diskRelativePrefix k
  archives : ∀ archivePath, OthersArchive v d₀ archivePath → ¬ AtOrUnder diskRootAdapter archivePath k

/-- The user has what they had, in the tables and in the bucket. -/
structure Untouched (v : Uuid) (A : Adapter → Prop) (w₀ w : Installation) : Prop where
  tables : SameView v w₀.db w.db
  objects : ∀ k, Sheltered v A w₀.db k → w.bucket.content k = w₀.bucket.content k

theorem Untouched.refl (v : Uuid) (A : Adapter → Prop) (w : Installation) : Untouched v A w w :=
  ⟨.refl v w.db, fun _ _ => rfl⟩

/-- The adapter of a section has a root of its own. -/
structure Rooted (a : Adapter) : Prop where
  root : a.diskRelativePrefix ≠ []
  stripped : Text.stripSlash (Text.strip a.diskRelativePrefix) = a.diskRelativePrefix

/-- A run of a storage operation, in which any call may fail and a stream may hand over anything. -/
def Worked (s : S3StorageAdapter) : (op : StoreOp) → Bucket → Except Exc op.Resp → Bucket → Prop
  | .write path _ _, b, x, t => ∃ stream, Exec (Calls True) (s.write path stream) b x t
  | op, b, x, t => Exec (Calls True) (s.perform op) b x t

/-- The tables and the bucket of a request: every call may raise. Of an encrypting adapter it is only
known that its objects are below its root, when it has one. -/
def Faults (host : Host) : Handler FileCmd.Resp Exc Installation := fun c w x t =>
  match c with
  | .uuid4 => t = w
  | .db f => t.bucket = w.bucket ∧
      ((x = (f w.db).1 ∧ t.db = (f w.db).2) ∨ (∃ e, x = .error e) ∧ t.db = w.db)
  | .store a op => t.db = w.db ∧
      if a.decryptBlob.isSome then
        Rooted a → ∀ k, ¬ Within a.diskRelativePrefix k → t.bucket.content k = w.bucket.content k
      else Worked (host.storage a) op w.bucket x t.bucket

section
variable {e : EncryptedStorageAdapter} {path : Str}

attribute [local irreducible] normalizePath isPlainStoragePath Text.split

/-- A call of the adapter inside stays below its root. -/
theorem below_inner (hroot : e.inner.rootPrefix ≠ []) (op : StoreOp) :
    AllNames (Within e.inner.rootPrefix) (e.inner.perform op) := by
  apply all_mono (names_perform e.inner op)
  intro c hc k hk
  exact within_of_addresses hroot (hc k hk)

theorem below_resolvePath (hroot : e.inner.rootPrefix ≠ []) (path : Str) :
    AllNames (Within e.inner.rootPrefix) (e.resolvePath path) := by
  have hsegments : ∀ segments parent,
      AllNames (Within e.inner.rootPrefix) (e.resolveSegments parent segments) := by
    intro segments
    induction segments with
    | nil => exact fun _ => all_done _
    | cons segment rest ih =>
      intro parent
      apply all_bind (below_inner hroot (.list parent))
      intro entries
      split
      · trivial
      · exact ih _
  unfold EncryptedStorageAdapter.resolvePath
  split
  · exact all_done _
  · split
    · exact all_done _
    · exact hsegments _ _

theorem below_toEncryptedPath (hroot : e.inner.rootPrefix ≠ []) (path : Str) :
    AllNames (Within e.inner.rootPrefix) (e.toEncryptedPath path) := by
  unfold EncryptedStorageAdapter.toEncryptedPath
  split
  · exact all_done _
  · split
    · exact all_done _
    · dsimp only
      split
      · exact all_done _
      · exact all_bind (below_resolvePath hroot _) fun _ => all_done _

theorem below_decryptedFileSize (hroot : e.inner.rootPrefix ≠ []) (path : Str) :
    AllNames (Within e.inner.rootPrefix) (e.decryptedFileSize path) := by
  apply all_bind (below_inner hroot (.read path))
  intro payload
  apply all_done_bind
  intro content _
  trivial

theorem below_listNodes (hroot : e.inner.rootPrefix ≠ []) (path : Str) (nodes : List FileNode) :
    AllNames (Within e.inner.rootPrefix) (e.listNodes path nodes) := by
  induction nodes with
  | nil => trivial
  | cons node rest ih =>
    unfold EncryptedStorageAdapter.listNodes
    split
    · exact ih
    · dsimp only
      split
      · apply all_done_bind
        intro size _
        exact all_bind ih fun _ => all_done _
      · apply all_bind (below_decryptedFileSize hroot _)
        intro size
        apply all_done_bind
        intro size _
        exact all_bind ih fun _ => all_done _

theorem below_exists (hroot : e.inner.rootPrefix ≠ []) (path : Str) :
    AllNames (Within e.inner.rootPrefix) (e.exists path) := by
  unfold EncryptedStorageAdapter.exists
  split
  · exact below_inner hroot (.exists path)
  · have hresolved : AllNames (Within e.inner.rootPrefix) (e.resolved path) := by
      apply all_catchWith
      · exact all_bind (below_resolvePath hroot path) fun _ => all_done _
      · intro err
        split <;> trivial
    apply all_bind hresolved
    intro found
    cases found with
    | none => trivial
    | some encryptedPath => exact below_inner hroot (.exists encryptedPath)

/-- An encrypting adapter stays below the root of the adapter inside. -/
theorem below_perform (hroot : e.inner.rootPrefix ≠ []) (op : StoreOp) :
    AllNames (Within e.inner.rootPrefix) (e.perform op) := by
  cases op with
  | «exists» path => exact below_exists hroot path
  | read path =>
    apply all_bind (below_resolvePath hroot path)
    intro encryptedPath
    apply all_bind (below_inner hroot (.exists encryptedPath))
    intro found
    split
    · exact all_bind (below_inner hroot (.read encryptedPath)) fun _ => all_done _
    · trivial
  | write path data size =>
    apply all_bind (below_toEncryptedPath hroot path)
    intro encryptedPath
    exact all_bind (below_inner hroot (.write encryptedPath _ size)) fun _ => all_done _
  | delete path =>
    exact all_bind (below_resolvePath hroot path) fun found => below_inner hroot (.delete found)
  | mkdir path =>
    exact all_bind (below_toEncryptedPath hroot path) fun found => below_inner hroot (.mkdir found)
  | rename oldPath newPath =>
    apply all_bind (below_resolvePath hroot oldPath)
    intro encryptedOld
    apply all_bind (below_toEncryptedPath hroot newPath)
    intro encryptedNew
    exact below_inner hroot (.rename encryptedOld encryptedNew)
  | list path =>
    apply all_bind (below_resolvePath hroot path)
    intro encryptedPath
    exact all_bind (below_inner hroot (.list encryptedPath)) fun nodes =>
      below_listNodes hroot encryptedPath nodes
  | getSize path =>
    show AllNames _ (e.getSize path)
    unfold EncryptedStorageAdapter.getSize
    split
    · exact below_inner hroot (.getSize path)
    · exact all_bind (below_resolvePath hroot path) fun found => below_decryptedFileSize hroot found
  | listStaleTmpEntryPaths cutoff => exact below_inner hroot (.listStaleTmpEntryPaths cutoff)

end

/-- A host that answers every call is one of them. -/
theorem faults_serve (host : Host) (now : Time) (c : FileCmd) (w : Installation) :
    Faults host c w (host.serve now c w).1 (host.serve now c w).2 := by
  have hcalls : ∀ c b, Calls True c b (Bucket.serve now c b).1 (Bucket.serve now c b).2 :=
    fun c b => .inl ⟨now, rfl⟩
  cases c with
  | uuid4 => rfl
  | db f => exact ⟨rfl, .inl ⟨rfl, rfl⟩⟩
  | store a op =>
    unfold Faults Host.serve Host.perform
    dsimp only
    cases hcipher : a.cipher with
    | none =>
      have hnone : ¬ a.decryptBlob.isSome = true := by
        unfold Adapter.decryptBlob
        rw [hcipher]
        exact Bool.false_ne_true
      rw [if_neg hnone]
      refine ⟨rfl, ?_⟩
      cases op
      case write path data size => exact ⟨⟨[data], none⟩, exec_run hcalls _ _⟩
      all_goals exact exec_run hcalls _ _
    | some cipher =>
      have hsome : a.decryptBlob.isSome = true := by
        unfold Adapter.decryptBlob
        rw [hcipher]
        rfl
      rw [if_pos hsome]
      refine ⟨rfl, fun hrooted k hk => ?_⟩
      have hsame : (host.storage a).rootPrefix = a.diskRelativePrefix := hrooted.stripped
      have hbelow := below_perform (e := ⟨host.storage a, cipher, host.newId w.db⟩)
        (by rw [hsame]; exact hrooted.root) op
      apply elsewhere hbelow (exec_run hcalls _ _)
      rw [hsame]
      exact hk

section
variable {host : Host} {v : Uuid} {A : Adapter → Prop} {w₀ : Installation} {α β : Type}

/-- What a program of somebody else leaves alone, and what it returns. -/
abbrev Leaves (host : Host) (v : Uuid) (A : Adapter → Prop) (w₀ : Installation) (p : FileM α)
    (Q : α → Prop) : Prop :=
  Maintains (Faults host) (Untouched v A w₀) p Q

theorem leaves_uuid4 : Leaves host v A w₀ uuid4 fun _ => True := by
  apply maintains_issue
  intro w x t hw ht
  have hsame : t = w := ht
  rw [hsame]
  exact ⟨hw, fun _ _ => trivial⟩

theorem leaves_db {f : DbOp α} {Q : α → Prop}
    (h : ∀ d, SameView v w₀.db d → SameView v w₀.db (f d).2 ∧ ∀ a, (f d).1 = .ok a → Q a) :
    Leaves host v A w₀ (db f) Q := by
  apply maintains_issue
  intro w x t hw ht
  obtain ⟨hbucket, hdone | hfailed⟩ := ht
  · obtain ⟨hx, ht⟩ := hdone
    obtain ⟨hsame, hq⟩ := h w.db hw.tables
    refine ⟨⟨ht ▸ hsame, ?_⟩, ?_⟩
    · rw [hbucket]
      exact hw.objects
    · intro a ha
      exact hq a (hx.symm.trans ha)
  · obtain ⟨⟨e, hx⟩, ht⟩ := hfailed
    refine ⟨⟨ht ▸ hw.tables, ?_⟩, ?_⟩
    · rw [hbucket]
      exact hw.objects
    · intro a ha
      rw [hx] at ha
      cases ha

/-- A query changes nothing. -/
theorem leaves_query {f : DbOp α} {Q : α → Prop} (hsame : ∀ d, (f d).2 = d)
    (hq : ∀ d, SameView v w₀.db d → ∀ a, (f d).1 = .ok a → Q a) : Leaves host v A w₀ (db f) Q :=
  leaves_db fun d hd => ⟨hd.query (hsame d), hq d hd⟩

/-- A storage operation leaves the keys alone that it does not name. -/
theorem leaves_named {a : Adapter} {op : StoreOp} (hplain : a.decryptBlob = none)
    (h : ∀ k, Sheltered v A w₀.db k → ¬ Addresses (host.storage a) op k) :
    Leaves host v A w₀ (store a op) fun _ => True := by
  apply maintains_issue
  intro w x t hw ht
  have hnone : ¬ a.decryptBlob.isSome = true := by
    rw [hplain]
    exact Bool.false_ne_true
  obtain ⟨hdb, hworked⟩ := ht
  rw [if_neg hnone] at hworked
  refine ⟨⟨hdb ▸ hw.tables, ?_⟩, fun _ _ => trivial⟩
  intro k hk
  rw [← hw.objects k hk]
  have hnames := names_perform (host.storage a) op
  cases op
  case write path data size =>
    obtain ⟨stream, hexec⟩ := hworked
    have hstream : AllNames (Addresses (host.storage a) (.write path data size))
        ((host.storage a).write path stream) := names_write fun key hkey => hkey
    exact elsewhere hstream hexec (h k hk)
  all_goals exact elsewhere hnames hworked (h k hk)

/-- The adapters of others work on their own objects. -/
theorem leaves_store {a : Adapter} (hroot : Rooted a) (ha : A a) (op : StoreOp) :
    Leaves host v A w₀ (store a op) fun _ => True := by
  cases hdecrypt : a.decryptBlob with
  | none =>
    apply leaves_named hdecrypt
    intro k hk haddressed
    have hsame : (host.storage a).rootPrefix = a.diskRelativePrefix := hroot.stripped
    apply hk.adapters a ha
    rw [← hsame]
    exact within_of_addresses (by rw [hsame]; exact hroot.root) haddressed
  | some decrypt =>
    apply maintains_issue
    intro w x t hw ht
    have hsome : a.decryptBlob.isSome = true := by
      rw [hdecrypt]
      rfl
    obtain ⟨hdb, hconfined⟩ := ht
    rw [if_pos hsome] at hconfined
    refine ⟨⟨hdb ▸ hw.tables, ?_⟩, fun _ _ => trivial⟩
    intro k hk
    rw [hconfined hroot k (hk.adapters a ha)]
    exact hw.objects k hk

/-- An operation on the archive of somebody else. -/
theorem leaves_archive {archivePath : Str} (h : OthersArchive v w₀.db archivePath) {op : StoreOp}
    (hop : op = .exists archivePath ∨ op = .read archivePath ∨ op = .delete archivePath) :
    Leaves host v A w₀ (store diskRootAdapter op) fun _ => True := by
  apply leaves_named rfl
  intro k hk haddressed
  apply hk.archives archivePath h
  have hsame : (host.storage diskRootAdapter).adapter = diskRootAdapter :=
    plain_diskRoot.storage_adapter host
  rw [← hsame]
  rcases hop with hop | hop | hop
  · rw [hop] at haddressed
    exact haddressed
  · rw [hop] at haddressed
    exact ⟨k, haddressed, .inl rfl⟩
  · rw [hop] at haddressed
    exact haddressed

theorem leaves_deleteIfExists {a : Adapter} (hroot : Rooted a) (ha : A a) (path : Str) :
    Leaves host v A w₀ (deleteIfExists a path) fun _ => True := by
  unfold deleteIfExists
  apply maintains_bind (leaves_store hroot ha _)
  intro present _
  split
  · exact leaves_store hroot ha _
  · exact maintains_done trivial

/-- A queue call about records of others. -/
theorem leaves_links {f : LinkTable → Except Exc (α × LinkTable)} {refused : α}
    (hf : ∀ d, SameView v w₀.db d → ∀ a t', f d.links = .ok (a, t') → SameLinks (linkedTo v d) d.links t') :
    Leaves host v A w₀ (Enqueue.links f refused) fun _ => True := by
  unfold Enqueue.links
  apply maintains_catch
  · exact leaves_db fun d hd => ⟨hd.links (hf d hd), fun _ _ => trivial⟩
  · intro e
    split
    · exact maintains_done trivial
    · exact maintains_raise _

/-- The links of a record of somebody else are not the user's. -/
theorem Other.unlinked {r : FileRecord} {d : Db} (h : Other v w₀.db r) (hd : SameView v w₀.db d) :
    ∀ link : IndexLink, link.fileRecordId = some r.id → linkedTo v d link = false :=
  fun _ hlink => linkedTo_of_not (hd.notOf.2 h.id) hlink

end
end WebStorage.Tenants
