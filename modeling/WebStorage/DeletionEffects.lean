import WebStorage.Deletions

set_option autoImplicit false

/-! What the deletions do to the bucket, the records and the queue. -/
namespace WebStorage.DeletedUnindexed
open Effect Effect.Prog

variable {α β : Type} {W : Str → Prop} {Rem Del : Uuid → Prop} {s t u s₀ : Site} {d d' : Db}

/-! ### How the bucket and the tables change -/

/-- Objects only go, and only those under the keys of `W`. -/
structure Spares (W : Str → Prop) (s t : Site) : Prop where
  subset : ∀ k ∈ t.objects, k ∈ s.objects
  under : ∀ k ∈ s.objects, k ∉ t.objects → ∃ key, W key ∧ Under key k

theorem Spares.refl (W : Str → Prop) (s : Site) : Spares W s s :=
  ⟨fun _ hk => hk, fun _ hk hno => absurd hk hno⟩

theorem Spares.trans (h : Spares W s t) (h' : Spares W t u) : Spares W s u where
  subset k hk := h.subset k (h'.subset k hk)
  under k hk hno := by
    by_cases ht : k ∈ t.objects
    · exact h'.under k ht hno
    · exact h.under k hk ht

theorem Spares.of_eq (h : t.objects = s.objects) : Spares W s t := by
  constructor
  · intro k hk
    rwa [h] at hk
  · intro k hk hno
    rw [h] at hno
    exact absurd hk hno

/-- A link loses its record if that is one of `Rem`, and may be marked as removed. -/
structure Dims (Rem : Uuid → Prop) (old link : IndexLink) : Prop where
  fileSection : link.fileSection = old.fileSection
  record : link.fileRecordId = old.fileRecordId ∨
    (link.fileRecordId = none ∧ ∃ id, old.fileRecordId = some id ∧ Rem id)
  state : link.state = .removed ∨ (link.state = old.state ∧ link.ragFileId = old.ragFileId ∧
    link.s3Key = old.s3Key)

theorem Dims.refl (Rem : Uuid → Prop) (link : IndexLink) : Dims Rem link link :=
  ⟨rfl, .inl rfl, .inr ⟨rfl, rfl, rfl⟩⟩

theorem Dims.trans {a b c : IndexLink} (h : Dims Rem a b) (h' : Dims Rem b c) : Dims Rem a c where
  fileSection := h'.fileSection.trans h.fileSection
  record := by
    rcases h'.record with hsame | ⟨hnone, id, hid, hrem⟩
    · rw [hsame]
      exact h.record
    · rcases h.record with hsame' | ⟨hnone', -⟩
      · exact .inr ⟨hnone, id, hsame'.symm.trans hid, hrem⟩
      · rw [hnone'] at hid
        cases hid
  state := by
    rcases h'.state with hremoved | ⟨hstate, hrag, hkey⟩
    · exact .inl hremoved
    · rw [hstate, hrag, hkey]
      exact h.state

/-- The two rows are versions of one record, which is marked as deleted only if it is in `Del`. -/
structure Wanes (Del : Uuid → Prop) (r r' : FileRecord) : Prop where
  id : r'.id = r.id
  userId : r'.userId = r.userId
  fileSection : r'.fileSection = r.fileSection
  status : r'.status = .deleted → r.status = .deleted ∨ Del r.id

/-- Records go only if they are in `Rem`, and links only dim. -/
structure Fades (Rem Del : Uuid → Prop) (d t : Db) : Prop where
  kept : ∀ r ∈ d.records.rows, ¬ Rem r.id → ∃ r' ∈ t.records.rows, Wanes Del r r'
  old : ∀ r' ∈ t.records.rows, ∃ r ∈ d.records.rows, Wanes Del r r'
  links : ∀ link ∈ t.links.rows, ∃ old ∈ d.links.rows, Dims Rem old link

theorem Wanes.refl (Del : Uuid → Prop) (r : FileRecord) : Wanes Del r r :=
  ⟨rfl, rfl, rfl, .inl⟩

theorem Wanes.trans {a b c : FileRecord} (h : Wanes Del a b) (h' : Wanes Del b c) :
    Wanes Del a c where
  id := h'.id.trans h.id
  userId := h'.userId.trans h.userId
  fileSection := h'.fileSection.trans h.fileSection
  status hc := by
    rcases h'.status hc with hb | hdel
    · exact h.status hb
    · exact .inr (h.id ▸ hdel)

theorem Fades.refl (Rem Del : Uuid → Prop) (d : Db) : Fades Rem Del d d where
  kept r hr _ := ⟨r, hr, .refl Del r⟩
  old r hr := ⟨r, hr, .refl Del r⟩
  links link hlink := ⟨link, hlink, .refl Rem link⟩

theorem Fades.trans {a b c : Db} (h : Fades Rem Del a b) (h' : Fades Rem Del b c) :
    Fades Rem Del a c where
  kept r hr hrem := by
    obtain ⟨mid, hmid, hw⟩ := h.kept r hr hrem
    obtain ⟨last, hlast, hw'⟩ := h'.kept mid hmid (hw.id.symm ▸ hrem)
    exact ⟨last, hlast, hw.trans hw'⟩
  old r hr := by
    obtain ⟨mid, hmid, hw'⟩ := h'.old r hr
    obtain ⟨first, hfirst, hw⟩ := h.old mid hmid
    exact ⟨first, hfirst, hw.trans hw'⟩
  links link hlink := by
    obtain ⟨mid, hmid, hdims'⟩ := h'.links link hlink
    obtain ⟨first, hfirst, hdims⟩ := h.links mid hmid
    exact ⟨first, hfirst, hdims.trans hdims'⟩

/-- Links stand for records of the indexed sections. -/
def Sectioned (d : Db) : Prop := ∀ link ∈ d.links.rows, link.fileSection ≠ .private ∧
  ∀ r ∈ d.records.rows, link.fileRecordId = some r.id →
    r.fileSection = .files ∨ r.fileSection = .photos

theorem Fades.sectioned (h : Fades Rem Del d d') (hd : Sectioned d) : Sectioned d' := by
  intro link hlink
  obtain ⟨old, hold, hdims⟩ := h.links link hlink
  refine ⟨hdims.fileSection.symm ▸ (hd old hold).1, fun r hr hid => ?_⟩
  obtain ⟨r₀, hr₀, hw⟩ := h.old r hr
  rcases hdims.record with hsame | ⟨hnone, -⟩
  · rw [hw.fileSection]
    exact (hd old hold).2 r₀ hr₀ (by rw [← hsame, hid, hw.id])
  · rw [hid] at hnone
    cases hnone

/-! ### The repositories -/

/-- A change of other columns, or the mark as deleted. -/
theorem fades_update {p : FileRecord → Bool} {f : FileRecord → FileRecord}
    (hkept : ∀ r, (f r).userId = r.userId ∧ (f r).fileSection = r.fileSection)
    (hstatus : ∀ r, p r → (f r).status = .deleted → r.status = .deleted ∨ Del r.id) :
    Fades Rem Del d { d with records := d.records.update p f } := by
  have hrow : ∀ r, Wanes Del r (if p r then { f r with id := r.id } else r) := by
    intro r
    split
    · rename_i hp
      exact ⟨rfl, (hkept r).1, (hkept r).2, hstatus r hp⟩
    · exact .refl Del r
  constructor
  · intro r hr _
    exact ⟨_, List.mem_map_of_mem hr, hrow r⟩
  · intro r' hr'
    obtain ⟨r, hr, rfl⟩ := List.mem_map.1 hr'
    exact ⟨r, hr, hrow r⟩
  · intro link hlink
    exact ⟨link, hlink, .refl Rem link⟩

theorem fades_delete {id : Uuid} (h : Del id) : Fades Rem Del d (FileRepo.delete id d).2 := by
  apply fades_update
  · intro r
    exact ⟨rfl, rfl⟩
  · intro r hr _
    have hid : r.id = id := of_decide_eq_true hr
    exact .inr (hid ▸ h)

/-- Rows are deleted, and the links to them lose the reference. -/
theorem fades_drop {p : FileRecord → Bool} {gone : Uuid → Bool} {quotas : QuotaTable}
    (hp : ∀ r ∈ d.records.rows, p r → Rem r.id) (hgone : ∀ id, gone id → Rem id) :
    Fades Rem Del d ⟨d.records.drop p, quotas, d.links.forget gone⟩ := by
  constructor
  · intro r hr hrem
    refine ⟨r, List.mem_filter.2 ⟨hr, ?_⟩, .refl Del r⟩
    have hpr : p r = false := Bool.eq_false_iff.2 fun hpr => hrem (hp r hr hpr)
    rw [hpr]
    rfl
  · intro r hr
    exact ⟨r, (List.mem_filter.1 hr).1, .refl Del r⟩
  · intro link hlink
    obtain ⟨old, hold, rfl⟩ := List.mem_map.1 hlink
    refine ⟨old, hold, rfl, ?_, .inr ⟨rfl, rfl, rfl⟩⟩
    rcases LinkTable.forgotten_record gone old with hsame | ⟨hnone, id, hid, h⟩
    · exact .inl hsame
    · exact .inr ⟨hnone, id, hid, hgone id h⟩

theorem fades_onLinks {f : LinkTable → Except Exc (α × LinkTable)}
    (hf : ∀ table a table', f table = .ok (a, table') →
      ∀ link ∈ table'.rows, ∃ old ∈ table.rows, Dims Rem old link) :
    Fades Rem Del d (onLinks f d).2 := by
  unfold onLinks
  cases h : f d.links with
  | error e => exact .refl Rem Del d
  | ok res =>
    constructor
    · intro r hr _
      exact ⟨r, hr, .refl Del r⟩
    · intro r hr
      exact ⟨r, hr, .refl Del r⟩
    · exact hf _ _ _ h

theorem dims_removed (now : Time) (link : IndexLink) :
    Dims Rem link (LinkTable.removedTransition.apply now link) := ⟨rfl, .inl rfl, .inl rfl⟩

theorem dims_removeAll {models links : List IndexLink} {now : Time} {table table' : LinkTable}
    (h : LinkTable.removeAll models now table = .ok (links, table')) :
    ∀ link ∈ table'.rows, ∃ old ∈ table.rows, Dims Rem old link := by
  intro link hlink
  have hget := LinkTable.removeAll_get h link.id
  rw [LinkTable.get_of_mem hlink] at hget
  split at hget
  · cases hg : table.get link.id with
    | none =>
      rw [hg] at hget
      cases hget
    | some old =>
      rw [hg] at hget
      have hlast : link = LinkTable.removedTransition.apply now old := Option.some.inj hget
      exact ⟨old, (LinkTable.get_some hg).1, hlast ▸ dims_removed now old⟩
  · exact ⟨link, (LinkTable.get_some hget.symm).1, .refl Rem link⟩

/-! ### Programs -/

/-- A command that takes no object away but under the keys of `W`, and fades the tables. -/
def Mild (W : Str → Prop) (Rem Del : Uuid → Prop) : FileCmd → Prop
  | .uuid4 => True
  | .db f => ∀ d, Fades Rem Del d (f d).2
  | .store a (.delete path) => ∀ key, objectKey a path = .ok key → W key
  | .store _ (.write ..) => False
  | .store _ (.mkdir _) => False
  | .store _ (.rename ..) => False
  | .store .. => True

/-- Stale entries lie in `.tmp` directories. -/
def Tells : (c : FileCmd) → c.Resp → Prop
  | .store a (.listStaleTmpEntryPaths _), paths => ∀ path ∈ paths, ∀ key,
    objectKey a path = .ok key → tmpDir ∈ Text.split key
  | _, _ => True

abbrev AllMild (W : Str → Prop) (Rem Del : Uuid → Prop) (p : FileM α) : Prop :=
  p.All (Mild W Rem Del) Tells

/-- The site after some steps that started at `s`. -/
structure Near (W : Str → Prop) (Rem Del : Uuid → Prop) (s t : Site) : Prop where
  objects : Spares W s t
  tables : Fades Rem Del s.db t.db

theorem Near.refl (W : Str → Prop) (Rem Del : Uuid → Prop) (s : Site) : Near W Rem Del s s :=
  ⟨.refl W s, .refl Rem Del s.db⟩

theorem near_answers {c : FileCmd} {x : Except Exc c.Resp} (hc : Mild W Rem Del c)
    (hs : Near W Rem Del s₀ s) (h : Answers c s x t) :
    Near W Rem Del s₀ t ∧ ∀ a, x = .ok a → Tells c a := by
  cases c with
  | uuid4 =>
    have ht : t = s := h
    exact ⟨ht ▸ hs, fun _ _ => trivial⟩
  | db f =>
    obtain ⟨hf, hobjects⟩ := h
    have hstep := hc s.db
    rw [hf] at hstep
    exact ⟨⟨hs.objects.trans (.of_eq hobjects), hs.tables.trans hstep⟩, fun _ _ => trivial⟩
  | store a op =>
    obtain ⟨hdb, hserve⟩ := h
    have htables : Fades Rem Del s₀.db t.db := hdb ▸ hs.tables
    have hsame : t.objects = s.objects → Near W Rem Del s₀ t := fun hobjects =>
      ⟨hs.objects.trans (.of_eq hobjects), htables⟩
    cases op with
    | delete path =>
      obtain ⟨hsub, hunder, -⟩ := hserve
      refine ⟨⟨hs.objects.trans ⟨hsub, fun k hk hno => ?_⟩, htables⟩, fun _ _ => trivial⟩
      obtain ⟨key, hkey, hk'⟩ := hunder k hk hno
      exact ⟨key, hc key hkey, hk'⟩
    | list path => exact ⟨hsame hserve.1, fun _ _ => trivial⟩
    | listStaleTmpEntryPaths cutoff => exact ⟨hsame hserve.1, fun paths hx => hserve.2 paths hx⟩
    | write path data size => exact hc.elim
    | mkdir path => exact hc.elim
    | rename oldPath newPath => exact hc.elim
    | «exists» path => exact ⟨hsame hserve, fun _ _ => trivial⟩
    | read path => exact ⟨hsame hserve, fun _ _ => trivial⟩
    | getSize path => exact ⟨hsame hserve, fun _ _ => trivial⟩

/-- Wherever the program is stopped the bucket has lost nothing but under the keys of `W`, and if
it returns then as `R` says. -/
def Does (W : Str → Prop) (s₀ : Site) (p : FileM α) (R : α → Site → Prop) (s : Site) : Prop :=
  wp Answers (Spares W s₀) p (fun x t => ∀ a, x = .ok a → R a t) s

section
variable {p : FileM α} {k : α → FileM β} {R : β → Site → Prop} {M : α → Site → Prop}

theorem does_mild (hp : AllMild W Rem Del p) (hs : Near W Rem Del s₀ s) :
    Does W s₀ p (fun _ t => Near W Rem Del s₀ t) s := by
  have hwp : wp Answers (Near W Rem Del s₀) p (fun _ => Near W Rem Del s₀) s :=
    wp_of_all hp hs fun c s x t hc hs hx => near_answers hc hs hx
  refine wp_weaken (wp_mono hwp fun x t _ ht => ?_) fun t ht => ht.objects
  exact fun _ _ => ht

theorem does_bind (hp : Does W s₀ p M s) (hk : ∀ a t, M a t → Does W s₀ (k a) R t) :
    Does W s₀ (p.bind k) R s := by
  rw [Does, wp_bind]
  refine wp_mono hp fun x t _ ht => ?_
  cases x with
  | ok a => exact hk a t (ht a rfl)
  | error e => exact fun _ ha => by cases ha

theorem bind_mild (hp : AllMild W Rem Del p) (hs : Near W Rem Del s₀ s)
    (hk : ∀ a t, Near W Rem Del s₀ t → Does W s₀ (k a) R t) : Does W s₀ (p.bind k) R s :=
  does_bind (does_mild hp hs) hk

theorem does_done {a : α} (hs : Spares W s₀ s) (h : M a s) : Does W s₀ (done (.ok a)) M s := by
  refine ⟨hs, fun b hb => ?_⟩
  cases hb
  exact h

theorem does_raise {e : Exc} (hs : Spares W s₀ s) : Does W s₀ (done (.error e)) M s :=
  ⟨hs, fun _ hb => by cases hb⟩

/-- A query is answered from the tables as they are. -/
theorem does_query {f : DbOp α} (hs : Spares W s₀ s) (hf : (f s.db).2 = s.db)
    (hk : ∀ a, (f s.db).1 = .ok a → Does W s₀ (k a) R s) : Does W s₀ ((db f).bind k) R s := by
  refine does_bind (M := fun a t => t = s ∧ (f s.db).1 = .ok a) ?_ ?_
  · refine ⟨hs, fun x t ht => ?_⟩
    obtain ⟨hx, hobjects⟩ := ht
    have hdb : t.db = s.db := by rw [← hf, hx]
    obtain rfl : t = s := by
      cases t
      cases s
      simp only at hdb hobjects
      rw [hdb, hobjects]
    refine ⟨hs, fun a ha => ⟨rfl, ?_⟩⟩
    rw [hx, ha]
  · rintro a t ⟨rfl, ha⟩
    exact hk a ha

end

theorem mild_store {a : Adapter} {op : StoreOp} (h : Mild W Rem Del (.store a op)) :
    AllMild W Rem Del (store a op) := ⟨h, fun _ _ => all_done _⟩

theorem mild_db {f : DbOp α} (h : ∀ d, Fades Rem Del d (f d).2) : AllMild W Rem Del (db f) :=
  ⟨h, fun _ _ => all_done _⟩

theorem mild_deleteIfExists {a : Adapter} {path : Str}
    (h : ∀ key, objectKey a path = .ok key → W key) : AllMild W Rem Del (deleteIfExists a path) := by
  refine all_bind (mild_store trivial) fun present => ?_
  split
  · exact mild_store h
  · trivial

theorem mild_modify (limit : Int) (userId : Uuid) (f : QuotaUsage → QuotaUsage) :
    AllMild W Rem Del (db (QuotaRepo.modify limit userId f)) := by
  refine mild_db fun d => ⟨fun r hr _ => ⟨r, hr, .refl Del r⟩, fun r hr => ⟨r, hr, .refl Del r⟩, ?_⟩
  exact fun link hlink => ⟨link, hlink, .refl Rem link⟩

theorem mild_deleteArchivedBlob {r : FileRecord}
    (h : ∀ path, r.archivePath = some path → ∀ key, objectKey diskRootAdapter path = .ok key → W key) :
    AllMild W Rem Del (deleteArchivedBlob r) := by
  unfold deleteArchivedBlob
  split
  · trivial
  · rename_i path hpath
    split
    · trivial
    · refine all_catchWith (mild_deleteIfExists (h path hpath)) fun e => ?_
      split <;> trivial

/-- The links of these records are marked as removed. -/
def Marked (ids : List Uuid) (d : Db) : Prop :=
  ∀ link ∈ d.links.rows, ∀ id ∈ ids, link.fileRecordId = some id → link.state = .removed

theorem marked_removed {ids : List Uuid} {now : Time} {links : List IndexLink}
    {table table' : LinkTable} (h : table.markRemoved ids now = .ok (links, table')) :
    ∀ link ∈ table'.rows, ∀ id ∈ ids, link.fileRecordId = some id → link.state = .removed := by
  intro link hlink id hid hrecord
  obtain ⟨old, hold, hdims⟩ : ∃ old ∈ table.rows, Dims (fun _ => False) old link :=
    dims_removeAll h link hlink
  have hget := LinkTable.removeAll_get h link.id
  rw [LinkTable.get_of_mem hlink] at hget
  cases hg : table.get link.id with
  | none =>
    rw [hg] at hget
    split at hget <;> cases hget
  | some row =>
    obtain ⟨hrow, hrowid⟩ := LinkTable.get_some hg
    have hrowrecord : row.fileRecordId = some id := by
      rw [hg] at hget
      split at hget
      · have hlast : link = LinkTable.removedTransition.apply now row := Option.some.inj hget
        rw [hlast] at hrecord
        exact hrecord
      · rw [← Option.some.inj hget]
        exact hrecord
    have hfound := LinkTable.byFileRecordId_eq hrow hrowrecord
    have hlast := LinkTable.markRemoved_get h hfound
    rw [if_pos hid, hrowid, LinkTable.get_of_mem hlink] at hlast
    rw [Option.some.inj hlast]
    rfl

theorem near_removed {ids : List Uuid} {now : Time} (hs : Near W Rem Del s₀ s) :
    Near W Rem Del s₀ ⟨(onLinks (fun t => t.markRemoved ids now) s.db).2, s.objects⟩ where
  objects := hs.objects.trans (.of_eq rfl)
  tables := hs.tables.trans (fades_onLinks fun _ _ _ h => dims_removeAll h)

/-- The last step of a deletion: what it deleted is marked in the queue. A service without the
queue deletes nothing that the queue knows. -/
theorem does_removed {q : Enqueue} {ids : List Uuid} {now : Time} (hs : Near W Rem Del s₀ s)
    (hsections : Sectioned s.db)
    (hactive : q.active ∨ Marked ids s.db) :
    Does W s₀ (q.removed ids now) (fun _ t => Near W Rem Del s₀ t ∧ Marked ids t.db ∧
      t.objects = s.objects) s := by
  unfold Enqueue.removed
  by_cases hnone : ids = [] ∨ q.active = false
  · rw [if_pos hnone]
    refine does_done hs.objects ⟨hs, ?_, rfl⟩
    rcases hnone with hids | hoff
    · rw [hids]
      exact fun _ _ _ hid => absurd hid List.not_mem_nil
    · rcases hactive with hon | hmarked
      · rw [hoff] at hon
        cases hon
      · exact hmarked
  · rw [if_neg hnone]
    have hnear : Near W Rem Del s₀ ⟨(onLinks (fun t => t.markRemoved ids now) s.db).2, s.objects⟩ :=
      near_removed hs
    refine does_bind (M := fun _ t => Near W Rem Del s₀ t ∧ Marked ids t.db ∧
      t.objects = s.objects) ?_ fun _ t ht => does_done ht.1.objects ht
    refine wp_catchWith ⟨hs.objects, fun x t ht => ?_⟩
    obtain ⟨hx, hobjects⟩ := ht
    cases hremoved : s.db.links.markRemoved ids now with
    | error e =>
      have herror := onLinks_error (f := fun t => t.markRemoved ids now) hremoved
      have hrefused : e ≠ .privateIndexRefused := by
        apply LinkTable.removeAll_public _ hremoved
        intro link hlink
        exact (hsections link hlink).1
      obtain rfl : x = .error e := (congrArg Prod.fst (hx.symm.trans herror))
      have hspares : Spares W s₀ t := hs.objects.trans (.of_eq hobjects)
      refine ⟨hspares, ?_⟩
      dsimp only
      split
      · exact absurd rfl hrefused
      · exact does_raise hspares
    | ok res =>
      have hok := onLinks_ok (f := fun t => t.markRemoved ids now) hremoved
      have hdb : t.db = { s.db with links := res.2 } := congrArg Prod.snd (hx.symm.trans hok)
      obtain rfl : x = .ok res.1 := congrArg Prod.fst (hx.symm.trans hok)
      have hlast : Near W Rem Del s₀ t := by
        rw [hok] at hnear
        refine ⟨hs.objects.trans (.of_eq hobjects), ?_⟩
        rw [hdb]
        exact hnear.tables
      refine ⟨hlast.objects, fun a _ => ⟨hlast, ?_, hobjects⟩⟩
      rw [hdb]
      exact marked_removed hremoved

/-! ### Each deletion -/

theorem Fades.mono {Rem' : Uuid → Prop} (h : Fades Rem Del d d') (hrem : ∀ id, Rem id → Rem' id) :
    Fades Rem' Del d d' where
  kept r hr hno := h.kept r hr fun hyes => hno (hrem r.id hyes)
  old := h.old
  links link hlink := by
    obtain ⟨old, hold, hdims⟩ := h.links link hlink
    refine ⟨old, hold, hdims.fileSection, ?_, hdims.state⟩
    rcases hdims.record with hsame | ⟨hnone, id, hid, hyes⟩
    · exact .inl hsame
    · exact .inr ⟨hnone, id, hid, hrem id hyes⟩

/-- No row is deleted. -/
def NoRow (_ : Uuid) : Prop := False

/-- What a committed deletion leaves: the records of `ids` are deleted and their links marked, and
among them are those whose removal it queues. -/
def Complete (now : Time) (e : Deletion) (s t : Site) : Prop :=
  ∃ ids : List Uuid, Fades (fun id => ∃ r ∈ s.db.records.rows, r.id = id ∧ e.Drops now r) (· ∈ ids)
      s.db t.db ∧ Marked ids t.db ∧
    ∀ r ∈ s.db.records.rows, e.Queues s.db r → recordKey r ∈ s.objects →
      recordKey r ∉ t.objects → r.id ∈ ids

/-- Records of the other sections have no links to mark. -/
theorem marked_of_section {ids : List Uuid} (hsections : Sectioned d)
    (h : ∀ id ∈ ids, ∃ r ∈ d.records.rows, r.id = id ∧
      ¬ (r.fileSection = .files ∨ r.fileSection = .photos)) : Marked ids d := by
  intro link hlink id hid hrecord
  obtain ⟨r, hr, hrid, hsection⟩ := h id hid
  rw [← hrid] at hrecord
  exact absurd ((hsections link hlink).2 r hr hrecord) hsection

/-- The queue marks the records that a service of their section has deleted. -/
theorem marks_or_none {q : Enqueue} {fileSection : FileSection} {ids : List Uuid}
    (henabled : fileSection = .files ∨ fileSection = .photos → q.active) (hsections : Sectioned d)
    (h : ∀ id ∈ ids, ∃ r ∈ d.records.rows, r.id = id ∧ r.fileSection = fileSection) :
    q.active ∨ Marked ids d := by
  by_cases hindexed : fileSection = .files ∨ fileSection = .photos
  · exact .inl (henabled hindexed)
  · refine .inr (marked_of_section hsections fun id hid => ?_)
    obtain ⟨r, hr, hrid, hrsection⟩ := h id hid
    exact ⟨r, hr, hrid, hrsection ▸ hindexed⟩

theorem Fades.finds {ids : List Uuid} {fileSection : FileSection} (h : Fades NoRow Del d d')
    (hids : ∀ id ∈ ids, ∃ r ∈ d.records.rows, r.id = id ∧ r.fileSection = fileSection) :
    ∀ id ∈ ids, ∃ r ∈ d'.records.rows, r.id = id ∧ r.fileSection = fileSection := by
  intro id hid
  obtain ⟨r, hr, hrid, hsection⟩ := hids id hid
  obtain ⟨r', hr', hw⟩ := h.kept r hr fun hno => hno
  exact ⟨r', hr', hw.id.trans hrid, hw.fileSection.trans hsection⟩

/-- The last step of a deletion by a service. -/
theorem does_mark {q : Enqueue} {fileSection : FileSection} {ids : List Uuid} {now : Time}
    (hs : Near W NoRow (· ∈ ids) s₀ s) (hsections : Sectioned s₀.db)
    (henabled : fileSection = .files ∨ fileSection = .photos → q.active)
    (hids : ∀ id ∈ ids, ∃ r ∈ s₀.db.records.rows, r.id = id ∧ r.fileSection = fileSection) :
    Does W s₀ (q.removed ids now)
      (fun _ t => Near W NoRow (· ∈ ids) s₀ t ∧ Marked ids t.db ∧ t.objects = s.objects) s := by
  have hlater := hs.tables.sectioned hsections
  exact does_removed hs hlater (marks_or_none henabled hlater (hs.tables.finds hids))

theorem mild_deleteTaken {a : Adapter} {sectionPath : Str} {r : FileRecord} {p : FileM Unit}
    (harchived : r.isArchived → p = deleteArchivedBlob r)
    (hplain : r.isArchived = false → p = deleteIfExists a sectionPath)
    (h : ∀ key, TakenAt a sectionPath r key → W key) : AllMild W Rem Del p := by
  cases hr : r.isArchived with
  | true =>
    rw [harchived hr]
    refine mild_deleteArchivedBlob fun path hpath key hkey => h key ?_
    rw [TakenAt, if_pos hr]
    exact ⟨path, hpath, hkey⟩
  | false =>
    rw [hplain hr]
    refine mild_deleteIfExists fun key hkey => h key ?_
    rw [TakenAt, if_neg (by simp [hr])]
    exact hkey

section
-- The paths play no part here, and must not be evaluated.
attribute [local irreducible] Adapter.toDiskRelativePath normalizePath objectKey

/-- `delete_file` of the record that is stored under the id. -/
theorem does_deleteFile (sv : FileService) (actorId fileId : Uuid) (actorRole : Option Role)
    (now : Time) {r : FileRecord} (hs : Near W NoRow (· ∈ [fileId]) s₀ s)
    (hsections : Sectioned s₀.db) (hget : s.db.records.get fileId = some r)
    (hrow : ∃ r ∈ s₀.db.records.rows, r.id = fileId ∧ r.fileSection = sv.fileSection)
    (henabled : sv.fileSection = .files ∨ sv.fileSection = .photos → sv.queue.active)
    (hW : ∀ key, TakenAt sv.adapter (sv.toSectionPath r) r key → W key) :
    Does W s₀ (sv.deleteFile actorId fileId actorRole now)
      (fun _ t => Near W NoRow (· ∈ [fileId]) s₀ t ∧ Marked [fileId] t.db) s := by
  unfold FileService.deleteFile
  have hread : Does W s₀ (sv.getDownloadableRecord fileId actorId) (fun a t => a = r ∧ t = s) s := by
    unfold FileService.getDownloadableRecord
    refine does_query hs.objects rfl fun found hfound => ?_
    obtain rfl : found = some r := Except.ok.inj (hfound.symm.trans (congrArg Except.ok hget))
    dsimp only
    split_ifs
    · exact does_raise hs.objects
    · exact does_raise hs.objects
    · exact does_done hs.objects ⟨rfl, rfl⟩
  refine does_bind hread ?_
  rintro a t ⟨rfl, rfl⟩
  have hallowed : AllMild W NoRow (· ∈ [fileId])
      (sv.ensureCanDeleteRecord a actorId actorRole) := by
    unfold FileService.ensureCanDeleteRecord
    split_ifs <;> trivial
  have hobject : AllMild W NoRow (· ∈ [fileId]) (sv.deleteObject a) :=
    mild_deleteTaken (fun h => if_pos h) (fun h => if_neg (by simp [h])) hW
  have hdelete : AllMild W NoRow (· ∈ [fileId]) (db (FileRepo.delete fileId)) :=
    mild_db fun _ => fades_delete (List.mem_singleton_self fileId)
  refine bind_mild hallowed hs fun _ t₁ h₁ => ?_
  refine bind_mild hobject h₁ fun _ t₂ h₂ => ?_
  refine bind_mild hdelete h₂ fun _ t₃ h₃ => ?_
  refine bind_mild (mild_modify _ _ _) h₃ fun _ t₄ h₄ => ?_
  have hids : ∀ id ∈ [fileId], ∃ r ∈ s₀.db.records.rows, r.id = id ∧
      r.fileSection = sv.fileSection := by
    intro id hid
    rw [List.mem_singleton.1 hid]
    exact hrow
  refine wp_mono (does_mark h₄ hsections henabled hids) fun x t _ ht u hu => ?_
  exact ⟨(ht u hu).1, (ht u hu).2.1⟩

theorem does_deletePhoto (sv : PhotoService) (userId fileId : Uuid) (now : Time)
    (hsections : Sectioned s.db) (henabled : sv.queue.active) :
    Does ((Deletion.deletePhoto sv userId fileId).Wipes now s.db) s
      (sv.deletePhoto userId fileId now)
      (fun _ t => Complete now (.deletePhoto sv userId fileId) s t) s := by
  unfold PhotoService.deletePhoto PhotoService.getDownloadableRecord
  set W := (Deletion.deletePhoto sv userId fileId).Wipes now s.db
  have hread : Does W s (PhotoService.getDownloadableRecord userId fileId)
      (fun a t => s.db.records.get fileId = some a ∧ a.fileSection = .photos ∧ t = s) s := by
    unfold PhotoService.getDownloadableRecord
    refine does_query (.refl W s) rfl fun found hfound => ?_
    have hget : s.db.records.get fileId = found := Except.ok.inj hfound
    cases found with
    | none => exact does_raise (.refl W s)
    | some r =>
      dsimp only
      split_ifs with hstored howner hsection
      · exact does_raise (.refl W s)
      · exact does_raise (.refl W s)
      · exact does_raise (.refl W s)
      · exact does_done (.refl W s) ⟨hget, not_not.1 hsection, rfl⟩
  refine does_bind hread ?_
  rintro r t ⟨hget, hsection, rfl⟩
  have hobject : AllMild W NoRow (· ∈ [fileId]) (sv.deleteObject r) :=
    mild_deleteTaken (fun h => if_pos h) (fun h => if_neg (by simp [h]))
      fun key hkey => ⟨r, hget, .inl hkey⟩
  have hpreview : AllMild W NoRow (· ∈ [fileId])
      (deleteIfExists sv.adapter (PhotoService.previewPath fileId)) :=
    mild_deleteIfExists fun key hkey => ⟨r, hget, .inr hkey⟩
  have hdelete : AllMild W NoRow (· ∈ [fileId]) (db (FileRepo.delete fileId)) :=
    mild_db fun _ => fades_delete (List.mem_singleton_self fileId)
  refine bind_mild hobject (.refl W NoRow _ t) fun _ t₁ h₁ => ?_
  refine bind_mild hpreview h₁ fun _ t₂ h₂ => ?_
  refine bind_mild hdelete h₂ fun _ t₃ h₃ => ?_
  refine bind_mild (mild_modify _ _ _) h₃ fun _ t₄ h₄ => ?_
  have hids : ∀ id ∈ [fileId], ∃ r ∈ t.db.records.rows, r.id = id ∧ r.fileSection = .photos := by
    intro id hid
    rw [List.mem_singleton.1 hid]
    exact ⟨r, (RecordTable.get_some hget).1, (RecordTable.get_some hget).2, hsection⟩
  refine wp_mono (does_mark h₄ hsections (fun _ => henabled) hids) fun x u _ hu a ha => ?_
  obtain ⟨hnear, hmarked, -⟩ := hu a ha
  refine ⟨[fileId], hnear.tables.mono fun _ h => h.elim, hmarked, fun r _ hqueues _ _ => ?_⟩
  exact List.mem_singleton.2 hqueues

/-- A question to the storage. -/
theorem does_exists {a : Adapter} {path : Str} (hs : Spares W s₀ s) :
    Does W s₀ (store a (.exists path)) (fun _ t => t = s) s := by
  refine ⟨hs, fun x t ht => ?_⟩
  obtain ⟨hdb, hobjects⟩ := ht
  obtain rfl : t = s := by
    cases t
    cases s
    simp only at hdb
    have heq := hobjects
    simp only [StoreServes] at heq
    rw [hdb, heq]
  exact ⟨hs, fun _ _ => rfl⟩

/-- What is no directory has nothing under it. -/
theorem does_isDirectory (sv : FileService) {path : Str} (hs : Spares W s₀ s) :
    Does W s₀ (sv.isDirectory path) (fun b t => t = s ∧ (b = false →
      ∀ key, objectKey sv.adapter path = .ok key → ∀ k ∈ s.objects, ¬ key ++ ['/'] <+: k)) s := by
  unfold FileService.isDirectory
  refine wp_catchWith ?_
  rw [bind_eq, wp_bind]
  refine ⟨hs, fun x t ht => ?_⟩
  obtain ⟨hdb, hobjects, hmissing⟩ := ht
  obtain rfl : t = s := by
    cases t
    cases s
    simp only at hdb hobjects
    rw [hdb, hobjects]
  refine ⟨hs, ?_⟩
  cases x with
  | ok nodes => exact ⟨hs, fun b hb => ⟨rfl, fun hfalse => by cases hb; cases hfalse⟩⟩
  | error e =>
    dsimp only
    split
    · exact ⟨hs, fun b _ => ⟨rfl, fun _ => hmissing rfl⟩⟩
    · exact does_raise hs

theorem mild_deleteRecords {records : List FileRecord} (hdel : ∀ r ∈ records, Del r.id)
    (hW : ∀ r ∈ records, r.isArchived → ∀ path, r.archivePath = some path →
      ∀ key, objectKey diskRootAdapter path = .ok key → W key) :
    AllMild W Rem Del (FileService.deleteRecords records) := by
  induction records with
  | nil => trivial
  | cons r rest ih =>
    unfold FileService.deleteRecords FileService.deleteArchive
    have hfirst : AllMild W Rem Del (if r.isArchived then deleteArchivedBlob r else pure ()) := by
      split
      · rename_i harchived
        exact mild_deleteArchivedBlob (hW r List.mem_cons_self harchived)
      · trivial
    have hdelete : AllMild W Rem Del (db (FileRepo.delete r.id)) :=
      mild_db fun _ => fades_delete (hdel r List.mem_cons_self)
    refine all_bind hfirst fun _ => all_bind hdelete fun _ => ih ?_ ?_
    · exact fun r' hr' => hdel r' (List.mem_cons_of_mem _ hr')
    · exact fun r' hr' => hW r' (List.mem_cons_of_mem _ hr')

/-- `delete_directory_recursive` deletes and marks what it has listed. -/
theorem does_deleteDirectory (sv : FileService) (userId : Uuid) (path : Str) (now : Time)
    (hsections : Sectioned s.db)
    (henabled : sv.fileSection = .files ∨ sv.fileSection = .photos → sv.queue.active)
    (hpath : ∀ key, objectKey sv.adapter (normalizePath path) = .ok key → W key)
    (harchives : ∀ key, ListedArchive sv userId path s.db key → W key) :
    Does W s (sv.deleteDirectoryRecursive userId path now)
      (fun _ t => ∃ ids : List Uuid, Near W NoRow (· ∈ ids) s t ∧ Marked ids t.db ∧
        ∀ r, Listed sv userId path s.db r → r.id ∈ ids) s := by
  unfold FileService.deleteDirectoryRecursive
  dsimp only
  split
  · exact does_raise (.refl W s)
  refine does_bind (does_exists (.refl W s)) ?_
  rintro present t rfl
  split
  · exact does_raise (.refl W t)
  refine does_bind (does_isDirectory sv (.refl W t)) ?_
  rintro directory t' ⟨rfl, -⟩
  split
  · exact does_raise (.refl W t')
  unfold FileService.toDisk
  cases hdisk : sv.adapter.toDiskRelativePath (normalizePath path) with
  | error e => exact does_raise (.refl W t')
  | ok diskPath =>
    refine does_query (.refl W t') rfl fun records hrecords => ?_
    have hlisted : ∀ r, Listed sv userId path t'.db r ↔ r ∈ records := by
      intro r
      constructor
      · rintro ⟨diskPath', records', hdisk', hrecords', hr⟩
        obtain rfl : diskPath = diskPath' := Except.ok.inj (hdisk.symm.trans hdisk')
        obtain rfl : records = records' := Except.ok.inj (hrecords.symm.trans hrecords')
        exact hr
      · exact fun hr => ⟨diskPath, records, hdisk, hrecords, hr⟩
    have hdel : ∀ r ∈ records, r.id ∈ records.map (·.id) := fun r hr => List.mem_map_of_mem hr
    refine bind_mild (mild_store hpath) (.refl W NoRow (· ∈ records.map (·.id)) t') fun _ t₁ h₁ => ?_
    refine bind_mild (mild_deleteRecords hdel fun r hr ha archivePath hp key hkey => ?_) h₁
      fun _ t₂ h₂ => ?_
    · exact harchives key ⟨r, (hlisted r).2 hr, ha, archivePath, hp, hkey⟩
    have hrelease : AllMild W NoRow (· ∈ records.map (·.id))
        (sv.releaseBytes userId (records.map (·.sizeBytes)).sum) := by
      unfold FileService.releaseBytes
      split
      · trivial
      · exact all_bind (mild_modify _ _ _) fun _ => all_done _
    refine bind_mild hrelease h₂ fun _ t₃ h₃ => ?_
    have hids : ∀ id ∈ records.map (·.id), ∃ r ∈ t'.db.records.rows, r.id = id ∧
        r.fileSection = sv.fileSection := by
      intro id hid
      obtain ⟨r, hr, rfl⟩ := List.mem_map.1 hid
      obtain rfl : _ = records := Except.ok.inj hrecords
      obtain ⟨hmem, hscope⟩ := List.mem_filter.1 hr
      simp only [inScope, Bool.and_eq_true, decide_eq_true_eq] at hscope
      exact ⟨r, hmem, rfl, hscope.1.1.2⟩
    refine does_bind (does_mark h₃ hsections henabled hids) fun _ t₄ h₄ => ?_
    obtain ⟨hnear, hmarked, -⟩ := h₄
    refine does_done hnear.objects ⟨records.map (·.id), hnear, hmarked, fun r hr => ?_⟩
    exact hdel r ((hlisted r).1 hr)

/-- A command on the tables. -/
def OnTables : FileCmd → Prop
  | .db _ => True
  | _ => False

/-- What is known of the tables carries over, for the bucket is not touched. -/
theorem does_tables {p : FileM α} {Q : Except Exc α → Db → Prop}
    (hp : p.All OnTables fun _ _ => True) (h : dbWp p Q s.db) (hs : Spares W s₀ s) :
    Does W s₀ p (fun a t => Q (.ok a) t.db ∧ t.objects = s.objects) s := by
  induction p generalizing s with
  | done r =>
    refine ⟨hs, fun a ha => ?_⟩
    rw [ha] at h
    exact ⟨h.2, rfl⟩
  | call c k ih =>
    cases c with
    | uuid4 => exact hp.1.elim
    | store a op => exact hp.1.elim
    | db f =>
      refine ⟨hs, fun x t ht => ?_⟩
      obtain ⟨hx, hobjects⟩ := ht
      have hrest := ih x (hp.2 x fun _ _ => trivial) (h.2 x t.db hx) (hs.trans (.of_eq hobjects))
      refine wp_mono hrest fun y u _ hu a ha => ?_
      exact ⟨(hu a ha).1, (hu a ha).2.trans hobjects⟩

theorem onTables_lookup (sv : FileService) (userId : Uuid) (sectionPath : Str)
    (fileSection : FileSection) :
    (sv.getRecordBySectionPath userId sectionPath fileSection).All OnTables fun _ _ => True := by
  have hdb : ∀ {γ : Type} (f : DbOp γ), (db f).All OnTables fun _ _ => True :=
    fun f => ⟨trivial, fun _ _ => all_done _⟩
  unfold FileService.getRecordBySectionPath FileService.toDisk
  refine all_bind (all_done _) fun path => ?_
  dsimp only
  split
  · refine all_bind (hdb _) fun found => ?_
    split
    · trivial
    · exact hdb _
  · refine all_bind (hdb _) fun found => ?_
    split
    · trivial
    · exact hdb _

attribute [local irreducible] FileService.getRecordBySectionPath
  FileService.deleteDirectoryRecursive FileService.deleteFile FileService.isDirectory

/-- `delete_by_path` of a path without a record: a directory of the files section is deleted with
its records, anything else is deleted as it is. -/
theorem does_deleteUntracked (sv : FileService) (actorId : Uuid) (path : Str)
    (actorRole : Option Role) (now : Time) (hsections : Sectioned s.db)
    (henabled : sv.fileSection = .files ∨ sv.fileSection = .photos → sv.queue.active)
    (hnone : ∀ diskPath r, ¬ Found sv actorId (normalizePath path) s.db diskPath r) :
    Does ((Deletion.deleteByPath sv actorId path actorRole).Wipes now s.db) s
      (sv.deleteUntracked actorId (normalizePath path) now)
      (fun _ t => Complete now (.deleteByPath sv actorId path actorRole) s t) s := by
  set W := (Deletion.deleteByPath sv actorId path actorRole).Wipes now s.db with hWdef
  have hW : ∀ key, objectKey sv.adapter (normalizePath path) = .ok key → W key :=
    fun key hkey => .inr ⟨hnone, .inl hkey⟩
  have hdelete : AllMild W NoRow (· ∈ ([] : List Uuid))
      (store sv.adapter (.delete (normalizePath path))) := mild_store hW
  unfold FileService.deleteUntracked
  refine does_bind (does_exists (.refl W s)) ?_
  rintro present t rfl
  split
  · exact does_raise (.refl W t)
  refine does_bind (does_isDirectory sv (.refl W t)) ?_
  rintro directory t' ⟨rfl, hempty⟩
  cases directory with
  | true =>
    rw [if_pos rfl]
    split
    · -- the directory, with its records
      rename_i hfiles
      refine does_bind (does_deleteDirectory sv actorId (normalizePath path) now hsections henabled
        ?_ ?_) ?_
      · exact fun key hkey => .inr ⟨hnone, .inr ⟨hfiles.1, .inl hkey⟩⟩
      · exact fun key hkey => .inr ⟨hnone, .inr ⟨hfiles.1, .inr hkey⟩⟩
      · rintro _ u ⟨ids, hnear, hmarked, hlisted⟩
        refine does_done hnear.objects ?_
        refine ⟨ids, hnear.tables.mono fun _ h => h.elim, hmarked, fun r hr hqueues _ _ => ?_⟩
        rcases hqueues with ⟨diskPath, hfound⟩ | ⟨-, -, -, hr', -⟩
        · exact absurd hfound (hnone diskPath r)
        · exact hlisted r hr'
    · -- no records are deleted, and none was to be
      rename_i hother
      refine wp_mono (does_mild hdelete (.refl W NoRow _ t')) fun x u _ hu a ha => ?_
      refine ⟨[], (hu a ha).tables.mono fun _ h => h.elim, ?_, fun r hr hqueues _ _ => ?_⟩
      · exact fun _ _ _ hid => absurd hid List.not_mem_nil
      · rcases hqueues with ⟨diskPath, hfound⟩ | ⟨-, hfiles, hpath, -⟩
        · exact absurd hfound (hnone diskPath r)
        · exact absurd ⟨hfiles, hpath⟩ hother
  | false =>
    -- a single object: there is nothing under the path, and the object belongs to no listed record
    rw [if_neg (by decide)]
    have hsingle : Does W t' (store sv.adapter (.delete (normalizePath path)))
        (fun _ u => u.db = t'.db ∧ ∀ k ∈ t'.objects, k ∉ u.objects →
          objectKey sv.adapter (normalizePath path) = .ok k) t' := by
      refine ⟨.refl W t', fun x u hu => ?_⟩
      have hnear := near_answers (c := .store sv.adapter (.delete (normalizePath path))) (x := x)
        hW (Near.refl W NoRow (· ∈ ([] : List Uuid)) t') hu
      refine ⟨hnear.1.objects, fun a _ => ⟨hu.1, fun k hk hgone => ?_⟩⟩
      obtain ⟨key, hkey, rfl | hunder⟩ := hu.2.2.1 k hk hgone
      · exact hkey
      · exact absurd hunder (hempty rfl key hkey k hk)
    refine wp_mono hsingle fun x u _ hu a ha => ?_
    obtain ⟨hdb, hlost⟩ := hu a ha
    refine ⟨[], ?_, fun _ _ _ hid => absurd hid List.not_mem_nil, fun r hr hqueues hk hgone => ?_⟩
    · rw [hdb]
      exact .refl _ _ _
    · rcases hqueues with ⟨diskPath, hfound⟩ | ⟨-, -, -, -, hne⟩
      · exact absurd hfound (hnone diskPath r)
      · exact absurd (hlost _ hk hgone) hne

theorem does_deleteByPath (sv : FileService) (actorId : Uuid) (path : Str)
    (actorRole : Option Role) (now : Time) (hsections : Sectioned s.db)
    (henabled : sv.fileSection = .files ∨ sv.fileSection = .photos → sv.queue.active) :
    Does ((Deletion.deleteByPath sv actorId path actorRole).Wipes now s.db) s
      (sv.deleteByPath actorId path actorRole now)
      (fun _ t => Complete now (.deleteByPath sv actorId path actorRole) s t) s := by
  set W := (Deletion.deleteByPath sv actorId path actorRole).Wipes now s.db
  unfold FileService.deleteByPath
  have hlookup := does_tables (onTables_lookup sv actorId (normalizePath path) sv.fileSection)
    (lookup_spec sv actorId (normalizePath path) sv.fileSection s.db) (.refl W s)
  refine does_bind hlookup fun found t ht => ?_
  obtain ⟨hlooked, hobjects⟩ := ht
  rcases hlooked with ⟨diskPath, hdisk, hlooked⟩ | ⟨e, -, he, -⟩
  swap
  · cases he
  cases found with
  | none =>
    obtain ⟨hdb, hno⟩ := hlooked
    obtain rfl : t = s := by
      cases t
      cases s
      simp only at hdb hobjects
      rw [hdb, hobjects]
    refine does_deleteUntracked sv actorId path actorRole now hsections henabled ?_
    rintro diskPath' r ⟨hdisk', haddressed⟩
    obtain rfl : diskPath = diskPath' := Except.ok.inj (hdisk.symm.trans hdisk')
    exact hno r haddressed
  | some record =>
    obtain ⟨r, haddressed, rfl, hdb⟩ := hlooked
    have hmem := haddressed.spec.1
    have hfound : Found sv actorId (normalizePath path) s.db diskPath r := ⟨hdisk, haddressed⟩
    have hmoved : Near W NoRow (· ∈ [r.id]) s t := by
      refine ⟨.of_eq hobjects, ?_⟩
      rw [hdb]
      exact fades_update (fun _ => ⟨rfl, rfl⟩) fun _ _ h => .inl h
    have hget : t.db.records.get (movedTo diskPath r).id = some (movedTo diskPath r) := by
      rw [hdb]
      exact get_afterLookup diskPath hmem
    have hrow : ∃ r' ∈ s.db.records.rows, r'.id = (movedTo diskPath r).id ∧
        r'.fileSection = sv.fileSection := ⟨r, hmem, rfl, haddressed.section_eq⟩
    have htaken : ∀ key, TakenAt sv.adapter (sv.toSectionPath (movedTo diskPath r))
        (movedTo diskPath r) key → W key := fun key hkey => .inl ⟨diskPath, r, hfound, hkey⟩
    refine wp_mono (does_deleteFile sv actorId _ actorRole now hmoved hsections hget hrow
      henabled htaken) fun x u _ hu a ha => ?_
    obtain ⟨hnear, hmarked⟩ := hu a ha
    refine ⟨[r.id], hnear.tables.mono fun _ h => h.elim, hmarked, fun r' _ hqueues _ _ => ?_⟩
    rcases hqueues with ⟨diskPath', hdisk', haddressed'⟩ | ⟨hno, -⟩
    · obtain rfl : diskPath = diskPath' := Except.ok.inj (hdisk.symm.trans hdisk')
      rw [haddressed'.unique haddressed]
      exact List.mem_singleton_self _
    · exact absurd hfound (hno diskPath r)

end

/-! The jobs, and the deletion of a user. -/

theorem does_cleanupPendingRecords (now : Time) :
    Does (Deletion.cleanupPendingRecords.Wipes now s.db) s
      (Maintenance.cleanupPendingRecords now)
      (fun _ t => Complete now .cleanupPendingRecords s t) s := by
  set W := Deletion.cleanupPendingRecords.Wipes now s.db
  unfold Maintenance.cleanupPendingRecords
  refine does_query (.refl W s) rfl fun records hrecords => ?_
  let Rem : Uuid → Prop := fun id => ∃ r ∈ s.db.records.rows, r.id = id ∧
    Deletion.cleanupPendingRecords.Drops now r
  have hstale : ∀ r ∈ records, Rem r.id ∧ ∀ key,
      objectKey diskRootAdapter (Maintenance.tmpLogicalPath r) = .ok key → W key := by
    intro r hr
    refine ⟨?_, fun key hkey => ⟨records, r, hrecords, hr, hkey⟩⟩
    obtain rfl : _ = records := Except.ok.inj hrecords
    obtain ⟨hmem, hpending⟩ := List.mem_filter.1 hr
    simp only [Bool.and_eq_true, decide_eq_true_eq] at hpending
    exact ⟨r, hmem, rfl, hpending⟩
  have hall : ∀ deleted, AllMild W Rem (· ∈ ([] : List Uuid))
      (Maintenance.cleanupAll records deleted) := by
    clear hrecords
    induction records with
    | nil => exact fun _ => trivial
    | cons r rest ih =>
      intro deleted
      obtain ⟨hrem, hkeys⟩ := hstale r List.mem_cons_self
      have hrest := ih fun r' hr' => hstale r' (List.mem_cons_of_mem _ hr')
      have htmp : AllMild W Rem (· ∈ ([] : List Uuid)) (Maintenance.deleteTmpFile r) := by
        refine all_catchWith (mild_deleteIfExists hkeys) fun e => ?_
        split <;> trivial
      have hrow : AllMild W Rem (· ∈ ([] : List Uuid)) (db (FileRepo.hardDelete r.id)) := by
        refine mild_db fun d => fades_drop (fun r' _ hid => ?_) fun id hid => ?_
        · rw [of_decide_eq_true hid]
          exact hrem
        · rw [of_decide_eq_true hid]
          exact hrem
      unfold Maintenance.cleanupAll
      refine all_bind (all_attempt (all_bind htmp fun _ => hrow)) fun outcome => ?_
      split <;> exact hrest _
  refine wp_mono (does_mild (hall 0) (.refl W Rem _ s)) fun x t _ ht a ha => ?_
  exact ⟨[], (ht a ha).tables, fun _ _ _ hid => absurd hid List.not_mem_nil,
    fun _ _ hqueues => hqueues.elim⟩

theorem does_cleanupTmpDirs (now : Time) :
    Does (Deletion.cleanupTmpDirs.Wipes now s.db) s (Maintenance.cleanupTmpDirs now)
      (fun _ t => Complete now .cleanupTmpDirs s t) s := by
  set W := Deletion.cleanupTmpDirs.Wipes now s.db
  have hentries : ∀ paths : List Str, (∀ path ∈ paths, ∀ key,
      objectKey diskRootAdapter path = .ok key → tmpDir ∈ Text.split key) → ∀ deleted,
      AllMild W NoRow (· ∈ ([] : List Uuid)) (Maintenance.deleteTmpEntries paths deleted) := by
    intro paths
    induction paths with
    | nil => exact fun _ _ => trivial
    | cons path rest ih =>
      intro hpaths deleted
      have hrest := ih fun path' h' => hpaths path' (List.mem_cons_of_mem _ h')
      unfold Maintenance.deleteTmpEntries
      refine all_bind (all_attempt (mild_store (hpaths path List.mem_cons_self))) fun outcome => ?_
      split <;> exact hrest _
  have hall : AllMild W NoRow (· ∈ ([] : List Uuid)) (Maintenance.cleanupTmpDirs now) := by
    refine ⟨trivial, fun x hx => ?_⟩
    cases x with
    | error e => trivial
    | ok paths => exact hentries paths (hx paths rfl) 0
  refine wp_mono (does_mild hall (.refl W NoRow _ s)) fun x t _ ht a ha => ?_
  exact ⟨[], (ht a ha).tables.mono fun _ h => h.elim,
    fun _ _ _ hid => absurd hid List.not_mem_nil, fun _ _ hqueues => hqueues.elim⟩

theorem mild_removeStorage {path : Str} (h : ∀ key, objectKey diskRootAdapter path = .ok key → W key) :
    AllMild W Rem Del (AdminService.removeStorage path) :=
  all_catchWith (mild_deleteIfExists h) fun _ => all_done _

theorem does_deleteUser (sv : AdminService) (adminId targetUserId : Uuid) (now : Time) :
    Does ((Deletion.deleteUser sv adminId targetUserId).Wipes now s.db) s
      (sv.deleteUser adminId targetUserId)
      (fun _ t => Complete now (.deleteUser sv adminId targetUserId) s t) s := by
  set W := (Deletion.deleteUser sv adminId targetUserId).Wipes now s.db
  unfold AdminService.deleteUser
  split
  · exact does_raise (.refl W s)
  split
  · exact does_raise (.refl W s)
  refine does_query (.refl W s) rfl fun records hrecords => ?_
  let Rem : Uuid → Prop := fun id => ∃ r ∈ s.db.records.rows, r.id = id ∧ r.userId = targetUserId
  have hown : ∀ r ∈ records, r ∈ s.db.records.rows ∧ r.userId = targetUserId := by
    intro r hr
    obtain rfl : _ = records := Except.ok.inj hrecords
    obtain ⟨hmem, huser⟩ := List.mem_filter.1 hr
    exact ⟨hmem, of_decide_eq_true huser⟩
  have hshared : AllMild W Rem (· ∈ ([] : List Uuid)) (AdminService.removeShared records) := by
    clear hrecords
    induction records with
    | nil => trivial
    | cons r rest ih =>
      have hrest := ih fun r' hr' => hown r' (List.mem_cons_of_mem _ hr')
      obtain ⟨hmem, huser⟩ := hown r List.mem_cons_self
      unfold AdminService.removeShared
      split
      · rename_i hsection
        refine all_bind (mild_removeStorage fun key hkey => ?_) fun _ => hrest
        exact .inr ⟨r, hmem, huser, hsection, hkey⟩
      · exact hrest
  have hstorage : AllMild W Rem (· ∈ ([] : List Uuid))
      (AdminService.cleanupUserStorage targetUserId records) :=
    all_bind (mild_removeStorage fun key hkey => .inl hkey) fun _ => hshared
  refine bind_mild hstorage (.refl W Rem _ s) fun _ t ht => ?_
  have hdelete : Fades Rem (· ∈ ([] : List Uuid)) t.db (UserRepo.delete sv.users targetUserId t.db).2 := by
    unfold UserRepo.delete
    split
    · have hrem : ∀ r ∈ t.db.records.rows, r.userId = targetUserId → Rem r.id := by
        intro r hr huser
        obtain ⟨r₀, hr₀, hw⟩ := ht.tables.old r hr
        exact ⟨r₀, hr₀, hw.id.symm, hw.userId.symm.trans huser⟩
      refine fades_drop (fun r hr huser => hrem r hr (of_decide_eq_true huser)) fun id hid => ?_
      obtain ⟨r, hr, hrid⟩ := List.any_eq_true.1 hid
      simp only [Bool.and_eq_true, decide_eq_true_eq] at hrid
      rw [← hrid.1]
      exact hrem r hr hrid.2
    · exact .refl _ _ _
  have hlast : Does W s (db (UserRepo.delete sv.users targetUserId)) (fun _ u => Near W Rem
      (· ∈ ([] : List Uuid)) s u) t := by
    refine ⟨ht.objects, fun x u hu => ?_⟩
    obtain ⟨hx, hobjects⟩ := hu
    rw [hx] at hdelete
    have hnear : Near W Rem (· ∈ ([] : List Uuid)) s u :=
      ⟨ht.objects.trans (.of_eq hobjects), ht.tables.trans hdelete⟩
    exact ⟨hnear.objects, fun _ _ => hnear⟩
  refine does_bind hlast fun deleted u hu => ?_
  split
  · exact does_done hu.objects ⟨[], hu.tables, fun _ _ _ hid => absurd hid List.not_mem_nil,
      fun _ _ hqueues => hqueues.elim⟩
  · exact does_raise hu.objects

theorem does_ignore {p : FileM α} {R : Site → Prop} (h : Does W s₀ p (fun _ t => R t) s) :
    Does W s₀ (ignore p) (fun _ t => R t) s := by
  rw [Does, ignore, bind_eq, wp_bind]
  refine wp_mono h fun x t hspares ht => ?_
  cases x with
  | ok a => exact ⟨hspares, fun _ _ => ht a rfl⟩
  | error e => exact fun _ ha => by cases ha

theorem does_directory (sv : FileService) (userId : Uuid) (path : Str) (now : Time)
    (hsections : Sectioned s.db) (henabled : (Deletion.deleteDirectory sv userId path).Enabled) :
    Does ((Deletion.deleteDirectory sv userId path).Wipes now s.db) s
      (ignore (sv.deleteDirectoryRecursive userId path now))
      (fun _ t => Complete now (.deleteDirectory sv userId path) s t) s := by
  have hdirectory := does_deleteDirectory (W := (Deletion.deleteDirectory sv userId path).Wipes now
    s.db) sv userId path now hsections henabled (fun _ h => .inl h) fun _ h => .inr h
  refine does_ignore (wp_mono hdirectory fun x t _ ht a ha => ?_)
  obtain ⟨ids, hnear, hmarked, hlisted⟩ := ht a ha
  exact ⟨ids, hnear.tables.mono fun _ h => h.elim, hmarked, fun r _ hr _ _ => hlisted r hr⟩

section
attribute [local irreducible] FileService.deleteByPath FileService.deleteDirectoryRecursive
  PhotoService.deletePhoto Maintenance.cleanupPendingRecords Maintenance.cleanupTmpDirs
  AdminService.deleteUser Deletion.Wipes

/-- What each deletion leaves, however it ends. -/
theorem does_program (e : Deletion) (now : Time) (hsections : Sectioned s.db)
    (henabled : e.Enabled) :
    Does (e.Wipes now s.db) s (e.program now) (fun _ t => Complete now e s t) s := by
  cases e with
  | deleteByPath sv actorId path actorRole =>
    exact does_deleteByPath sv actorId path actorRole now hsections henabled
  | deleteDirectory sv userId path => exact does_directory sv userId path now hsections henabled
  | deletePhoto sv userId fileId => exact does_deletePhoto sv userId fileId now hsections henabled
  | cleanupPendingRecords => exact does_ignore (does_cleanupPendingRecords now)
  | cleanupTmpDirs => exact does_ignore (does_cleanupTmpDirs now)
  | deleteUser sv adminId targetUserId => exact does_deleteUser sv adminId targetUserId now

end

end WebStorage.DeletedUnindexed
