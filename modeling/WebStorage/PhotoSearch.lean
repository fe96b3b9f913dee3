import WebStorage.Repositories
import WebStorage.Collections

set_option autoImplicit false

/-! Photo search: the hits of the remote image search, joined with the caller's indexed photos. A
caller sees photos of his own only, whatever the remote side answers. -/
namespace WebStorage.PhotoSearch
open Collections

/-- The exceptions of a search; `raised` is one that passes through. -/
inductive SearchExc
  | searchQueryInvalid
  | valueError
  | indexingUnavailable
  | raised (e : Exc)
deriving DecidableEq

/-- A Python `float` over a type of numbers: `NaN` compares with nothing, not even with itself. -/
inductive PyFloat (Number : Type)
  | number (value : Number)
  | nan
deriving DecidableEq

namespace PyFloat
variable {Number : Type} [LE Number]

/-- `<=` of Python. -/
protected def le : PyFloat Number → PyFloat Number → Prop
  | number x, number y => x ≤ y
  | _, _ => False

instance : LE (PyFloat Number) := ⟨PyFloat.le⟩

@[simp] theorem number_le_number {x y : Number} : number x ≤ number y ↔ x ≤ y := Iff.rfl

@[simp] theorem not_nan_le (y : PyFloat Number) : ¬PyFloat.nan ≤ y := id

@[simp] theorem not_le_nan (x : PyFloat Number) : ¬x ≤ PyFloat.nan := by
  cases x <;> exact id

instance [DecidableLE Number] : DecidableLE (PyFloat Number)
  | number x, number y => inferInstanceAs (Decidable (x ≤ y))
  | number _, nan => isFalse (not_le_nan _)
  | nan, _ => isFalse (not_nan_le _)

instance [IsTrans Number (· ≤ ·)] : IsTrans (PyFloat Number) (· ≤ ·) where
  trans a b c hab hbc := by
    cases a with
    | nan => exact absurd hab (not_nan_le b)
    | number x =>
      cases b with
      | nan => exact absurd hbc (not_nan_le c)
      | number y =>
        cases c with
        | nan => exact absurd hbc (not_le_nan _)
        | number z =>
          exact IsTrans.trans (r := fun x y : Number => x ≤ y) x y z hab hbc

/-- Floats other than `NaN` compare. -/
theorem le_or_le [Std.Total fun x y : Number => x ≤ y] {a b : PyFloat Number} (ha : a ≠ nan)
    (hb : b ≠ nan) : a ≤ b ∨ b ≤ a := by
  cases a with
  | nan => exact absurd rfl ha
  | number x =>
    cases b with
    | nan => exact absurd rfl hb
    | number y => exact Std.Total.total (r := fun x y : Number => x ≤ y) x y

end PyFloat

section
variable (Score : Type)

/-- One hit of the remote image search. -/
structure RagImageHit where
  fileId : Uuid
  fileName : Str
  score : Score
deriving DecidableEq

/-- One photo the caller is allowed to see. -/
structure PhotoSearchHit where
  id : Uuid
  fileName : Str
  previewUrl : Str
  originalUrl : Str
  score : Score
deriving DecidableEq

structure PhotoSearchPage where
  items : List (PhotoSearchHit Score)
  query : Str
  total : Nat
deriving DecidableEq

/-- `RagIndex.search_images`: query, user, limit and offset. -/
abbrev SearchImages := Str → Uuid → Int → Int → Except Exc (List (RagImageHit Score))

end

def searchLimitMin : Int := 1
def searchLimitMax : Int := 50
def searchOffset : Int := 0
def searchQueryMaxLength : Nat := 4000

/-- `_PREVIEW_URL`. -/
def previewUrl (photoId : Uuid) : Str := "/api/photos/".toList ++ photoId.text ++ "/preview".toList

/-- `_ORIGINAL_URL`. -/
def originalUrl (photoId : Uuid) : Str := "/api/photos/".toList ++ photoId.text ++ "/original".toList

def validateSearchQuery (query : Str) : Except SearchExc Str :=
  let normalized := Text.strip query
  if normalized = [] ∨ searchQueryMaxLength < normalized.length then .error .searchQueryInvalid
  else .ok normalized

/-- `_page_limit`. -/
def pageLimit (limit : Int) : Except SearchExc Int :=
  if limit < searchLimitMin ∨ searchLimitMax < limit then .error .valueError else .ok limit

/-- The rows of the caller that a hit may stand for. -/
def isIndexedPhoto (userId : Uuid) (link : IndexLink) : Bool :=
  link.userId = userId && link.fileSection = .photos && link.state = .indexed

def indexedPhotosByRagFileId (userId : Uuid) (ragFileIds : List Uuid) (t : LinkTable) :
    AList fun _ : Uuid => IndexLink :=
  let models := t.rows.filter fun model =>
    isIndexedPhoto userId model && model.ragFileId.any ragFileIds.contains
  dictOf (models.filterMap fun model => model.ragFileId.map fun id => (id, model))

def originalNames (fileRecordIds : List Uuid) (t : RecordTable) : AList fun _ : Uuid => Str :=
  let rows := t.rows.filter fun row => (dictFromKeys fileRecordIds).contains row.id
  dictOf ((rows.map fun row => (row.id, row.originalName)).filter fun row => row.2 ≠ [])

/-- `_is_caller_indexed_photo`. -/
def isCallerIndexedPhoto (link : IndexLink) (userId ragFileId : Uuid) : Bool :=
  link.userId = userId && link.ragFileId = some ragFileId && link.fileSection = .photos &&
    link.state = .indexed

section
variable {Score : Type}

/-- `_visible_hit`. -/
def visibleHit (hit : RagImageHit Score) (link : Option IndexLink)
    (names : AList fun _ : Uuid => Str) (userId : Uuid) : Option (PhotoSearchHit Score) :=
  match link with
  | none => none
  | some link =>
    if isCallerIndexedPhoto link userId hit.fileId = false then none
    else match link.fileRecordId with
      | none => none
      | some photoId => match names.lookup photoId with
        | none => none
        | some fileName =>
          if fileName = [] then none
          else some ⟨photoId, fileName, previewUrl photoId, originalUrl photoId, hit.score⟩

/-- The names of the records that were found. -/
def namesOf (d : Db) (indexed : AList fun _ : Uuid => IndexLink) : AList fun _ : Uuid => Str :=
  let links := indexed.entries.map (·.2)
  originalNames (links.filterMap (·.fileRecordId)) d.records

variable [LE Score] [DecidableLE Score]

/-- `visible.sort(key=lambda item: item.score, reverse=True)`. -/
abbrev ScoreSort (Score : Type) [LE Score] [DecidableLE Score] :=
  ReverseSort fun item : PhotoSearchHit Score => item.score

variable (sort : ScoreSort Score)

/-- `_visible_hits`. -/
def visibleHits (hits : List (RagImageHit Score)) (indexed : AList fun _ : Uuid => IndexLink)
    (names : AList fun _ : Uuid => Str) (userId : Uuid) : List (PhotoSearchHit Score) :=
  sort.sort (hits.filterMap fun hit => visibleHit hit (indexed.lookup hit.fileId) names userId)

/-- The items of the page for what the remote side answered. -/
def itemsFor (d : Db) (userId : Uuid) (hits : List (RagImageHit Score)) :
    List (PhotoSearchHit Score) :=
  let indexed := indexedPhotosByRagFileId userId (hits.map (·.fileId)) d.links
  visibleHits sort hits indexed (namesOf d indexed) userId

def searchIndexedPhotos (ragEnabled : Bool) (searchImages : SearchImages Score) (d : Db)
    (userId : Uuid) (query : Str) (limit : Int) : Except SearchExc (PhotoSearchPage Score) := do
  let normalized ← validateSearchQuery query
  let limit ← pageLimit limit
  if ragEnabled = false then .error .indexingUnavailable
  else match searchImages normalized userId limit searchOffset with
    | .error (.ragUnavailable _) => .error .indexingUnavailable
    | .error e => .error (.raised e)
    | .ok hits =>
      .ok ⟨itemsFor sort d userId hits, normalized, (itemsFor sort d userId hits).length⟩

end

/-! ### What the caller sees -/

section
variable {Score : Type}

/-- The photo that a hit stands for: an indexed photo of the caller whose record has a name. -/
def Stands (d : Db) (userId : Uuid) (hit : RagImageHit Score) (item : PhotoSearchHit Score) : Prop :=
  (∃ link ∈ d.links.rows, isIndexedPhoto userId link = true ∧ link.ragFileId = some hit.fileId ∧
    link.fileRecordId = some item.id) ∧
  (∃ record ∈ d.records.rows, record.id = item.id ∧ record.originalName ≠ [] ∧
    item.fileName = record.originalName) ∧
  item.previewUrl = previewUrl item.id ∧ item.originalUrl = originalUrl item.id ∧
  item.score = hit.score

variable {d d' : Db} {userId id : Uuid} {ids : List Uuid} {link : IndexLink} {name : Str}

theorem lookup_indexed : (indexedPhotosByRagFileId userId ids d.links).lookup id = some link ↔
    link ∈ d.links.rows ∧ isIndexedPhoto userId link = true ∧ link.ragFileId = some id ∧ id ∈ ids := by
  unfold indexedPhotosByRagFileId
  rw [lookup_dictOf]
  · rw [List.mem_filterMap]
    constructor
    · intro hshape
      obtain ⟨model, hmodel, hpair⟩ := hshape
      obtain ⟨id', hid, heq⟩ := Option.map_eq_some_iff.1 hpair
      obtain ⟨rfl, rfl⟩ := Prod.mk.inj heq
      obtain ⟨hmem, hkept⟩ := List.mem_filter.1 hmodel
      rw [hid, Bool.and_eq_true, Option.any_some] at hkept
      exact ⟨hmem, hkept.1, hid, List.elem_iff.1 hkept.2⟩
    · intro hshape
      obtain ⟨hmem, hphoto, hid, hin⟩ := hshape
      refine ⟨link, List.mem_filter.2 ⟨hmem, ?_⟩, ?_⟩
      · rw [hid, Bool.and_eq_true, Option.any_some]
        exact ⟨hphoto, List.elem_iff.2 hin⟩
      · rw [hid]
        rfl
  · -- the column of the remote ids is unique
    intro a ha b hb hab
    obtain ⟨x, hx, hax⟩ := List.mem_filterMap.1 ha
    obtain ⟨y, hy, hby⟩ := List.mem_filterMap.1 hb
    obtain ⟨i, hi, rfl⟩ := Option.map_eq_some_iff.1 hax
    obtain ⟨j, hj, rfl⟩ := Option.map_eq_some_iff.1 hby
    dsimp only at hab ⊢
    have hxm := (List.mem_filter.1 hx).1
    have hym := (List.mem_filter.1 hy).1
    have hne : x.ragFileId ≠ none := by
      rw [hi]
      exact Option.some_ne_none _
    have hsame : x.ragFileId = y.ragFileId := by rw [hi, hj, hab]
    have hids := d.links.rag_unique x hxm y hym hne hsame
    exact List.inj_on_of_nodup_map d.links.id_unique hxm hym hids

theorem lookup_names : (originalNames ids d.records).lookup id = some name ↔
    id ∈ ids ∧ name ≠ [] ∧ ∃ record ∈ d.records.rows, record.id = id ∧ record.originalName = name := by
  unfold originalNames
  rw [lookup_dictOf]
  · simp only [List.mem_filter, List.mem_map, decide_eq_true_eq, Prod.mk.injEq]
    constructor
    · intro hshape
      obtain ⟨⟨record, ⟨hmem, hin⟩, hid, hname⟩, hne⟩ := hshape
      rw [hid] at hin
      exact ⟨mem_dictFromKeys.1 (List.elem_iff.1 hin), hne, record, hmem, hid, hname⟩
    · intro hshape
      obtain ⟨hin, hne, record, hmem, hid, hname⟩ := hshape
      refine ⟨⟨record, ⟨hmem, ?_⟩, hid, hname⟩, hne⟩
      rw [hid]
      exact List.elem_iff.2 (mem_dictFromKeys.2 hin)
  · intro a ha b hb hab
    obtain ⟨x, hx, rfl⟩ := List.mem_map.1 (List.mem_filter.1 ha).1
    obtain ⟨y, hy, rfl⟩ := List.mem_map.1 (List.mem_filter.1 hb).1
    have hsame := RecordTable.eq_of_id (List.mem_filter.1 hx).1 (List.mem_filter.1 hy).1 hab
    rw [hsame]

/-- The name is looked up for every link that was found. -/
theorem lookup_namesOf {indexed : AList fun _ : Uuid => IndexLink} {photoId : Uuid}
    (hlink : indexed.lookup id = some link) (hphoto : link.fileRecordId = some photoId) :
    (namesOf d indexed).lookup photoId = some name ↔ name ≠ [] ∧
      ∃ record ∈ d.records.rows, record.id = photoId ∧ record.originalName = name := by
  have hentry : (⟨id, link⟩ : Σ _ : Uuid, IndexLink) ∈ indexed.entries :=
    AList.mem_lookup_iff.1 hlink
  have hin : photoId ∈ (indexed.entries.map (·.2)).filterMap (·.fileRecordId) :=
    List.mem_filterMap.2 ⟨link, List.mem_map.2 ⟨_, hentry, rfl⟩, hphoto⟩
  unfold namesOf
  rw [lookup_names]
  exact and_iff_right hin

theorem visibleHit_some {hit : RagImageHit Score} {item : PhotoSearchHit Score}
    {names : AList fun _ : Uuid => Str} :
    visibleHit hit (some link) names userId = some item ↔
      isCallerIndexedPhoto link userId hit.fileId = true ∧ link.fileRecordId = some item.id ∧
        names.lookup item.id = some item.fileName ∧ item.fileName ≠ [] ∧
        item.previewUrl = previewUrl item.id ∧ item.originalUrl = originalUrl item.id ∧
        item.score = hit.score := by
  obtain ⟨photoId, fileName, preview, original, score⟩ := item
  unfold visibleHit
  dsimp only
  cases isCallerIndexedPhoto link userId hit.fileId with
  | false => simp
  | true =>
    rw [if_neg (by decide)]
    cases hid : link.fileRecordId with
    | none => simp
    | some id =>
      dsimp only
      cases hname : names.lookup id with
      | none =>
        constructor
        · intro h
          cases h
        · intro hshown
          obtain ⟨-, hsame, hlookup, -⟩ := hshown
          rw [← Option.some.inj hsame, hname] at hlookup
          cases hlookup
      | some name =>
        dsimp only
        by_cases hempty : name = []
        · rw [if_pos hempty]
          constructor
          · intro h
            cases h
          · intro hshown
            obtain ⟨-, hsame, hlookup, hne, -⟩ := hshown
            rw [← Option.some.inj hsame, hname] at hlookup
            exact absurd ((Option.some.inj hlookup).symm.trans hempty) hne
        · rw [if_neg hempty]
          constructor
          · intro h
            cases h
            exact ⟨rfl, rfl, hname, hempty, rfl, rfl, rfl⟩
          · intro hshown
            obtain ⟨-, hsame, hlookup, -, hpreview, horiginal, hscore⟩ := hshown
            cases hsame
            rw [hname] at hlookup
            rw [Option.some.inj hlookup, hpreview, horiginal, hscore]

/-- What is shown for a hit is the photo that it stands for. -/
theorem visibleHit_iff {hits : List (RagImageHit Score)} {hit : RagImageHit Score}
    {item : PhotoSearchHit Score} {indexed : AList fun _ : Uuid => IndexLink}
    (hindexed : indexed = indexedPhotosByRagFileId userId (hits.map (·.fileId)) d.links)
    (hhit : hit ∈ hits) :
    visibleHit hit (indexed.lookup hit.fileId) (namesOf d indexed) userId = some item ↔
      Stands d userId hit item := by
  have hin : hit.fileId ∈ hits.map (·.fileId) := List.mem_map_of_mem hhit
  have hlookup : ∀ link, indexed.lookup hit.fileId = some link ↔ link ∈ d.links.rows ∧
      isIndexedPhoto userId link = true ∧ link.ragFileId = some hit.fileId := by
    intro link
    rw [hindexed, lookup_indexed]
    simp only [hin, and_true]
  cases hfound : indexed.lookup hit.fileId with
  | none =>
    constructor
    · intro h
      cases h
    · intro hstands
      obtain ⟨⟨link, hmem, hphoto, hrag, -⟩, -⟩ := hstands
      rw [(hlookup link).2 ⟨hmem, hphoto, hrag⟩] at hfound
      cases hfound
  | some link =>
    obtain ⟨hmem, hphoto, hrag⟩ := (hlookup link).1 hfound
    have hcaller : isCallerIndexedPhoto link userId hit.fileId = true := by
      unfold isIndexedPhoto at hphoto
      unfold isCallerIndexedPhoto
      simp only [Bool.and_eq_true, decide_eq_true_eq] at hphoto ⊢
      exact ⟨⟨⟨hphoto.1.1, hrag⟩, hphoto.1.2⟩, hphoto.2⟩
    rw [visibleHit_some]
    constructor
    · intro hshown
      obtain ⟨-, hid, hname, -, hrest⟩ := hshown
      obtain ⟨hne, record, hrecord, hrid, hstored⟩ := (lookup_namesOf hfound hid).1 hname
      rw [← hstored] at hne
      exact ⟨⟨link, hmem, hphoto, hrag, hid⟩, ⟨record, hrecord, hrid, hne, hstored.symm⟩, hrest⟩
    · intro hstands
      obtain ⟨⟨other, hother, hphoto', hrag', hid⟩, ⟨record, hrecord, hrid, hne, hname⟩, hrest⟩ :=
        hstands
      -- there is one link of this remote id
      have hsame := (hlookup other).2 ⟨hother, hphoto', hrag'⟩
      rw [hfound] at hsame
      cases hsame
      have hne' : item.fileName ≠ [] := by
        rw [hname]
        exact hne
      exact ⟨hcaller, hid, (lookup_namesOf hfound hid).2 ⟨hne', record, hrecord, hrid, hname.symm⟩,
        hne', hrest⟩

end

/-! ### The page -/

section
variable {Score : Type}

open Classical in
/-- The hits that stand for a photo of the caller, in the remote order. -/
noncomputable def standing (d : Db) (userId : Uuid) (hits : List (RagImageHit Score)) :
    List (RagImageHit Score) :=
  hits.filter fun hit => decide (∃ item, Stands d userId hit item)

theorem mem_standing {d : Db} {userId : Uuid} {hits : List (RagImageHit Score)}
    {hit : RagImageHit Score} :
    hit ∈ standing d userId hits ↔ hit ∈ hits ∧ ∃ item, Stands d userId hit item := by
  unfold standing
  simp only [List.mem_filter, decide_eq_true_eq]

/-- There is one item for each hit that stands for a photo: `shown` pairs the two, in the remote
order. -/
structure Shows (d : Db) (userId : Uuid) (hits : List (RagImageHit Score))
    (items : List (PhotoSearchHit Score))
    (shown : List (RagImageHit Score × PhotoSearchHit Score)) : Prop where
  none_dropped : shown.map (·.1) = standing d userId hits
  stands : ∀ pair ∈ shown, Stands d userId pair.1 pair.2
  nothing_else : items.Perm (shown.map (·.2))

/-- The best item is first, and items that tie keep the remote order. -/
structure BestFirst [LE Score] [DecidableLE Score] (items : List (PhotoSearchHit Score))
    (shown : List (RagImageHit Score × PhotoSearchHit Score)) : Prop where
  descending : items.Pairwise fun a b => b.score ≤ a.score
  ties : ∀ score, items.filter (fun item => decide (Tied (·.score) score item)) =
    (shown.map (·.2)).filter fun item => decide (Tied (·.score) score item)

/-- The databases agree on the caller's indexed photos and on the names of their records. -/
def Agree (userId : Uuid) (d d' : Db) : Prop :=
  (∀ link, isIndexedPhoto userId link = true → (link ∈ d.links.rows ↔ link ∈ d'.links.rows)) ∧
  ∀ link ∈ d.links.rows, isIndexedPhoto userId link = true → ∀ id, link.fileRecordId = some id →
    (d.records.get id).map (·.originalName) = (d'.records.get id).map (·.originalName)

variable {d d' : Db} {userId : Uuid}

/-- The hits with what is shown for them, in the remote order. -/
theorem filterMap_pairs {α β : Type} (f : α → Option β) (items : List α) :
    ∃ shown : List (α × β), shown.map (·.1) = items.filter (fun a => (f a).isSome) ∧
      (∀ pair ∈ shown, pair.1 ∈ items ∧ f pair.1 = some pair.2) ∧
      shown.map (·.2) = items.filterMap f := by
  induction items with
  | nil => exact ⟨[], rfl, nofun, rfl⟩
  | cons a items ih =>
    obtain ⟨shown, hfst, hpairs, hsnd⟩ := ih
    have hrest : ∀ pair ∈ shown, pair.1 ∈ a :: items ∧ f pair.1 = some pair.2 :=
      fun pair hpair => ⟨List.mem_cons_of_mem a (hpairs pair hpair).1, (hpairs pair hpair).2⟩
    cases hf : f a with
    | none =>
      refine ⟨shown, ?_, hrest, ?_⟩
      · rw [hfst, List.filter_cons_of_neg (by simp [hf])]
      · rw [hsnd, List.filterMap_cons_none hf]
    | some b =>
      refine ⟨(a, b) :: shown, ?_, ?_, ?_⟩
      · rw [List.map_cons, hfst, List.filter_cons_of_pos (by simp [hf])]
      · intro pair hpair
        rcases List.mem_cons.1 hpair with heq | hpair
        · rw [heq]
          exact ⟨List.mem_cons_self, hf⟩
        · exact hrest pair hpair
      · rw [List.map_cons, hsnd, List.filterMap_cons_some hf]

theorem Agree.stands (h : Agree userId d d') {hit : RagImageHit Score} {item : PhotoSearchHit Score}
    (hitem : Stands d userId hit item) : Stands d' userId hit item := by
  obtain ⟨⟨link, hmem, hphoto, hrag, hid⟩, ⟨record, hrecord, hrid, hne, hname⟩, hrest⟩ := hitem
  have hnames := h.2 link hmem hphoto item.id hid
  have hget : d.records.get item.id = some record := hrid ▸ RecordTable.get_of_mem hrecord
  rw [hget, Option.map_some] at hnames
  obtain ⟨record', hget', hsame⟩ := Option.map_eq_some_iff.1 hnames.symm
  obtain ⟨hmem', hid'⟩ := RecordTable.get_some hget'
  refine ⟨⟨link, (h.1 link hphoto).1 hmem, hphoto, hrag, hid⟩, ⟨record', hmem', hid', ?_, ?_⟩, hrest⟩
  · rw [hsame]
    exact hne
  · rw [hsame]
    exact hname

theorem Agree.symm (h : Agree userId d d') : Agree userId d' d := by
  refine ⟨fun link hphoto => (h.1 link hphoto).symm, ?_⟩
  intro link hmem hphoto id hid
  exact (h.2 link ((h.1 link hphoto).2 hmem) hphoto id hid).symm

variable [LE Score] [DecidableLE Score] (sort : ScoreSort Score)

theorem itemsFor_shows (d : Db) (userId : Uuid) (hits : List (RagImageHit Score)) :
    ∃ shown, Shows d userId hits (itemsFor sort d userId hits) shown ∧
      itemsFor sort d userId hits = sort.sort (shown.map (·.2)) := by
  obtain ⟨indexed, hindexed⟩ : ∃ indexed, indexed =
    indexedPhotosByRagFileId userId (hits.map (·.fileId)) d.links := ⟨_, rfl⟩
  obtain ⟨shown, hfst, hpairs, hsnd⟩ := filterMap_pairs
    (fun hit => visibleHit hit (indexed.lookup hit.fileId) (namesOf d indexed) userId) hits
  have hitems : itemsFor sort d userId hits = sort.sort (shown.map (·.2)) := by
    rw [hsnd, hindexed]
    rfl
  refine ⟨shown, ⟨?_, ?_, ?_⟩, hitems⟩
  · unfold standing
    rw [hfst]
    apply List.filter_congr
    intro hit hhit
    rw [Bool.eq_iff_iff, Option.isSome_iff_exists]
    simp only [decide_eq_true_eq]
    exact exists_congr fun item => visibleHit_iff hindexed hhit
  · intro pair hpair
    obtain ⟨hhit, hshown⟩ := hpairs pair hpair
    exact (visibleHit_iff hindexed hhit).1 hshown
  · rw [hitems]
    exact sort.perm _

/-- The items do not depend on anybody else's rows. -/
theorem itemsFor_agree (h : Agree userId d d') (hits : List (RagImageHit Score)) :
    itemsFor sort d userId hits = itemsFor sort d' userId hits := by
  have hshown : ∀ hit ∈ hits, ∀ item, Stands d userId hit item ↔ Stands d' userId hit item :=
    fun hit _ item => ⟨h.stands, h.symm.stands⟩
  unfold itemsFor visibleHits
  dsimp only
  apply congrArg
  apply List.filterMap_congr
  intro hit hhit
  apply Option.ext
  intro item
  rw [visibleHit_iff rfl hhit, visibleHit_iff rfl hhit]
  exact hshown hit hhit item

theorem ok_bind {α β : Type} (a : α) (f : α → Except SearchExc β) : (Except.ok a >>= f) = f a := rfl

/-- The request is one that reaches the remote search. -/
def Accepted (ragEnabled : Bool) (query : Str) (limit : Int) : Prop :=
  ragEnabled = true ∧ Text.strip query ≠ [] ∧ (Text.strip query).length ≤ searchQueryMaxLength ∧
    searchLimitMin ≤ limit ∧ limit ≤ searchLimitMax

variable {sort} {ragEnabled : Bool} {searchImages : SearchImages Score} {query : Str} {limit : Int}

/-- A page is what the remote answer to the stripped query shows. -/
theorem searchIndexedPhotos_ok {page : PhotoSearchPage Score}
    (hpage : searchIndexedPhotos sort ragEnabled searchImages d userId query limit = .ok page) :
    ∃ hits, searchImages (Text.strip query) userId limit searchOffset = .ok hits ∧
      page = ⟨itemsFor sort d userId hits, Text.strip query, (itemsFor sort d userId hits).length⟩ := by
  have hquery : ∀ normalized, validateSearchQuery query = .ok normalized →
      normalized = Text.strip query := by
    intro normalized h
    unfold validateSearchQuery at h
    dsimp only at h
    split at h
    · cases h
    · exact (Except.ok.inj h).symm
  have hlimit : ∀ limit', pageLimit limit = .ok limit' → limit' = limit := by
    intro limit' h
    unfold pageLimit at h
    split at h
    · cases h
    · exact (Except.ok.inj h).symm
  unfold searchIndexedPhotos at hpage
  cases hnormalized : validateSearchQuery query with
  | error e =>
    rw [hnormalized] at hpage
    cases hpage
  | ok normalized =>
    cases hpageLimit : pageLimit limit with
    | error e =>
      rw [hnormalized, hpageLimit] at hpage
      cases hpage
    | ok limit' =>
      rw [hnormalized, hpageLimit, ok_bind, ok_bind, hquery _ hnormalized,
        hlimit _ hpageLimit] at hpage
      split at hpage
      · cases hpage
      · split at hpage
        · cases hpage
        · cases hpage
        · rename_i hits hhits
          cases hpage
          exact ⟨hits, hhits, rfl⟩

/-- An accepted request gets a page for whatever hits come back. -/
theorem searchIndexedPhotos_accepted (h : Accepted ragEnabled query limit)
    {hits : List (RagImageHit Score)}
    (hhits : searchImages (Text.strip query) userId limit searchOffset = .ok hits) :
    ∃ page, searchIndexedPhotos sort ragEnabled searchImages d userId query limit = .ok page := by
  obtain ⟨henabled, hne, hlen, hmin, hmax⟩ := h
  have hvalid : validateSearchQuery query = .ok (Text.strip query) := by
    unfold validateSearchQuery
    dsimp only
    rw [if_neg]
    intro hbad
    exact hbad.elim hne (not_lt.2 hlen)
  have hbounds : pageLimit limit = .ok limit := by
    unfold pageLimit
    rw [if_neg]
    intro hbad
    exact hbad.elim (not_lt.2 hmin) (not_lt.2 hmax)
  unfold searchIndexedPhotos
  rw [hvalid, hbounds, ok_bind, ok_bind, if_neg (by simp [henabled]), hhits]
  exact ⟨_, rfl⟩

end

/-! ### The order of the page -/

/-- In a list where an element is related to none, it is alone. -/
theorem length_le_one_of_isolated {α : Type} {R : α → α → Prop} {items : List α} {a : α}
    (h : items.Pairwise R) (ha : a ∈ items) (hleft : ∀ b, ¬R a b) (hright : ∀ b, ¬R b a) :
    items.length ≤ 1 := by
  cases items with
  | nil => exact Nat.zero_le 1
  | cons b rest =>
    cases rest with
    | nil => exact le_rfl
    | cons c rest =>
      obtain ⟨hfirst, -⟩ := List.pairwise_cons.1 h
      rcases List.mem_cons.1 ha with heq | hin
      · rw [← heq] at hfirst
        exact absurd (hfirst c List.mem_cons_self) (hleft c)
      · exact absurd (hfirst a hin) (hright b)

section
variable {Number : Type} [LE Number]
variable {d : Db} {userId : Uuid} {hits : List (RagImageHit (PyFloat Number))}
variable {items : List (PhotoSearchHit (PyFloat Number))}
variable {shown : List (RagImageHit (PyFloat Number) × PhotoSearchHit (PyFloat Number))}

/-- No hit that stands for a photo of the caller has the score `NaN`, or it stands alone. -/
def Comparable (d : Db) (userId : Uuid) (hits : List (RagImageHit (PyFloat Number))) : Prop :=
  (∀ hit ∈ standing d userId hits, hit.score ≠ .nan) ∨ (standing d userId hits).length ≤ 1

omit [LE Number] in
theorem Shows.length_eq (h : Shows d userId hits items shown) :
    items.length = (standing d userId hits).length := by
  rw [h.nothing_else.length_eq, List.length_map, ← h.none_dropped, List.length_map]

omit [LE Number] in
/-- A standing hit has an item with its score. -/
theorem Shows.mem_of_hit (h : Shows d userId hits items shown) {hit : RagImageHit (PyFloat Number)}
    (hhit : hit ∈ standing d userId hits) : ∃ item ∈ items, item.score = hit.score := by
  rw [← h.none_dropped] at hhit
  obtain ⟨pair, hpair, rfl⟩ := List.mem_map.1 hhit
  have hitem : pair.2 ∈ items := h.nothing_else.mem_iff.2 (List.mem_map_of_mem hpair)
  have hscore : pair.2.score = pair.1.score := (h.stands pair hpair).2.2.2.2
  exact ⟨pair.2, hitem, hscore⟩

variable [DecidableLE Number]

/-- A page with a `NaN` and another score is in no order. -/
theorem comparable_of_bestFirst (h : Shows d userId hits items shown) (horder : BestFirst items shown) :
    Comparable d userId hits := by
  by_cases hnan : ∀ hit ∈ standing d userId hits, hit.score ≠ .nan
  · exact .inl hnan
  · right
    push Not at hnan
    obtain ⟨hit, hhit, hscore⟩ := hnan
    obtain ⟨item, hitem, hsame⟩ := h.mem_of_hit hhit
    rw [hscore] at hsame
    rw [← h.length_eq]
    apply length_le_one_of_isolated horder.descending hitem
    · intro b hle
      rw [hsame] at hle
      exact PyFloat.not_le_nan _ hle
    · intro b hle
      rw [hsame] at hle
      exact PyFloat.not_nan_le _ hle

variable [Std.Total fun x y : Number => x ≤ y] {sort : ScoreSort (PyFloat Number)}

theorem bestFirst_of_comparable (h : Shows d userId hits items shown)
    (hsorted : items = sort.sort (shown.map (·.2))) (hcompare : Comparable d userId hits) :
    BestFirst items shown := by
  rcases hcompare with hnumbers | hone
  · have hscores : Compare (fun item : PhotoSearchHit (PyFloat Number) => item.score)
        (shown.map (·.2)) := by
      have hnumber : ∀ item ∈ shown.map (·.2), item.score ≠ .nan := by
        intro item hitem
        obtain ⟨pair, hpair, rfl⟩ := List.mem_map.1 hitem
        have hscore : pair.2.score = pair.1.score := (h.stands pair hpair).2.2.2.2
        rw [hscore]
        apply hnumbers
        rw [← h.none_dropped]
        exact List.mem_map_of_mem hpair
      intro a ha b hb
      exact PyFloat.le_or_le (hnumber a ha) (hnumber b hb)
    constructor
    · rw [hsorted]
      exact sort.ordered _ hscores
    · rw [hsorted]
      exact sort.stable _ hscores
  · rw [← h.length_eq] at hone
    have hperm := h.nothing_else
    cases items with
    | nil =>
      have hnone := hperm.nil_eq
      refine ⟨List.Pairwise.nil, ?_⟩
      intro score
      rw [← hnone]
    | cons a rest =>
      have hrest : rest = [] := by
        apply List.length_eq_zero_iff.1
        rw [List.length_cons] at hone
        omega
      rw [hrest] at hperm ⊢
      rw [List.singleton_perm.1 hperm]
      refine ⟨?_, fun _ => rfl⟩
      rw [← List.singleton_perm.1 hperm]
      exact List.pairwise_singleton _ a

/-- A search shows the caller's own indexed photos for the hits that stand for one, none dropped,
and the answer is the same whatever other users' rows contain. The page is in order exactly where
the scores compare. -/
theorem photo_search_isolated (sort : ScoreSort (PyFloat Number)) (ragEnabled : Bool)
    (searchImages : SearchImages (PyFloat Number)) (d : Db) (userId : Uuid) (query : Str)
    (limit : Int) :
    (∀ page, searchIndexedPhotos sort ragEnabled searchImages d userId query limit = .ok page →
      ∃ hits shown, searchImages (Text.strip query) userId limit searchOffset = .ok hits ∧
        Shows d userId hits page.items shown ∧ page.total = page.items.length ∧
        (BestFirst page.items shown ↔ Comparable d userId hits)) ∧
    (∀ hits, searchImages (Text.strip query) userId limit searchOffset = .ok hits →
      Accepted ragEnabled query limit →
      ∃ page, searchIndexedPhotos sort ragEnabled searchImages d userId query limit = .ok page) ∧
    ∀ d', Agree userId d d' → searchIndexedPhotos sort ragEnabled searchImages d' userId query limit =
      searchIndexedPhotos sort ragEnabled searchImages d userId query limit := by
  refine ⟨?_, ?_, ?_⟩
  · intro page hpage
    obtain ⟨hits, hhits, rfl⟩ := searchIndexedPhotos_ok hpage
    obtain ⟨shown, hshows, hsorted⟩ := itemsFor_shows sort d userId hits
    refine ⟨hits, shown, hhits, hshows, rfl, ?_⟩
    constructor
    · exact comparable_of_bestFirst hshows
    · exact bestFirst_of_comparable hshows hsorted
  · intro hits hhits haccepted
    exact searchIndexedPhotos_accepted haccepted hhits
  · intro d' h
    unfold searchIndexedPhotos
    simp only [itemsFor_agree sort h]

end

/-! ### Three photos -/

def samplePhoto (digit : Nat) : FileRecord where
  id := .ofDigit digit
  userId := .ofDigit 0
  relativePath := "users/0/photos/".toList ++ [digit.digitChar]
  originalName := [digit.digitChar]
  sizeBytes := 3
  isEncrypted := false
  fileSection := .photos
  status := .committed
  checksumSha256 := none
  createdAt := 0
  lastAccessedAt := 0
  isArchived := false
  archivePath := none

/-- The photo is indexed under the remote id of the digit three above. -/
def sampleLink (digit : Nat) : IndexLink where
  id := .ofDigit digit
  fileRecordId := some (.ofDigit digit)
  userId := .ofDigit 0
  fileSection := .photos
  s3Key := (samplePhoto digit).relativePath
  contentSha256 := none
  contentType := "image/webp"
  ragFileId := some (.ofDigit (digit + 3))
  state := .indexed
  attempts := 0
  nextAttemptAt := none
  lastErrorCode := none
  createdAt := 0
  updatedAt := 0

theorem sample_unique : (([1, 2, 3].map samplePhoto).map (·.id)).Nodup ∧
    (([1, 2, 3].map sampleLink).map (·.id)).Nodup ∧
    UniqueColumn (·.fileRecordId) ([1, 2, 3].map sampleLink) ∧
    UniqueColumn (·.ragFileId) ([1, 2, 3].map sampleLink) := by
  unfold UniqueColumn
  decide +kernel

def sampleDb : Db :=
  ⟨⟨[1, 2, 3].map samplePhoto, sample_unique.1⟩, ∅,
    ⟨[1, 2, 3].map sampleLink, sample_unique.2.1, sample_unique.2.2.1, sample_unique.2.2.2⟩⟩

def sampleHit (digit : Nat) (score : PyFloat Int) : RagImageHit (PyFloat Int) :=
  ⟨.ofDigit digit, [digit.digitChar], score⟩

def sampleSort : ScoreSort (PyFloat Int) :=
  insertionReverseSort fun item : PhotoSearchHit (PyFloat Int) => item.score

/-- The search of user 0 where these hits come back. -/
def sampleSearch (hits : List (RagImageHit (PyFloat Int))) :
    Except SearchExc (PhotoSearchPage (PyFloat Int)) :=
  searchIndexedPhotos sampleSort true (fun _ _ _ _ => .ok hits) sampleDb (.ofDigit 0) "cat".toList 10

def nanHits : List (RagImageHit (PyFloat Int)) :=
  [sampleHit 4 (.number 1), sampleHit 5 .nan, sampleHit 6 (.number 2)]

/-- The scores 1, `NaN` and 2 come back as they were: the best photo is the last. -/
theorem nan_out_of_order : ∃ page, sampleSearch nanHits = .ok page ∧
    page.items.map (·.score) = [.number 1, .nan, .number 2] ∧
    ¬page.items.Pairwise fun a b => b.score ≤ a.score := by
  have hpage : ∃ page, sampleSearch nanHits = .ok page ∧
      page.items.map (·.score) = [.number 1, .nan, .number 2] := by
    refine ⟨⟨itemsFor sampleSort sampleDb (.ofDigit 0) nanHits, _, _⟩, rfl, ?_⟩
    decide +kernel
  obtain ⟨page, hok, hscores⟩ := hpage
  refine ⟨page, hok, hscores, ?_⟩
  intro hsorted
  have hfloats : (page.items.map (·.score)).Pairwise fun a b => b ≤ a := List.pairwise_map.2 hsorted
  rw [hscores] at hfloats
  obtain ⟨hfirst, -⟩ := List.pairwise_cons.1 hfloats
  exact PyFloat.not_nan_le _ (hfirst .nan (by decide))

def mixedHits : List (RagImageHit (PyFloat Int)) :=
  [sampleHit 4 (.number 1), sampleHit 9 .nan, sampleHit 6 (.number 2)]

theorem mixedHits_comparable : Comparable sampleDb (.ofDigit 0) mixedHits := by
  left
  intro hit hhit hnan
  obtain ⟨hin, item, hstands⟩ := mem_standing.1 hhit
  have hrag : ∀ h ∈ mixedHits, h.score = .nan →
      ∀ link ∈ sampleDb.links.rows, link.ragFileId ≠ some h.fileId := by
    decide +kernel
  obtain ⟨⟨link, hlink, -, hid, -⟩, -⟩ := hstands
  exact hrag hit hin hnan link hlink hid

/-- A hit of no photo is left out whatever its score, and the others stand in order. -/
theorem photo_search_sample : ∃ page shown, sampleSearch mixedHits = .ok page ∧
    Shows sampleDb (.ofDigit 0) mixedHits page.items shown ∧ BestFirst page.items shown := by
  have h := photo_search_isolated sampleSort true (fun _ _ _ _ => .ok mixedHits) sampleDb (.ofDigit 0)
    "cat".toList 10
  have haccepted : Accepted true "cat".toList 10 := by
    unfold Accepted
    decide +kernel
  obtain ⟨page, hpage⟩ := h.2.1 mixedHits rfl haccepted
  obtain ⟨hits, shown, hhits, hshows, -, horder⟩ := h.1 page hpage
  cases hhits
  exact ⟨page, shown, hpage, hshows, horder.2 mixedHits_comparable⟩

end WebStorage.PhotoSearch
