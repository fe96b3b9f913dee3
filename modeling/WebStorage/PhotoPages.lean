import WebStorage.OffsetPages
import WebStorage.Repositories

set_option autoImplicit false

/-! The pages of the photo gallery against the photos that can be opened. -/
namespace WebStorage.PhotoPages
open OffsetPages

structure PhotoItem where
  id : Uuid
  previewUrl : Str
  originalUrl : Str
  createdAt : Time
  size : Int
deriving DecidableEq

structure PhotosPage where
  items : List PhotoItem
  total : Nat
  hasNext : Bool

/-- How the database orders the rows of one query. -/
abbrev Ties := (rows : List FileRecord) → Answer FileRecord.createdAt rows

/-- The rows that `count_by_user_section` and `list_by_user_section_paginated` select. -/
def committedRows (d : Db) (userId : Uuid) (fileSection : FileSection) : List FileRecord :=
  d.records.rows.filter fun r =>
    r.userId = userId && r.fileSection = fileSection && r.status = .committed

def countByUserSection (d : Db) (userId : Uuid) (fileSection : FileSection) : Nat :=
  (committedRows d userId fileSection).length

def listByUserSectionPaginated (ties : Ties) (d : Db) (userId : Uuid) (fileSection : FileSection)
    (offset limit : Nat) : List FileRecord :=
  ((ties (committedRows d userId fileSection)).list.drop offset).take limit

/-- `_to_photo_item`. -/
def toPhotoItem (record : FileRecord) : PhotoItem where
  id := record.id
  previewUrl := "/api/photos/".toList ++ record.id.text ++ "/preview".toList
  originalUrl := "/api/photos/".toList ++ record.id.text ++ "/original".toList
  createdAt := record.createdAt
  size := record.sizeBytes

def listPhotos (ties : Ties) (d : Db) (userId : Uuid) (page limit : Int) : PhotosPage :=
  let page := if page < 1 then 1 else page
  let limit := if limit < 1 then 1 else limit
  let offset := ((page - 1) * limit).toNat
  let total := countByUserSection d userId .photos
  let records := listByUserSectionPaginated ties d userId .photos offset limit.toNat
  { items := records.map toPhotoItem
    total := total
    hasNext := decide (offset + records.length < total) }

/-- `_get_downloadable_record`, the access check of `get_original`. -/
def getDownloadableRecord (d : Db) (userId fileId : Uuid) : Except Exc FileRecord :=
  match d.records.get fileId with
  | none => .error .fileNotFound
  | some record =>
    if isDownloadable record = false then .error .fileNotFound
    else if record.userId ≠ userId then .error .accessDenied
    else if record.fileSection ≠ .photos then .error .fileNotFound
    else .ok record

/-- The photos that `get_original` serves to the user. -/
def served (d : Db) (userId : Uuid) : List FileRecord :=
  d.records.rows.filter fun r => (getDownloadableRecord d userId r.id).isOk

/-- The pages from one on, until `has_next` is false. The query of every page has ties of its own. -/
inductive Browsed (ties : Nat → Ties) (d : Db) (userId : Uuid) (limit : Nat) : Nat → List PhotoItem → Prop
  | last {page} : (listPhotos (ties page) d userId page limit).hasNext = false →
      Browsed ties d userId limit page (listPhotos (ties page) d userId page limit).items
  | next {page rest} : (listPhotos (ties page) d userId page limit).hasNext = true →
      Browsed ties d userId limit (page + 1) rest →
      Browsed ties d userId limit page ((listPhotos (ties page) d userId page limit).items ++ rest)

/-- The pages show every photo that is served once, the newest first, and say how many there are. -/
structure Covers (ties : Nat → Ties) (d : Db) (userId : Uuid) (limit : Nat) : Prop where
  browsed : ∃ items, Browsed ties d userId limit 1 items ∧
    items.Perm ((served d userId).map toPhotoItem) ∧
    items.Pairwise fun a b => b.createdAt ≤ a.createdAt
  total : ∀ page : Nat, 1 ≤ page →
    (listPhotos (ties page) d userId page limit).total = (served d userId).length
  hasNext : ∀ page : Nat, 1 ≤ page →
    ((listPhotos (ties page) d userId page limit).hasNext = true ↔ page * limit < (served d userId).length)

/-- No photo of the user is archived. -/
def NoneArchived (d : Db) (userId : Uuid) : Prop :=
  ∀ r ∈ d.records.rows, r.userId = userId → r.fileSection = .photos → r.status ≠ .archived

section
variable {ties : Nat → Ties} {d : Db} {userId : Uuid} {limit : Nat}

theorem served_iff {r : FileRecord} (hr : r ∈ d.records.rows) :
    (getDownloadableRecord d userId r.id).isOk = true ↔
      isDownloadable r = true ∧ r.userId = userId ∧ r.fileSection = .photos := by
  unfold getDownloadableRecord
  rw [RecordTable.get_of_mem hr]
  dsimp only
  by_cases hdown : isDownloadable r = true
  · by_cases howner : r.userId = userId
    · by_cases hsection : r.fileSection = .photos
      · simp [hdown, howner, hsection, Except.isOk, Except.toBool]
      · simp [hdown, howner, hsection, Except.isOk, Except.toBool]
    · simp [hdown, howner, Except.isOk, Except.toBool]
  · simp [hdown, Except.isOk, Except.toBool]

/-- The rows that are listed are the committed ones among those that are served. -/
theorem committedRows_eq : committedRows d userId .photos =
    (served d userId).filter fun r => r.status = .committed := by
  unfold committedRows served
  rw [List.filter_filter]
  apply List.filter_congr
  intro r hr
  rw [Bool.eq_iff_iff, Bool.and_eq_true, Bool.and_eq_true, Bool.and_eq_true, served_iff hr]
  unfold isDownloadable
  cases r.status <;> simp

theorem items_eq (hlimit : 0 < limit) {page : Nat} (hpage : 1 ≤ page) (order : Ties) :
    (listPhotos order d userId page limit).items =
      (window limit (page - 1) (order (committedRows d userId .photos)).list).map toPhotoItem := by
  have hp : ¬ (page : Int) < 1 := by omega
  have hl : ¬ (limit : Int) < 1 := by omega
  have hoffset : (((page : Int) - 1) * limit).toNat = (page - 1) * limit := by
    have hcast : ((page : Int) - 1) * limit = ((page - 1) * limit : Nat) := by
      rw [Nat.cast_mul, Nat.cast_sub hpage, Nat.cast_one]
    rw [hcast, Int.toNat_natCast]
  unfold listPhotos listByUserSectionPaginated window
  simp only [if_neg hp, if_neg hl, hoffset, Int.toNat_natCast]

theorem hasNext_iff (hlimit : 0 < limit) {page : Nat} (hpage : 1 ≤ page) (order : Ties) :
    (listPhotos order d userId page limit).hasNext = true ↔
      page * limit < (committedRows d userId .photos).length := by
  have hp : ¬ (page : Int) < 1 := by omega
  have hl : ¬ (limit : Int) < 1 := by omega
  have hoffset : (((page : Int) - 1) * limit).toNat = (page - 1) * limit := by
    have hcast : ((page : Int) - 1) * limit = ((page - 1) * limit : Nat) := by
      rw [Nat.cast_mul, Nat.cast_sub hpage, Nat.cast_one]
    rw [hcast, Int.toNat_natCast]
  have hmul : page * limit = (page - 1) * limit + limit := by
    obtain ⟨n, rfl⟩ : ∃ n, page = n + 1 := ⟨page - 1, by omega⟩
    rw [Nat.add_sub_cancel, Nat.succ_mul]
  have hlength := (order (committedRows d userId .photos)).perm.length_eq
  unfold listPhotos listByUserSectionPaginated countByUserSection
  simp only [if_neg hp, if_neg hl, hoffset, Int.toNat_natCast, decide_eq_true_iff, List.length_take,
    List.length_drop, hlength]
  omega

theorem total_eq (order : Ties) (page limit : Int) :
    (listPhotos order d userId page limit).total = (committedRows d userId .photos).length := rfl

/-- What is browsed from a page on completes the pages before it. -/
theorem browsed_pages (hlimit : 0 < limit) {page : Nat} {items : List PhotoItem}
    (h : Browsed ties d userId limit page items) : 1 ≤ page → ∃ n rest,
      (committedRows d userId .photos).length ≤ n * limit ∧ items = rest.map toPhotoItem ∧
      pages (fun i => ties (i + 1) (committedRows d userId .photos)) limit (page - 1) ++ rest =
        pages (fun i => ties (i + 1) (committedRows d userId .photos)) limit n := by
  have hpages : ∀ page, 1 ≤ page →
      pages (fun i => ties (i + 1) (committedRows d userId .photos)) limit page =
      pages (fun i => ties (i + 1) (committedRows d userId .photos)) limit (page - 1) ++
        window limit (page - 1) (ties page (committedRows d userId .photos)).list := by
    intro page hpage
    obtain ⟨n, rfl⟩ : ∃ n, page = n + 1 := ⟨page - 1, by omega⟩
    exact pages_succ _ n
  induction h with
  | @last page hlast =>
    intro hpage
    refine ⟨page, _, ?_, items_eq hlimit hpage (ties page), (hpages page hpage).symm⟩
    have hnot : ¬ page * limit < (committedRows d userId .photos).length := by
      intro hlt
      rw [(hasNext_iff hlimit hpage (ties page)).2 hlt] at hlast
      cases hlast
    exact Nat.le_of_not_lt hnot
  | @next page rest _ _ ih =>
    intro hpage
    obtain ⟨n, more, hn, hrest, heq⟩ := ih (Nat.le_succ_of_le hpage)
    refine ⟨n, window limit (page - 1) (ties page (committedRows d userId .photos)).list ++ more, hn, ?_, ?_⟩
    · rw [items_eq hlimit hpage, hrest, List.map_append]
    · rw [← List.append_assoc, ← hpages page hpage]
      exact heq

/-- Browsing comes to an end. -/
theorem exists_browsed (ties : Nat → Ties) (d : Db) (userId : Uuid) (hlimit : 0 < limit) (k : Nat) :
    ∀ page, 1 ≤ page → (committedRows d userId .photos).length ≤ (page + k) * limit →
      ∃ items, Browsed ties d userId limit page items := by
  induction k with
  | zero =>
    intro page hpage hle
    have hlast : (listPhotos (ties page) d userId page limit).hasNext = false := by
      rw [Bool.eq_false_iff]
      intro hnext
      have hlt := (hasNext_iff hlimit hpage (ties page)).1 hnext
      rw [Nat.add_zero] at hle
      omega
    exact ⟨_, .last hlast⟩
  | succ k ih =>
    intro page hpage hle
    cases hnext : (listPhotos (ties page) d userId page limit).hasNext with
    | false => exact ⟨_, .last hnext⟩
    | true =>
      have hle' : (committedRows d userId .photos).length ≤ (page + 1 + k) * limit := by
        have harrange : page + 1 + k = page + (k + 1) := by omega
        rw [harrange]
        exact hle
      obtain ⟨rest, hrest⟩ := ih (page + 1) (by omega) hle'
      exact ⟨_, .next hnext hrest⟩

theorem served_ids_nodup (d : Db) (userId : Uuid) : ((served d userId).map toPhotoItem).Nodup := by
  have hids : ((served d userId).map (·.id)).Nodup :=
    d.records.id_unique.sublist (List.filter_sublist.map _)
  have hmap : ((served d userId).map toPhotoItem).map (·.id) = (served d userId).map (·.id) := by
    rw [List.map_map]
    rfl
  rw [← hmap] at hids
  exact hids.of_map

/-- Where nothing is archived, the rows that are listed are those that are served. -/
theorem served_of_noneArchived (h : NoneArchived d userId) :
    committedRows d userId .photos = served d userId := by
  rw [committedRows_eq, List.filter_eq_self]
  intro r hr
  obtain ⟨hmem, hok⟩ := List.mem_filter.1 hr
  obtain ⟨hdown, howner, hsection⟩ := (served_iff hmem).1 hok
  have hnot := h r hmem howner hsection
  unfold isDownloadable at hdown
  simpa [hnot] using hdown

theorem noneArchived_of_total (h : (committedRows d userId .photos).length = (served d userId).length) :
    NoneArchived d userId := by
  intro r hr howner hsection harchived
  rw [committedRows_eq, List.length_filter_eq_length_iff] at h
  have hdown : isDownloadable r = true := by
    unfold isDownloadable
    rw [harchived]
    rfl
  have hmem : r ∈ served d userId :=
    List.mem_filter.2 ⟨hr, (served_iff hr).2 ⟨hdown, howner, hsection⟩⟩
  have hcommitted := h r hmem
  simp [harchived] at hcommitted

/-- The answer in which rows of one time stand in the order of the table. -/
def stable : Ties := fun rows =>
  { list := rows.insertionSort fun a b => b.createdAt ≤ a.createdAt
    perm := List.perm_insertionSort _ rows
    sorted := by
      have htotal : Std.Total fun a b : FileRecord => b.createdAt ≤ a.createdAt :=
        ⟨fun a b => le_total b.createdAt a.createdAt⟩
      have htrans : IsTrans FileRecord fun a b => b.createdAt ≤ a.createdAt :=
        ⟨fun _ _ _ hab hbc => le_trans hbc hab⟩
      exact List.pairwise_insertionSort _ rows }

/-- The answers to the queries of one table, and `stable` elsewhere. -/
def answering (rows : List FileRecord) (answers : Nat → Answer FileRecord.createdAt rows) : Nat → Ties :=
  fun page rows' => if h : rows' = rows then h ▸ answers (page - 1) else stable rows'

theorem answering_self (rows : List FileRecord) (answers : Nat → Answer FileRecord.createdAt rows)
    (page : Nat) : answering rows answers page rows = answers (page - 1) := dif_pos rfl

/-- The pages cover the gallery, whatever the ties, exactly when no photo is archived and no page ends
between photos of one creation time. -/
theorem gallery_covered_iff (d : Db) (userId : Uuid) (hlimit : 0 < limit) :
    (∀ ties, Covers ties d userId limit) ↔ NoneArchived d userId ∧
      Unsplit FileRecord.createdAt (committedRows d userId .photos) limit := by
  constructor
  · intro hall
    refine ⟨?_, ?_⟩
    · exact noneArchived_of_total ((hall fun _ => stable).total 1 le_rfl)
    · by_contra hsplit
      obtain ⟨answers, hrepeats⟩ := split_repeats hlimit (stable (committedRows d userId .photos)) hsplit
      obtain ⟨items, hbrowsed, hperm, -⟩ := (hall (answering _ answers)).browsed
      obtain ⟨n, rest, hn, hitems, heq⟩ := browsed_pages hlimit hbrowsed le_rfl
      apply hrepeats n hn
      have hnodup : rest.Nodup := by
        have hmapped := hperm.nodup_iff.2 (served_ids_nodup d userId)
        rw [hitems] at hmapped
        exact hmapped.of_map
      have hpages : pages answers limit n = rest := by
        simp only [answering_self, Nat.add_sub_cancel] at heq
        exact heq.symm
      rw [hpages]
      exact hnodup
  · intro h ties
    obtain ⟨hnone, hunsplit⟩ := h
    have hserved := served_of_noneArchived hnone
    refine ⟨?_, ?_, ?_⟩
    · have hfits : (committedRows d userId .photos).length ≤
          (1 + (committedRows d userId .photos).length) * limit :=
        le_trans (Nat.le_add_left _ _) (Nat.le_mul_of_pos_right _ hlimit)
      obtain ⟨items, hbrowsed⟩ := exists_browsed ties d userId hlimit _ 1 le_rfl hfits
      obtain ⟨n, rest, hn, hitems, heq⟩ := browsed_pages hlimit hbrowsed le_rfl
      have hpages : rest = pages (fun i => ties (i + 1) (committedRows d userId .photos)) limit n := heq
      refine ⟨items, hbrowsed, ?_, ?_⟩
      · rw [hitems, hpages, ← hserved]
        exact (pages_perm hunsplit _ hn).map _
      · rw [hitems, hpages]
        exact List.pairwise_map.2 (pages_sorted _ n)
    · intro page _
      rw [total_eq, hserved]
    · intro page hpage
      rw [hasNext_iff hlimit hpage, hserved]

end

/-! ### Sample galleries -/

def samplePhoto (digit : Nat) (status : FileStatus) (createdAt : Time) : FileRecord where
  id := .ofDigit digit
  userId := .ofDigit 0
  relativePath := "users/u/photos/originals/p.jpg".toList
  originalName := "p.jpg".toList
  sizeBytes := 1
  isEncrypted := false
  fileSection := .photos
  status := status
  checksumSha256 := none
  createdAt := createdAt
  lastAccessedAt := createdAt
  isArchived := status = .archived
  archivePath := none

def galleryOf (rows : List FileRecord) (h : (rows.map (·.id)).Nodup) : Db := ⟨⟨rows, h⟩, ∅, .empty⟩

/-- Two photos of one time. -/
def twins : List FileRecord := [samplePhoto 1 .committed 5, samplePhoto 2 .committed 5]

def twinGallery : Db := galleryOf twins (by decide +kernel)

/-- The second query has the twins the other way round. -/
def otherWay : Answer FileRecord.createdAt twins where
  list := twins.reverse
  perm := List.reverse_perm _
  sorted := by decide +kernel

def archivedGallery : Db := galleryOf [samplePhoto 1 .archived 5] (by decide +kernel)

/-- A photo is shown on two pages and its twin on none; an archived photo is served and not listed. -/
theorem gallery_repeats_and_hides :
    (listPhotos stable twinGallery (.ofDigit 0) 1 1).items = [toPhotoItem (samplePhoto 1 .committed 5)] ∧
    (listPhotos (answering twins (fun _ => otherWay) 2) twinGallery (.ofDigit 0) 2 1).items =
      [toPhotoItem (samplePhoto 1 .committed 5)] ∧
    (listPhotos (answering twins (fun _ => otherWay) 2) twinGallery (.ofDigit 0) 2 1).hasNext = false ∧
    (getDownloadableRecord twinGallery (.ofDigit 0) (.ofDigit 2)).isOk = true ∧
    (listPhotos stable archivedGallery (.ofDigit 0) 1 1).total = 0 ∧
    (getDownloadableRecord archivedGallery (.ofDigit 0) (.ofDigit 1)).isOk = true := by
  have hrows : committedRows twinGallery (.ofDigit 0) .photos = twins := by decide +kernel
  have hother : (listPhotos (answering twins (fun _ => otherWay) 2) twinGallery (.ofDigit 0) 2 1).items =
      (window 1 1 otherWay.list).map toPhotoItem := by
    have hitems : (listPhotos (answering twins (fun _ => otherWay) 2) twinGallery (.ofDigit 0)
        ((2 : Nat) : Int) ((1 : Nat) : Int)).items = _ := items_eq (by decide) (by decide) _
    rw [hrows, answering_self] at hitems
    exact hitems
  refine ⟨by decide +kernel, ?_, ?_, by decide +kernel, by decide +kernel, by decide +kernel⟩
  · rw [hother]
    decide +kernel
  · rw [Bool.eq_false_iff]
    intro hnext
    have hlt : 2 * 1 < (committedRows twinGallery (.ofDigit 0) .photos).length :=
      (hasNext_iff (by decide) (by decide) _).1 hnext
    rw [hrows] at hlt
    exact absurd hlt (by decide)

/-- Photos of different times, none of them archived. -/
def plainGallery : Db :=
  galleryOf [samplePhoto 1 .committed 5, samplePhoto 2 .committed 7, samplePhoto 3 .committed 6]
    (by decide +kernel)

theorem plain_gallery_covered : Covers (fun _ => stable) plainGallery (.ofDigit 0) 2 := by
  apply (gallery_covered_iff plainGallery (.ofDigit 0) (by decide)).2
  constructor
  · unfold NoneArchived
    decide +kernel
  · apply unsplit_of_nodup
    decide +kernel

end WebStorage.PhotoPages
