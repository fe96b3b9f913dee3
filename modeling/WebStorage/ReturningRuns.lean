import WebStorage.BucketFaults
import WebStorage.FileService
import WebStorage.PathLookup
import WebStorage.ReadBack
import WebStorage.UserRemoval

set_option autoImplicit false

/-! Requests that return, when every call is answered. -/
namespace WebStorage
open Effect Effect.Prog S3 FileService

/-- If the request returns, it ends in `Q`. -/
structure Returns {α : Type} (host : Host) (now : Time) (p : FileM α) (w : Installation)
    (Q : α → Installation → Prop) : Prop where
  ends : ∀ x t, p.run (host.serve now) w = (.ok x, t) → Q x t

section
variable {α β : Type} {host : Host} {now : Time} {w : Installation}

theorem returns_done {x : α} {Q : α → Installation → Prop} (h : Q x w) :
    Returns host now (pure x) w Q := by
  constructor
  intro y t hrun
  cases hrun
  exact h

theorem returns_raise {e : Exc} {Q : α → Installation → Prop} :
    Returns host now (Prog.raise e) w Q := by
  constructor
  intro y t hrun
  cases hrun

theorem returns_of_run {p : FileM α} {r : Except Exc α} {u : Installation}
    {Q : α → Installation → Prop} (hrun : p.run (host.serve now) w = (r, u))
    (h : ∀ x, r = .ok x → Q x u) : Returns host now p w Q := by
  constructor
  intro y t hrun'
  rw [hrun] at hrun'
  cases hrun'
  exact h y rfl

theorem returns_mono {p : FileM α} {Q Q' : α → Installation → Prop} (h : Returns host now p w Q)
    (hq : ∀ x t, Q x t → Q' x t) : Returns host now p w Q' :=
  ⟨fun x t hrun => hq x t (h.ends x t hrun)⟩

theorem returns_bind {p : FileM α} {f : α → FileM β} {P : α → Installation → Prop}
    {Q : β → Installation → Prop} (h : Returns host now p w P)
    (hf : ∀ x t, P x t → Returns host now (f x) t Q) : Returns host now (p.bind f) w Q := by
  constructor
  intro y t hrun
  rcases hp : p.run (host.serve now) w with ⟨x, u⟩
  cases x with
  | error e =>
    rw [run_bind_error hp] at hrun
    cases hrun
  | ok x =>
    rw [run_bind_ok hp] at hrun
    exact (hf x u (h.ends x u hp)).ends y t hrun

theorem returns_catch {p : FileM α} {f : Exc → FileM α} {Q : α → Installation → Prop}
    (h : Returns host now p w Q)
    (hf : ∀ e t, p.run (host.serve now) w = (.error e, t) → Returns host now (f e) t Q) :
    Returns host now (p.catchWith f) w Q := by
  constructor
  intro y t hrun
  rcases hp : p.run (host.serve now) w with ⟨x, u⟩
  cases x with
  | error e =>
    rw [run_catch_error hp] at hrun
    exact (hf e u hp).ends y t hrun
  | ok x =>
    rw [run_catch_ok hp] at hrun
    cases hrun
    exact h.ends y t hp

theorem returns_db (f : DbOp α) : Returns host now (db f) w fun x t =>
    (f w.db).1 = .ok x ∧ t = ⟨(f w.db).2, w.bucket⟩ := by
  constructor
  intro x t hrun
  rw [run_db] at hrun
  exact ⟨congrArg Prod.fst hrun, (congrArg Prod.snd hrun).symm⟩

/-- What a lookup finds: the record at the path, or the only one of its name, which is moved. -/
inductive Found (d : Db) (owner : Option Uuid) (fileSection : FileSection) (path name : Str) :
    Option FileRecord → Db → Prop
  | file (r : FileRecord) : atPath owner fileSection path d.records.rows = [r] →
      Found d owner fileSection path name (some r) d
  | healed (r : FileRecord) : atPath owner fileSection path d.records.rows = [] →
      ofName owner fileSection name d.records.rows = [r] →
      Found d owner fileSection path name (some (movedTo path r)) (afterLookup d path r)
  | nothing : atPath owner fileSection path d.records.rows = [] →
      (∀ r, ofName owner fileSection name d.records.rows ≠ [r]) →
      Found d owner fileSection path name none d

theorem found_heal {owner : Option Uuid} {fileSection : FileSection} {path name : Str} {d : Db}
    {found : Option FileRecord} (hnone : atPath owner fileSection path d.records.rows = [])
    (h : (FileRepo.heal owner fileSection path name d).1 = .ok found) :
    Found d owner fileSection path name found (FileRepo.heal owner fileSection path name d).2 := by
  have hquery : (FileRepo.getDownloadable owner path fileSection d).1 = .ok none := by
    show scalarOneOrNone (atPath owner fileSection path d.records.rows) = _
    rw [hnone]
    rfl
  have hlooked : Looked d owner fileSection path name (FileRepo.heal owner fileSection path name d).1
      (FileRepo.heal owner fileSection path name d).2 := looked_heal hquery
  rw [h] at hlooked
  cases found with
  | some r =>
    obtain ⟨r', haddressed, hmoved, hdb⟩ := hlooked
    rcases haddressed with hat | hnamed
    · rw [hnone] at hat
      cases hat
    · rw [hdb, hmoved]
      exact .healed r' hnone hnamed.2
  | none =>
    obtain ⟨hdb, hnot⟩ := hlooked
    rw [hdb]
    exact .nothing hnone fun r hr => hnot r (.inr ⟨hnone, hr⟩)

theorem returns_lookup {s : FileService} {userId : Uuid} {path relative : Str}
    {fileSection : FileSection} (hrelative : s.adapter.toDiskRelativePath path = .ok relative) :
    Returns host now (getRecordBySectionPath s userId path fileSection) w fun found t =>
      t.bucket = w.bucket ∧ Found w.db (lookupOwner userId fileSection) fileSection relative
        (Text.name path) found t.db := by
  have hquery : Returns host now
      (lookupIn (lookupOwner userId fileSection) fileSection relative (Text.name path)) w
      fun found t => t.bucket = w.bucket ∧
        Found w.db (lookupOwner userId fileSection) fileSection relative (Text.name path) found t.db := by
    unfold lookupIn
    apply returns_bind (returns_db _)
    intro found u hu
    obtain ⟨hfound, hu'⟩ := hu
    have hrows : scalarOneOrNone (atPath (lookupOwner userId fileSection) fileSection relative
        w.db.records.rows) = .ok found := hfound
    have hsame : u = w := hu'
    subst hsame
    cases found with
    | some r => exact returns_done ⟨rfl, .file r (scalarOneOrNone_some hrows)⟩
    | none =>
      have hnone := scalarOneOrNone_none hrows
      apply returns_mono (returns_db _)
      intro found t ht
      obtain ⟨hheal, ht'⟩ := ht
      rw [ht']
      exact ⟨rfl, found_heal hnone hheal⟩
  constructor
  intro found t hrun
  apply hquery.ends found t
  rw [← hrun]
  unfold getRecordBySectionPath toDisk lookupOwner
  have hdisk : (ofExcept (s.adapter.toDiskRelativePath path)).run (host.serve now) w =
      (.ok relative, w) := by
    rw [hrelative]
    rfl
  rw [bind_eq, run_bind_ok hdisk]
  dsimp only
  by_cases hshared : fileSection = .shared
  · rw [if_pos hshared, if_pos hshared]
    rfl
  · rw [if_neg hshared, if_neg hshared]
    rfl

/-- The queue changes nothing but its links. -/
theorem returns_removed (q : Enqueue) (ids : List Uuid) : Returns host now (q.removed ids now) w
    fun _ t => t.bucket = w.bucket ∧ t.db.records = w.db.records ∧ t.db.quotas = w.db.quotas := by
  have hlinks : ∀ f : LinkTable → Except Exc (List IndexLink × LinkTable),
      (onLinks f w.db).2.records = w.db.records ∧ (onLinks f w.db).2.quotas = w.db.quotas := by
    intro f
    unfold onLinks
    split
    · exact ⟨rfl, rfl⟩
    · exact ⟨rfl, rfl⟩
  unfold Enqueue.removed
  split
  · exact returns_done ⟨rfl, rfl, rfl⟩
  · have hcall : Returns host now (Enqueue.links (fun t => t.markRemoved ids now) []) w fun _ t =>
        t.bucket = w.bucket ∧ t.db.records = w.db.records ∧ t.db.quotas = w.db.quotas := by
      unfold Enqueue.links
      apply returns_catch
      · apply returns_mono (returns_db _)
        intro x t ht
        rw [ht.2]
        exact ⟨rfl, hlinks _⟩
      · intro e t ht
        rw [run_db] at ht
        have ht' : t = ⟨(onLinks (fun t => t.markRemoved ids now) w.db).2, w.bucket⟩ :=
          (congrArg Prod.snd ht).symm
        split
        · apply returns_done
          rw [ht']
          exact ⟨rfl, hlinks _⟩
        · exact returns_raise
    apply returns_bind hcall
    exact fun _ t ht => returns_done ht

/-! ### What is swept -/

/-- What is at the keys of `P` goes, and nothing else does. -/
structure Swept (P : Str → Prop) (b t : Bucket) : Prop where
  gone : ∀ k, P k → t.content k = none
  kept : ∀ k, ¬ P k → t.content k = b.content k

theorem Swept.nothing (b : Bucket) : Swept (fun _ => False) b b :=
  ⟨fun _ h => h.elim, fun _ _ => rfl⟩

theorem Swept.trans {P P' : Str → Prop} {b u t : Bucket} (h : Swept P b u) (h' : Swept P' u t) :
    Swept (fun k => P k ∨ P' k) b t where
  gone k hk := by
    by_cases hlater : P' k
    · exact h'.gone k hlater
    · have hfirst : P k := hk.resolve_right hlater
      rw [h'.kept k hlater, h.gone k hfirst]
  kept k hk := by
    have hboth := not_or.1 hk
    rw [h'.kept k hboth.2, h.kept k hboth.1]

theorem Swept.congr {P P' : Str → Prop} {b t : Bucket} (h : Swept P b t) (hp : ∀ k, P k ↔ P' k) :
    Swept P' b t :=
  ⟨fun k hk => h.gone k ((hp k).2 hk), fun k hk => h.kept k fun hk' => hk ((hp k).1 hk')⟩

/-- What is at the key or below it. -/
def Under (key : Option Str) (k : Str) : Prop := ∃ top, key = some top ∧ Bucket.Covers top k

theorem swept_covers (b : Bucket) (key : Str) :
    Swept (Under (some key)) b (b.keep fun k => !decide (Bucket.Covers key k)) where
  gone k hk := by
    obtain ⟨top, htop, hcovers⟩ := hk
    cases htop
    simp [hcovers]
  kept k hk := by
    have hnot : ¬ Bucket.Covers key k := fun hcovers => hk ⟨key, rfl, hcovers⟩
    simp [hnot]

/-- The key that a path has in the bucket, when an object can be there. -/
def keyAt (a : Adapter) (path : Str) : Option Str :=
  match objectKey a path with
  | .ok key => if key = [] then none else some key
  | .error _ => none

theorem keyAt_ok {a : Adapter} {path key : Str} (h : objectKey a path = .ok key) (hne : key ≠ []) :
    keyAt a path = some key := by
  unfold keyAt
  rw [h]
  exact if_neg hne

theorem keyAt_error {a : Adapter} {path : Str} {e : Exc} (h : objectKey a path = .error e) :
    keyAt a path = none := by
  unfold keyAt
  rw [h]

theorem keyAt_root {a : Adapter} {path : Str} (h : objectKey a path = .ok []) :
    keyAt a path = none := by
  unfold keyAt
  rw [h]
  exact if_pos rfl

theorem objectKey_diskRoot_nil : objectKey diskRootAdapter [] = .ok [] := rfl

/-- Nothing is deleted where no object can be. -/
theorem Swept.nowhere (b : Bucket) : Swept (Under none) b b := by
  apply (Swept.nothing b).congr
  intro k
  constructor
  · exact False.elim
  · intro hunder
    obtain ⟨top, htop, -⟩ := hunder
    cases htop

theorem run_deleteIfExists_error {a : Adapter} {path : Str} (hplain : a.Plain) {e : Exc}
    {t : Installation} (hrun : (deleteIfExists a path).run (host.serve now) w = (.error e, t)) :
    t = w ∧ keyAt a path = none := by
  cases hkey : objectKey a path with
  | error e' =>
    rw [deleteIfExists, bind_eq, run_bind_error (run_exists_error hplain hkey w)] at hrun
    cases hrun
    exact ⟨rfl, keyAt_error hkey⟩
  | ok key =>
    by_cases hne : key = []
    · subst hne
      rw [deleteIfExists, bind_eq, run_bind_ok (run_exists hplain hkey w)] at hrun
      split at hrun
      · rw [run_delete_root hplain hkey w] at hrun
        cases hrun
        exact ⟨rfl, keyAt_root hkey⟩
      · cases hrun
    · rw [run_deleteIfExists hplain hkey hne w] at hrun
      cases hrun

theorem returns_deleteIfExists {a : Adapter} {path : Str} (hplain : a.Plain) :
    Returns host now (deleteIfExists a path) w fun _ t =>
      t.db = w.db ∧ Swept (Under (keyAt a path)) w.bucket t.bucket := by
  cases hkey : objectKey a path with
  | error e =>
    have hrun : (deleteIfExists a path).run (host.serve now) w = (.error e, w) := by
      rw [deleteIfExists, bind_eq, run_bind_error (run_exists_error hplain hkey w)]
    exact returns_of_run hrun fun x hx => by cases hx
  | ok key =>
    by_cases hne : key = []
    · subst hne
      constructor
      intro x t hrun
      rw [deleteIfExists, bind_eq, run_bind_ok (run_exists hplain hkey w)] at hrun
      split at hrun
      · rw [run_delete_root hplain hkey w] at hrun
        cases hrun
      · cases hrun
        rw [keyAt_root hkey]
        exact ⟨rfl, .nowhere _⟩
    · refine returns_of_run (run_deleteIfExists hplain hkey hne w) fun _ _ => ⟨rfl, ?_⟩
      rw [keyAt_ok hkey hne]
      exact swept_covers _ _

theorem returns_exists {a : Adapter} {path : Str} (hplain : a.Plain) :
    Returns host now (store a (.exists path)) w fun _ t =>
      t = w ∧ ∃ key, objectKey a path = .ok key := by
  cases hkey : objectKey a path with
  | error e => exact returns_of_run (run_exists_error hplain hkey w) fun x hx => by cases hx
  | ok key => exact returns_of_run (run_exists hplain hkey w) fun _ _ => ⟨rfl, key, rfl⟩

/-- Whether a path is listed as a directory. -/
def isDirectoryAt (a : Adapter) (path : Str) (b : Bucket) : Bool :=
  decide (Text.stripSlash (Text.strip path) = []) || (keyAt a path).any b.populated

theorem run_isDirectory {s : FileService} {path key : Str} (hplain : s.adapter.Plain)
    (hkey : objectKey s.adapter path = .ok key) (hne : key ≠ []) (w : Installation) :
    (isDirectory s path).run (host.serve now) w = (.ok (isDirectoryAt s.adapter path w.bucket), w) := by
  have hlist : (store s.adapter (.list path)).run (host.serve now) w =
      (if Text.stripSlash (Text.strip path) = [] ∨ w.bucket.populated key = true
        then .ok (w.bucket.nodesUnder host.lower key) else .error .fileNotFound, w) :=
    run_list hplain hkey w
  have hform : isDirectoryAt s.adapter path w.bucket =
      decide (Text.stripSlash (Text.strip path) = [] ∨ w.bucket.populated key = true) := by
    unfold isDirectoryAt
    rw [keyAt_ok hkey hne, Bool.decide_or]
    simp
  rw [hform]
  unfold isDirectory
  by_cases hdir : Text.stripSlash (Text.strip path) = [] ∨ w.bucket.populated key = true
  · rw [if_pos hdir] at hlist
    have hbody : ((store s.adapter (.list path)).bind fun _ => (pure true : FileM Bool)).run
        (host.serve now) w = (.ok true, w) := run_bind_ok hlist _
    rw [decide_eq_true hdir]
    exact run_catch_ok hbody _
  · rw [if_neg hdir] at hlist
    have hbody : ((store s.adapter (.list path)).bind fun _ => (pure true : FileM Bool)).run
        (host.serve now) w = (.error .fileNotFound, w) := run_bind_error hlist _
    rw [decide_eq_false hdir]
    exact run_catch_error hbody _

theorem returns_delete {a : Adapter} {path key : Str} (hplain : a.Plain)
    (hkey : objectKey a path = .ok key) (hne : key ≠ []) :
    Returns host now (store a (.delete path)) w fun _ t =>
      t.db = w.db ∧ Swept (Under (keyAt a path)) w.bucket t.bucket := by
  refine returns_of_run (run_delete hplain hkey hne w) fun _ _ => ⟨rfl, ?_⟩
  rw [keyAt_ok hkey hne]
  exact swept_covers _ _

end
end WebStorage
