import WebStorage.S3Storage
import WebStorage.ConcurrentPrograms

set_option autoImplicit false

/-! The private section of one user: the marker in the object storage, the keys of the user's
sessions in Redis, and the requests that use them side by side. -/
namespace WebStorage.PrivateVault
open Effect Effect.Prog

abbrev Key := Bytes
abbrev SessionId := Str

/-- `MARKER_FILENAME`. -/
def markerFilename : Str := ".marker".toList

/-- The calls of the requests. What is stored is given by the key that seals it: AES-GCM opens it
under that key only. Names are relative to the section, whose own entry is the empty name. That
an adapter is built, which ensures that the section exists, is no call of its own. -/
inductive VaultCmd
  | markerExists
  | readMarker
  | writeMarker (key : Key)
  | setPrivateKey (session : SessionId) (key : Key)
  | getPrivateKey (session : SessionId)
  | deletePrivateKey (session : SessionId)
  | sectionExists
  | headSection
  | listSection
  | deleteObjects (batch : List Str)
  | storeObject (name : Str) (key : Key)
  | copyObject (source target : Str)
  | deleteObject (name : Str)
deriving DecidableEq

abbrev VaultCmd.Resp : VaultCmd → Type
  | markerExists => Bool
  | readMarker => Key
  | writeMarker _ => Unit
  | setPrivateKey .. => Unit
  | getPrivateKey _ => Option Key
  | deletePrivateKey _ => Unit
  | sectionExists => Bool
  | headSection => Bool
  | listSection => List Str
  | deleteObjects _ => Unit
  | storeObject .. => Unit
  | copyObject .. => Unit
  | deleteObject _ => Unit

abbrev VaultM := Prog VaultCmd.Resp Exc

/-- The `try` body of `validate_marker`. -/
def decryptMarker (key : Key) : VaultM Bool :=
  (do
    let sealing ← issue VaultCmd.readMarker
    pure (decide (sealing = key))).catchWith fun _ => pure false

/-- `validate_marker`. -/
def validateMarker (key : Key) : VaultM Bool := do
  if (← issue VaultCmd.markerExists) = false then pure false
  else decryptMarker key

/-- The end of `unlock`. -/
def storeKey (session : SessionId) (key : Key) : VaultM Bool := do
  issue (VaultCmd.setPrivateKey session key)
  pure true

/-- `unlock`, from the key that is derived from the passphrase. -/
def unlock (session : SessionId) (key : Key) : VaultM Bool := do
  if ← issue VaultCmd.markerExists then
    if ← validateMarker key then storeKey session key
    else pure false
  else
    issue (VaultCmd.writeMarker key)
    storeKey session key

/-- `lock`. -/
def lock (session : SessionId) : VaultM Unit := issue (VaultCmd.deletePrivateKey session)

/-- The loop of the storage's `delete` over the batches. -/
def deleteBatches : List (List Str) → VaultM Unit
  | [] => pure ()
  | batch :: rest => do
    issue (VaultCmd.deleteObjects batch)
    deleteBatches rest

/-- The end of the storage's `delete`, from the keys that it has found. -/
def deleteKeys (keys : List Str) : VaultM Unit :=
  let uniqueKeys := dictFromKeys keys
  if uniqueKeys = [] then raise .fileNotFound
  else deleteBatches (S3.S3StorageAdapter.batches uniqueKeys)

/-- The storage's `delete` of the whole section. -/
def deleteSection : VaultM Unit := do
  let present ← issue VaultCmd.headSection
  let listed ← issue VaultCmd.listSection
  deleteKeys ((if present then [[]] else []) ++ listed)

/-- The `except` of `reset_storage`. -/
def alreadyEmpty : Exc → VaultM Unit
  | .fileNotFound => pure ()
  | e => raise e

/-- The wipe of `reset_storage`. -/
def deleteTree : VaultM Unit :=
  (do
    if ← issue VaultCmd.sectionExists then deleteSection
    else pure ()).catchWith alreadyEmpty

/-- `reset_storage`, as far as it concerns the storage and the sessions. -/
def resetStorage (session : SessionId) : VaultM Unit := do
  issue (VaultCmd.deletePrivateKey session)
  deleteTree

/-- The move of a written file to its final name. -/
def moveObject (tmp final : Str) : VaultM Unit := do
  issue (VaultCmd.copyObject tmp final)
  issue (VaultCmd.deleteObject tmp)

/-- A request that writes a private file: `get_file_service`, then the write under a name in
`.tmp` and the move to the final one. -/
def writeFile (session : SessionId) (tmp final : Str) : VaultM Unit := do
  match ← issue (VaultCmd.getPrivateKey session) with
  | none => raise .accessDenied
  | some key => do
    issue (VaultCmd.storeObject tmp key)
    moveObject tmp final

/-- The keys of the user's sessions, and the key that seals each stored object. -/
structure Vault where
  keys : SessionId → Option Key
  sealing : Str → Option Key

def Vault.marker (v : Vault) : Option Key := v.sealing markerFilename

def Vault.setKey (v : Vault) (session : SessionId) (key : Option Key) : Vault :=
  { v with keys := fun s => if s = session then key else v.keys s }

def Vault.store (v : Vault) (name : Str) (key : Key) : Vault :=
  { v with sealing := fun n => if n = name then some key else v.sealing n }

def Vault.without (v : Vault) (taken : List Str) : Vault :=
  { v with sealing := fun n => if n ∈ taken then none else v.sealing n }

theorem marker_store {v : Vault} {key : Key} : (v.store markerFilename key).marker = some key := by
  simp [Vault.marker, Vault.store]

/-- An unlock with the key finds a marker that the key does not open. -/
def Vault.Rejects (v : Vault) (key : Key) : Prop :=
  ∃ other, v.marker = some other ∧ other ≠ key

/-- What a call does when it goes through. The pages of a listing come one after the other while
others write, so it may name anything; and `delete_objects` goes through although it tells in its
answer, at which the code does not look, that some of the objects are still there. -/
inductive Does : (c : VaultCmd) → Vault → c.Resp → Vault → Prop
  | markerExists (v : Vault) : Does .markerExists v v.marker.isSome v
  | readMarker {v : Vault} {key : Key} : v.marker = some key → Does .readMarker v key v
  | writeMarker (v : Vault) (key : Key) :
      Does (.writeMarker key) v () (v.store markerFilename key)
  | setPrivateKey (v : Vault) (session : SessionId) (key : Key) :
      Does (.setPrivateKey session key) v () (v.setKey session (some key))
  | getPrivateKey (v : Vault) (session : SessionId) :
      Does (.getPrivateKey session) v (v.keys session) v
  | deletePrivateKey (v : Vault) (session : SessionId) :
      Does (.deletePrivateKey session) v () (v.setKey session none)
  | sectionExists {v : Vault} {found : Bool} :
      (found = false → ∀ name, v.sealing name = none) → Does .sectionExists v found v
  | headSection (v : Vault) (found : Bool) : Does .headSection v found v
  | listSection (v : Vault) (listed : List Str) : Does .listSection v listed v
  | deleteObjects (v : Vault) {batch taken : List Str} : taken ⊆ batch →
      Does (.deleteObjects batch) v () (v.without taken)
  | storeObject (v : Vault) (name : Str) (key : Key) :
      Does (.storeObject name key) v () (v.store name key)
  | copyObject {v : Vault} {source : Str} (target : Str) {key : Key} :
      v.sealing source = some key → Does (.copyObject source target) v () (v.store target key)
  | deleteObject (v : Vault) (name : Str) : Does (.deleteObject name) v () (v.without [name])

/-- A call goes through, fails, or goes through although its answer is lost. -/
inductive Serve : Handler VaultCmd.Resp Exc Vault
  | ok {c v a t} : Does c v a t → Serve c v (.ok a) t
  | failed (c : VaultCmd) (v : Vault) (e : Exc) : Serve c v (.error e) v
  | lost {c v a t} (e : Exc) : Does c v a t → Serve c v (.error e) t

/-- The time to live of a session's key is over, or a private file is deleted. -/
inductive Outside (v : Vault) : Vault → Prop
  | expired (session : SessionId) : Outside v (v.setKey session none)
  | deleted {name : Str} : name ≠ markerFilename → Outside v (v.without [name])

/-- `unlock` within a request: its answer goes to the caller. -/
def answered (p : VaultM Bool) : VaultM Unit := p.bind fun _ => done (.ok ())

/-- The names of a file, in `.tmp` or sealed, are never the marker's. -/
inductive Request : VaultM Unit → Prop
  | unlock (session : SessionId) (key : Key) : Request (answered (unlock session key))
  | lock (session : SessionId) : Request (lock session)
  | reset (session : SessionId) : Request (resetStorage session)
  | write (session : SessionId) {tmp final : Str} : tmp ≠ markerFilename →
      final ≠ markerFilename → Request (writeFile session tmp final)

abbrev Requests := Pool VaultCmd.Resp Exc Vault Unit

abbrev Step : Requests → Turn → Requests → Prop := Pool.Step Serve Outside Request

/-- The request has a key that it is about to hand to the session or to use. -/
def Holds (p : VaultM Unit) (key : Key) : Prop :=
  (∃ session, p.next = some (.setPrivateKey session key)) ∨
    ∃ name, p.next = some (.storeObject name key)

/-- A deletion that takes in the marker meets no key, neither in a session nor in a request; and an
unlock that finds no marker meets nothing of another key, neither an unlock that is about to write
a marker nor a file that a reset has left. -/
def Orderly (s : Requests) : Turn → Prop
  | .advance i =>
    (∀ p batch, s.running[i]? = some p → p.next = some (.deleteObjects batch) →
      markerFilename ∈ batch → (∀ session, s.shared.keys session = none) ∧
        ∀ q ∈ s.running, ∀ key, ¬ Holds q key) ∧
    ∀ session key, s.running[i]? = some (answered (unlock session key)) → s.shared.marker = none →
      (∀ q ∈ s.running, ∀ other, q.next = some (.writeMarker other) → other = key) ∧
        ∀ name other, s.shared.sealing name = some other → other = key
  | _ => True

/-- No keys, nothing stored, no requests. -/
def fresh : Requests := ⟨⟨fun _ => none, fun _ => none⟩, []⟩

/-! ### What a request can do -/

/-- The rest of an unlock after the answer of the validation. -/
def decided (session : SessionId) (key : Key) (valid : Bool) : VaultM Bool :=
  if valid then storeKey session key else done (.ok false)

def validating (session : SessionId) (key : Key) : VaultM Unit :=
  answered ((validateMarker key).bind (decided session key))

def reading (session : SessionId) (key : Key) : VaultM Unit :=
  answered ((decryptMarker key).bind (decided session key))

def founding (session : SessionId) (key : Key) : VaultM Unit :=
  answered ((issue (VaultCmd.writeMarker key)).bind fun _ => storeKey session key)

/-- The rest of the wipe, from some call of the storage's `delete` on. -/
def wiping (p : VaultM Unit) : VaultM Unit := p.catchWith alreadyEmpty

/-- The rest of the storage's `delete` after the look at the section's own entry. -/
def listing (present : Bool) : VaultM Unit :=
  (issue VaultCmd.listSection).bind fun listed =>
    deleteKeys ((if present then [[]] else []) ++ listed)

def storing (tmp final : Str) (key : Key) : VaultM Unit :=
  (issue (VaultCmd.storeObject tmp key)).bind fun _ => moveObject tmp final

/-- How far a request has come. -/
inductive Stage : VaultM Unit → Prop
  | unlock (session : SessionId) (key : Key) : Stage (answered (unlock session key))
  | validating (session : SessionId) (key : Key) : Stage (validating session key)
  | reading (session : SessionId) (key : Key) : Stage (reading session key)
  | founding (session : SessionId) (key : Key) : Stage (founding session key)
  | storeKey (session : SessionId) (key : Key) : Stage (answered (storeKey session key))
  | lock (session : SessionId) : Stage (lock session)
  | reset (session : SessionId) : Stage (resetStorage session)
  | clearing : Stage deleteTree
  | heading : Stage (wiping deleteSection)
  | listing (present : Bool) : Stage (wiping (listing present))
  | wiping (batches : List (List Str)) : Stage (wiping (deleteBatches batches))
  | write (session : SessionId) {tmp final : Str} : tmp ≠ markerFilename →
      final ≠ markerFilename → Stage (writeFile session tmp final)
  | storing {tmp final : Str} (key : Key) : tmp ≠ markerFilename → final ≠ markerFilename →
      Stage (storing tmp final key)
  | moving {tmp final : Str} : tmp ≠ markerFilename → final ≠ markerFilename →
      Stage (moveObject tmp final)
  | removing {tmp : Str} : tmp ≠ markerFilename → Stage (issue (VaultCmd.deleteObject tmp))
  | ended (r : Except Exc Unit) : Stage (done r)

theorem Request.stage {p : VaultM Unit} (h : Request p) : Stage p := by
  cases h with
  | unlock session key => exact Stage.unlock session key
  | lock session => exact Stage.lock session
  | reset session => exact Stage.reset session
  | write session htmp hfinal => exact Stage.write session htmp hfinal

/-- What must hold of the vault for the request to go on. -/
structure Sound (v : Vault) (p : VaultM Unit) : Prop where
  holds : ∀ key, Holds p key → v.marker = some key
  founds : ∀ key, p.next = some (.writeMarker key) →
    ∀ name other, v.sealing name = some other → other = key

/-- What is known of the rest of a request after a step from `v` to `t`. -/
structure Follows (v t : Vault) (p q : VaultM Unit) : Prop where
  stage : Stage q
  holds : ∀ key, Holds q key → t.marker = some key
  founds : ∀ key, q.next = some (.writeMarker key) →
    v.marker = none ∧ t = v ∧ ∃ session, p = answered (unlock session key)

section
variable {v t : Vault} {p q : VaultM Unit}

/-- A request that waits for nothing that concerns the marker. -/
theorem follows_quiet {c : Option VaultCmd} (hq : Stage q) (hnext : q.next = c)
    (hkey : ∀ session key, c ≠ some (.setPrivateKey session key))
    (hobject : ∀ name key, c ≠ some (.storeObject name key))
    (hmarker : ∀ key, c ≠ some (.writeMarker key)) : Follows v t p q := by
  subst hnext
  refine ⟨hq, fun key h => ?_, fun key h => absurd h (hmarker key)⟩
  rcases h with ⟨session, h⟩ | ⟨name, h⟩
  · exact absurd h (hkey session key)
  · exact absurd h (hobject name key)

theorem follows_ended (r : Except Exc Unit) : Follows v t p (done r) :=
  follows_quiet (Stage.ended r) rfl nofun nofun nofun

/-- A request that goes on with the key of the marker. -/
theorem follows_holding {key : Key} (hq : Stage q) (hmarker : t.marker = some key)
    (hholds : ∀ other, Holds q other → other = key)
    (hfounds : ∀ other, q.next ≠ some (.writeMarker other)) : Follows v t p q where
  stage := hq
  holds other h := by
    rw [hholds other h]
    exact hmarker
  founds other h := absurd h (hfounds other)

theorem holds_storeKey {session : SessionId} {key other : Key}
    (h : Holds (answered (storeKey session key)) other) : other = key := by
  rcases h with ⟨session', h⟩ | ⟨name, h⟩
  · cases h
    rfl
  · cases h

theorem holds_storing {tmp final : Str} {key other : Key}
    (h : Holds (storing tmp final key) other) : other = key := by
  rcases h with ⟨session', h⟩ | ⟨name, h⟩
  · cases h
  · cases h
    rfl

/-- The end of an unlock once the marker was compared with its key. -/
theorem follows_decided (session : SessionId) {key : Key} (valid : Bool)
    (hvalid : valid = true → t.marker = some key) :
    Follows v t p (answered (decided session key valid)) := by
  cases valid with
  | false => exact follows_ended _
  | true =>
    exact follows_holding (Stage.storeKey session key) (hvalid rfl) (fun _ => holds_storeKey) nofun

theorem follows_alreadyEmpty (e : Exc) : Follows v t p (alreadyEmpty e) := by
  unfold alreadyEmpty
  split <;> exact follows_ended _

theorem follows_wiping (batches : List (List Str)) :
    Follows v t p (wiping (deleteBatches batches)) := by
  cases batches with
  | nil => exact follows_ended _
  | cons batch rest => exact follows_quiet (Stage.wiping (batch :: rest)) rfl nofun nofun nofun

theorem follows_deleteKeys (keys : List Str) : Follows v t p (wiping (deleteKeys keys)) := by
  simp only [deleteKeys]
  split
  · exact follows_ended _
  · exact follows_wiping _

/-- Where each step of a request leads. -/
theorem follows_of_serve {c : VaultCmd} {k : Except Exc c.Resp → VaultM Unit}
    {x : Except Exc c.Resp} (hkeys : ∀ session key, v.keys session = some key →
      v.marker = some key) (hstage : Stage (call c k)) (hserve : Serve c v x t) :
    Follows v t (call c k) (k x) := by
  -- the stage tells which call is due
  generalize hp : call c k = p at hstage ⊢
  cases hstage with
  | unlock session key =>
    have hp' : call c k = call VaultCmd.markerExists _ := hp
    cases hp'
    cases hserve with
    | failed _ _ e => exact follows_ended _
    | lost e h => exact follows_ended _
    | ok h =>
      cases h
      rcases hmarker : v.marker with _ | opened
      · have hq : Follows v v (answered (unlock session key)) (founding session key) := by
          refine ⟨Stage.founding session key, fun other h => ?_, fun other h => ?_⟩
          · rcases h with ⟨session', h⟩ | ⟨name, h⟩ <;> cases h
          · cases h
            exact ⟨hmarker, rfl, session, rfl⟩
        exact hq
      · exact follows_quiet (Stage.validating session key) rfl nofun nofun nofun
  | validating session key =>
    have hp' : call c k = call VaultCmd.markerExists _ := hp
    cases hp'
    cases hserve with
    | failed _ _ e => exact follows_ended _
    | lost e h => exact follows_ended _
    | ok h =>
      cases h
      rcases hmarker : v.marker with _ | opened
      · exact follows_decided session false (t := v) nofun
      · exact follows_quiet (Stage.reading session key) rfl nofun nofun nofun
  | reading session key =>
    have hp' : call c k = call VaultCmd.readMarker _ := hp
    cases hp'
    cases hserve with
    | failed _ _ e => exact follows_decided session false nofun
    | lost e h => exact follows_decided session false nofun
    | @ok _ _ opened _ h =>
      cases h with
      | readMarker hmarker =>
        refine follows_decided session (decide (opened = key)) fun hvalid => ?_
        rw [hmarker, of_decide_eq_true hvalid]
  | founding session key =>
    have hp' : call c k = call (VaultCmd.writeMarker key) _ := hp
    cases hp'
    cases hserve with
    | failed _ _ e => exact follows_ended _
    | lost e h => exact follows_ended _
    | ok h =>
      cases h
      exact follows_decided session true fun _ => marker_store
  | storeKey session key =>
    have hp' : call c k = call (VaultCmd.setPrivateKey session key) _ := hp
    cases hp'
    cases hserve <;> exact follows_ended _
  | lock session =>
    have hp' : call c k = call (VaultCmd.deletePrivateKey session) _ := hp
    cases hp'
    cases hserve <;> exact follows_ended _
  | reset session =>
    have hp' : call c k = call (VaultCmd.deletePrivateKey session) _ := hp
    cases hp'
    cases hserve with
    | failed _ _ e => exact follows_ended _
    | lost e h => exact follows_ended _
    | ok h => exact follows_quiet Stage.clearing rfl nofun nofun nofun
  | clearing =>
    have hp' : call c k = call VaultCmd.sectionExists _ := hp
    cases hp'
    cases hserve with
    | failed _ _ e => exact follows_alreadyEmpty e
    | lost e h => exact follows_alreadyEmpty e
    | @ok _ _ found _ h =>
      cases found with
      | false => exact follows_ended _
      | true => exact follows_quiet Stage.heading rfl nofun nofun nofun
  | heading =>
    have hp' : call c k = call VaultCmd.headSection _ := hp
    cases hp'
    cases hserve with
    | failed _ _ e => exact follows_alreadyEmpty e
    | lost e h => exact follows_alreadyEmpty e
    | @ok _ _ present _ h =>
      exact follows_quiet (Stage.listing present) rfl nofun nofun nofun
  | listing present =>
    have hp' : call c k = call VaultCmd.listSection _ := hp
    cases hp'
    cases hserve with
    | failed _ _ e => exact follows_alreadyEmpty e
    | lost e h => exact follows_alreadyEmpty e
    | @ok _ _ listed _ h =>
      exact follows_deleteKeys ((if present then [[]] else []) ++ listed)
  | wiping batches =>
    cases batches with
    | nil => cases hp
    | cons batch rest =>
      have hp' : call c k = call (VaultCmd.deleteObjects batch) _ := hp
      cases hp'
      cases hserve with
      | failed _ _ e => exact follows_alreadyEmpty e
      | lost e h => exact follows_alreadyEmpty e
      | ok h => exact follows_wiping rest
  | @write session tmp final htmp hfinal =>
    have hp' : call c k = call (VaultCmd.getPrivateKey session) _ := hp
    cases hp'
    cases hserve with
    | failed _ _ e => exact follows_ended _
    | lost e h => exact follows_ended _
    | ok h =>
      cases h
      rcases hkey : v.keys session with _ | key
      · exact follows_ended _
      · exact follows_holding (Stage.storing key htmp hfinal) (hkeys session key hkey)
          (fun _ => holds_storing) nofun
  | @storing tmp final key htmp hfinal =>
    have hp' : call c k = call (VaultCmd.storeObject tmp key) _ := hp
    cases hp'
    cases hserve with
    | failed _ _ e => exact follows_ended _
    | lost e h => exact follows_ended _
    | ok h => exact follows_quiet (Stage.moving htmp hfinal) rfl nofun nofun nofun
  | @moving tmp final htmp hfinal =>
    have hp' : call c k = call (VaultCmd.copyObject tmp final) _ := hp
    cases hp'
    cases hserve with
    | failed _ _ e => exact follows_ended _
    | lost e h => exact follows_ended _
    | ok h => exact follows_quiet (Stage.removing htmp) rfl nofun nofun nofun
  | @removing tmp htmp =>
    have hp' : call c k = call (VaultCmd.deleteObject tmp) _ := hp
    cases hp'
    cases hserve <;> exact follows_ended _
  | ended r => cases hp

/-- The calls that write under a name, or delete one object, leave the marker alone. -/
structure Spares (c : VaultCmd) : Prop where
  stores : ∀ name key, c = .storeObject name key → name ≠ markerFilename
  copies : ∀ source target, c = .copyObject source target → target ≠ markerFilename
  deletes : ∀ name, c = .deleteObject name → name ≠ markerFilename

theorem Stage.spares {c : VaultCmd} (h : Stage p) (hnext : p.next = some c) : Spares c := by
  cases h with
  | wiping batches =>
    cases batches with
    | nil => cases hnext
    | cons batch rest =>
      cases hnext
      exact ⟨nofun, nofun, nofun⟩
  | storing key htmp hfinal =>
    cases hnext
    refine ⟨fun name key h => ?_, nofun, nofun⟩
    cases h
    exact htmp
  | moving htmp hfinal =>
    cases hnext
    refine ⟨nofun, fun source target h => ?_, nofun⟩
    cases h
    exact hfinal
  | removing htmp =>
    cases hnext
    refine ⟨nofun, nofun, fun name h => ?_⟩
    cases h
    exact htmp
  | _ =>
    cases hnext
    try exact ⟨nofun, nofun, nofun⟩

end

/-! ### The keys fit the marker -/

structure Consistent (s : Requests) : Prop where
  stages : ∀ p ∈ s.running, Stage p
  keys : ∀ session key, s.shared.keys session = some key → s.shared.marker = some key
  objects : ∀ name key, s.shared.sealing name = some key → ¬ s.shared.Rejects key
  sound : ∀ p ∈ s.running, Sound s.shared p
  one : ∀ p ∈ s.running, ∀ q ∈ s.running, ∀ key other, p.next = some (.writeMarker key) →
    q.next = some (.writeMarker other) → other = key

/-- The part of the invariant that the others rely on. -/
structure Fits (v : Vault) (running : List (VaultM Unit)) : Prop where
  keys : ∀ session key, v.keys session = some key → v.marker = some key
  objects : ∀ name key, v.sealing name = some key → ¬ v.Rejects key
  sound : ∀ p ∈ running, Sound v p

section
variable {s : Requests} {v : Vault} {running : List (VaultM Unit)} {t : Vault} {p : VaultM Unit}
  {i : Nat}

theorem Consistent.fits (h : Consistent s) : Fits s.shared s.running := ⟨h.keys, h.objects, h.sound⟩

/-- A session loses its key, or gets the marker's. -/
theorem fits_setKey {session : SessionId} {key : Option Key} (h : Fits v running)
    (hkey : ∀ k, key = some k → v.marker = some k) : Fits (v.setKey session key) running where
  keys session' k hk := by
    simp only [Vault.setKey] at hk
    split at hk
    · exact hkey k hk
    · exact h.keys session' k hk
  objects := h.objects
  sound p hp := ⟨(h.sound p hp).holds, (h.sound p hp).founds⟩

/-- An object is stored under the key of the marker, or under that of another object. -/
theorem fits_store {name : Str} {key : Key} (h : Fits v running) (hname : name ≠ markerFilename)
    (hkey : v.marker = some key ∨ ∃ source, v.sealing source = some key) :
    Fits (v.store name key) running := by
  have hmarker : (v.store name key).marker = v.marker := if_neg (Ne.symm hname)
  have hsealed : ∃ source, v.sealing source = some key := hkey.elim (fun h => ⟨_, h⟩) id
  have hstored : ∀ n k, (v.store name key).sealing n = some k →
      ∃ source, v.sealing source = some k := by
    intro n k hk
    simp only [Vault.store] at hk
    split at hk
    · rw [← Option.some.inj hk]
      exact hsealed
    · exact ⟨n, hk⟩
  refine ⟨fun session k hk => hmarker.trans (h.keys session k hk), fun n k hk => ?_,
    fun p hp => ⟨fun k hk => hmarker.trans ((h.sound p hp).holds k hk), fun k hk n other ho => ?_⟩⟩
  · obtain ⟨source, hsource⟩ := hstored n k hk
    have hopen := h.objects source k hsource
    rintro ⟨other, hother, hne⟩
    exact hopen ⟨other, hmarker.symm.trans hother, hne⟩
  · obtain ⟨source, hsource⟩ := hstored n other ho
    exact (h.sound p hp).founds k hk source other hsource

/-- Objects go. That of the marker goes only where no key is held. -/
theorem fits_without {taken : List Str} (h : Fits v running) (hmarker : markerFilename ∈ taken →
      (∀ session, v.keys session = none) ∧ ∀ q ∈ running, ∀ key, ¬ Holds q key) :
    Fits (v.without taken) running := by
  have hleft : ∀ n k, (v.without taken).sealing n = some k → v.sealing n = some k := by
    intro n k hk
    simp only [Vault.without] at hk
    split at hk
    · cases hk
    · exact hk
  refine ⟨fun session k hk => ?_, fun n k hk => ?_, fun p hp => ⟨fun k hk => ?_,
    fun k hk n other ho => (h.sound p hp).founds k hk n other (hleft n other ho)⟩⟩
  · have hspared : markerFilename ∉ taken := by
      intro htaken
      have hnone := ((hmarker htaken).1 session).symm.trans hk
      cases hnone
    exact (if_neg hspared).trans (h.keys session k hk)
  · rintro ⟨other, hother, hne⟩
    exact h.objects n k (hleft n k hk) ⟨other, hleft _ _ hother, hne⟩
  · have hspared : markerFilename ∉ taken := fun htaken => (hmarker htaken).2 p hp k hk
    exact (if_neg hspared).trans ((h.sound p hp).holds k hk)

/-- The marker is written under a key that seals all that is stored. -/
theorem fits_writeMarker {key : Key} (h : Fits v running)
    (hall : ∀ name other, v.sealing name = some other → other = key)
    (hone : ∀ q ∈ running, ∀ other, q.next = some (.writeMarker other) → other = key) :
    Fits (v.store markerFilename key) running := by
  have hstored : ∀ n k, (v.store markerFilename key).sealing n = some k → k = key := by
    intro n k hk
    simp only [Vault.store] at hk
    split at hk
    · exact (Option.some.inj hk).symm
    · exact hall n k hk
  have hmarker : ∀ k, v.marker = some k → (v.store markerFilename key).marker = some k := by
    intro k hk
    rw [hall _ k hk]
    exact marker_store
  refine ⟨fun session k hk => hmarker k (h.keys session k hk), fun n k hk => ?_,
    fun p hp => ⟨fun k hk => hmarker k ((h.sound p hp).holds k hk), fun k hk n other ho => ?_⟩⟩
  · rintro ⟨other, hother, hne⟩
    exact hne ((hstored _ other hother).trans (hstored n k hk).symm)
  · rw [hone p hp k hk]
    exact hstored n other ho

/-- What a call leaves for the sessions and the other requests. -/
theorem fits_of_does {c : VaultCmd} {a : c.Resp} (h : Consistent s)
    (hp : p ∈ s.running) (hnext : p.next = some c) (hdoes : Does c s.shared a t)
    (hwipe : ∀ batch, c = .deleteObjects batch → markerFilename ∈ batch →
      (∀ session, s.shared.keys session = none) ∧ ∀ q ∈ s.running, ∀ key, ¬ Holds q key) :
    Fits t s.running := by
  have hsound := h.sound p hp
  have hspares := (h.stages p hp).spares hnext
  cases hdoes with
  | writeMarker _ key =>
    exact fits_writeMarker h.fits (hsound.founds key hnext)
      fun q hq other ho => h.one p hp q hq key other hnext ho
  | setPrivateKey _ session key =>
    have hmarker := hsound.holds key (.inl ⟨session, hnext⟩)
    refine fits_setKey h.fits fun k hk => ?_
    rw [← Option.some.inj hk]
    exact hmarker
  | deletePrivateKey _ session => exact fits_setKey h.fits nofun
  | @deleteObjects _ batch taken htaken =>
    exact fits_without h.fits fun hmarker => hwipe batch rfl (htaken hmarker)
  | storeObject _ name key =>
    have hmarker := hsound.holds key (.inr ⟨name, hnext⟩)
    exact fits_store h.fits (hspares.stores name key rfl) (.inl hmarker)
  | @copyObject _ source target key hsource =>
    exact fits_store h.fits (hspares.copies source target rfl) (.inr ⟨source, hsource⟩)
  | deleteObject _ name =>
    refine fits_without h.fits fun hmarker => ?_
    exact absurd (List.mem_singleton.1 hmarker).symm (hspares.deletes name rfl)
  | _ => exact h.fits

theorem consistent_step {u : Requests} {e : Turn} (h : Consistent s) (horderly : Orderly s e)
    (hstep : Step s e u) : Consistent u := by
  cases hstep with
  | @start p hp =>
    have hquiet : Follows s.shared s.shared p p := by
      cases hp with
      | unlock session key => exact follows_quiet (Stage.unlock _ _) rfl nofun nofun nofun
      | lock session => exact follows_quiet (Stage.lock _) rfl nofun nofun nofun
      | reset session => exact follows_quiet (Stage.reset _) rfl nofun nofun nofun
      | write session htmp hfinal =>
        exact follows_quiet (Stage.write _ htmp hfinal) rfl nofun nofun nofun
    have hnever : ∀ key, p.next ≠ some (.writeMarker key) := by
      cases hp <;> exact nofun
    have hsound : Sound s.shared p := ⟨hquiet.holds, fun key hkey => absurd hkey (hnever key)⟩
    refine ⟨forall_start h.stages hp.stage, h.keys, h.objects,
      forall_start h.sound hsound, fun a ha b hb key other hka hkb => ?_⟩
    rcases List.mem_append.1 ha with ha | ha
    · rcases List.mem_append.1 hb with hb | hb
      · exact h.one a ha b hb key other hka hkb
      · rw [List.mem_singleton.1 hb] at hkb
        exact absurd hkb (hnever other)
    · rw [List.mem_singleton.1 ha] at hka
      exact absurd hka (hnever key)
  | @advance i c k x t hi hserve =>
    have hmem := List.mem_of_getElem? hi
    obtain ⟨hwipe, hfound⟩ := horderly
    have hfits : Fits t s.running := by
      have hwipe' : ∀ batch, c = .deleteObjects batch → markerFilename ∈ batch →
          (∀ session, s.shared.keys session = none) ∧
            ∀ q ∈ s.running, ∀ key, ¬ Holds q key :=
        fun batch hc => hwipe _ batch hi (congrArg some hc)
      cases hserve with
      | failed => exact h.fits
      | ok hdoes => exact fits_of_does h hmem rfl hdoes hwipe'
      | lost _ hdoes => exact fits_of_does h hmem rfl hdoes hwipe'
    have hfollows := follows_of_serve h.keys (h.stages _ hmem) hserve
    -- an unlock that found no marker meets only its own key
    have hmeets : ∀ key, (k x).next = some (.writeMarker key) →
        (∀ q ∈ s.running, ∀ other, q.next = some (.writeMarker other) → other = key) ∧
          ∀ name other, t.sealing name = some other → other = key := by
      intro key hkey
      obtain ⟨hnone, hsame, session, hunlock⟩ := hfollows.founds key hkey
      rw [hsame]
      exact hfound session key (hunlock ▸ hi) hnone
    have hsound : Sound t (k x) := ⟨hfollows.holds, fun key hkey => (hmeets key hkey).2⟩
    refine ⟨forall_set h.stages hfollows.stage, hfits.keys, hfits.objects,
      forall_set hfits.sound hsound, fun a ha b hb key other hka hkb => ?_⟩
    rcases List.mem_or_eq_of_mem_set ha with ha | rfl
    · rcases List.mem_or_eq_of_mem_set hb with hb | rfl
      · exact h.one a ha b hb key other hka hkb
      · exact ((hmeets other hkb).1 a ha key hka).symm
    · rcases List.mem_or_eq_of_mem_set hb with hb | rfl
      · exact (hmeets key hka).1 b hb other hkb
      · have hboth := hka.symm.trans hkb
        cases hboth
        rfl
  | @die i e =>
    have hended : Sound s.shared (raise e : VaultM Unit) := by
      refine ⟨fun key hkey => ?_, nofun⟩
      rcases hkey with ⟨session, hkey⟩ | ⟨name, hkey⟩ <;> cases hkey
    refine ⟨forall_set h.stages (Stage.ended (.error e)), h.keys, h.objects,
      forall_set h.sound hended, fun a ha b hb key other hka hkb => ?_⟩
    rcases List.mem_or_eq_of_mem_set ha with ha | rfl
    · rcases List.mem_or_eq_of_mem_set hb with hb | rfl
      · exact h.one a ha b hb key other hka hkb
      · cases hkb
    · cases hka
  | @outside t houtside =>
    have hfits : Fits t s.running := by
      cases houtside with
      | expired session => exact fits_setKey h.fits nofun
      | @deleted name hname =>
        refine fits_without h.fits fun hmarker => ?_
        exact absurd (List.mem_singleton.1 hmarker).symm hname
    exact ⟨h.stages, hfits.keys, hfits.objects, hfits.sound, h.one⟩

/-- In every orderly run the key of every session is the marker's, and so is every key that a
request is about to write a file with; and an unlock rejects the key of no stored file. -/
theorem keys_fit_marker (hrun : Steps Step Orderly fresh s) :
    (∀ session key, s.shared.keys session = some key → s.shared.marker = some key) ∧
      (∀ p ∈ s.running, ∀ key, Holds p key → s.shared.marker = some key) ∧
        ∀ name key, s.shared.sealing name = some key → ¬ s.shared.Rejects key := by
  have hstart : Consistent fresh :=
    ⟨fun _ hp => absurd hp List.not_mem_nil, fun _ _ hk => (by cases hk),
      fun _ _ hk => (by cases hk), fun _ hp => absurd hp List.not_mem_nil,
      fun _ hp => absurd hp List.not_mem_nil⟩
  have hconsistent := hrun.invariant hstart fun _ _ _ h hok hstep => consistent_step h hok hstep
  exact ⟨hconsistent.keys, fun p hp => (hconsistent.sound p hp).holds, hconsistent.objects⟩

end

/-! ### A reset from another session -/

def Unrestricted (_ : Requests) (_ : Turn) : Prop := True

/-- Requests may arrive, and any step may be taken but a deletion and the first look of an unlock
that finds no marker. -/
structure Admits (ok : Requests → Turn → Prop) : Prop where
  start : ∀ s, ok s .start
  calm : ∀ s i p, s.running[i]? = some p → (∀ batch, p.next ≠ some (.deleteObjects batch)) →
    (p.next = some .markerExists → s.shared.marker ≠ none) → ok s (.advance i)

theorem admits_unrestricted : Admits Unrestricted := ⟨fun _ => trivial, fun _ _ _ _ _ _ => trivial⟩

theorem admits_orderly : Admits Orderly where
  start _ := trivial
  calm s i p hi hbatch hlook := by
    refine ⟨fun q batch hq hnext => ?_, fun session key hq hnone => ?_⟩
    · rw [hi] at hq
      exact absurd ((Option.some.inj hq) ▸ hnext) (hbatch batch)
    · rw [hi] at hq
      have hnext : p.next = some .markerExists := by
        rw [Option.some.inj hq]
        rfl
      exact absurd hnone (hlook hnext)

section
variable {ok : Requests → Turn → Prop} {v t : Vault} {running : List (VaultM Unit)}
  {c : VaultCmd} {k : Except Exc c.Resp → VaultM Unit} {a : c.Resp}

theorem steps_arrive {p : VaultM Unit} (h : Steps Step ok fresh ⟨v, running⟩) (hok : Admits ok)
    (hp : Request p) : Steps Step ok fresh ⟨v, running ++ [p]⟩ :=
  Steps.tail h (hok.start _) (Pool.Step.start hp)

/-- The request that came last makes a step. -/
theorem steps_last (h : Steps Step ok fresh ⟨v, running ++ [call c k]⟩)
    (hok : ok ⟨v, running ++ [call c k]⟩ (.advance running.length)) (hdoes : Does c v a t) :
    Steps Step ok fresh ⟨t, running ++ [k (.ok a)]⟩ := by
  have hi : (running ++ [call c k])[running.length]? = some (call c k) :=
    List.getElem?_concat_length
  have hstep := Steps.tail h hok (Pool.Step.advance hi (Serve.ok hdoes))
  simpa using hstep

theorem steps_calm (h : Steps Step ok fresh ⟨v, running ++ [call c k]⟩) (hok : Admits ok)
    (hbatch : ∀ batch, c ≠ .deleteObjects batch) (hlook : c = .markerExists → v.marker ≠ none)
    (hdoes : Does c v a t) : Steps Step ok fresh ⟨t, running ++ [k (.ok a)]⟩ := by
  refine steps_last h (hok.calm _ _ (call c k) List.getElem?_concat_length ?_ ?_) hdoes
  · exact fun batch hnext => hbatch batch (Option.some.inj hnext)
  · exact fun hnext => hlook (Option.some.inj hnext)

/-- An unlock that finds no marker, from its first call to its end. -/
theorem steps_found (session : SessionId) (key : Key) (h : Steps Step ok fresh ⟨v, running⟩)
    (hok : Admits ok) (hnone : v.marker = none)
    (hfirst : ok ⟨v, running ++ [answered (unlock session key)]⟩ (.advance running.length)) :
    Steps Step ok fresh ⟨(v.store markerFilename key).setKey session (some key),
      running ++ [done (.ok ())]⟩ := by
  have hstart := steps_arrive h hok (Request.unlock session key)
  have hlooks : Does .markerExists v false v := by
    have hdoes := Does.markerExists v
    rwa [hnone] at hdoes
  have hlooked := steps_last hstart hfirst hlooks
  have hwritten := steps_calm hlooked hok nofun nofun (Does.writeMarker v key)
  exact steps_calm hwritten hok nofun nofun (Does.setPrivateKey _ session key)

theorem steps_write {key : Key} (session : SessionId) (tmp final : Str)
    (h : Steps Step ok fresh ⟨v, running⟩) (hok : Admits ok) (hkey : v.keys session = some key)
    (htmp : tmp ≠ markerFilename) (hfinal : final ≠ markerFilename) :
    Steps Step ok fresh ⟨((v.store tmp key).store final key).without [tmp],
      running ++ [done (.ok ())]⟩ := by
  have hstart := steps_arrive h hok (Request.write session htmp hfinal)
  have hgets : Does (.getPrivateKey session) v (some key) v := by
    have hdoes := Does.getPrivateKey v session
    rwa [hkey] at hdoes
  have hfetched := steps_calm hstart hok nofun nofun hgets
  have hstored := steps_calm hfetched hok nofun nofun (Does.storeObject v tmp key)
  have hcopied := steps_calm hstored hok nofun nofun
    (Does.copyObject final (if_pos rfl : (v.store tmp key).sealing tmp = some key))
  exact steps_calm hcopied hok nofun nofun (Does.deleteObject _ tmp)

/-- A reset up to the deletion of what it has listed. -/
theorem steps_reset (session : SessionId) (h : Steps Step ok fresh ⟨v, running⟩) (hok : Admits ok)
    (listed : List Str) : Steps Step ok fresh
      ⟨v.setKey session none, running ++ [wiping (deleteKeys listed)]⟩ := by
  have hstart := steps_arrive h hok (Request.reset session)
  have hlocked := steps_calm hstart hok nofun nofun (Does.deletePrivateKey v session)
  have hexists : Does .sectionExists (v.setKey session none) true (v.setKey session none) :=
    Does.sectionExists nofun
  have hfound := steps_calm hlocked hok nofun nofun hexists
  have hheaded := steps_calm hfound hok nofun nofun (Does.headSection _ false)
  exact steps_calm hheaded hok nofun nofun (Does.listSection _ listed)

end

def laptop : SessionId := "laptop".toList
def phone : SessionId := "phone".toList
def firstKey : Key := [1]
def secondKey : Key := [2]
def tmpName : Str := ".tmp/1".toList
def sealedName : Str := "Q2f".toList

def unlocked : Vault := (fresh.shared.store markerFilename firstKey).setKey laptop (some firstKey)

/-- The laptop has stored a file and locked the vault, and the phone has come to reset it. -/
def locked : Vault :=
  ((((unlocked.store tmpName firstKey).store sealedName firstKey).without [tmpName]).setKey
    laptop none).setKey phone none

section
variable {ok : Requests → Turn → Prop}

theorem steps_unlocked (hok : Admits ok)
    (hfirst : ok ⟨fresh.shared, [answered (unlock laptop firstKey)]⟩ (.advance 0)) :
    Steps Step ok fresh ⟨unlocked, [done (.ok ())]⟩ := by
  have hstart : Steps Step ok fresh ⟨fresh.shared, []⟩ := Steps.refl
  exact steps_found laptop firstKey hstart hok rfl hfirst

/-- The reset of `locked` has deleted some of the two objects. -/
theorem steps_wiped (hok : Admits ok)
    (hfirst : ok ⟨fresh.shared, [answered (unlock laptop firstKey)]⟩ (.advance 0))
    (hwipe : ok ⟨locked, [done (.ok ()), done (.ok ()), done (.ok ()),
      wiping (deleteKeys [markerFilename, sealedName])]⟩ (.advance 3))
    (taken : List Str) (htaken : taken ⊆ [markerFilename, sealedName]) :
    Steps Step ok fresh ⟨locked.without taken,
      [done (.ok ()), done (.ok ()), done (.ok ()), done (.ok ())]⟩ := by
  have hwritten := steps_write laptop tmpName sealedName
    (steps_unlocked hok hfirst) hok rfl (by decide) (by decide)
  have hlock := steps_arrive hwritten hok (Request.lock laptop)
  have hlocked := steps_calm hlock hok nofun nofun (Does.deletePrivateKey _ laptop)
  have hreset := steps_reset phone hlocked hok [markerFilename, sealedName]
  exact steps_last hreset hwipe (Does.deleteObjects locked htaken)

end

/-- The laptop keeps the key of the vault that the phone has reset. And where a reset takes the
marker but not the file, the next unlock founds a vault that rejects the key of the file. -/
theorem key_outlives_reset :
    (¬ ∀ s, Steps Step Unrestricted fresh s →
      ∀ session key, s.shared.keys session = some key → s.shared.marker = some key) ∧
    ¬ ∀ s, Steps Step Unrestricted fresh s →
      ∀ name key, s.shared.sealing name = some key → ¬ s.shared.Rejects key := by
  have hok := admits_unrestricted
  constructor
  · intro hclaim
    have hreset := steps_reset phone (steps_unlocked hok trivial) hok [markerFilename]
    have hwiped := steps_last hreset trivial (Does.deleteObjects _ (List.Subset.refl _))
    exact absurd (hclaim _ hwiped laptop firstKey rfl) nofun
  · intro hclaim
    have hwiped := steps_wiped hok trivial trivial [markerFilename] (by decide)
    have hfounded := steps_found phone secondKey hwiped hok rfl trivial
    exact hclaim _ hfounded sealedName firstKey rfl ⟨secondKey, rfl, by decide⟩

/-- The first look of an unlock that finds the section empty, when every other request is over. -/
theorem orderly_first {v : Vault} {running : List (VaultM Unit)} {session : SessionId} {key : Key}
    (hempty : ∀ name, v.sealing name = none) (hover : ∀ q ∈ running, q.next = none) :
    Orderly ⟨v, running ++ [answered (unlock session key)]⟩ (.advance running.length) := by
  have hlast : (running ++ [answered (unlock session key)])[running.length]? =
      some (answered (unlock session key)) := List.getElem?_concat_length
  refine ⟨fun p batch hp hnext => ?_, fun session' key' hp hnone => ⟨fun q hq other hnext => ?_,
    fun name other ho => ?_⟩⟩
  · rw [← Option.some.inj (hlast.symm.trans hp)] at hnext
    cases hnext
  · rcases List.mem_append.1 hq with hq | hq
    · rw [hover q hq] at hnext
      cases hnext
    · rw [List.mem_singleton.1 hq] at hnext
      cases hnext
  · rw [hempty name] at ho
    cases ho

theorem deleteKeys_sample : deleteKeys [markerFilename, sealedName] =
    deleteBatches [[markerFilename, sealedName]] := by
  have hkeys : dictFromKeys [markerFilename, sealedName] = [markerFilename, sealedName] := by decide
  have hbatches : S3.S3StorageAdapter.batches [markerFilename, sealedName] =
      [[markerFilename, sealedName]] := by decide
  simp only [deleteKeys, hkeys, hbatches]
  exact if_neg (List.cons_ne_nil _ _)

/-- Two vaults after one another: the second has a key of its own. -/
theorem keys_fit_marker_twice : ∃ s : Requests, Steps Step Orderly fresh s ∧
    s.shared.keys phone = some secondKey ∧ s.shared.marker = some secondKey := by
  have hover : ∀ n, ∀ q ∈ List.replicate n (done (.ok ()) : VaultM Unit), q.next = none := by
    intro n q hq
    rw [List.eq_of_mem_replicate hq]
    rfl
  have hfirst : Orderly ⟨fresh.shared, [answered (unlock laptop firstKey)]⟩ (.advance 0) :=
    orderly_first (fun _ => rfl) (hover 0)
  have hwipe : Orderly ⟨locked, [done (.ok ()), done (.ok ()), done (.ok ()),
      wiping (deleteKeys [markerFilename, sealedName])]⟩ (.advance 3) := by
    refine ⟨fun p batch _ _ _ => ⟨fun session => ?_, fun q hq key => ?_⟩, fun session key hp => ?_⟩
    · by_cases hphone : session = phone
      · exact if_pos hphone
      · by_cases hlaptop : session = laptop
        · exact (if_neg hphone).trans (if_pos hlaptop)
        · exact (if_neg hphone).trans ((if_neg hlaptop).trans (if_neg hlaptop))
    · have hwaits : q.next = none ∨ q.next = some (.deleteObjects [markerFilename, sealedName]) := by
        have hq' : q ∈ List.replicate 3 (done (.ok ()) : VaultM Unit) ++
          [wiping (deleteKeys [markerFilename, sealedName])] := hq
        rcases List.mem_append.1 hq' with hq | hq
        · exact .inl (hover 3 q hq)
        · rw [List.mem_singleton.1 hq, deleteKeys_sample]
          exact .inr rfl
      rintro (⟨session, hnext⟩ | ⟨name, hnext⟩) <;> simp [hnext] at hwaits
    · have hnext := congrArg Prog.next (Option.some.inj hp)
      rw [deleteKeys_sample] at hnext
      cases hnext
  have hempty : ∀ name, (locked.without [markerFilename, sealedName]).sealing name = none := by
    intro name
    by_cases hname : name ∈ [markerFilename, sealedName]
    · exact if_pos hname
    · -- of the other names only that in `.tmp` was ever written
      have hne : name ≠ markerFilename ∧ name ≠ sealedName := by simpa using hname
      by_cases htmp : name = tmpName
      · subst htmp
        decide
      · simp [locked, unlocked, fresh, Vault.without, Vault.setKey, Vault.store, hne, htmp]
  have hwiped := steps_wiped admits_orderly hfirst hwipe _ (List.Subset.refl _)
  have hfounded := steps_found phone secondKey hwiped admits_orderly rfl
    (orderly_first hempty (hover 4))
  exact ⟨_, hfounded, rfl, (keys_fit_marker hfounded).1 phone secondKey rfl⟩

end WebStorage.PrivateVault
