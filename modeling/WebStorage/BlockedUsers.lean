import WebStorage.UserAccounts
import WebStorage.Collections
import WebStorage.EffectProgram

set_option autoImplicit false

/-! What becomes of a blocked user. The flag survives until the user's next admitted request, or
until an administrator edits the user's quota: both project the user as active. -/
namespace WebStorage.Accounts
open Collections Effect

/-- The address of the principal belongs to somebody else. -/
def Conflict (rows : List UserRow) (principal : AuthPrincipal) : Prop :=
  ∃ row ∈ rows, row.id ≠ principal.id ∧ row.email = principal.email

section
variable {rows : List UserRow} {t t' : UserTable} {d d' : AccountDb} {principal : AuthPrincipal}
variable {now : Time} {user : User} {u : Uuid} {request : Request} {defaultLimit : Int}

theorem UserTable.flush_ok (h : UserTable.flush rows = .ok t) : t.rows = rows := by
  unfold UserTable.flush at h
  split at h
  · cases h
    rfl
  · cases h

theorem UserTable.get_some {model : UserRow} (h : t.get u = some model) :
    model ∈ t.rows ∧ model.id = u :=
  ⟨List.mem_of_find?_eq_some h, by simpa using List.find?_some h⟩

theorem mem_assigned_other {f : UserRow → UserRow} {row : UserRow} (hf : ∀ model, (f model).id = model.id)
    (hid : row.id ≠ u) : row ∈ UserTable.assigned u f rows ↔ row ∈ rows := by
  unfold UserTable.assigned
  rw [List.mem_map]
  constructor
  · intro h
    obtain ⟨model, hmodel, heq⟩ := h
    by_cases hm : model.id = u
    · rw [if_pos hm] at heq
      rw [← heq, hf] at hid
      exact absurd hm hid
    · rw [if_neg hm] at heq
      rwa [← heq]
  · intro h
    exact ⟨row, h, if_neg hid⟩

/-- What a projection that goes through does to the rows. -/
structure Projected (principal : AuthPrincipal) (t t' : UserTable) : Prop where
  others : ∀ row : UserRow, row.id ≠ principal.id → (row ∈ t'.rows ↔ row ∈ t.rows)
  own : ∃ row ∈ t'.rows, row.id = principal.id ∧ row.email = principal.email

theorem upsert_some (hemail : principal.email ≠ [])
    (h : t.upsertFromPrincipal principal now = .ok (some user, t')) :
    user.id = principal.id ∧ Projected principal t t' := by
  unfold UserTable.upsertFromPrincipal at h
  cases hget : t.get principal.id with
  | some model =>
    rw [hget] at h
    obtain ⟨hmodel, hid⟩ := UserTable.get_some hget
    obtain ⟨pair, hsync, hpair⟩ := except_map h
    obtain ⟨users, hflush, husers⟩ := except_map hsync
    rw [← husers] at hpair
    cases hpair
    have hrows := UserTable.flush_ok hflush
    refine ⟨hid, ?_, ?_⟩
    · intro row hother
      rw [hrows]
      exact mem_assigned_other (fun _ => rfl) hother
    · refine ⟨UserTable.synced principal model, ?_, hid, ?_⟩
      · rw [hrows]
        exact List.mem_map.2 ⟨model, hmodel, if_pos hid⟩
      · unfold UserTable.synced
        dsimp only
        by_cases heq : model.email = principal.email
        · rw [if_neg (by simp [heq]), heq]
        · rw [if_pos ⟨hemail, heq⟩]
  | none =>
    rw [hget] at h
    dsimp only at h
    split at h
    · cases h
    cases hflush : UserTable.flush (t.rows ++ [⟨principal.id, principal.email, true, now⟩]) with
    | error e =>
      rw [hflush] at h
      cases h
    | ok users =>
      rw [hflush] at h
      cases h
      have hrows := UserTable.flush_ok hflush
      refine ⟨rfl, ?_, ?_⟩
      · intro row hother
        rw [hrows, List.mem_append, List.mem_singleton]
        apply or_iff_left
        intro heq
        rw [heq] at hother
        exact hother rfl
      · refine ⟨⟨principal.id, principal.email, true, now⟩, ?_, rfl, rfl⟩
        rw [hrows]
        exact List.mem_append_right _ (List.mem_singleton_self _)

theorem upsert_none (h : t.upsertFromPrincipal principal now = .ok (none, t')) : t' = t := by
  unfold UserTable.upsertFromPrincipal at h
  cases hget : t.get principal.id with
  | some model =>
    rw [hget] at h
    obtain ⟨pair, -, hpair⟩ := except_map h
    cases hpair
  | none =>
    rw [hget] at h
    dsimp only at h
    split at h
    · cases h
      rfl
    · split at h
      · cases h
      · cases h
        rfl

/-- A projection goes through only with an address that nobody else has. -/
theorem Projected.free (h : Projected principal t t') : ¬ Conflict t.rows principal := by
  intro hconflict
  obtain ⟨row, hrow, hid, hemail⟩ := hconflict
  obtain ⟨own, hown, hownId, hownEmail⟩ := h.own
  have hmem : row ∈ t'.rows := (h.others row hid).2 hrow
  have hsame : row = own :=
    List.inj_on_of_nodup_map t'.email_unique hmem hown (hemail.trans hownEmail.symm)
  rw [hsame] at hid
  exact hid hownId

/-! ### The flag -/

/-- The local row of the user, if there is one, is inactive. -/
def Inactive (u : Uuid) (d : AccountDb) : Prop := ∀ row ∈ d.users.rows, row.id = u → row.isActive = false

theorem Projected.inactive (h : Projected principal d.users d'.users)
    (hother : principal.id ≠ u) (hd : Inactive u d) : Inactive u d' := by
  intro row hrow hid
  have hne : row.id ≠ principal.id := by
    rw [hid]
    exact hother.symm
  exact hd row ((h.others row hne).1 hrow) hid

theorem principalOf_email {headers : Headers} {directory : UserDirectory}
    (h : principalOf headers directory = .ok principal) : principal.email ≠ [] := by
  obtain ⟨userId, -, h⟩ := except_bind h
  obtain ⟨role, -, h⟩ := except_bind h
  split at h
  · cases h
  obtain ⟨⟨email, name⟩, hcontact, h⟩ := except_bind h
  cases h
  unfold contactOf at hcontact
  dsimp only at hcontact ⊢
  split at hcontact
  · obtain ⟨directoryUser, -, heq⟩ := except_map hcontact
    cases heq
    exact directoryUser.email_ne
  · rename_i hne
    cases hcontact
    exact hne

/-- The request is made as the user, and admitted: its role is not `BLOCKED`, and its address is
nobody else's. -/
def Opens (u : Uuid) (d : AccountDb) (request : Request) : Prop :=
  ∃ principal, principalOf request.headers request.directory = .ok principal ∧ principal.id = u ∧
    ¬ Conflict d.users.rows principal

theorem getCurrentUser_ok (h : getCurrentUser request.headers request.directory request.now d =
    (.ok user, d')) : ∃ principal, principalOf request.headers request.directory = .ok principal ∧
      user.id = principal.id ∧ user.role = principal.role ∧
      Projected principal d.users d'.users := by
  unfold getCurrentUser at h
  cases hprincipal : principalOf request.headers request.directory with
  | error e =>
    rw [hprincipal] at h
    cases h
  | ok principal =>
    rw [hprincipal] at h
    dsimp only at h
    split at h
    · cases h
    · cases h
    · rename_i row users hupsert
      cases h
      obtain ⟨hid, hprojected⟩ := upsert_some (principalOf_email hprincipal) hupsert
      exact ⟨principal, rfl, rfl, rfl, hprojected⟩

theorem getCurrentUser_error {e : AccountExc} (h : getCurrentUser request.headers request.directory
    request.now d = (.error e, d')) : d' = d := by
  unfold getCurrentUser at h
  cases hprincipal : principalOf request.headers request.directory with
  | error e =>
    rw [hprincipal] at h
    cases h
    rfl
  | ok principal =>
    rw [hprincipal] at h
    dsimp only at h
    split at h
    · cases h
      rfl
    · rename_i users hupsert
      cases h
      rw [upsert_none hupsert]
    · cases h

/-- Admission does not touch the row of anybody but the one who is admitted. -/
theorem getCurrentUser_inactive (hd : Inactive u d) (h : ¬ Opens u d request) :
    Inactive u (getCurrentUser request.headers request.directory request.now d).2 ∧
      request.admits d ≠ some u := by
  unfold Request.admits
  cases hcall : getCurrentUser request.headers request.directory request.now d with
  | mk result d' =>
    cases result with
    | error e =>
      rw [getCurrentUser_error hcall]
      exact ⟨hd, nofun⟩
    | ok user =>
      obtain ⟨principal, hprincipal, hid, -, hprojected⟩ := getCurrentUser_ok hcall
      have hother : principal.id ≠ u := by
        intro heq
        exact h ⟨principal, hprincipal, heq, hprojected.free⟩
      refine ⟨hprojected.inactive hother hd, ?_⟩
      intro heq
      apply hother
      rw [← hid]
      exact Option.some.inj heq

/-! ### The administrator's actions -/

/-- The limit is missing, or it is one that the quota row can take. -/
def Acceptable (limit : Option Limit) (factor : ℚ) : Prop :=
  ∀ value, limit = some value → value.isNegative = false ∧ ∃ bytes, value.toBytes factor = .ok bytes

/-- The address is somebody else's than the user's, once the administrator is projected. -/
def AddressTaken (rows : List UserRow) (admin : AuthPrincipal) (u : Uuid) (email : Str) : Prop :=
  (admin.id ≠ u ∧ admin.email = email) ∨
    ∃ row ∈ rows, row.id ≠ u ∧ row.id ≠ admin.id ∧ row.email = email

/-- An administrator sets a limit of the user, whom the user service lists. -/
def Lifts (u : Uuid) (d : AccountDb) (request : Request) : Prop :=
  ∃ admin users entry limitMb privateLimitGb,
    request.action = .updateQuota u limitMb privateLimitGb ∧
    principalOf request.headers request.directory = .ok admin ∧ admin.role = .admin ∧
    ¬ Conflict d.users.rows admin ∧
    request.directory.listUsers = .ok users ∧ users.find? (·.id = u) = some entry ∧
    (limitMb ≠ none ∨ privateLimitGb ≠ none) ∧ Acceptable limitMb bytesPerMb ∧
    Acceptable privateLimitGb bytesPerGb ∧ ¬ AddressTaken d.users.rows admin u entry.email

theorem checkAdmin_cases (request : Request) (d : AccountDb) :
    (∃ e, checkAdmin request.headers request.directory request.now d =
      (.error e, (getCurrentUser request.headers request.directory request.now d).2)) ∨
    ∃ user, checkAdmin request.headers request.directory request.now d =
      (.ok user, (getCurrentUser request.headers request.directory request.now d).2) ∧
      (getCurrentUser request.headers request.directory request.now d).1 = .ok user ∧
      user.role = .admin := by
  unfold checkAdmin
  cases hcall : getCurrentUser request.headers request.directory request.now d with
  | mk result d' =>
    cases result with
    | error e => exact .inl ⟨e, rfl⟩
    | ok user =>
      dsimp only
      by_cases hrole : user.role = .admin
      · rw [if_pos hrole]
        exact .inr ⟨user, rfl, rfl, hrole⟩
      · rw [if_neg hrole]
        exact .inl ⟨_, rfl⟩

/-- An action keeps the flag where it keeps it on the tables that the admitted administrator left. -/
theorem asAdmin_inactive {act : User → AccountDb → Except AccountExc AccountDb}
    (hd : Inactive u (getCurrentUser request.headers request.directory request.now d).2)
    (hact : ∀ user d₁ d₂, getCurrentUser request.headers request.directory request.now d = (.ok user, d₁) →
      user.role = .admin → Inactive u d₁ → act user d₁ = .ok d₂ → Inactive u d₂) :
    Inactive u (asAdmin request d act) := by
  unfold asAdmin
  rcases checkAdmin_cases request d with ⟨e, hcheck⟩ | ⟨user, hcheck, hadmitted, hrole⟩
  · rw [hcheck]
    exact hd
  · rw [hcheck]
    dsimp only
    split
    · rename_i d₂ hok
      apply hact user _ d₂ _ hrole hd hok
      rw [← hadmitted]
    · exact hd

theorem ensureLocalUser_ok {users : List DirectoryUser} (h : AdminService.ensureLocalUser u users now d =
    .ok d') : ∃ entry, users.find? (·.id = u) = some entry ∧ entry.id = u ∧
      Projected ⟨entry.id, entry.email, entry.username, entry.storageRole⟩ d.users d'.users := by
  unfold AdminService.ensureLocalUser at h
  cases hfind : users.find? (·.id = u) with
  | none =>
    rw [hfind] at h
    cases h
  | some entry =>
    rw [hfind] at h
    have hid : entry.id = u := by simpa using List.find?_some hfind
    dsimp only at h
    split at h
    · cases h
    · cases h
    · rename_i row t hupsert
      cases h
      exact ⟨entry, rfl, hid, (upsert_some entry.email_ne hupsert).2⟩

theorem setLimit_ok {limit : Option Limit} {factor : ℚ} {f : Int → QuotaUsage → QuotaUsage}
    (h : AdminService.setLimit defaultLimit u limit factor f d = .ok d') :
    d'.users = d.users ∧ ∀ value, limit = some value → ∃ bytes, value.toBytes factor = .ok bytes := by
  unfold AdminService.setLimit at h
  cases limit with
  | none =>
    cases h
    exact ⟨rfl, nofun⟩
  | some value =>
    obtain ⟨bytes, hbytes, hd⟩ := except_map h
    rw [← hd]
    refine ⟨rfl, ?_⟩
    intro value' heq
    cases heq
    exact ⟨bytes, hbytes⟩

/-- What a quota update that goes through has done. -/
theorem updateUserQuota_ok {users : List DirectoryUser} {limitMb privateLimitGb : Option Limit}
    (h : AdminService.updateUserQuota defaultLimit u users limitMb privateLimitGb now d = .ok d') :
    (limitMb ≠ none ∨ privateLimitGb ≠ none) ∧ Acceptable limitMb bytesPerMb ∧
      Acceptable privateLimitGb bytesPerGb ∧
      ∃ entry, users.find? (·.id = u) = some entry ∧ entry.id = u ∧
        Projected ⟨entry.id, entry.email, entry.username, entry.storageRole⟩ d.users d'.users := by
  unfold AdminService.updateUserQuota at h
  split at h
  · cases h
  rename_i hgiven
  split at h
  · cases h
  rename_i hmb
  split at h
  · cases h
  rename_i hgb
  obtain ⟨d₁, hensure, h⟩ := except_bind h
  obtain ⟨d₂, hfirst, hsecond⟩ := except_bind h
  obtain ⟨entry, hfind, hid, hprojected⟩ := ensureLocalUser_ok hensure
  obtain ⟨husers₂, hbytes⟩ := setLimit_ok hfirst
  obtain ⟨husers, hbytes'⟩ := setLimit_ok hsecond
  refine ⟨?_, ?_, ?_, entry, hfind, hid, ?_⟩
  · by_contra hnot
    push Not at hnot
    exact hgiven hnot
  · intro value hvalue
    refine ⟨?_, hbytes value hvalue⟩
    rw [hvalue] at hmb
    simpa using hmb
  · intro value hvalue
    refine ⟨?_, hbytes' value hvalue⟩
    rw [hvalue] at hgb
    simpa using hgb
  · rw [husers, husers₂]
    exact hprojected

theorem updateQuota_inactive {target : Uuid} {limitMb privateLimitGb : Option Limit}
    (haction : request.action = .updateQuota target limitMb privateLimitGb) (hd : Inactive u d)
    (hopens : ¬ Opens u d request) (hlifts : ¬ Lifts u d request) :
    Inactive u (request.run defaultLimit d) := by
  unfold Request.run
  rw [haction]
  apply asAdmin_inactive (getCurrentUser_inactive hd hopens).1
  intro user d₁ d₂ hcall hrole hd₁ hact
  obtain ⟨admin, hadmin, -, hsame, hprojected⟩ := getCurrentUser_ok hcall
  cases hlist : request.directory.listUsers with
  | error e =>
    rw [hlist] at hact
    cases hact
  | ok users =>
    rw [hlist] at hact
    obtain ⟨hgiven, hmb, hgb, entry, hfind, hid, hentry⟩ := updateUserQuota_ok hact
    by_cases htarget : target = u
    · -- the quota of the user is set: then the request lifts the block
      rw [htarget] at haction hfind hid
      refine absurd ?_ hlifts
      refine ⟨admin, users, entry, limitMb, privateLimitGb, haction, hadmin, hsame ▸ hrole,
        hprojected.free, hlist, hfind, hgiven, hmb, hgb, ?_⟩
      intro htaken
      apply hentry.free
      rcases htaken with ⟨hne, hemail⟩ | ⟨row, hrow, hne, hother, hemail⟩
      · obtain ⟨own, hown, hownId, hownEmail⟩ := hprojected.own
        refine ⟨own, hown, ?_, hownEmail.trans hemail⟩
        rw [hownId, hid]
        exact hne
      · refine ⟨row, (hprojected.others row hother).2 hrow, ?_, hemail⟩
        rw [hid]
        exact hne
    · have hother : entry.id ≠ u := by
        rw [hid]
        exact htarget
      exact hentry.inactive hother hd₁

theorem blockUser_rows {target : Uuid} (h : AdminService.blockUser target d = .ok d') :
    d'.users.rows = UserTable.assigned target (fun model => { model with isActive := false })
      d.users.rows := by
  unfold AdminService.blockUser UserTable.setActive at h
  cases hget : d.users.get target with
  | none =>
    rw [hget] at h
    cases h
  | some model =>
    rw [hget] at h
    dsimp only at h
    cases hflush : UserTable.flush (UserTable.assigned target
        (fun model => { model with isActive := false }) d.users.rows) with
    | error e =>
      rw [hflush] at h
      cases h
    | ok users =>
      rw [hflush] at h
      cases h
      exact UserTable.flush_ok hflush

theorem block_inactive {target : Uuid} (hd : Inactive u d)
    (h : AdminService.blockUser target d = .ok d') : Inactive u d' := by
  intro row hrow hid
  rw [blockUser_rows h] at hrow
  obtain ⟨before, hbefore, heq⟩ := List.mem_map.1 hrow
  split at heq
  · rw [← heq]
  · rw [heq] at hbefore
    exact hd row hbefore hid

/-- Blocking a user leaves the user's row inactive. -/
theorem blockUser_blocks (h : AdminService.blockUser u d = .ok d') : Inactive u d' := by
  intro row hrow hid
  rw [blockUser_rows h] at hrow
  obtain ⟨before, -, heq⟩ := List.mem_map.1 hrow
  split at heq
  · rw [← heq]
  · rename_i hne
    rw [heq] at hne
    exact absurd hid hne

theorem deleteUser_inactive {adminId target : Uuid} {cleaned : Except AccountExc Unit}
    (hd : Inactive u d) (h : AdminService.deleteUser adminId target cleaned d = .ok d') :
    Inactive u d' := by
  unfold AdminService.deleteUser at h
  split at h
  · cases h
  split at h
  · cases h
  obtain ⟨-, -, heq⟩ := except_map h
  rw [← heq]
  intro row hrow hid
  exact hd row (List.mem_filter.1 hrow).1 hid

/-! ### Runs -/

/-- The tables, and the users that were admitted so far. -/
structure Site where
  db : AccountDb
  admitted : List Uuid

def step (defaultLimit : Int) (s : Site) (request : Request) (t : Site) : Prop :=
  t = ⟨request.run defaultLimit s.db, (request.admits s.db).toList ++ s.admitted⟩

/-- The local row is inactive, and the user was not admitted. -/
def StaysBlocked (u : Uuid) (s : Site) : Prop := Inactive u s.db ∧ u ∉ s.admitted

/-- The request neither opens the account as its user nor lifts the block through the quota. -/
def Spares (u : Uuid) (s : Site) (request : Request) : Prop :=
  ¬ Opens u s.db request ∧ ¬ Lifts u s.db request

theorem step_staysBlocked {s t : Site} (hs : StaysBlocked u s) (hok : Spares u s request)
    (h : step defaultLimit s request t) : StaysBlocked u t := by
  obtain ⟨hinactive, hadmitted⟩ := hs
  obtain ⟨hopens, hlifts⟩ := hok
  obtain ⟨hcall, hadmits⟩ := getCurrentUser_inactive hinactive hopens
  rw [h]
  constructor
  · cases haction : request.action with
    | any =>
      unfold Request.run
      rw [haction]
      exact hcall
    | updateQuota target limitMb privateLimitGb =>
      exact updateQuota_inactive haction hinactive hopens hlifts
    | block target =>
      unfold Request.run
      rw [haction]
      exact asAdmin_inactive hcall fun user d₁ d₂ _ _ hd₁ hact => block_inactive hd₁ hact
    | delete target cleaned =>
      unfold Request.run
      rw [haction]
      exact asAdmin_inactive hcall fun user d₁ d₂ _ _ hd₁ hact => deleteUser_inactive hd₁ hact
  · intro hmem
    rcases List.mem_append.1 hmem with hnow | hbefore
    · exact hadmits (Option.mem_toList.1 hnow)
    · exact hadmitted hbefore

/-- A blocked user stays blocked as long as no request opens the account or sets its limits. -/
theorem blocked_stays_blocked (defaultLimit : Int) (u : Uuid) (d d' : AccountDb) (s : Site)
    (hblock : AdminService.blockUser u d = .ok d')
    (h : Steps (step defaultLimit) (Spares u) ⟨d', []⟩ s) : StaysBlocked u s := by
  apply h.invariant
  · exact ⟨blockUser_blocks hblock, List.not_mem_nil⟩
  · intro s request t hs hok hstep
    exact step_staysBlocked hs hok hstep

end

/-! ### One run of each kind -/

/-- No answer of the user service is needed where the headers say all. -/
def silent : UserDirectory := ⟨fun _ => .error .other, fun _ => .error .other, .error .other⟩

/-- A request of the first user with the role in the headers. -/
def sampleRequest (role : Str) : Request :=
  ⟨⟨some (Uuid.ofDigit 1).text, none, some "a@example".toList, none, some role⟩, silent, 5, .any⟩

def sampleAccounts (isActive : Bool) : AccountDb :=
  ⟨⟨[⟨Uuid.ofDigit 1, "a@example".toList, isActive, 0⟩], List.nodup_singleton _,
    List.nodup_singleton _⟩, ∅⟩

theorem sample_blocked : AdminService.blockUser (Uuid.ofDigit 1) (sampleAccounts true) =
    .ok (sampleAccounts false) := rfl

theorem sample_refused : principalOf (sampleRequest "BLOCKED".toList).headers silent =
    .error .blocked := by decide +kernel

theorem sample_principal : principalOf (sampleRequest "FAMILY".toList).headers silent =
    .ok ⟨Uuid.ofDigit 1, "a@example".toList, [], .family⟩ := by decide +kernel

theorem sampleRequest_step {role : Str} {d d' : AccountDb} {result : Except AccountExc User}
    (h : getCurrentUser (sampleRequest role).headers silent 5 d = (result, d')) :
    step 0 ⟨d, []⟩ (sampleRequest role) ⟨d', (result.toOption.map (·.id)).toList ++ []⟩ := by
  have hrun : (sampleRequest role).run 0 d =
    (getCurrentUser (sampleRequest role).headers silent 5 d).2 := rfl
  have hadmits : (sampleRequest role).admits d =
    (getCurrentUser (sampleRequest role).headers silent 5 d).1.toOption.map (·.id) := rfl
  unfold step
  rw [hrun, hadmits, h]

theorem sampleRequest_refused (d : AccountDb) :
    getCurrentUser (sampleRequest "BLOCKED".toList).headers silent 5 d = (.error .blocked, d) := by
  unfold getCurrentUser
  rw [sample_refused]

theorem sampleRequest_admitted :
    getCurrentUser (sampleRequest "FAMILY".toList).headers silent 5 (sampleAccounts false) =
      (.ok ⟨Uuid.ofDigit 1, "a@example".toList, .family, true, 0⟩, sampleAccounts true) := by
  unfold getCurrentUser
  rw [sample_principal]
  rfl

theorem blocked_stays_sample : StaysBlocked (Uuid.ofDigit 1) ⟨sampleAccounts false, []⟩ := by
  have hspares : Spares (Uuid.ofDigit 1) ⟨sampleAccounts false, []⟩
      (sampleRequest "BLOCKED".toList) := by
    constructor
    · intro hopens
      obtain ⟨principal, hprincipal, -⟩ := hopens
      have hrefused := sample_refused.symm.trans hprincipal
      cases hrefused
    · intro hlifts
      obtain ⟨_, _, _, _, _, haction, -⟩ := hlifts
      cases haction
  have hstep := sampleRequest_step (sampleRequest_refused (sampleAccounts false))
  exact blocked_stays_blocked 0 (Uuid.ofDigit 1) (sampleAccounts true) (sampleAccounts false) _
    sample_blocked (.tail .refl hspares hstep)

/-- The next request of the blocked user is admitted, and makes the row active again. -/
theorem blocked_user_returns : ¬ ∀ (u : Uuid) (d d' : AccountDb) (s : Site),
    AdminService.blockUser u d = .ok d' → Steps (step 0) (fun _ _ => True) ⟨d', []⟩ s →
    StaysBlocked u s := by
  intro hall
  have hstep := sampleRequest_step sampleRequest_admitted
  have hstays := hall (Uuid.ofDigit 1) (sampleAccounts true) (sampleAccounts false) _
    sample_blocked (.tail .refl trivial hstep)
  exact hstays.2 List.mem_cons_self

end WebStorage.Accounts
