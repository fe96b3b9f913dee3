import WebStorage.Repositories

set_option autoImplicit false

/-! The local projection of the users: who a request is admitted as, and what administrators do to
the rows of `users`. -/
namespace WebStorage.Accounts

/-! ### Identities -/

/-- `text.replace(pat, "")`; `skip` counts the characters of a match that are still to be passed. -/
def removeText (pat : Str) : Nat → Str → Str
  | _, [] => []
  | skip + 1, _ :: s => removeText pat skip s
  | 0, c :: s =>
    if pat.isPrefixOf (c :: s) then removeText pat (pat.length - 1) s else c :: removeText pat 0 s

def stripBraces (s : Str) : Str :=
  ((s.dropWhile fun c => c = '\x7b' || c = '\x7d').reverse.dropWhile fun c =>
    c = '\x7b' || c = '\x7d').reverse

def isHexDigit (c : Char) : Bool := "0123456789abcdef".toList.contains c

/-- `UUID(hex)`: 32 digits; hyphens, braces and the URN prefix are optional. -/
def uuidOf (hex : Str) : Option Uuid :=
  let digits := ((stripBraces (removeText "uuid:".toList 0 (removeText "urn:".toList 0 hex))).filter
    (· ≠ '-')).map Char.toLower
  let text := digits.take 8 ++ ['-'] ++ (digits.drop 8).take 4 ++ ['-'] ++ (digits.drop 12).take 4 ++
    ['-'] ++ (digits.drop 16).take 4 ++ ['-'] ++ digits.drop 20
  if h : (digits.length = 32 ∧ digits.all isHexDigit) ∧ text.length = 36 ∧ text.all uuidChar then
    some ⟨text, h.2⟩
  else none

/-- `Role`. -/
inductive StorageRole
  | stranger | family | admin | blocked
deriving DecidableEq

/-- `Role(value)`. -/
def StorageRole.ofText (value : Str) : Option StorageRole :=
  if value = "STRANGER".toList then some .stranger
  else if value = "FAMILY".toList then some .family
  else if value = "ADMIN".toList then some .admin
  else if value = "BLOCKED".toList then some .blocked
  else none

/-- What a request or an administrator's action ends with instead of a result. -/
inductive AccountExc
  | unauthenticated
  | misconfigured
  | blocked
  | accessDenied
  | projection
  | integrityError
  | valueError
  | overflow
  | userNotFound
  | selfUserDeletion
  | directory (e : Exc)
deriving DecidableEq

/-- The identity headers of a request, as the gateway set them. -/
structure Headers where
  userId : Option Str
  authUserId : Option Str
  authEmail : Option Str
  authName : Option Str
  storageRole : Option Str
deriving DecidableEq

/-- A user as the user service knows it; a payload without an address is refused. -/
structure DirectoryUser where
  id : Uuid
  email : Str
  username : Str
  storageRole : StorageRole
  email_ne : email ≠ []

/-- What the user service answers while the request runs. -/
structure UserDirectory where
  getStorageRole : Uuid → Except Exc StorageRole
  getUser : Uuid → Except Exc DirectoryUser
  listUsers : Except Exc (List DirectoryUser)

structure AuthPrincipal where
  id : Uuid
  email : Str
  name : Str
  role : StorageRole
deriving DecidableEq

/-- `_parse_uuid`. -/
def parseUuid (raw : Option Str) : Option Uuid :=
  match raw with
  | none => none
  | some raw =>
    let value := Text.strip raw
    if value = [] then none else uuidOf value

/-- `_resolve_user_id`. -/
def resolveUserId (request : Headers) : Except AccountExc Uuid :=
  match parseUuid request.userId with
  | some preferred => .ok preferred
  | none => match parseUuid request.authUserId with
    | some fallback => .ok fallback
    | none => .error .unauthenticated

/-- `_header_storage_role`. -/
def headerStorageRole (request : Headers) : Except AccountExc (Option StorageRole) :=
  match request.storageRole with
  | none => .ok none
  | some raw =>
    if Text.strip raw = [] then .ok none
    else match StorageRole.ofText (Text.strip raw) with
      | some role => .ok (some role)
      | none => .error .misconfigured

def ask {α : Type} (answer : Except Exc α) : Except AccountExc α := answer.mapError .directory

/-- The role of the header, or else the one that the user service knows. -/
def storageRoleOf (request : Headers) (directory : UserDirectory) (userId : Uuid) :
    Except AccountExc StorageRole :=
  match headerStorageRole request with
  | .error e => .error e
  | .ok (some role) => .ok role
  | .ok none => ask (directory.getStorageRole userId)

/-- The e-mail address and the name of the headers; without an address the user service is asked. -/
def contactOf (request : Headers) (directory : UserDirectory) (userId : Uuid) :
    Except AccountExc (Str × Str) :=
  let email := Text.strip (request.authEmail.getD [])
  let name := Text.strip (request.authName.getD [])
  if email = [] then
    (ask (directory.getUser userId)).map fun directoryUser =>
      (directoryUser.email, if name = [] then directoryUser.username else name)
  else .ok (email, name)

/-- `get_current_user`, up to the projection into the local table. -/
def principalOf (request : Headers) (directory : UserDirectory) : Except AccountExc AuthPrincipal := do
  let userId ← resolveUserId request
  let role ← storageRoleOf request directory userId
  if role = .blocked then .error .blocked
  else do
    let (email, name) ← contactOf request directory userId
    pure ⟨userId, email, name, role⟩

/-! ### The local table -/

/-- A row of `users`. -/
structure UserRow where
  id : Uuid
  email : Str
  isActive : Bool
  createdAt : Time
deriving DecidableEq

structure UserTable where
  rows : List UserRow
  id_unique : (rows.map (·.id)).Nodup
  email_unique : (rows.map (·.email)).Nodup

/-- The user that a request is admitted as. -/
structure User where
  id : Uuid
  email : Str
  role : StorageRole
  isActive : Bool
  createdAt : Time
deriving DecidableEq

namespace UserTable

/-- A flush that would break a unique constraint is an `IntegrityError`. -/
def flush (rows : List UserRow) : Except AccountExc UserTable :=
  if h : (rows.map (·.id)).Nodup ∧ (rows.map (·.email)).Nodup then .ok ⟨rows, h.1, h.2⟩
  else .error .integrityError

def get (t : UserTable) (id : Uuid) : Option UserRow := t.rows.find? (·.id = id)

def getByEmail (t : UserTable) (email : Str) : Option UserRow := t.rows.find? (·.email = email)

/-- `_to_entity`. -/
def toEntity (model : UserRow) (role : StorageRole) : User :=
  ⟨model.id, model.email, role, model.isActive, model.createdAt⟩

/-- The row after `_sync_projection`: the address of the principal, if it has one, and active. -/
def synced (principal : AuthPrincipal) (model : UserRow) : UserRow :=
  { model with
    email := if principal.email ≠ [] ∧ model.email ≠ principal.email then principal.email
      else model.email
    isActive := true }

/-- The rows after an assignment to the one with the id. -/
def assigned (id : Uuid) (f : UserRow → UserRow) (rows : List UserRow) : List UserRow :=
  rows.map fun model => if model.id = id then f model else model

/-- `_sync_projection`. -/
def syncProjection (t : UserTable) (principal : AuthPrincipal) (model : UserRow) :
    Except AccountExc (User × UserTable) :=
  (flush (assigned principal.id (synced principal) t.rows)).map fun t' =>
    (toEntity (synced principal model) principal.role, t')

/-- `upsert_from_principal`: `none` when the address belongs to somebody else. -/
def upsertFromPrincipal (t : UserTable) (principal : AuthPrincipal) (now : Time) :
    Except AccountExc (Option User × UserTable) :=
  match t.get principal.id with
  | some model => (t.syncProjection principal model).map fun (user, t') => (some user, t')
  | none =>
    if (t.getByEmail principal.email).isSome then .ok (none, t)
    else
      let model : UserRow := ⟨principal.id, principal.email, true, now⟩
      match flush (t.rows ++ [model]) with
      | .ok t' => .ok (some (toEntity model principal.role), t')
      | .error _ => .ok (none, t)

/-- `set_active`. -/
def setActive (t : UserTable) (userId : Uuid) (isActive : Bool) :
    Except AccountExc (Option User × UserTable) :=
  match t.get userId with
  | none => .ok (none, t)
  | some model =>
    (flush (assigned userId (fun model => { model with isActive := isActive }) t.rows)).map fun t' =>
      (some (toEntity { model with isActive := isActive } .stranger), t')

/-- `delete`. -/
def delete (t : UserTable) (userId : Uuid) : UserTable :=
  ⟨t.rows.filter (·.id ≠ userId), t.id_unique.sublist (List.filter_sublist.map _),
    t.email_unique.sublist (List.filter_sublist.map _)⟩

end UserTable

/-! ### Requests -/

/-- `_user_from_principal`. -/
def userFromPrincipal (principal : AuthPrincipal) (row : Option User) (now : Time) : User :=
  match row with
  | none => ⟨principal.id, principal.email, principal.role, true, now⟩
  | some row =>
    ⟨principal.id, if principal.email = [] then row.email else principal.email, principal.role,
      row.isActive, row.createdAt⟩

/-- The tables an administrator's action works on. -/
structure AccountDb where
  users : UserTable
  quotas : QuotaTable

/-- `get_current_user`. An exception before the commit leaves the table as it was. -/
def getCurrentUser (request : Headers) (directory : UserDirectory) (now : Time) (d : AccountDb) :
    Except AccountExc User × AccountDb :=
  match principalOf request directory with
  | .error e => (.error e, d)
  | .ok principal => match d.users.upsertFromPrincipal principal now with
    | .error e => (.error e, d)
    | .ok (none, users) => (.error .projection, { d with users := users })
    | .ok (some row, users) =>
      (.ok (userFromPrincipal principal (some row) now), { d with users := users })

/-- `check_role(Role.ADMIN)`. -/
def checkAdmin (request : Headers) (directory : UserDirectory) (now : Time) (d : AccountDb) :
    Except AccountExc User × AccountDb :=
  match getCurrentUser request directory now d with
  | (.error e, d) => (.error e, d)
  | (.ok user, d) => if user.role = .admin then (.ok user, d) else (.error .accessDenied, d)

/-! ### What administrators do -/

/-- A limit of a request body. -/
inductive Limit
  | finite (value : ℚ)
  | infinite
deriving DecidableEq

def Limit.isNegative : Limit → Bool
  | .finite value => decide (value < 0)
  | .infinite => false

def bytesPerMb : ℚ := 1024 * 1024
def bytesPerGb : ℚ := 1024 * 1024 * 1024

/-- The largest value of a `BigInteger` column. -/
def maxBigInteger : Int := 2 ^ 63 - 1

/-- `int(limit * factor)`, as the column takes it. -/
def Limit.toBytes (factor : ℚ) : Limit → Except AccountExc Int
  | .finite value =>
    if ⌊value * factor⌋ ≤ maxBigInteger then .ok ⌊value * factor⌋ else .error .overflow
  | .infinite => .error .overflow

/-- `update_limit` and `update_private_limit`: the row is made if it is missing. -/
def updateLimit (defaultLimit : Int) (userId : Uuid) (f : QuotaUsage → QuotaUsage) (quotas : QuotaTable) :
    QuotaTable :=
  quotas.insert userId (f ((quotas.lookup userId).getD (QuotaRepo.newUsage defaultLimit)))

namespace AdminService

/-- `_ensure_local_user`. -/
def ensureLocalUser (targetUserId : Uuid) (directoryUsers : List DirectoryUser) (now : Time)
    (d : AccountDb) : Except AccountExc AccountDb :=
  match directoryUsers.find? (·.id = targetUserId) with
  | none => .error .userNotFound
  | some directoryUser =>
    match d.users.upsertFromPrincipal
      ⟨directoryUser.id, directoryUser.email, directoryUser.username, directoryUser.storageRole⟩ now with
    | .error e => .error e
    | .ok (none, _) => .error .projection
    | .ok (some _, users) => .ok { d with users := users }

/-- One of the two limits, if the request has it. -/
def setLimit (defaultLimit : Int) (targetUserId : Uuid) (limit : Option Limit) (factor : ℚ)
    (f : Int → QuotaUsage → QuotaUsage) (d : AccountDb) : Except AccountExc AccountDb :=
  match limit with
  | none => .ok d
  | some limit => (limit.toBytes factor).map fun limitBytes =>
    { d with quotas := updateLimit defaultLimit targetUserId (f limitBytes) d.quotas }

def updateUserQuota (defaultLimit : Int) (targetUserId : Uuid) (directoryUsers : List DirectoryUser)
    (limitMb privateLimitGb : Option Limit) (now : Time) (d : AccountDb) : Except AccountExc AccountDb :=
  if limitMb = none ∧ privateLimitGb = none then .error .valueError
  else if limitMb.any Limit.isNegative then .error .valueError
  else if privateLimitGb.any Limit.isNegative then .error .valueError
  else do
    let d ← ensureLocalUser targetUserId directoryUsers now d
    let d ← setLimit defaultLimit targetUserId limitMb bytesPerMb
      (fun limitBytes usage => { usage with limitBytes := limitBytes }) d
    setLimit defaultLimit targetUserId privateLimitGb bytesPerGb
      (fun limitBytes usage => { usage with privateLimitBytes := limitBytes }) d

def blockUser (targetUserId : Uuid) (d : AccountDb) : Except AccountExc AccountDb :=
  match d.users.setActive targetUserId false with
  | .error e => .error e
  | .ok (none, _) => .error .userNotFound
  | .ok (some _, users) => .ok { d with users := users }

/-- `delete_user`, as far as these tables go; `cleaned` is whether the storage phase came to its
end. -/
def deleteUser (adminId targetUserId : Uuid) (cleaned : Except AccountExc Unit) (d : AccountDb) :
    Except AccountExc AccountDb :=
  if adminId = targetUserId then .error .selfUserDeletion
  else if d.users.get targetUserId = none then .error .userNotFound
  else cleaned.map fun _ => ⟨d.users.delete targetUserId, d.quotas.erase targetUserId⟩

end AdminService

/-- What is asked for: any route that an admitted user may call, or one of the administrator's
actions on an account. -/
inductive Action
  | any
  | updateQuota (targetUserId : Uuid) (limitMb privateLimitGb : Option Limit)
  | block (targetUserId : Uuid)
  | delete (targetUserId : Uuid) (cleaned : Except AccountExc Unit)

structure Request where
  headers : Headers
  directory : UserDirectory
  now : Time
  action : Action

/-- The routes of the admin router: what is raised is rolled back. -/
def asAdmin (request : Request) (d : AccountDb) (act : User → AccountDb → Except AccountExc AccountDb) :
    AccountDb :=
  match checkAdmin request.headers request.directory request.now d with
  | (.error _, d) => d
  | (.ok admin, d) => match act admin d with
    | .ok d' => d'
    | .error _ => d

/-- What a request leaves of the tables. No other route writes them. -/
def Request.run (defaultLimit : Int) (request : Request) (d : AccountDb) : AccountDb :=
  match request.action with
  | .any => (getCurrentUser request.headers request.directory request.now d).2
  | .updateQuota targetUserId limitMb privateLimitGb => asAdmin request d fun _ d =>
    match request.directory.listUsers with
    | .error e => .error (.directory e)
    | .ok directoryUsers =>
      AdminService.updateUserQuota defaultLimit targetUserId directoryUsers limitMb privateLimitGb
        request.now d
  | .block targetUserId => asAdmin request d fun _ d => AdminService.blockUser targetUserId d
  | .delete targetUserId cleaned => asAdmin request d fun admin d =>
    AdminService.deleteUser admin.id targetUserId cleaned d

/-- The user that the request is admitted as. -/
def Request.admits (request : Request) (d : AccountDb) : Option Uuid :=
  ((getCurrentUser request.headers request.directory request.now d).1.toOption).map (·.id)

example : uuidOf "urn:uuid:00000000-0000-0000-0000-00000000000A".toList =
    uuidOf "0000000000000000000000000000000a".toList := by decide

end WebStorage.Accounts
