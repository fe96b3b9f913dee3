import WebStorage.PosixText

set_option autoImplicit false

/-! The entities and exceptions that every part of the backend shares. -/
namespace WebStorage

def uuidChar (c : Char) : Bool := "0123456789abcdef-".toList.contains c

/-- A UUID in its canonical text form, which is also how object keys spell it. -/
structure Uuid where
  text : Str
  canonical : text.length = 36 ∧ text.all uuidChar
deriving DecidableEq

theorem Uuid.slash_not_mem (u : Uuid) : '/' ∉ u.text := fun h =>
  absurd (List.all_eq_true.1 u.canonical.2 '/' h) (by decide)

/-- The UUID that is zero but for its last digit. -/
def Uuid.ofDigit (d : Nat) : Uuid where
  text := "00000000-0000-0000-0000-00000000000".toList ++ [(d % 10).digitChar]
  canonical := by
    have hall : ∀ n : Fin 10, uuidChar n.val.digitChar := by decide
    have hd : uuidChar (d % 10).digitChar := hall ⟨d % 10, Nat.mod_lt d (by decide)⟩
    have hzeros : "00000000-0000-0000-0000-00000000000".toList.all uuidChar := by decide
    exact ⟨rfl, by rw [List.all_append, hzeros, List.all_cons, hd]; rfl⟩

/-- Microseconds since the epoch, in UTC. -/
abbrev Time := Int

/-- A SHA-256 digest in hexadecimal. -/
abbrev Digest := String

abbrev Bytes := List UInt8

inductive FileSection
  | photos | files | «private» | shared | resumes | generated
deriving DecidableEq

inductive FileStatus
  | pending | committed | archived | deleted
deriving DecidableEq

structure FileRecord where
  id : Uuid
  userId : Uuid
  relativePath : Str
  originalName : Str
  sizeBytes : Int
  isEncrypted : Bool
  fileSection : FileSection
  status : FileStatus
  checksumSha256 : Option Digest
  createdAt : Time
  lastAccessedAt : Time
  isArchived : Bool
  archivePath : Option Str
deriving DecidableEq

/-- The exceptions the modelled functions raise or catch. `other` is any exception that no
handler names. -/
inductive Exc
  | ragUnavailable (errorCode : Option String)
  | ragHttp (statusCode : Nat) (errorCode : Option String) (detailFileId : Option Uuid)
  | fileNotFound
  | privateIndexRefused
  | valueError
  | integrityError
  | pendingRollback
  | multipleResults
  | quotaExceeded (availableBytes : Option Int)
  | accessDenied
  | pathTraversal
  | unsupportedFormat
  | storageUnavailable
  | selfUserDeletion
  | userNotFound
  | clientError (notFound : Bool)
  | other
deriving DecidableEq

end WebStorage
