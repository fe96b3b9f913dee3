import WebStorage.Domain

set_option autoImplicit false

/-! The pure decision of which storage object is sent to the RAG index. -/
namespace WebStorage

inductive IndexLinkState
  | pending | submitted | indexed | failed | skipped | removed | archived | reindexPending
deriving DecidableEq

/-- `DUE_INDEX_STATES`. -/
def IndexLinkState.due : IndexLinkState → Bool
  | pending | submitted | removed | archived | reindexPending => true
  | indexed | failed | skipped => false

inductive RegistrationKind
  | document | image | preview | skip
deriving DecidableEq

inductive IndexSkipCode
  | unsupportedType | previewMissing | archived | excludedSection
deriving DecidableEq

def IndexSkipCode.value : IndexSkipCode → String
  | unsupportedType => "unsupported_type"
  | previewMissing => "preview_missing"
  | archived => "archived"
  | excludedSection => "excluded_section"

def pdfContentType : String := "application/pdf"
def docxContentType : String :=
  "application/vnd.openxmlformats-officedocument.wordprocessingml.document"
def xlsxContentType : String :=
  "application/vnd.openxmlformats-officedocument.spreadsheetml.sheet"
def jpegContentType : String := "image/jpeg"
def pngContentType : String := "image/png"
def webpContentType : String := "image/webp"
def gifContentType : String := "image/gif"
def octetStreamContentType : String := "application/octet-stream"

def documentContentType (extension : Str) : Option String :=
  if extension = ".pdf".toList then some pdfContentType
  else if extension = ".docx".toList then some docxContentType
  else if extension = ".xlsx".toList then some xlsxContentType
  else none

def imageContentType (extension : Str) : Option String :=
  if extension = ".jpg".toList ∨ extension = ".jpeg".toList then some jpegContentType
  else if extension = ".png".toList then some pngContentType
  else if extension = ".webp".toList then some webpContentType
  else if extension = ".gif".toList then some gifContentType
  else none

/-- What `RegistrationDecision.__post_init__` lets through. -/
structure RegistrationDecision where
  kind : RegistrationKind
  s3Key : Str
  contentType : String
  contentSha256 : Option Digest
  skipCode : Option IndexSkipCode
  skip_iff : kind = .skip ↔ skipCode.isSome
  preview_hash : kind = .preview → contentSha256 = none
  key_ne : s3Key ≠ []
  type_ne : contentType ≠ ""
deriving DecidableEq

/-- The constructor call: a combination that `__post_init__` refuses is a `ValueError`. -/
def RegistrationDecision.make (kind : RegistrationKind) (s3Key : Str) (contentType : String)
    (contentSha256 : Option Digest) (skipCode : Option IndexSkipCode) :
    Except Exc RegistrationDecision :=
  if h : (kind = .skip ↔ skipCode.isSome) ∧ (kind = .preview → contentSha256 = none) ∧
      s3Key ≠ [] ∧ contentType ≠ "" then
    .ok ⟨kind, s3Key, contentType, contentSha256, skipCode, h.1, h.2.1, h.2.2.1, h.2.2.2⟩
  else .error .valueError

def previewObjectKey (userId fileId : Uuid) : Str :=
  "users/".toList ++ userId.text ++ "/photos/previews/".toList ++ fileId.text ++
    "_thumb.jpg".toList

/-- `_extension`. -/
def recordExtension (record : FileRecord) : Str :=
  let own := Text.lower (Text.suffix record.originalName)
  if own ≠ [] then own else Text.lower (Text.suffix record.relativePath)

def contentTypeForExtension (extension : Str) : String :=
  match documentContentType extension with
  | some t => t
  | none => (imageContentType extension).getD octetStreamContentType

def usesPhotoPreview (extension : Str) (record : FileRecord) (maxImageBytes : Int) : Bool :=
  extension = ".heic".toList || extension = ".heif".toList ||
    ((imageContentType extension).isSome && decide (maxImageBytes < record.sizeBytes))

/-- `_is_archived`. -/
def recordIsArchived (record : FileRecord) : Bool :=
  record.isArchived || record.status = .archived ||
    ".zst".toList.isSuffixOf (Text.lower record.relativePath)

def decideRegistrationTarget (record : FileRecord) (maxImageBytes : Int) :
    Except Exc RegistrationDecision :=
  let extension := recordExtension record
  let contentType := contentTypeForExtension extension
  let skip := fun code => RegistrationDecision.make .skip record.relativePath contentType
    record.checksumSha256 (some code)
  let send := fun kind => RegistrationDecision.make kind record.relativePath contentType
    record.checksumSha256 none
  if record.fileSection = .private ∨ record.isEncrypted then .error .privateIndexRefused
  else if record.fileSection ≠ .files ∧ record.fileSection ≠ .photos then skip .excludedSection
  else if recordIsArchived record then skip .archived
  else if (documentContentType extension).isSome ∧ record.fileSection = .files then
    send .document
  else if (imageContentType extension).isSome ∧ record.sizeBytes ≤ maxImageBytes then send .image
  else if record.fileSection = .photos ∧ usesPhotoPreview extension record maxImageBytes then
    RegistrationDecision.make .preview (previewObjectKey record.userId record.id)
      jpegContentType none none
  else skip .unsupportedType

theorem RegistrationDecision.make_ok {kind : RegistrationKind} {s3Key : Str}
    {contentType : String} {contentSha256 : Option Digest} {skipCode : Option IndexSkipCode}
    {d : RegistrationDecision}
    (h : RegistrationDecision.make kind s3Key contentType contentSha256 skipCode = .ok d) :
    d.kind = kind ∧ d.s3Key = s3Key ∧ d.contentType = contentType ∧
      d.contentSha256 = contentSha256 ∧ d.skipCode = skipCode := by
  unfold RegistrationDecision.make at h
  split at h
  · cases h
    simp
  · cases h

theorem RegistrationDecision.make_isOk {kind : RegistrationKind} {s3Key : Str} {contentType : String}
    {contentSha256 : Option Digest} {skipCode : Option IndexSkipCode}
    (hskip : kind = .skip ↔ skipCode.isSome) (hpreview : kind = .preview → contentSha256 = none)
    (hkey : s3Key ≠ []) (htype : contentType ≠ "") :
    (RegistrationDecision.make kind s3Key contentType contentSha256 skipCode).isOk = true := by
  unfold RegistrationDecision.make
  rw [dif_pos ⟨hskip, hpreview, hkey, htype⟩]
  rfl

theorem contentType_ne (extension : Str) : contentTypeForExtension extension ≠ "" := by
  unfold contentTypeForExtension documentContentType imageContentType
  split_ifs <;> decide

/-- Whatever else is not refused, as long as the record has a path. -/
theorem decide_isOk {record : FileRecord} {maxImageBytes : Int}
    (hindexed : ¬ (record.fileSection = .private ∨ record.isEncrypted = true))
    (hpath : record.relativePath ≠ []) :
    (decideRegistrationTarget record maxImageBytes).isOk = true := by
  have htype := contentType_ne (recordExtension record)
  simp only [decideRegistrationTarget, if_neg hindexed]
  split_ifs
  · exact RegistrationDecision.make_isOk (by decide) (by intro h; cases h) hpath htype
  · exact RegistrationDecision.make_isOk (by decide) (by intro h; cases h) hpath htype
  · exact RegistrationDecision.make_isOk (by decide) (by intro h; cases h) hpath htype
  · exact RegistrationDecision.make_isOk (by decide) (by intro h; cases h) hpath htype
  · have hkey : previewObjectKey record.userId record.id ≠ [] :=
      List.append_ne_nil_of_right_ne_nil _ (by decide)
    exact RegistrationDecision.make_isOk (by decide) (fun _ => rfl) hkey (by decide)
  · exact RegistrationDecision.make_isOk (by decide) (by intro h; cases h) hpath htype

end WebStorage
