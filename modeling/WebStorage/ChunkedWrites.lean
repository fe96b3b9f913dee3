import WebStorage.Pieces
import WebStorage.BucketFaults

set_option autoImplicit false

/-! Writes of any size: the calls that `write` makes depend on the bytes of its input and not on the
chunks, what is left when the input or a part upload raises, and the ranges of a large copy. -/
namespace WebStorage.S3
open Effect Effect.Prog Pieces

/-! ### The parts -/

/-- Uploads pieces in their order. -/
def uploadPieces (key uploadId : Str) : Nat → List (Nat × Str) → List Bytes →
    S3M (Nat × List (Nat × Str))
  | partNumber, parts, [] => pure (partNumber, parts)
  | partNumber, parts, piece :: rest => do
    let tag ← send (.uploadPart key uploadId partNumber piece)
    uploadPieces key uploadId (partNumber + 1) (parts ++ [(partNumber, tag)]) rest

/-- How the loop over the input ends: with its exception, or the upload is completed. -/
def endUpload (key uploadId : Str) (failure : Option Exc) (parts : List (Nat × Str)) : S3M Unit :=
  match failure with
  | some e => Prog.raise e
  | none => send (.completeMultipartUpload key uploadId parts)

/-- The pieces that an input is uploaded in. -/
def ByteStream.parts (failure : Option Exc) (body : Bytes) : List Bytes :=
  if failure = none then cut multipartPartSize body else pieces multipartPartSize body

section
variable {key uploadId : Str} {failure : Option Exc}

theorem uploadPieces_append (first rest : List Bytes) : ∀ (partNumber : Nat) (parts : List (Nat × Str)),
    uploadPieces key uploadId partNumber parts (first ++ rest) =
      (uploadPieces key uploadId partNumber parts first).bind
        fun x => uploadPieces key uploadId x.1 x.2 rest := by
  induction first with
  | nil => exact fun _ _ => rfl
  | cons piece first ih =>
    intro partNumber parts
    rw [List.cons_append, uploadPieces, uploadPieces, bind_eq, bind_eq, Effect.bind_assoc]
    apply congrArg
    funext tag
    exact ih _ _

theorem uploadFullParts_eq (partNumber : Nat) (parts : List (Nat × Str)) (buffer : Bytes) :
    S3StorageAdapter.uploadFullParts key uploadId partNumber parts buffer =
      (uploadPieces key uploadId partNumber parts (pieces multipartPartSize buffer)).bind
        fun x => done (.ok (x.1, x.2, remainder multipartPartSize buffer)) := by
  induction hn : buffer.length using Nat.strongRecOn generalizing partNumber parts buffer with
  | ind n ih =>
    have hpart := multipartPartSize_pos
    unfold S3StorageAdapter.uploadFullParts
    by_cases hfull : multipartPartSize ≤ buffer.length
    · have hshort : (buffer.drop multipartPartSize).length < n := by
        rw [List.length_drop]
        omega
      rw [dif_pos hfull, pieces_of_le hpart hfull, remainder_of_le hpart hfull, uploadPieces,
        bind_eq, bind_eq, Effect.bind_assoc]
      apply congrArg
      funext tag
      exact ih _ hshort _ _ _ rfl
    · have hlt : buffer.length < multipartPartSize := Nat.lt_of_not_le hfull
      rw [dif_neg hfull, pieces_of_lt hlt, remainder_of_lt hlt]
      rfl

theorem ByteStream.parts_append (body rest : Bytes) :
    ByteStream.parts failure (body ++ rest) = pieces multipartPartSize body ++
      ByteStream.parts failure (remainder multipartPartSize body ++ rest) := by
  unfold ByteStream.parts
  split
  · exact cut_split multipartPartSize_pos body rest
  · exact pieces_append multipartPartSize_pos body rest

/-- The chunks only matter through the bytes they come to. -/
theorem uploadChunks_eq (chunks : List Bytes) : ∀ (partNumber : Nat) (parts : List (Nat × Str))
    (buffer : Bytes), buffer.length < multipartPartSize →
    S3StorageAdapter.uploadChunks key uploadId failure chunks partNumber parts buffer =
      (uploadPieces key uploadId partNumber parts
        (ByteStream.parts failure (buffer ++ chunks.flatten))).bind
        fun x => endUpload key uploadId failure x.2 := by
  induction chunks with
  | nil =>
    intro partNumber parts buffer hlt
    rw [List.flatten_nil, List.append_nil]
    unfold S3StorageAdapter.uploadChunks ByteStream.parts endUpload
    cases failure with
    | some e =>
      rw [if_neg (Option.some_ne_none e), pieces_of_lt hlt]
      rfl
    | none =>
      rw [if_pos rfl, cut, pieces_of_lt hlt, remainder_of_lt hlt, List.nil_append]
      unfold S3StorageAdapter.completeMultipart
      by_cases hnil : buffer = []
      · rw [if_pos hnil, if_pos hnil]
        rfl
      · rw [if_neg hnil, if_neg hnil, uploadPieces, bind_eq, bind_eq, Effect.bind_assoc]
        rfl
  | cons chunk chunks ih =>
    intro partNumber parts buffer hlt
    unfold S3StorageAdapter.uploadChunks
    rw [uploadFullParts_eq, List.flatten_cons, ← List.append_assoc, ByteStream.parts_append,
      uploadPieces_append, bind_eq, Effect.bind_assoc, Effect.bind_assoc]
    apply congrArg
    funext x
    exact ih _ _ _ (remainder_lt multipartPartSize_pos _)

/-- The multipart upload of a body. -/
def uploadBody (key : Str) (failure : Option Exc) (body : Bytes) : S3M Unit := do
  let uploadId ← send (.createMultipartUpload key)
  ((uploadPieces key uploadId 1 [] (ByteStream.parts failure body)).bind
    fun x => endUpload key uploadId failure x.2).catchWith fun
      | .pathTraversal => Prog.raise .pathTraversal
      | e => do
        S3StorageAdapter.abortMultipart key uploadId
        Prog.raise e

theorem writeMultipart_eq (chunks : List Bytes) (buffer : Bytes) :
    S3StorageAdapter.writeMultipart key failure chunks buffer =
      uploadBody key failure (buffer ++ chunks.flatten) := by
  unfold S3StorageAdapter.writeMultipart uploadBody
  rw [bind_eq, bind_eq]
  apply congrArg
  funext uploadId
  have hbody : ((S3StorageAdapter.uploadFullParts key uploadId 1 [] buffer).bind fun x =>
        S3StorageAdapter.uploadChunks key uploadId failure chunks x.1 x.2.1 x.2.2) =
      (uploadPieces key uploadId 1 [] (ByteStream.parts failure (buffer ++ chunks.flatten))).bind
        fun x => endUpload key uploadId failure x.2 := by
    rw [uploadFullParts_eq, ByteStream.parts_append, uploadPieces_append, Effect.bind_assoc,
      Effect.bind_assoc]
    apply congrArg
    funext x
    exact uploadChunks_eq chunks _ _ _ (remainder_lt multipartPartSize_pos _)
  rw [← hbody]
  rfl

/-- The end of a write that has not begun an upload. -/
def putBody (key : Str) (failure : Option Exc) (body : Bytes) : S3M Unit :=
  match failure with
  | some e => Prog.raise e
  | none => send (.putObject key body)

theorem writeChunks_eq (chunks : List Bytes) : ∀ buffer : Bytes, buffer.length < multipartPartSize →
    S3StorageAdapter.writeChunks key failure chunks buffer =
      if (buffer ++ chunks.flatten).length < multipartPartSize
        then putBody key failure (buffer ++ chunks.flatten)
        else uploadBody key failure (buffer ++ chunks.flatten) := by
  induction chunks with
  | nil =>
    intro buffer hlt
    rw [List.flatten_nil, List.append_nil, if_pos hlt]
    rfl
  | cons chunk chunks ih =>
    intro buffer hlt
    unfold S3StorageAdapter.writeChunks
    rw [List.flatten_cons, ← List.append_assoc]
    by_cases hfull : multipartPartSize ≤ (buffer ++ chunk).length
    · have hlong : ¬ (buffer ++ chunk ++ chunks.flatten).length < multipartPartSize := by
        rw [List.length_append]
        omega
      rw [if_pos hfull, if_neg hlong, writeMultipart_eq]
    · rw [if_neg hfull]
      exact ih _ (Nat.lt_of_not_le hfull)

end

/-- What a write of some bytes comes to. -/
theorem write_eq {s : S3StorageAdapter} {path key : Str} (hkey : objectKey s.adapter path = .ok key)
    (hne : key ≠ []) (hfile : ¬ ['/'] <:+ key) (data : ByteStream) :
    s.write path data = (if data.chunks.flatten.length < multipartPartSize
      then putBody key data.failure data.chunks.flatten
      else uploadBody key data.failure data.chunks.flatten).bind
        fun _ => done (.ok (s.sha256 data.chunks.flatten)) := by
  have hwrite : s.write path data = (S3StorageAdapter.writeChunks key data.failure data.chunks []).bind
      fun _ => done (.ok (s.sha256 data.chunks.flatten)) := by
    unfold S3StorageAdapter.write S3StorageAdapter.key
    rw [hkey]
    show (if key = [] ∨ ['/'] <:+ key then _ else _) = _
    rw [if_neg (not_or.2 ⟨hne, hfile⟩)]
    rfl
  have hempty : ([] : Bytes).length < multipartPartSize := multipartPartSize_pos
  rw [hwrite, writeChunks_eq _ _ hempty, List.nil_append]

/-! ### The service -/

/-- The service during one operation: when it makes each of its calls, and which part uploads
raise. A part that raises may have been stored all the same (`true`). -/
structure PartService where
  clock : Nat → Time
  raises : Nat → Option (Exc × Bool)

namespace PartService
variable (h : PartService)

def raised : S3Cmd → Option (Exc × Bool)
  | .uploadPart _ _ partNumber _ => h.raises partNumber
  | _ => none

/-- The answers, with the calls made so far. -/
def serve (c : S3Cmd) (s : Bucket × List S3Cmd) : Except Exc c.Resp × (Bucket × List S3Cmd) :=
  let served := Bucket.serve (h.clock s.2.length) c s.1
  match h.raised c with
  | none => (served.1, served.2, s.2 ++ [c])
  | some (e, stored) => (.error e, if stored then served.2 else s.1, s.2 ++ [c])

/-- The pieces that are uploaded, from a part number on: up to the first that raises. -/
def sent : Nat → List Bytes → List Bytes
  | _, [] => []
  | partNumber, piece :: rest =>
    match h.raises partNumber with
    | some _ => [piece]
    | none => piece :: sent (partNumber + 1) rest

/-- What the first part upload that raises does raise. -/
def firstRaised : Nat → Nat → Option Exc
  | _, 0 => none
  | partNumber, count + 1 =>
    match h.raises partNumber with
    | some (e, _) => some e
    | none => firstRaised (partNumber + 1) count

end PartService

/-- The calls that upload pieces. -/
def partCalls (key uploadId : Str) : Nat → List Bytes → List S3Cmd
  | _, [] => []
  | partNumber, piece :: rest =>
    .uploadPart key uploadId partNumber piece :: partCalls key uploadId (partNumber + 1) rest

/-- The parts that are uploaded by calls, with their numbers. -/
def uploadedParts (calls : List S3Cmd) : List (Nat × Bytes) := calls.filterMap fun
  | .uploadPart _ _ partNumber body => some (partNumber, body)
  | _ => none

section
variable {h : PartService} {b t : Bucket} {key : Str} {calls : List S3Cmd} {slot : Nat}

section
variable {partNumber : Nat} {e : Exc} {stored : Bool} (count : Nat) (piece : Bytes) (rest : List Bytes)

theorem firstRaised_some (hraises : h.raises partNumber = some (e, stored)) :
    h.firstRaised partNumber (count + 1) = some e := by
  rw [PartService.firstRaised, hraises]

theorem firstRaised_none (hraises : h.raises partNumber = none) :
    h.firstRaised partNumber (count + 1) = h.firstRaised (partNumber + 1) count := by
  rw [PartService.firstRaised, hraises]

theorem sent_some (hraises : h.raises partNumber = some (e, stored)) :
    h.sent partNumber (piece :: rest) = [piece] := by
  rw [PartService.sent, hraises]

theorem sent_none (hraises : h.raises partNumber = none) :
    h.sent partNumber (piece :: rest) = piece :: h.sent (partNumber + 1) rest := by
  rw [PartService.sent, hraises]

end

theorem sent_start (pieces : List Bytes) : ∀ partNumber, h.sent partNumber pieces <+: pieces := by
  induction pieces with
  | nil => exact fun _ => List.prefix_refl _
  | cons piece rest ih =>
    intro partNumber
    cases hraises : h.raises partNumber with
    | some x =>
      rw [sent_some piece rest hraises]
      exact List.prefix_append [piece] rest
    | none =>
      rw [sent_none piece rest hraises]
      exact (List.prefix_cons_inj piece).2 (ih _)

theorem sent_all (pieces : List Bytes) : ∀ partNumber,
    h.firstRaised partNumber pieces.length = none → h.sent partNumber pieces = pieces := by
  induction pieces with
  | nil => exact fun _ _ => rfl
  | cons piece rest ih =>
    intro partNumber hnone
    rw [List.length_cons] at hnone
    cases hraises : h.raises partNumber with
    | some x =>
      rw [firstRaised_some rest.length hraises] at hnone
      cases hnone
    | none =>
      rw [firstRaised_none rest.length hraises] at hnone
      rw [sent_none piece rest hraises, ih _ hnone]

/-- The numbers and bodies that the calls upload. -/
theorem uploadedParts_partCalls (uploadId : Str) (pieces : List Bytes) : ∀ partNumber,
    (uploadedParts (partCalls key uploadId partNumber pieces)).map (·.1) =
        List.range' partNumber pieces.length ∧
      (uploadedParts (partCalls key uploadId partNumber pieces)).map (·.2) = pieces := by
  induction pieces with
  | nil => exact fun _ => ⟨rfl, rfl⟩
  | cons piece rest ih =>
    intro partNumber
    obtain ⟨hnumbers, hbodies⟩ := ih (partNumber + 1)
    constructor
    · rw [List.length_cons, List.range'_succ]
      exact congrArg (partNumber :: ·) hnumbers
    · exact congrArg (piece :: ·) hbodies

/-- A call that is no part upload is answered by the bucket. -/
theorem serve_plain {c : S3Cmd} (hc : h.raised c = none) :
    h.serve c (b, calls) = ((Bucket.serve (h.clock calls.length) c b).1,
      (Bucket.serve (h.clock calls.length) c b).2, calls ++ [c]) := by
  unfold PartService.serve
  rw [hc]

/-- What the upload of some pieces leaves: the parts up to the first that raises. -/
structure Uploaded (h : PartService) (b : Bucket) (key : Str) (slot : Nat) (partNumber : Nat)
    (assembled : Bytes) (pieces : List Bytes) (calls : List S3Cmd)
    (r : Except Exc (Nat × List (Nat × Str))) (t : Bucket) (calls' : List S3Cmd) : Prop where
  calls : calls' = calls ++ partCalls key (List.replicate slot 'u') partNumber (h.sent partNumber pieces)
  unchanged : Unchanged b t
  raised : ∀ e, h.firstRaised partNumber pieces.length = some e → r = .error e
  assembling : h.firstRaised partNumber pieces.length = none →
    ∃ parts, r = .ok (partNumber + pieces.length, parts) ∧
      Assembling b t slot parts (partNumber + pieces.length) (assembled ++ pieces.flatten)

theorem run_uploadPieces (pieces : List Bytes) : ∀ (t : Bucket) (partNumber : Nat)
    (parts : List (Nat × Str)) (assembled : Bytes) (calls : List S3Cmd),
    Assembling b t slot parts partNumber assembled →
    ∃ r t' calls', (uploadPieces key (List.replicate slot 'u') partNumber parts pieces).run h.serve
        (t, calls) = (r, t', calls') ∧
      Uploaded h b key slot partNumber assembled pieces calls r t' calls' := by
  induction pieces with
  | nil =>
    intro t partNumber parts assembled calls hassembling
    refine ⟨_, _, _, rfl, ?_⟩
    constructor
    · exact (List.append_nil calls).symm
    · exact hassembling.unchanged
    · exact fun e he => by cases he
    · intro _
      refine ⟨parts, rfl, ?_⟩
      rw [List.flatten_nil, List.append_nil]
      exact hassembling
  | cons piece rest ih =>
    intro t partNumber parts assembled calls hassembling
    obtain ⟨t₁, hstore, hnext⟩ := storePart_assembling piece hassembling
    have hserve : Bucket.serve (h.clock calls.length)
        (.uploadPart key (List.replicate slot 'u') partNumber piece) t = (.ok [], t₁) := hstore
    rw [uploadPieces, bind_eq]
    cases hraises : h.raises partNumber with
    | some x =>
      obtain ⟨e, stored⟩ := x
      have hsent : (send (.uploadPart key (List.replicate slot 'u') partNumber piece) : S3M Str).run
          h.serve (t, calls) = (.error e, if stored then t₁ else t,
            calls ++ [.uploadPart key (List.replicate slot 'u') partNumber piece]) := by
        show h.serve _ _ = _
        unfold PartService.serve PartService.raised
        dsimp only
        rw [hserve, hraises]
      refine ⟨_, _, _, run_bind_error hsent _, ?_⟩
      constructor
      · rw [sent_some piece rest hraises]
        rfl
      · split
        · exact hnext.unchanged
        · exact hassembling.unchanged
      · intro e' he'
        rw [List.length_cons, firstRaised_some rest.length hraises] at he'
        cases he'
        rfl
      · intro hnone
        rw [List.length_cons, firstRaised_some rest.length hraises] at hnone
        cases hnone
    | none =>
      have hsent : (send (.uploadPart key (List.replicate slot 'u') partNumber piece) : S3M Str).run
          h.serve (t, calls) = (.ok [], t₁,
            calls ++ [.uploadPart key (List.replicate slot 'u') partNumber piece]) := by
        have hplain : h.raised (.uploadPart key (List.replicate slot 'u') partNumber piece) = none := hraises
        show h.serve _ _ = _
        rw [serve_plain hplain, hserve]
      obtain ⟨r, t', calls', hrun, hleft⟩ := ih t₁ (partNumber + 1) (parts ++ [(partNumber, [])])
        (assembled ++ piece) (calls ++ [.uploadPart key (List.replicate slot 'u') partNumber piece]) hnext
      refine ⟨r, t', calls', (run_bind_ok hsent _).trans hrun, ?_⟩
      have hlater : h.firstRaised partNumber (piece :: rest).length =
          h.firstRaised (partNumber + 1) rest.length := by
        rw [List.length_cons, firstRaised_none rest.length hraises]
      have hcount : partNumber + (piece :: rest).length = partNumber + 1 + rest.length := by
        rw [List.length_cons]
        omega
      constructor
      · rw [hleft.calls, sent_none piece rest hraises, partCalls, List.append_assoc]
        rfl
      · exact hleft.unchanged
      · rw [hlater]
        exact hleft.raised
      · rw [hlater, hcount, List.flatten_cons, ← List.append_assoc]
        exact hleft.assembling

theorem sent_append (first rest : List Bytes) : ∀ partNumber,
    h.firstRaised partNumber first.length = none →
    h.sent partNumber (first ++ rest) = first ++ h.sent (partNumber + first.length) rest := by
  induction first with
  | nil => exact fun _ _ => rfl
  | cons piece first ih =>
    intro partNumber hnone
    rw [List.length_cons] at hnone
    cases hraises : h.raises partNumber with
    | some x =>
      rw [firstRaised_some first.length hraises] at hnone
      cases hnone
    | none =>
      rw [firstRaised_none first.length hraises] at hnone
      have hnext : partNumber + 1 + first.length = partNumber + (piece :: first).length := by
        rw [List.length_cons]
        omega
      rw [List.cons_append, sent_none piece (first ++ rest) hraises, ih _ hnone, hnext]
      rfl

/-! ### A whole write -/

/-- How many parts an input comes to; where it raises, only the full ones are uploaded. -/
def ByteStream.partCount (data : ByteStream) : Nat :=
  if data.failure = none
    then (data.chunks.flatten.length + multipartPartSize - 1) / multipartPartSize
    else data.chunks.flatten.length / multipartPartSize

/-- The exception that strikes a write: that of the first part upload that raises, or else that of
the input. -/
def PartService.strikes (h : PartService) (data : ByteStream) : Option Exc :=
  if data.chunks.flatten.length < multipartPartSize then data.failure
  else (h.firstRaised 1 data.partCount).or data.failure

theorem length_cut (body : Bytes) : (cut multipartPartSize body).length =
    (body.length + multipartPartSize - 1) / multipartPartSize := by
  have hpart := multipartPartSize_pos
  have hlt := remainder_lt hpart body
  have hsum : body.length =
      body.length / multipartPartSize * multipartPartSize + (remainder multipartPartSize body).length := by
    have hle := Nat.div_mul_le_self body.length multipartPartSize
    unfold remainder
    rw [List.length_drop]
    omega
  generalize hcount : body.length / multipartPartSize = count at hsum
  unfold cut
  rw [List.length_append, length_pieces, hcount]
  split
  next hnil =>
    rw [hnil, List.length_nil, Nat.add_zero] at hsum
    symm
    rw [List.length_nil, Nat.add_zero, Nat.div_eq_iff hpart, hsum]
    constructor <;> omega
  next hnil =>
    have hsome : 0 < (remainder multipartPartSize body).length := List.length_pos_iff.2 hnil
    have hnext : (count + 1) * multipartPartSize = count * multipartPartSize + multipartPartSize :=
      Nat.succ_mul count _
    symm
    rw [List.length_singleton, Nat.div_eq_iff hpart, hsum]
    constructor <;> omega

theorem length_parts (data : ByteStream) :
    (ByteStream.parts data.failure data.chunks.flatten).length = data.partCount := by
  unfold ByteStream.parts ByteStream.partCount
  split
  · exact length_cut _
  · exact length_pieces

/-- The id of a new upload. -/
def newUpload (b : Bucket) : Str := List.replicate b.uploads.length 'u'

theorem serve_create (now : Time) : ∃ t, Bucket.serve now (.createMultipartUpload key) b =
    (.ok (newUpload b), t) ∧ Assembling b t b.uploads.length [] 1 [] := by
  refine ⟨⟨b.objects, b.key_unique, b.uploads ++ [[]]⟩, rfl, ?_⟩
  constructor
  case unchanged => exact .of_objects rfl
  case same => exact fun _ => rfl
  case earlier => exact fun _ h => by cases h
  case stored =>
    refine ⟨[], ?_, rfl⟩
    show (b.uploads ++ [[]])[b.uploads.length]? = _
    rw [List.getElem?_append_right (Nat.le_refl _), Nat.sub_self]
    rfl

/-- The calls of a multipart upload that is given up on an exception. The code does not abort it
when this is a `PathTraversalError`. -/
def abortCalls (key uploadId : Str) (e : Exc) : List S3Cmd :=
  if e = .pathTraversal then [] else [.abortMultipartUpload key uploadId]

/-- What a multipart upload leaves. -/
structure Multipart (h : PartService) (b : Bucket) (key : Str) (failure : Option Exc) (body : Bytes)
    (r : Except Exc Unit) (t : Bucket) (calls : List S3Cmd) : Prop where
  completed : (h.firstRaised 1 (ByteStream.parts failure body).length).or failure = none →
    r = .ok () ∧ Written b t key body ∧ ∃ parts, calls = .createMultipartUpload key ::
      partCalls key (newUpload b) 1 (ByteStream.parts failure body) ++
        [.completeMultipartUpload key (newUpload b) parts]
  aborted : ∀ e, (h.firstRaised 1 (ByteStream.parts failure body).length).or failure = some e →
    r = .error e ∧ Unchanged b t ∧ calls = .createMultipartUpload key ::
      partCalls key (newUpload b) 1 (h.sent 1 (ByteStream.parts failure body)) ++
        abortCalls key (newUpload b) e

/-- The exception of the `try` body is handled. -/
theorem run_giveUp {p : S3M Unit} {e : Exc} {u : Bucket} {made : List S3Cmd}
    (hp : p.run h.serve (b, calls) = (.error e, u, made)) (uploadId : Str) :
    (p.catchWith fun
      | .pathTraversal => Prog.raise .pathTraversal
      | e => (S3StorageAdapter.abortMultipart key uploadId).bind fun _ => Prog.raise e).run h.serve
        (b, calls) = (.error e, u, made ++ abortCalls key uploadId e) := by
  have habort : (S3StorageAdapter.abortMultipart key uploadId).run h.serve (u, made) =
      (.ok (), u, made ++ [.abortMultipartUpload key uploadId]) := rfl
  rw [run_catch_error hp]
  unfold abortCalls
  by_cases htraversal : e = .pathTraversal
  · subst htraversal
    rw [if_pos rfl, List.append_nil]
    rfl
  · rw [if_neg htraversal]
    have hother : (match e with
        | .pathTraversal => (Prog.raise .pathTraversal : S3M Unit)
        | e => (S3StorageAdapter.abortMultipart key uploadId).bind fun _ => Prog.raise e) =
        (S3StorageAdapter.abortMultipart key uploadId).bind fun _ => Prog.raise e := by
      cases e <;> first | rfl | exact absurd rfl htraversal
    rw [hother]
    exact (run_bind_ok habort _).trans rfl

theorem run_uploadBody (failure : Option Exc) (body : Bytes) :
    ∃ r t calls, (uploadBody key failure body).run h.serve (b, []) = (r, t, calls) ∧
      Multipart h b key failure body r t calls := by
  obtain ⟨t₁, hcreate, hassembling⟩ := serve_create (h.clock 0)
  have hsent : (send (.createMultipartUpload key) : S3M Str).run h.serve (b, []) =
      (.ok (newUpload b), t₁, [.createMultipartUpload key]) := by
    have hplain : h.raised (.createMultipartUpload key) = none := rfl
    show h.serve _ _ = _
    rw [serve_plain hplain, List.length_nil, hcreate]
    rfl
  have hpieces : ∃ r u made, (uploadPieces key (newUpload b) 1 [] (ByteStream.parts failure body)).run
      h.serve (t₁, [.createMultipartUpload key]) = (r, u, made) ∧
      Uploaded h b key b.uploads.length 1 [] (ByteStream.parts failure body)
        [.createMultipartUpload key] r u made :=
    run_uploadPieces (ByteStream.parts failure body) t₁ 1 [] [] _ hassembling
  obtain ⟨r, u, made, hrun, hleft⟩ := hpieces
  have hunchanged : Unchanged b u := hleft.unchanged
  unfold uploadBody
  rw [bind_eq, run_bind_ok hsent]
  cases hraised : h.firstRaised 1 (ByteStream.parts failure body).length with
  | some e =>
    have hr : r = .error e := hleft.raised e hraised
    subst hr
    refine ⟨_, _, _, run_giveUp (run_bind_error hrun _) (newUpload b), ?_⟩
    constructor
    · intro hnone
      rw [hraised] at hnone
      cases hnone
    · intro e' he'
      rw [hraised] at he'
      cases he'
      refine ⟨rfl, hunchanged, ?_⟩
      rw [hleft.calls]
      rfl
  | none =>
    obtain ⟨parts, hr, hassembled⟩ := hleft.assembling hraised
    subst hr
    have hall := sent_all (ByteStream.parts failure body) 1 hraised
    cases failure with
    | some e =>
      have hraise : ((uploadPieces key (newUpload b) 1 [] (ByteStream.parts (some e) body)).bind fun x =>
          endUpload key (newUpload b) (some e) x.2).run h.serve (t₁, [.createMultipartUpload key]) =
            (.error e, u, made) := (run_bind_ok hrun _).trans rfl
      refine ⟨_, _, _, run_giveUp hraise (newUpload b), ?_⟩
      constructor
      · intro hnone
        rw [hraised] at hnone
        cases hnone
      · intro e' he'
        rw [hraised] at he'
        cases he'
        refine ⟨rfl, hunchanged, ?_⟩
        rw [hleft.calls]
        rfl
    | none =>
      have hbody : [] ++ (ByteStream.parts none body).flatten = body := by
        unfold ByteStream.parts
        rw [if_pos rfl, List.nil_append, cut_flatten multipartPartSize_pos]
      rw [hbody] at hassembled
      obtain ⟨stored, hslot, hstored⟩ := hassembled.stored
      have hserve : Bucket.serve (h.clock made.length)
          (.completeMultipartUpload key (newUpload b) parts) u =
            (.ok (), u.put key body (h.clock made.length)) := by
        unfold newUpload
        simp only [Bucket.serve, List.length_replicate, hslot, Option.bind_some, hstored]
      have hcomplete : (send (.completeMultipartUpload key (newUpload b) parts) : S3M Unit).run h.serve
          (u, made) = (.ok (), u.put key body (h.clock made.length),
            made ++ [.completeMultipartUpload key (newUpload b) parts]) := by
        have hplain : h.raised (.completeMultipartUpload key (newUpload b) parts) = none := rfl
        show h.serve _ _ = _
        rw [serve_plain hplain, hserve]
      have hdone : ((uploadPieces key (newUpload b) 1 [] (ByteStream.parts none body)).bind fun x =>
          endUpload key (newUpload b) none x.2).run h.serve (t₁, [.createMultipartUpload key]) =
            (.ok (), u.put key body (h.clock made.length),
              made ++ [.completeMultipartUpload key (newUpload b) parts]) :=
        (run_bind_ok hrun _).trans hcomplete
      refine ⟨_, _, _, run_catch_ok hdone _, ?_⟩
      constructor
      · intro _
        refine ⟨rfl, ?_, parts, ?_⟩
        · intro k
          rw [content_put, hunchanged k]
        · rw [hleft.calls, hall]
          rfl
      · intro e' he'
        rw [hraised] at he'
        cases he'

theorem parts_prefix_cut (failure : Option Exc) (body : Bytes) :
    ByteStream.parts failure body <+: cut multipartPartSize body := by
  unfold ByteStream.parts
  split
  · exact List.prefix_refl _
  · exact pieces_prefix_cut

end

/-- What `write` is to do with an input, in a bucket where the service fails as `h` says. -/
structure WriteIntact (h : PartService) (s : S3StorageAdapter) (path key : Str) (data : ByteStream)
    (b : Bucket) : Prop where
  stored : h.strikes data = none → ∃ t calls,
    (s.write path data).run h.serve (b, []) = (.ok (s.sha256 data.chunks.flatten), t, calls) ∧
      Written b t key data.chunks.flatten
  numbered : ∀ r t calls, (s.write path data).run h.serve (b, []) = (r, t, calls) →
    (uploadedParts calls).map (·.1) = List.range' 1 (uploadedParts calls).length
  wellCut : ∀ r t calls, (s.write path data).run h.serve (b, []) = (r, t, calls) →
    WellCut multipartPartSize ((uploadedParts calls).map (·.2))
  complete : ∀ d t calls, (s.write path data).run h.serve (b, []) = (.ok d, t, calls) →
    .createMultipartUpload key ∈ calls →
    ((uploadedParts calls).map (·.2)).flatten = data.chunks.flatten
  /-- The input that raises behind some chunks shows what has been sent when the next is read. -/
  buffer : ∀ before, before <+: data.chunks →
    h.firstRaised 1 (before.flatten.length / multipartPartSize) = none →
    ∀ r t calls r' t' calls',
      (s.write path ⟨before, some .other⟩).run h.serve (b, []) = (r, t, calls) →
      (s.write path data).run h.serve (b, []) = (r', t', calls') →
      (uploadedParts calls).map (·.2) <+: (uploadedParts calls').map (·.2) ∧
        before.flatten.length < ((uploadedParts calls).map (·.2)).flatten.length + multipartPartSize
  raised : ∀ e, h.strikes data = some e → ∃ t calls,
    (s.write path data).run h.serve (b, []) = (.error e, t, calls) ∧ Unchanged b t ∧
      (.createMultipartUpload key ∈ calls →
        calls.getLast? = some (.abortMultipartUpload key (newUpload b)))

section
variable {h : PartService} {s : S3StorageAdapter} {path key : Str} {b : Bucket}

/-- The parts that a write has uploaded when it ends. -/
def PartService.uploads (h : PartService) (data : ByteStream) : List Bytes :=
  if data.chunks.flatten.length < multipartPartSize then []
  else h.sent 1 (ByteStream.parts data.failure data.chunks.flatten)

theorem uploadedParts_calls (key uploadId : Str) (made : List Bytes) {ending : List S3Cmd}
    (hending : uploadedParts ending = []) :
    (uploadedParts (.createMultipartUpload key :: partCalls key uploadId 1 made ++ ending)).map (·.1) =
        List.range' 1 made.length ∧
      (uploadedParts (.createMultipartUpload key :: partCalls key uploadId 1 made ++ ending)).map (·.2) =
        made := by
  have hcalls : uploadedParts (.createMultipartUpload key :: partCalls key uploadId 1 made ++ ending) =
      uploadedParts (partCalls key uploadId 1 made) := by
    unfold uploadedParts at *
    rw [List.cons_append, List.filterMap_cons_none rfl, List.filterMap_append, hending, List.append_nil]
  rw [hcalls]
  exact uploadedParts_partCalls uploadId made 1

theorem uploadedParts_abort (key uploadId : Str) (e : Exc) :
    uploadedParts (abortCalls key uploadId e) = [] := by
  unfold abortCalls
  split <;> rfl

/-- How a write ends, and with which calls. -/
theorem run_write (hkey : objectKey s.adapter path = .ok key) (hne : key ≠ [])
    (hfile : ¬ ['/'] <:+ key) (data : ByteStream) : ∃ r t calls,
    (s.write path data).run h.serve (b, []) = (r, t, calls) ∧
      (uploadedParts calls).map (·.1) = List.range' 1 (h.uploads data).length ∧
      (uploadedParts calls).map (·.2) = h.uploads data ∧
      (.createMultipartUpload key ∈ calls ↔ multipartPartSize ≤ data.chunks.flatten.length) ∧
      (h.strikes data = none → r = .ok (s.sha256 data.chunks.flatten) ∧
        Written b t key data.chunks.flatten) ∧
      ∀ e, h.strikes data = some e → r = .error e ∧ Unchanged b t ∧
        (multipartPartSize ≤ data.chunks.flatten.length → ∃ made,
          calls = .createMultipartUpload key :: partCalls key (newUpload b) 1 made ++
            abortCalls key (newUpload b) e) := by
  rw [write_eq hkey hne hfile data]
  by_cases hshort : data.chunks.flatten.length < multipartPartSize
  · have hstrikes : h.strikes data = data.failure := if_pos hshort
    have huploads : h.uploads data = [] := if_pos hshort
    have hlong : ¬ multipartPartSize ≤ data.chunks.flatten.length := Nat.not_le_of_lt hshort
    rw [if_pos hshort, hstrikes, huploads]
    unfold putBody
    cases data.failure with
    | some e =>
      refine ⟨.error e, b, [], rfl, rfl, rfl, ?_, ?_, ?_⟩
      · exact ⟨fun hin => absurd hin List.not_mem_nil, fun hle => absurd hle hlong⟩
      · exact fun hnone => by cases hnone
      · intro e' he'
        cases he'
        exact ⟨rfl, .refl b, fun hle => absurd hle hlong⟩
    | none =>
      refine ⟨.ok (s.sha256 data.chunks.flatten), b.put key data.chunks.flatten (h.clock 0),
        [.putObject key data.chunks.flatten], rfl, rfl, rfl, ?_, ?_, ?_⟩
      · constructor
        · intro hin
          cases List.mem_singleton.1 hin
        · exact fun hle => absurd hle hlong
      · exact fun _ => ⟨rfl, fun k => content_put b key _ _ k⟩
      · exact fun e he => by cases he
  · have hlong : multipartPartSize ≤ data.chunks.flatten.length := Nat.le_of_not_lt hshort
    have hstrikes : h.strikes data =
        (h.firstRaised 1 (ByteStream.parts data.failure data.chunks.flatten).length).or data.failure := by
      rw [length_parts]
      exact if_neg hshort
    have huploads : h.uploads data = h.sent 1 (ByteStream.parts data.failure data.chunks.flatten) :=
      if_neg hshort
    rw [if_neg hshort, hstrikes, huploads]
    have hbody : ∃ r t calls, (uploadBody key data.failure data.chunks.flatten).run h.serve (b, []) =
        (r, t, calls) ∧ Multipart h b key data.failure data.chunks.flatten r t calls :=
      run_uploadBody data.failure data.chunks.flatten
    obtain ⟨r, t, calls, hrun, hleft⟩ := hbody
    cases hstruck : (h.firstRaised 1 (ByteStream.parts data.failure data.chunks.flatten).length).or
        data.failure with
    | none =>
      obtain ⟨hr, hwritten, parts, hcalls⟩ := hleft.completed hstruck
      have hall := sent_all (ByteStream.parts data.failure data.chunks.flatten) 1
        (Option.or_eq_none_iff.1 hstruck).1
      have hmade := uploadedParts_calls key (newUpload b)
        (ByteStream.parts data.failure data.chunks.flatten)
        (show uploadedParts [.completeMultipartUpload key (newUpload b) parts] = [] from rfl)
      subst hr
      refine ⟨_, t, calls, run_bind_ok hrun _, ?_⟩
      rw [hcalls, hall]
      refine ⟨hmade.1, hmade.2, ?_, ?_, ?_⟩
      · exact ⟨fun _ => hlong, fun _ => List.mem_cons_self⟩
      · exact fun _ => ⟨rfl, hwritten⟩
      · exact fun e he => by cases he
    | some e =>
      obtain ⟨hr, hunchanged, hcalls⟩ := hleft.aborted e hstruck
      have hmade := uploadedParts_calls key (newUpload b)
        (h.sent 1 (ByteStream.parts data.failure data.chunks.flatten))
        (uploadedParts_abort key (newUpload b) e)
      subst hr
      refine ⟨_, t, calls, run_bind_error hrun _, ?_⟩
      rw [hcalls]
      refine ⟨hmade.1, hmade.2, ?_, ?_, ?_⟩
      · exact ⟨fun _ => hlong, fun _ => List.mem_cons_self⟩
      · exact fun hnone => by cases hnone
      · intro e' he'
        cases he'
        exact ⟨rfl, hunchanged, fun _ => ⟨_, rfl⟩⟩

/-- What has been sent for the first chunks is sent for all of them. -/
theorem uploads_before {data : ByteStream} {before : List Bytes} (hbefore : before <+: data.chunks)
    (hnone : h.firstRaised 1 (before.flatten.length / multipartPartSize) = none) :
    h.uploads ⟨before, some .other⟩ = pieces multipartPartSize before.flatten ∧
      pieces multipartPartSize before.flatten <+: h.uploads data := by
  obtain ⟨rest, hrest⟩ := hbefore
  have hflat : data.chunks.flatten = before.flatten ++ rest.flatten := by
    rw [← hrest, List.flatten_append]
  have hquiet : h.firstRaised 1 (pieces multipartPartSize before.flatten).length = none := by
    rw [length_pieces]
    exact hnone
  constructor
  · unfold PartService.uploads
    split
    next hshort =>
      have hlt : before.flatten.length < multipartPartSize := hshort
      rw [pieces_of_lt hlt]
    next => exact sent_all _ 1 hquiet
  · unfold PartService.uploads
    split
    next hshort =>
      have hlt : before.flatten.length < multipartPartSize := by
        rw [hflat, List.length_append] at hshort
        omega
      rw [pieces_of_lt hlt]
    next =>
      rw [hflat, ByteStream.parts_append, sent_append _ _ 1 hquiet]
      exact List.prefix_append _ _

theorem uploads_prefix_cut (data : ByteStream) :
    h.uploads data <+: cut multipartPartSize data.chunks.flatten := by
  unfold PartService.uploads
  split
  · exact List.nil_prefix
  · exact (sent_start _ 1).trans (parts_prefix_cut _ _)

/-- A write that nothing strikes uploads its input to the end. -/
theorem uploads_all {data : ByteStream} (hlong : multipartPartSize ≤ data.chunks.flatten.length)
    (hnone : h.strikes data = none) : h.uploads data = cut multipartPartSize data.chunks.flatten := by
  have hshort : ¬ data.chunks.flatten.length < multipartPartSize := Nat.not_lt_of_le hlong
  unfold PartService.strikes at hnone
  rw [if_neg hshort, Option.or_eq_none_iff, ← length_parts] at hnone
  unfold PartService.uploads
  rw [if_neg hshort, sent_all _ 1 hnone.1]
  exact if_pos hnone.2

theorem mem_partCalls {uploadId : Str} {c : S3Cmd} (made : List Bytes) : ∀ partNumber,
    c ∈ partCalls key uploadId partNumber made →
      ∃ number body, c = .uploadPart key uploadId number body := by
  induction made with
  | nil => exact fun _ hin => absurd hin List.not_mem_nil
  | cons piece rest ih =>
    intro partNumber hin
    rcases List.mem_cons.1 hin with hfirst | hlater
    · exact ⟨_, _, hfirst⟩
    · exact ih _ hlater

theorem not_aborted {uploadId : Str} (made : List Bytes) : .abortMultipartUpload key uploadId ∉
    .createMultipartUpload key :: partCalls key uploadId 1 made ++ abortCalls key uploadId .pathTraversal := by
  intro hin
  unfold abortCalls at hin
  rw [if_pos rfl, List.append_nil] at hin
  rcases List.mem_cons.1 hin with hfirst | hpart
  · cases hfirst
  · obtain ⟨partNumber, body, hcall⟩ := mem_partCalls made 1 hpart
    cases hcall

/-- A write does what it is to do, unless a `PathTraversalError` strikes it behind a full part. -/
theorem writeIntact_iff (hkey : objectKey s.adapter path = .ok key) (hne : key ≠ [])
    (hfile : ¬ ['/'] <:+ key) (data : ByteStream) : WriteIntact h s path key data b ↔
      (h.strikes data = some .pathTraversal → data.chunks.flatten.length < multipartPartSize) := by
  obtain ⟨r, t, calls, hrun, hnumbers, hbodies, hcreate, hstored, hstruck⟩ :=
    run_write (h := h) (b := b) hkey hne hfile data
  have hlength : (uploadedParts calls).length = (h.uploads data).length := by
    rw [← hbodies, List.length_map]
  constructor
  · intro hintact hstrikes
    by_contra hshort
    have hlong := Nat.le_of_not_lt hshort
    obtain ⟨t', calls', hrun', -, habort⟩ := hintact.raised _ hstrikes
    rw [hrun] at hrun'
    cases hrun'
    obtain ⟨-, -, hcalls⟩ := hstruck _ hstrikes
    obtain ⟨made, hmade⟩ := hcalls hlong
    have hlast := habort (hcreate.2 hlong)
    have hin : S3Cmd.abortMultipartUpload key (newUpload b) ∈ calls := List.mem_of_getLast? hlast
    rw [hmade] at hin
    exact not_aborted made hin
  · intro hspared
    constructor
    case stored =>
      intro hnone
      obtain ⟨hr, hwritten⟩ := hstored hnone
      exact ⟨t, calls, hr ▸ hrun, hwritten⟩
    case numbered =>
      intro r' t' calls' hrun'
      rw [hrun] at hrun'
      cases hrun'
      rw [hnumbers, hlength]
    case wellCut =>
      intro r' t' calls' hrun'
      rw [hrun] at hrun'
      cases hrun'
      rw [hbodies]
      exact wellCut_of_prefix (wellCut_cut multipartPartSize_pos _) (uploads_prefix_cut data)
    case complete =>
      intro d t' calls' hrun' hin
      rw [hrun] at hrun'
      cases hrun'
      have hnone : h.strikes data = none := by
        cases hstrikes : h.strikes data with
        | none => rfl
        | some e =>
          have hraised := (hstruck e hstrikes).1
          cases hraised
      rw [hbodies, uploads_all (hcreate.1 hin) hnone, cut_flatten multipartPartSize_pos]
    case buffer =>
      intro before hbefore hnone r₁ t₁ calls₁ r₂ t₂ calls₂ hrun₁ hrun₂
      rw [hrun] at hrun₂
      cases hrun₂
      obtain ⟨r', t', calls', hrun', -, hbodies', -⟩ :=
        run_write (h := h) (b := b) hkey hne hfile ⟨before, some .other⟩
      rw [hrun₁] at hrun'
      cases hrun'
      obtain ⟨huploads, hstart⟩ := uploads_before hbefore hnone
      rw [hbodies', huploads, hbodies]
      refine ⟨hstart, ?_⟩
      have hflat := congrArg List.length (pieces_flatten multipartPartSize_pos before.flatten)
      have hrest := remainder_lt multipartPartSize_pos before.flatten
      rw [List.length_append] at hflat
      omega
    case raised =>
      intro e hstrikes
      obtain ⟨hr, hunchanged, hcalls⟩ := hstruck e hstrikes
      refine ⟨t, calls, hr ▸ hrun, hunchanged, ?_⟩
      intro hin
      obtain ⟨made, hmade⟩ := hcalls (hcreate.1 hin)
      have hother : e ≠ .pathTraversal := by
        intro heq
        have hshort := hspared (heq ▸ hstrikes)
        have hlong := hcreate.1 hin
        omega
      rw [hmade]
      unfold abortCalls
      rw [if_neg hother, List.getLast?_concat]

end

/-! ### Large copies -/

/-- The number of parts of a copy. -/
def copyCount (size : Nat) : Nat := (size + multipartPartSize - 1) / multipartPartSize

theorem copyCount_bounds (size : Nat) : size ≤ copyCount size * multipartPartSize ∧
    (copyCount size - 1) * multipartPartSize < size ∨ size = 0 ∧ copyCount size = 0 := by
  have hpart := multipartPartSize_pos
  by_cases hzero : size = 0
  · refine .inr ⟨hzero, ?_⟩
    unfold copyCount
    rw [hzero]
    exact Nat.div_eq_of_lt (by omega)
  · have hmod := Nat.div_add_mod (size + multipartPartSize - 1) multipartPartSize
    have hlt := Nat.mod_lt (size + multipartPartSize - 1) hpart
    have hcomm := Nat.mul_comm multipartPartSize ((size + multipartPartSize - 1) / multipartPartSize)
    have hle := Nat.div_mul_le_self (size + multipartPartSize - 1) multipartPartSize
    have hsub := Nat.sub_one_mul (copyCount size) multipartPartSize
    left
    unfold copyCount at *
    omega

theorem offset_lt {size i : Nat} (hi : i < copyCount size) : i * multipartPartSize < size := by
  rcases copyCount_bounds size with hbounds | hzero
  · have hle : i * multipartPartSize ≤ (copyCount size - 1) * multipartPartSize :=
      Nat.mul_le_mul_right _ (by omega)
    omega
  · omega

theorem offset_ge {size i : Nat} (hi : copyCount size ≤ i) : size ≤ i * multipartPartSize := by
  have hmul : copyCount size * multipartPartSize ≤ i * multipartPartSize := Nat.mul_le_mul_right _ hi
  rcases copyCount_bounds size with hbounds | hzero <;> omega

/-- A part of a copy: its number, and its first and last byte. -/
abbrev CopyRange := Nat × Nat × Nat

/-- The ranges that calls copy. -/
def copiedRanges (calls : List S3Cmd) : List CopyRange := calls.filterMap fun
  | .uploadPartCopy _ _ partNumber _ first last => some (partNumber, first, last)
  | _ => none

/-- Ranges that cut `[0, size)` into numbered parts. -/
structure Partitions (size : Nat) (ranges : List CopyRange) : Prop where
  numbered : ranges.map (·.1) = List.range' 1 ranges.length
  nonempty : ∀ range ∈ ranges, range.2.1 ≤ range.2.2
  covers : (ranges.flatMap fun range => List.range' range.2.1 (range.2.2 + 1 - range.2.1)) =
    List.range size

/-- The range of the part at an index. -/
def copyRange (size i : Nat) : CopyRange :=
  (i + 1, i * multipartPartSize, min (i * multipartPartSize + multipartPartSize) size - 1)

theorem ranges_cover (size : Nat) : ∀ count, count ≤ copyCount size →
    (((List.range count).map (copyRange size)).flatMap fun range =>
      List.range' range.2.1 (range.2.2 + 1 - range.2.1)) =
        List.range (min (count * multipartPartSize) size) := by
  intro count
  induction count with
  | zero =>
    intro _
    have hzero : min (0 * multipartPartSize) size = 0 := by omega
    rw [hzero]
    rfl
  | succ count ih =>
    intro hcount
    have hpart := multipartPartSize_pos
    have hlt : count * multipartPartSize < size := offset_lt (by omega)
    have hsucc : (count + 1) * multipartPartSize = count * multipartPartSize + multipartPartSize :=
      Nat.succ_mul count _
    have hmin : min (count * multipartPartSize) size = count * multipartPartSize :=
      Nat.min_eq_left hlt.le
    have hsum : min ((count + 1) * multipartPartSize) size = count * multipartPartSize +
        (min (count * multipartPartSize + multipartPartSize) size - 1 + 1 -
          count * multipartPartSize) := by
      rw [hsucc]
      omega
    have hlast : List.range' 0 (count * multipartPartSize) ++
        List.range' (0 + 1 * (count * multipartPartSize))
          (min (count * multipartPartSize + multipartPartSize) size - 1 + 1 -
            count * multipartPartSize) =
        List.range' 0 (min ((count + 1) * multipartPartSize) size) := by
      rw [hsum, List.range'_append]
    rw [Nat.zero_add, Nat.one_mul] at hlast
    rw [List.range_succ, List.map_append, List.flatMap_append, ih (by omega), hmin,
      List.range_eq_range', List.range_eq_range', ← hlast, List.map_singleton, List.flatMap_singleton]
    rfl

theorem ranges_partition (size : Nat) :
    Partitions size ((List.range (copyCount size)).map (copyRange size)) := by
  constructor
  case numbered =>
    rw [List.map_map, List.length_map, List.length_range, List.range_eq_range',
      List.range'_eq_map_range, List.range'_eq_map_range, List.map_map]
    apply List.map_congr_left
    intro i _
    show 0 + i + 1 = 1 + i
    omega
  case nonempty =>
    intro range hrange
    obtain ⟨i, hi, heq⟩ := List.mem_map.1 hrange
    have hpart := multipartPartSize_pos
    have hlt := offset_lt (List.mem_range.1 hi)
    rw [← heq]
    show i * multipartPartSize ≤ min (i * multipartPartSize + multipartPartSize) size - 1
    omega
  case covers =>
    rw [ranges_cover size _ (Nat.le_refl _), Nat.min_eq_right (offset_ge (Nat.le_refl _))]

section
variable {h : PartService} {b : Bucket} {source key : Str} {o : StoredObject}

theorem storePart_ok {t : Bucket} {slot : Nat} (hslot : slot < t.uploads.length) (partNumber : Nat)
    (body : Bytes) : ∃ t', t.storePart (List.replicate slot 'u') partNumber body = (.ok [], t') ∧
      t'.objects = t.objects ∧ t'.uploads.length = t.uploads.length := by
  have hstored : t.uploads[slot]? = some t.uploads[slot] := List.getElem?_eq_getElem hslot
  refine ⟨⟨t.objects, t.key_unique, t.uploads.set slot ((partNumber, body) :: t.uploads[slot])⟩, ?_,
    rfl, List.length_set⟩
  simp only [Bucket.storePart, List.length_replicate, hstored]

/-- The call that copies the part at an index. -/
def copyCall (source key uploadId : Str) (size i : Nat) : S3Cmd :=
  .uploadPartCopy key uploadId (i + 1) source (i * multipartPartSize)
    (min (i * multipartPartSize + multipartPartSize) size - 1)

theorem run_copyParts (slot size count : Nat) :
    ∀ (i : Nat) (t : Bucket) (parts : List (Nat × Str)) (made : List S3Cmd),
      t.get source = some o → slot < t.uploads.length →
      ∃ r t' parts', (S3StorageAdapter.copyParts source key (List.replicate slot 'u') size
          ((List.range' i count).map (· * multipartPartSize)) (i + 1) parts).run h.serve (t, made) =
        (r, t', made ++ (List.range' i count).map (copyCall source key (List.replicate slot 'u') size) ++
          [.completeMultipartUpload key (List.replicate slot 'u') parts']) := by
  induction count with
  | zero =>
    intro i t parts made _ _
    let c : S3Cmd := .completeMultipartUpload key (List.replicate slot 'u') parts
    refine ⟨(Bucket.serve (h.clock made.length) c t).1, (Bucket.serve (h.clock made.length) c t).2,
      parts, ?_⟩
    rw [List.range'_zero, List.map_nil, List.map_nil, List.append_nil]
    rfl
  | succ count ih =>
    intro i t parts made hget hslot
    obtain ⟨t₁, hstore, hobjects₁, huploads₁⟩ := storePart_ok hslot (i + 1)
      ((o.body.drop (i * multipartPartSize)).take
        (min (i * multipartPartSize + multipartPartSize) size - 1 + 1 - i * multipartPartSize))
    have hserve : Bucket.serve (h.clock made.length)
        (copyCall source key (List.replicate slot 'u') size i) t = (.ok [], t₁) := by
      simp only [copyCall, Bucket.serve, hget, hstore]
    have hget₁ : t₁.get source = some o := by
      unfold Bucket.get at *
      rw [hobjects₁, hget]
    have hsent : (send (copyCall source key (List.replicate slot 'u') size i)).run h.serve (t, made) =
        (.ok [], t₁, made ++ [copyCall source key (List.replicate slot 'u') size i]) := by
      have hplain : h.raised (copyCall source key (List.replicate slot 'u') size i) = none := rfl
      show h.serve _ _ = _
      rw [serve_plain hplain, hserve]
    obtain ⟨r, t', parts', hrun⟩ := ih (i + 1) t₁ (parts ++ [(i + 1, [])])
      (made ++ [copyCall source key (List.replicate slot 'u') size i]) hget₁
      (huploads₁ ▸ hslot)
    refine ⟨r, t', parts', ?_⟩
    rw [List.range'_succ, List.map_cons, List.map_cons]
    unfold S3StorageAdapter.copyParts
    dsimp only
    rw [bind_eq]
    refine (run_bind_ok hsent _).trans ?_
    rw [hrun, List.append_assoc, List.append_assoc, List.append_assoc]
    rfl

theorem copiedRanges_calls (uploadId : Str) (size : Nat) (first rest : List S3Cmd)
    (hfirst : copiedRanges first = []) (hrest : copiedRanges rest = []) :
    copiedRanges (first ++ (List.range' 0 (copyCount size)).map (copyCall source key uploadId size) ++ rest) =
      (List.range (copyCount size)).map (copyRange size) := by
  have hmade : ∀ is : List Nat, copiedRanges (is.map (copyCall source key uploadId size)) =
      is.map (copyRange size) := by
    intro is
    induction is with
    | nil => rfl
    | cons i is ih => exact congrArg (copyRange size i :: ·) ih
  have hmiddle := hmade (List.range' 0 (copyCount size))
  unfold copiedRanges at *
  rw [List.filterMap_append, List.filterMap_append, hfirst, hrest, List.nil_append, List.append_nil,
    hmiddle, List.range_eq_range']

/-- A large object is copied in ranges that partition it. -/
theorem copyObject_partitions (hget : b.get source = some o)
    (hlarge : copyObjectMaxBytes ≤ o.body.length) {r : Except Exc Unit} {t : Bucket}
    {calls : List S3Cmd}
    (hrun : (S3StorageAdapter.copyObject source key).run h.serve (b, []) = (r, t, calls)) :
    Partitions o.body.length (copiedRanges calls) := by
  have hserve : (send (.headObject source) : S3M Nat).run h.serve (b, []) =
      (.ok o.body.length, b, [.headObject source]) := by
    have hplain : h.raised (.headObject source) = none := rfl
    show h.serve _ _ = _
    rw [serve_plain hplain]
    simp only [Bucket.serve, hget]
    rfl
  have hhead : (S3StorageAdapter.orNotFound (send (.headObject source))).run h.serve (b, []) =
      (.ok o.body.length, b, [.headObject source]) := run_catch_ok hserve _
  have hnew : ∃ t, Bucket.serve (h.clock 1) (.createMultipartUpload key) b = (.ok (newUpload b), t) ∧
      Assembling b t b.uploads.length [] 1 [] := serve_create (h.clock 1)
  obtain ⟨t₁, hcreate, hassembling⟩ := hnew
  have hsent : (send (.createMultipartUpload key) : S3M Str).run h.serve (b, [.headObject source]) =
      (.ok (newUpload b), t₁, [.headObject source, .createMultipartUpload key]) := by
    have hplain : h.raised (.createMultipartUpload key) = none := rfl
    show h.serve _ _ = _
    rw [serve_plain hplain]
    show ((Bucket.serve (h.clock 1) _ b).1, (Bucket.serve (h.clock 1) _ b).2, _) = _
    rw [hcreate]
    rfl
  have hget₁ : t₁.get source = some o := (hassembling.same source).trans hget
  have hslot : b.uploads.length < t₁.uploads.length := by
    obtain ⟨stored, hstored, -⟩ := hassembling.stored
    exact (List.getElem?_eq_some_iff.1 hstored).1
  have hcopy : ∃ x u parts, (S3StorageAdapter.copyParts source key (newUpload b) o.body.length
      (S3StorageAdapter.partOffsets o.body.length) 1 []).run h.serve
        (t₁, [.headObject source, .createMultipartUpload key]) = (x, u,
          [.headObject source, .createMultipartUpload key] ++
            (List.range' 0 (copyCount o.body.length)).map
              (copyCall source key (newUpload b) o.body.length) ++
            [.completeMultipartUpload key (newUpload b) parts]) := by
    unfold S3StorageAdapter.partOffsets
    rw [List.range_eq_range']
    exact run_copyParts b.uploads.length o.body.length _ 0 t₁ [] _ hget₁ hslot
  obtain ⟨x, u, parts, hparts⟩ := hcopy
  have hsmall : ¬ o.body.length < copyObjectMaxBytes := Nat.not_lt_of_le hlarge
  have hranges : ∀ ending, copiedRanges ending = [] →
      copiedRanges ([.headObject source, .createMultipartUpload key] ++
        (List.range' 0 (copyCount o.body.length)).map
          (copyCall source key (newUpload b) o.body.length) ++ ending) =
        (List.range (copyCount o.body.length)).map (copyRange o.body.length) :=
    fun ending hending => copiedRanges_calls (newUpload b) o.body.length _ ending rfl hending
  unfold S3StorageAdapter.copyObject at hrun
  rw [bind_eq, run_bind_ok hhead, if_neg hsmall, bind_eq, run_bind_ok hsent] at hrun
  cases x with
  | ok a =>
    rw [run_catch_ok hparts] at hrun
    cases hrun
    rw [hranges _ rfl]
    exact ranges_partition _
  | error e =>
    rw [run_catch_error hparts] at hrun
    have habort : ((S3StorageAdapter.abortMultipart key (newUpload b)).bind fun _ =>
        (Prog.raise e : S3M Unit)).run h.serve (u, [.headObject source, .createMultipartUpload key] ++
          (List.range' 0 (copyCount o.body.length)).map
            (copyCall source key (newUpload b) o.body.length) ++
          [.completeMultipartUpload key (newUpload b) parts]) =
        (.error e, u, [.headObject source, .createMultipartUpload key] ++
          (List.range' 0 (copyCount o.body.length)).map
            (copyCall source key (newUpload b) o.body.length) ++
          [.completeMultipartUpload key (newUpload b) parts] ++
          [.abortMultipartUpload key (newUpload b)]) := rfl
    rw [bind_eq, habort, List.append_assoc] at hrun
    cases hrun
    rw [hranges _ rfl]
    exact ranges_partition _

end

/-- Every multipart copy partitions its object. -/
def CopiesIntact (h : PartService) (b : Bucket) : Prop :=
  ∀ source key o r t calls, b.get source = some o → copyObjectMaxBytes ≤ o.body.length →
    (S3StorageAdapter.copyObject source key).run h.serve (b, []) = (r, t, calls) →
    Partitions o.body.length (copiedRanges calls)

section
variable {h : PartService} {s : S3StorageAdapter} {path key : Str} {b : Bucket}

theorem chunked_writes_iff (hkey : objectKey s.adapter path = .ok key) (hne : key ≠ [])
    (hfile : ¬ ['/'] <:+ key) (data : ByteStream) :
    WriteIntact h s path key data b ∧ CopiesIntact h b ↔
      (h.strikes data = some .pathTraversal → data.chunks.flatten.length < multipartPartSize) := by
  constructor
  · exact fun hboth => (writeIntact_iff hkey hne hfile data).1 hboth.1
  · intro hspared
    refine ⟨(writeIntact_iff hkey hne hfile data).2 hspared, ?_⟩
    intro source target o r t calls hget hlarge hrun
    exact copyObject_partitions hget hlarge hrun

end

/-! ### Inputs -/

def quietService : PartService := ⟨fun _ => 0, fun _ => none⟩

def userFiles : S3StorageAdapter := .new "users/u".toList (fun _ => "digest") id

theorem userFiles_key : objectKey userFiles.adapter "a".toList = .ok "users/u/a".toList := by
  decide +kernel

theorem quietService_firstRaised (count : Nat) : ∀ partNumber, quietService.firstRaised partNumber count = none := by
  induction count with
  | zero => exact fun _ => rfl
  | succ count ih => exact fun partNumber => ih (partNumber + 1)

/-- One full part, nothing, and a rest. -/
def longInput : ByteStream := ⟨[List.replicate multipartPartSize 0, [], [1, 2]], none⟩

/-- An input of more than one part is put together from its parts. -/
theorem long_write_intact : multipartPartSize < longInput.chunks.flatten.length ∧
    WriteIntact quietService userFiles "a".toList "users/u/a".toList longInput .empty ∧
      CopiesIntact quietService .empty := by
  have hlong : multipartPartSize < longInput.chunks.flatten.length := by
    have hflat : longInput.chunks.flatten = List.replicate multipartPartSize 0 ++ [1, 2] := rfl
    rw [hflat, List.length_append, List.length_replicate, List.length_cons, List.length_singleton]
    omega
  refine ⟨hlong, ?_⟩
  apply (chunked_writes_iff userFiles_key (by decide) (by decide) longInput).2
  intro hstrikes
  unfold PartService.strikes at hstrikes
  rw [if_neg (Nat.not_lt_of_le (Nat.le_of_lt hlong)), quietService_firstRaised] at hstrikes
  cases hstrikes

/-- One full part, and then the input raises a `PathTraversalError`. -/
def brokenInput : ByteStream := ⟨[List.replicate multipartPartSize 0], some .pathTraversal⟩

theorem brokenInput_long : multipartPartSize ≤ brokenInput.chunks.flatten.length := by
  unfold brokenInput
  rw [List.flatten_singleton, List.length_replicate]

theorem brokenInput_strikes : quietService.strikes brokenInput = some .pathTraversal := by
  unfold PartService.strikes
  rw [if_neg (Nat.not_lt_of_le brokenInput_long), quietService_firstRaised]
  rfl

/-- The upload is begun and not aborted. -/
theorem broken_input_not_aborted :
    ¬ WriteIntact quietService userFiles "a".toList "users/u/a".toList brokenInput .empty ∧
      ∃ t calls, (userFiles.write "a".toList brokenInput).run quietService.serve (.empty, []) =
          (.error .pathTraversal, t, calls) ∧
        .createMultipartUpload "users/u/a".toList ∈ calls ∧
        .abortMultipartUpload "users/u/a".toList (newUpload .empty) ∉ calls := by
  constructor
  · intro hintact
    have hspared := (writeIntact_iff userFiles_key (by decide) (by decide) brokenInput).1 hintact
    exact Nat.not_lt_of_le brokenInput_long (hspared brokenInput_strikes)
  · have hrun := run_write (h := quietService) (b := .empty) userFiles_key (by decide) (by decide)
      brokenInput
    obtain ⟨r, t, calls, hrun, -, -, hcreate, -, hstruck⟩ := hrun
    obtain ⟨hr, -, hcalls⟩ := hstruck _ brokenInput_strikes
    obtain ⟨made, hmade⟩ := hcalls brokenInput_long
    refine ⟨t, calls, hr ▸ hrun, hcreate.2 brokenInput_long, ?_⟩
    rw [hmade]
    exact not_aborted made

end WebStorage.S3
