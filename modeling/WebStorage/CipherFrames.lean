import WebStorage.Domain

set_option autoImplicit false

/-! The framing of encrypted files: each chunk is stored as its IV, the length of its ciphertext
and the ciphertext. -/
namespace WebStorage.CipherFrames

def ivSize : Nat := 12
def chunkSizeField : Nat := 4

/-- AES-GCM without associated data. Decryption under the same key and IV gives the plaintext
back. -/
structure AesGcm where
  encrypt : Bytes → Bytes → Bytes → Bytes
  decrypt : Bytes → Bytes → Bytes → Except Exc Bytes
  decrypt_encrypt : ∀ key iv plaintext, iv.length = ivSize →
    decrypt key iv (encrypt key iv plaintext) = .ok plaintext

/-- What `os.urandom(IV_SIZE)` returns. -/
structure Iv where
  bytes : Bytes
  size : bytes.length = ivSize

/-! ### Reading exact sizes -/

/-- A handle that is read in exact sizes: at its end it returns what is left. -/
structure Reader (σ : Type) where
  read : σ → Nat → Bytes × σ
  contents : σ → Bytes
  read_fst : ∀ s n, (read s n).1 = (contents s).take n
  contents_read : ∀ s n, contents (read s n).2 = (contents s).drop n

/-- The bytes of a frame are read only once. -/
theorem Reader.frame_read {σ : Type} (R : Reader σ) {handle : σ}
    (hend : (R.read handle ivSize).1 ≠ []) (n : Nat) :
    (R.contents (R.read (R.read (R.read handle ivSize).2 chunkSizeField).2 n).2).length <
      (R.contents handle).length := by
  rw [R.contents_read, R.contents_read, R.contents_read, List.length_drop, List.length_drop,
    List.length_drop]
  rw [R.read_fst] at hend
  have hne : R.contents handle ≠ [] := fun h => hend (by rw [h, List.take_nil])
  have hpos : 0 < (R.contents handle).length := List.length_pos_iff.2 hne
  have hiv : 0 < ivSize := by decide
  omega

/-- A local file, by what is left of it. -/
def localFile : Reader Bytes where
  read s n := (s.take n, s.drop n)
  contents s := s
  read_fst _ _ := rfl
  contents_read _ _ := rfl

/-- `_AsyncByteStream`: the chunks that the source has left, and those it has buffered. -/
structure AsyncByteStream where
  source : List Bytes
  buffer : Bytes
  exhausted : Bool
  drained : exhausted = true → source = []

namespace AsyncByteStream

def new (source : List Bytes) : AsyncByteStream := ⟨source, [], false, fun h => by cases h⟩

def contents (s : AsyncByteStream) : Bytes := s.buffer ++ s.source.flatten

/-- The loop of `read` over a source that is not exhausted. -/
def pull (size : Nat) : List Bytes → Bytes → AsyncByteStream
  | [], buffer =>
    if buffer.length < size then ⟨[], buffer, true, fun _ => rfl⟩
    else ⟨[], buffer, false, fun h => by cases h⟩
  | chunk :: source, buffer =>
    if buffer.length < size then pull size source (if chunk = [] then buffer else buffer ++ chunk)
    else ⟨chunk :: source, buffer, false, fun h => by cases h⟩

def fill (s : AsyncByteStream) (size : Nat) : AsyncByteStream :=
  if s.exhausted then s else pull size s.source s.buffer

def read (s : AsyncByteStream) (size : Nat) : Bytes × AsyncByteStream :=
  let t := s.fill size
  if size = 0 then ([], t) else (t.buffer.take size, { t with buffer := t.buffer.drop size })

theorem pull_spec (size : Nat) (source : List Bytes) (buffer : Bytes) :
    (pull size source buffer).contents = buffer ++ source.flatten ∧
      (size ≤ (pull size source buffer).buffer.length ∨ (pull size source buffer).source = []) := by
  induction source generalizing buffer with
  | nil =>
    unfold pull
    split <;> exact ⟨rfl, .inr rfl⟩
  | cons chunk source ih =>
    unfold pull
    split
    · obtain ⟨hcontents, hfull⟩ := ih (if chunk = [] then buffer else buffer ++ chunk)
      refine ⟨hcontents.trans ?_, hfull⟩
      split
      · rename_i hempty
        rw [hempty, List.flatten_cons, List.nil_append]
      · rw [List.flatten_cons, List.append_assoc]
    · rename_i hfull
      exact ⟨rfl, .inl (not_lt.1 hfull)⟩

theorem fill_spec (s : AsyncByteStream) (size : Nat) :
    (s.fill size).contents = s.contents ∧
      (size ≤ (s.fill size).buffer.length ∨ (s.fill size).source = []) := by
  unfold fill
  split
  · rename_i hex
    exact ⟨rfl, .inr (s.drained hex)⟩
  · exact pull_spec size s.source s.buffer

theorem read_spec (s : AsyncByteStream) (size : Nat) :
    (s.read size).1 = s.contents.take size ∧
      (s.read size).2.contents = s.contents.drop size := by
  obtain ⟨hcontents, hfull⟩ := s.fill_spec size
  have hsplit : (s.fill size).buffer ++ (s.fill size).source.flatten = s.contents := hcontents
  unfold read
  split
  · rename_i hzero
    subst hzero
    exact ⟨(List.take_zero).symm, hcontents⟩
  · rw [← hsplit]
    rcases hfull with hlen | hnone
    · exact ⟨(List.take_append_of_le_length hlen).symm,
        (List.drop_append_of_le_length hlen).symm⟩
    · simp only [contents, hnone, List.flatten_nil, List.append_nil, and_self]

def reader : Reader AsyncByteStream where
  read := read
  contents := contents
  read_fst s n := (s.read_spec n).1
  contents_read s n := (s.read_spec n).2

end AsyncByteStream

/-! ### Frames -/

/-- `struct.pack(">I", n)`. -/
def pack (n : Nat) : Bytes :=
  [UInt8.ofNat (n / 2 ^ 24), UInt8.ofNat (n / 2 ^ 16), UInt8.ofNat (n / 2 ^ 8), UInt8.ofNat n]

/-- `struct.unpack(">I", bytes)`. -/
def unpack (bytes : Bytes) : Nat := bytes.foldl (fun n b => n * 256 + b.toNat) 0

theorem pack_length (n : Nat) : (pack n).length = chunkSizeField := rfl

theorem unpack_pack {n : Nat} (h : n < 2 ^ 32) : unpack (pack n) = n := by
  simp only [pack, unpack, List.foldl_cons, List.foldl_nil, UInt8.toNat_ofNat']
  omega

section
variable (gcm : AesGcm) (key : Bytes)

/-- `_encrypt_chunk` and the framing of `write`. -/
def frame (iv : Iv) (plaintext : Bytes) : Bytes :=
  let ciphertext := gcm.encrypt key iv.bytes plaintext
  iv.bytes ++ pack ciphertext.length ++ ciphertext

/-- `encrypted_stream` of `write`, which draws a fresh IV for every chunk. Packing a length
that needs more than four bytes raises. -/
def encryptedStream : List (Iv × Bytes) → Except Exc (List Bytes)
  | [] => .ok []
  | (iv, plaintext) :: data =>
    if (gcm.encrypt key iv.bytes plaintext).length < 2 ^ 32 then do
      let rest ← encryptedStream data
      pure (frame gcm key iv plaintext :: rest)
    else .error .other

/-- What a generator of chunks has yielded when it ends, and the exception it ended with. -/
structure Yielded where
  chunks : List Bytes
  raised : Option Exc
deriving DecidableEq

def Yielded.after (chunk : Bytes) (y : Yielded) : Yielded := ⟨chunk :: y.chunks, y.raised⟩

variable {σ : Type}

/-- `_decrypt_stream`. -/
def decryptStream (R : Reader σ) (handle : σ) : Yielded :=
  let iv := R.read handle ivSize
  if _hend : iv.1 = [] then ⟨[], none⟩
  else if iv.1.length < ivSize then ⟨[], some .valueError⟩
  else
    let sizeBytes := R.read iv.2 chunkSizeField
    if sizeBytes.1.length < chunkSizeField then ⟨[], some .valueError⟩
    else
      let encryptedSize := unpack sizeBytes.1
      let ciphertext := R.read sizeBytes.2 encryptedSize
      if ciphertext.1.length < encryptedSize then ⟨[], some .valueError⟩
      else match gcm.decrypt key iv.1 ciphertext.1 with
        | .error e => ⟨[], some e⟩
        | .ok plaintext => (decryptStream R ciphertext.2).after plaintext
termination_by (R.contents handle).length
decreasing_by exact R.frame_read _hend _

/-- `read`, over the chunks in which the inner storage hands out the stored bytes. -/
def read (chunks : List Bytes) : Yielded :=
  decryptStream gcm key AsyncByteStream.reader (AsyncByteStream.new chunks)

/-- `read_encrypted_blob`, of a local file. -/
def readEncryptedBlob (bytes : Bytes) : Yielded := decryptStream gcm key localFile bytes

/-- `_decrypted_file_size`. -/
def decryptedFileSize (chunks : List Bytes) : Except Exc Nat :=
  match read gcm key chunks with
  | ⟨_, some e⟩ => .error e
  | ⟨plaintexts, none⟩ => .ok ((plaintexts.map List.length).sum)

/-! ### The contents decide -/

/-- However the bytes of a handle arrive, the decryption is that of the bytes. -/
theorem decryptStream_contents (R : Reader σ) (handle : σ) :
    decryptStream gcm key R handle = readEncryptedBlob gcm key (R.contents handle) := by
  generalize hn : (R.contents handle).length = n
  induction n using Nat.strong_induction_on generalizing handle with
  | _ n ih =>
    rw [readEncryptedBlob, decryptStream, decryptStream]
    have hiv : (R.read handle ivSize).1 = (localFile.read (R.contents handle) ivSize).1 :=
      R.read_fst handle ivSize
    have hsize : (R.read (R.read handle ivSize).2 chunkSizeField).1 =
        (localFile.read (localFile.read (R.contents handle) ivSize).2 chunkSizeField).1 := by
      rw [R.read_fst, R.contents_read]
      rfl
    have hbody : ∀ n, (R.read (R.read (R.read handle ivSize).2 chunkSizeField).2 n).1 =
        (localFile.read (localFile.read (localFile.read (R.contents handle) ivSize).2
          chunkSizeField).2 n).1 := by
      intro n
      rw [R.read_fst, R.contents_read, R.contents_read]
      rfl
    -- both sides take the same branch, since their reads return the same bytes
    by_cases h1 : (R.read handle ivSize).1 = []
    · rw [dif_pos h1, dif_pos (hiv ▸ h1)]
    rw [dif_neg h1, dif_neg (hiv ▸ h1)]
    dsimp only
    rw [hsize, hbody, hiv]
    split_ifs
    · rfl
    · rfl
    · rfl
    cases gcm.decrypt key _ _ with
    | error e => rfl
    | ok plaintext =>
      have hrest := fun size => ih _ (hn ▸ R.frame_read h1 size) _ rfl
      dsimp only
      rw [hrest, R.contents_read, R.contents_read, R.contents_read]
      rfl

theorem readEncryptedBlob_nil : readEncryptedBlob gcm key [] = ⟨[], none⟩ := by
  rw [readEncryptedBlob, decryptStream]
  rfl

variable {gcm key}

/-- A whole frame in front is decrypted and the rest follows. -/
theorem readEncryptedBlob_frame (iv : Iv) (plaintext rest : Bytes)
    (hlen : (gcm.encrypt key iv.bytes plaintext).length < 2 ^ 32) :
    readEncryptedBlob gcm key (frame gcm key iv plaintext ++ rest) =
      (readEncryptedBlob gcm key rest).after plaintext := by
  have hdec := gcm.decrypt_encrypt key iv.bytes plaintext iv.size
  unfold frame readEncryptedBlob
  generalize gcm.encrypt key iv.bytes plaintext = ciphertext at hlen hdec
  rw [decryptStream]
  have hiv : (iv.bytes ++ (pack ciphertext.length ++ (ciphertext ++ rest))).take ivSize =
      iv.bytes := List.take_left' iv.size
  have hafter : (iv.bytes ++ (pack ciphertext.length ++ (ciphertext ++ rest))).drop ivSize =
      pack ciphertext.length ++ (ciphertext ++ rest) := List.drop_left' iv.size
  have hsize : (pack ciphertext.length ++ (ciphertext ++ rest)).take chunkSizeField =
      pack ciphertext.length := List.take_left' (pack_length _)
  have hbody : (pack ciphertext.length ++ (ciphertext ++ rest)).drop chunkSizeField =
      ciphertext ++ rest := List.drop_left' (pack_length _)
  have hne : iv.bytes ≠ [] := fun h => absurd iv.size (by rw [h]; decide)
  simp only [localFile, List.append_assoc, hiv, hafter, hsize, hbody, unpack_pack hlen,
    List.take_left', List.drop_left', hdec, hne, iv.size, pack_length, lt_irrefl, dif_neg,
    if_false, not_false_eq_true]

/-- A frame that is cut short, but not away, is refused. -/
theorem readEncryptedBlob_cut (iv : Iv) (plaintext : Bytes) {n : Nat} (hpos : 0 < n)
    (hlen : (gcm.encrypt key iv.bytes plaintext).length < 2 ^ 32)
    (hn : n < (frame gcm key iv plaintext).length) :
    readEncryptedBlob gcm key ((frame gcm key iv plaintext).take n) = ⟨[], some .valueError⟩ := by
  unfold frame readEncryptedBlob at *
  generalize gcm.encrypt key iv.bytes plaintext = ciphertext at hlen hn
  have hlength : (iv.bytes ++ pack ciphertext.length ++ ciphertext).length =
      ivSize + chunkSizeField + ciphertext.length := by
    rw [List.length_append, List.length_append, iv.size, pack_length]
  rw [hlength] at hn
  have hiv : ivSize = 12 := rfl
  have hfield : chunkSizeField = 4 := rfl
  rw [decryptStream]
  simp only [localFile, List.take_take, List.drop_take, List.length_take, List.length_drop,
    hlength]
  rw [dif_neg]
  · by_cases h1 : n < ivSize
    · rw [if_pos (by omega)]
    · rw [if_neg (by omega)]
      by_cases h2 : n < ivSize + chunkSizeField
      · rw [if_pos (by omega)]
      · rw [if_neg (by omega)]
        have hsize : ((iv.bytes ++ pack ciphertext.length ++ ciphertext).drop ivSize).take
            (min chunkSizeField (n - ivSize)) = pack ciphertext.length := by
          rw [min_eq_left (by omega), List.append_assoc, List.drop_left' iv.size,
            List.take_left' (pack_length _)]
        rw [hsize, unpack_pack hlen, if_pos (by omega)]
  · intro hnil
    have hzero := congrArg List.length hnil
    rw [List.length_take, hlength, List.length_nil] at hzero
    omega

/-! ### Whole files -/

variable (gcm key) in
/-- The bytes of the file that holds these chunks. -/
def stored (data : List (Iv × Bytes)) : Bytes := (data.map fun c => frame gcm key c.1 c.2).flatten

variable (gcm key) in
/-- Every ciphertext fits the length field. -/
def Fits (data : List (Iv × Bytes)) : Prop :=
  ∀ c ∈ data, (gcm.encrypt key c.1.bytes c.2).length < 2 ^ 32

variable {data : List (Iv × Bytes)}

theorem encryptedStream_ok (h : Fits gcm key data) :
    encryptedStream gcm key data = .ok (data.map fun c => frame gcm key c.1 c.2) := by
  induction data with
  | nil => rfl
  | cons c data ih =>
    have hrest := ih fun c' hc' => h c' (List.mem_cons_of_mem _ hc')
    rw [encryptedStream, if_pos (h c List.mem_cons_self), hrest]
    rfl

theorem readEncryptedBlob_append (h : Fits gcm key data) (rest : Bytes) :
    readEncryptedBlob gcm key (stored gcm key data ++ rest) =
      ⟨data.map (·.2) ++ (readEncryptedBlob gcm key rest).chunks,
        (readEncryptedBlob gcm key rest).raised⟩ := by
  induction data with
  | nil => rfl
  | cons c data ih =>
    have hrest := ih fun c' hc' => h c' (List.mem_cons_of_mem _ hc')
    have hfirst := readEncryptedBlob_frame c.1 c.2 (stored gcm key data ++ rest)
      (h c List.mem_cons_self)
    rw [stored, List.map_cons, List.flatten_cons, List.append_assoc, ← stored, hfirst, hrest]
    rfl

theorem readEncryptedBlob_stored (h : Fits gcm key data) :
    readEncryptedBlob gcm key (stored gcm key data) = ⟨data.map (·.2), none⟩ := by
  have happend := readEncryptedBlob_append h []
  rwa [List.append_nil, readEncryptedBlob_nil, List.append_nil] at happend

theorem read_eq (chunks : List Bytes) :
    read gcm key chunks = readEncryptedBlob gcm key chunks.flatten :=
  decryptStream_contents gcm key AsyncByteStream.reader (AsyncByteStream.new chunks)

/-- What `write` stored is read back as it was written, however the storage splits it. -/
theorem write_read (gcm : AesGcm) (key : Bytes) (data : List (Iv × Bytes))
    (hfits : Fits gcm key data) :
    ∃ frames, encryptedStream gcm key data = .ok frames ∧
      ∀ chunks : List Bytes, chunks.flatten = frames.flatten →
        ((read gcm key chunks).raised = none ∧
          (read gcm key chunks).chunks.flatten = (data.map (·.2)).flatten) ∧
        ((readEncryptedBlob gcm key chunks.flatten).raised = none ∧
          (readEncryptedBlob gcm key chunks.flatten).chunks.flatten =
            (data.map (·.2)).flatten) ∧
        decryptedFileSize gcm key chunks = .ok (data.map (·.2)).flatten.length := by
  refine ⟨_, encryptedStream_ok hfits, fun chunks hchunks => ?_⟩
  have hblob : readEncryptedBlob gcm key chunks.flatten = ⟨data.map (·.2), none⟩ := by
    rw [hchunks]
    exact readEncryptedBlob_stored hfits
  have hread := (read_eq chunks).trans hblob
  refine ⟨?_, ?_, ?_⟩
  · rw [hread]
    exact ⟨rfl, rfl⟩
  · rw [hblob]
    exact ⟨rfl, rfl⟩
  · rw [decryptedFileSize, hread, List.length_flatten]

/-- Where a cut falls: after some whole frames, and some bytes into the next. -/
theorem stored_take (data : List (Iv × Bytes)) {n : Nat} (hn : n < (stored gcm key data).length) :
    ∃ kept c rest m, data = kept ++ c :: rest ∧ m < (frame gcm key c.1 c.2).length ∧
      n = (stored gcm key kept).length + m ∧
      (stored gcm key data).take n =
        stored gcm key kept ++ (frame gcm key c.1 c.2).take m := by
  induction data generalizing n with
  | nil => exact absurd hn (Nat.not_lt_zero n)
  | cons c data ih =>
    have hcons : stored gcm key (c :: data) = frame gcm key c.1 c.2 ++ stored gcm key data := rfl
    rw [hcons] at hn ⊢
    by_cases hin : n < (frame gcm key c.1 c.2).length
    · refine ⟨[], c, data, n, rfl, hin, (Nat.zero_add n).symm, ?_⟩
      exact List.take_append_of_le_length hin.le
    · have hout : (frame gcm key c.1 c.2).length ≤ n := not_lt.1 hin
      rw [List.length_append] at hn
      obtain ⟨kept, c', rest, m, rfl, hm, hk, htake⟩ :=
        ih (n := n - (frame gcm key c.1 c.2).length) (by omega)
      have hkept : stored gcm key (c :: kept) = frame gcm key c.1 c.2 ++ stored gcm key kept := rfl
      refine ⟨c :: kept, c', rest, m, rfl, hm, ?_, ?_⟩
      · rw [hkept, List.length_append]
        omega
      · rw [hkept, List.append_assoc, ← htake, List.take_append, List.take_of_length_le hout]

theorem stored_split (k : Nat) (data : List (Iv × Bytes)) :
    (stored gcm key data).take (stored gcm key (data.take k)).length =
      stored gcm key (data.take k) := by
  have hsplit : stored gcm key data =
      stored gcm key (data.take k) ++ stored gcm key (data.drop k) := by
    rw [stored, stored, stored, ← List.flatten_append, ← List.map_append, List.take_append_drop]
  conv_lhs => rw [hsplit]
  exact List.take_left

theorem read_stored (h : Fits gcm key data) {chunks : List Bytes}
    (hchunks : chunks.flatten = stored gcm key data) :
    read gcm key chunks = ⟨data.map (·.2), none⟩ := by
  rw [read_eq, hchunks]
  exact readEncryptedBlob_stored h

/-- A cut inside a frame raises. Whole frames of the file are decrypted whatever their number
and order: those before a cut at a frame boundary, and those that were moved, dropped or
repeated. -/
theorem tampered_read (gcm : AesGcm) (key : Bytes) (data : List (Iv × Bytes))
    (hfits : Fits gcm key data) :
    (∀ n < (stored gcm key data).length, ∀ chunks : List Bytes,
      chunks.flatten = (stored gcm key data).take n →
      ((read gcm key chunks).raised = some .valueError ↔
        ∀ k, n ≠ (stored gcm key (data.take k)).length) ∧
      ∀ k, n = (stored gcm key (data.take k)).length →
        read gcm key chunks = ⟨(data.take k).map (·.2), none⟩) ∧
    ∀ sent : List (Iv × Bytes), (∀ c ∈ sent, c ∈ data) → ∀ chunks : List Bytes,
      chunks.flatten = stored gcm key sent → read gcm key chunks = ⟨sent.map (·.2), none⟩ := by
  have hwhole : ∀ sent : List (Iv × Bytes), (∀ c ∈ sent, c ∈ data) → ∀ chunks : List Bytes,
      chunks.flatten = stored gcm key sent → read gcm key chunks = ⟨sent.map (·.2), none⟩ :=
    fun sent hsent chunks hchunks => read_stored (fun c hc => hfits c (hsent c hc)) hchunks
  refine ⟨fun n hn chunks hchunks => ?_, hwhole⟩
  have hboundary : ∀ k, n = (stored gcm key (data.take k)).length →
      read gcm key chunks = ⟨(data.take k).map (·.2), none⟩ := by
    intro k hk
    refine hwhole (data.take k) (fun c hc => List.mem_of_mem_take hc) chunks ?_
    rw [hchunks, hk, stored_split]
  refine ⟨⟨fun hraised k hk => ?_, fun hinside => ?_⟩, hboundary⟩
  · rw [hboundary k hk] at hraised
    cases hraised
  · obtain ⟨kept, c, rest, m, rfl, hm, hnm, htake⟩ := stored_take data hn
    have hpos : 0 < m := by
      refine Nat.pos_of_ne_zero fun hzero => hinside kept.length ?_
      rw [List.take_left, hnm, hzero, Nat.add_zero]
    have hcut := readEncryptedBlob_cut c.1 c.2 hpos
      (hfits c (List.mem_append_right _ List.mem_cons_self)) hm
    have hkept : Fits gcm key kept := fun c' hc' => hfits c' (List.mem_append_left _ hc')
    rw [read_eq, hchunks, htake, readEncryptedBlob_append hkept, hcut]

end

/-! ### One byte and an empty chunk under the zero key -/

def zeros (n : Nat) : Bytes := List.replicate n 0

def zeroIv : Iv := ⟨zeros 12, rfl⟩

/-- The ciphertexts of AES-256-GCM, with key and IV zero, of the byte 97 and of no byte. -/
def cipherA : Bytes :=
  [175, 82, 236, 111, 97, 213, 241, 52, 198, 28, 6, 73, 6, 133, 228, 88, 75]
def cipherEmpty : Bytes :=
  [83, 15, 138, 251, 199, 69, 54, 185, 169, 99, 180, 241, 196, 203, 115, 139]

/-- AES-GCM on these two inputs; on others a tag of zeros stands in. -/
def sampleGcm : AesGcm where
  encrypt _ _ plaintext :=
    if plaintext = [97] then cipherA
    else if plaintext = [] then cipherEmpty
    else plaintext ++ zeros 16
  decrypt _ _ ciphertext :=
    if ciphertext = cipherA then .ok [97]
    else if ciphertext = cipherEmpty then .ok []
    else if ciphertext.drop (ciphertext.length - 16) = zeros 16 then
      .ok (ciphertext.take (ciphertext.length - 16))
    else .error .other
  decrypt_encrypt key iv plaintext _ := by
    have htag : ∀ bytes last, (bytes ++ zeros 16).getLast? = some last → last = 0 := by
      intro bytes last h
      rw [List.getLast?_append_of_ne_nil _ (by decide)] at h
      exact (Option.some.inj h).symm
    have hA : plaintext ++ zeros 16 ≠ cipherA := fun h =>
      absurd (htag plaintext 75 (by rw [h]; rfl)) (by decide)
    have hEmpty : plaintext ++ zeros 16 ≠ cipherEmpty := fun h =>
      absurd (htag plaintext 139 (by rw [h]; rfl)) (by decide)
    have hlen : (plaintext ++ zeros 16).length - 16 = plaintext.length := by
      rw [List.length_append]
      exact Nat.add_sub_cancel _ _
    have hapart : cipherEmpty ≠ cipherA := by decide
    by_cases hone : plaintext = [97]
    · rw [if_pos hone, if_pos rfl, hone]
    · by_cases hnone : plaintext = []
      · rw [if_neg hone, if_pos hnone, if_neg hapart, if_pos rfl, hnone]
      · -- the tag of zeros tells the other messages apart from the two
        rw [if_neg hone, if_neg hnone, if_neg hA, if_neg hEmpty, hlen, List.drop_left, if_pos rfl,
          List.take_left]

def sampleFile : List (Iv × Bytes) := [(zeroIv, [97]), (zeroIv, [])]

theorem sampleFile_fits : Fits sampleGcm (zeros 32) sampleFile := by
  intro c hc
  rcases List.mem_cons.1 hc with rfl | hc
  · decide
  · rw [List.mem_singleton.1 hc]
    decide

theorem write_read_sample : ∃ frames, encryptedStream sampleGcm (zeros 32) sampleFile = .ok frames ∧
    (read sampleGcm (zeros 32) [frames.flatten]).chunks.flatten = [97] := by
  obtain ⟨frames, hframes, hread⟩ := write_read sampleGcm (zeros 32) sampleFile sampleFile_fits
  exact ⟨frames, hframes, (hread [frames.flatten] (List.append_nil _)).1.2⟩

/-- The ways in which the stored file is tampered with. -/
inductive Tampered (gcm : AesGcm) (key : Bytes) (data : List (Iv × Bytes)) : Bytes → Prop
  | cut (n : Nat) : n < (stored gcm key data).length →
      Tampered gcm key data ((stored gcm key data).take n)
  | permuted (sent : List (Iv × Bytes)) : sent.Perm data → Tampered gcm key data (stored gcm key sent)
  | dropped (n : Nat) : n < data.length → Tampered gcm key data (stored gcm key (data.eraseIdx n))
  | repeated (before after : List (Iv × Bytes)) (c : Iv × Bytes) : data = before ++ c :: after →
      Tampered gcm key data (stored gcm key (before ++ c :: c :: after))

/-- The empty prefix is read as an empty file. -/
theorem tampered_accepted :
    ¬ ∀ gcm key data bytes, Fits gcm key data → Tampered gcm key data bytes →
      ∀ chunks : List Bytes, chunks.flatten = bytes →
        (read gcm key chunks).raised ≠ none ∨
          (read gcm key chunks).chunks.flatten = (data.map (·.2)).flatten := by
  intro hclaim
  have htampered : Tampered sampleGcm (zeros 32) sampleFile [] :=
    Tampered.cut 0 (by decide)
  have hboth := hclaim sampleGcm (zeros 32) sampleFile [] sampleFile_fits htampered [] rfl
  have hread : read sampleGcm (zeros 32) [] = ⟨[], none⟩ :=
    (read_eq []).trans (readEncryptedBlob_nil sampleGcm (zeros 32))
  rw [hread] at hboth
  rcases hboth with hraised | hsame
  · exact hraised rfl
  · exact absurd hsame (by decide)

theorem tampered_read_sample :
    (read sampleGcm (zeros 32) [(stored sampleGcm (zeros 32) sampleFile).take 5]).raised =
      some .valueError := by
  have hcut := (tampered_read sampleGcm (zeros 32) sampleFile sampleFile_fits).1 5 (by decide)
    [(stored sampleGcm (zeros 32) sampleFile).take 5] (List.append_nil _)
  refine hcut.1.2 fun k => ?_
  rcases k with _ | _ | k
  · decide
  · decide
  · rw [show sampleFile.take (k + 2) = sampleFile from List.take_of_length_le (by simp [sampleFile])]
    decide

end WebStorage.CipherFrames
