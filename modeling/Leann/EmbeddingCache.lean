import Leann.Embeddings
import Leann.IndexFile
import Leann.Lines

/-!
# The build embedding cache

A script lays out a header, which binds the vectors to the documents file
they were made from, and the rows behind it. The native program parses the
header field by field, decodes the rows through a buffer of bounded size and
hands them to the build in the order of its requests.
-/

namespace Leann.EmbeddingCache

open ByteStream Exceptions Outcomes Format Checksum Lines BinaryFloat IndexFile
open Embeddings hiding Unit

/-- The first bytes of a cache, `MAGIC_V2` and `expected_magic`. -/
def cacheMagic : List UInt8 := text "LEANNBC2"

/-- The largest fingerprint, `MAX_FINGERPRINT_BYTES` and
`maximum_fingerprint_size`. -/
def maxFingerprintBytes : ℕ := 16*1024*1024

section Script

/-- The exceptions of the script. -/
inductive HeaderError where
  /-- `ValueError`. -/
  | valueError (message : String)
  /-- `struct.error`. -/
  | structError
  deriving DecidableEq

/-- A hexadecimal digit, as `hex` prints it. -/
def hexDigit (nibble : ℕ) : Char :=
  if nibble<10 then Char.ofNat (48+nibble) else Char.ofNat (87+nibble)

/-- `hexdigest` of bytes. -/
def hexDigits (bytes : List UInt8) : List Char :=
  bytes.flatMap (fun byte => [hexDigit (byte.toNat/16),hexDigit (byte.toNat%16)])

/-- The value of a hexadecimal digit of either case. -/
def nibbleOf (character : Char) : Option ℕ :=
  let code := character.toNat
  if 48≤ code ∧ code≤57 then some (code-48)
  else if 97≤ code ∧ code≤102 then some (code-87)
  else if 65≤ code ∧ code≤70 then some (code-55)
  else none

/-- The whitespace between the digits that `bytes.fromhex` skips. -/
def skipped (character : Char) : Bool :=
  character= ' ' || (9≤ character.toNat && character.toNat≤13)

/-- `bytes.fromhex`, which returns nothing where it raises `ValueError`. -/
def fromHex : List Char → Option (List UInt8)
  | [] => some []
  | [character] => if skipped character then some [] else none
  | first::second::rest =>
    if skipped first then fromHex (second::rest)
    else do
      let high ← nibbleOf first
      let low ← nibbleOf second
      let bytes ← fromHex rest
      return UInt8.ofNat (16*high+low)::bytes

/-- The entries of `source_identity` that a cache is bound to. -/
structure SourceIdentity where
  /-- `size_bytes`. -/
  sizeBytes : ℕ
  /-- `sha256`. -/
  sha256 : List Char
  /-- `nonempty_lines`. -/
  nonemptyLines : ℕ

/-- `source_identity` of a file with these characters. -/
def sourceIdentity (characters : List Char) : SourceIdentity :=
  ⟨(encodeText characters).length,hexDigits (digest (encodeText characters)).toList,
    (iterNonemptyLines characters).length⟩

/-- One unsigned field of `struct.pack`. -/
def packField (width : ℕ) (value : ℤ) : Except HeaderError (List UInt8) :=
  if 0≤value ∧ value<256^width then .ok (littleEndian width value.toNat) else .error .structError

/-- `V2_FIXED.pack` behind the magic. -/
def packFixed (dimension count fingerprintSize sourceSizeBytes : ℤ) (sourceDigest : List UInt8) :
    Except HeaderError (List UInt8) := do
  let dimension ← packField 4 dimension
  let count ← packField 8 count
  let fingerprintSize ← packField 4 fingerprintSize
  let sourceSizeBytes ← packField 8 sourceSizeBytes
  return cacheMagic++(dimension++(count++(fingerprintSize++(sourceSizeBytes++sourceDigest))))

/-- `cache_v2_header`. -/
def cacheV2Header (dimension count : ℤ) (fingerprint : List Char) (sourceSizeBytes : ℤ)
    (sourceSha256 : List Char) : Except HeaderError (List UInt8) := do
  let fingerprintRaw := encodeText fingerprint
  if dimension≤0 ∨ count≤0 ∨ fingerprintRaw=[] ∨ fingerprintRaw.length>maxFingerprintBytes then
    .error (.valueError "invalid V2 cache header values")
  else match fromHex sourceSha256 with
  | none => .error (.valueError "source_sha256 is not hexadecimal")
  | some sourceDigest =>
    if sourceDigest.length≠32 ∨ sourceSizeBytes<0 then
      .error (.valueError "invalid V2 source identity")
    else do
      let fixed ← packFixed dimension count fingerprintRaw.length sourceSizeBytes sourceDigest
      return fixed++fingerprintRaw

/-- `tobytes` of a matrix of little-endian floats in row-major order. -/
def payload (vectors : List Embedding) : List UInt8 := vectors.flatten.flatMap floatBytes

end Script

section Constructor

/-- `checked_add`. -/
def checkedAdd (lhs rhs : ℕ) (description : Text) : Except Fault ℕ := do
  throwIf (rhs>uint64Max-lhs) (runtimeError (description++" is too large"))
  plus64 lhs rhs

/-- `checked_multiply`. -/
def checkedMultiply (lhs rhs : ℕ) (description : Text) : Except Fault ℕ := do
  throwIf (lhs≠0 ∧ rhs>uint64Max/lhs) (runtimeError (description++" is too large"))
  times64 lhs rhs

/-- `read_little`. -/
def readLittle (T : Type) [Unsigned T] : Reader Fault T := do
  let value ← (List.range (Unsigned.width T)).foldlM (fun value i => do
    let byte ← (do
      let bytes ← take (.thrown (runtimeError "truncated embedding cache")) 1
      return bytes.headD 0)
    return value|||(byte.toNat<<<(i*8))) 0
  return Unsigned.ofNat value

/-- The fields in front of the fingerprint. -/
structure CacheHeader where
  /-- `encoded_dimension`. -/
  encodedDimension : UInt32
  /-- `encoded_count`. -/
  encodedCount : UInt64
  /-- `fingerprint_size`. -/
  fingerprintSize : UInt32
  /-- `documents_size`. -/
  documentsSize : UInt64
  /-- `documents_sha256`. -/
  documentsSha256 : Sha256Digest
  deriving DecidableEq

/-- The exception for a file of another kind. -/
def notACache : Fault := .thrown (runtimeError "build embedding cache is not LEANNBC2")

/-- The reads in front of the first check of a value. -/
def readHeader : Reader Fault CacheHeader := do
  let magic ← take notACache cacheMagic.length
  failIf (magic≠cacheMagic) notACache
  let encodedDimension ← readLittle UInt32
  let encodedCount ← readLittle UInt64
  let fingerprintSize ← readLittle UInt32
  let documentsSize ← readLittle UInt64
  let documentsSha256 ← (do
    let bytes ← take (.thrown (runtimeError "truncated build embedding cache header")) 32
    return Vector.ofFn (fun i => bytes.getD i.val 0))
  return ⟨encodedDimension,encodedCount,fingerprintSize,documentsSize,documentsSha256⟩

/-- The checks of the fields. -/
def checkHeader (source : DocumentsSource) (sourceOption : Text) (header : CacheHeader) :
    Except Fault Unit := do
  throwIf (header.encodedDimension=0) (runtimeError "build embedding cache has zero dimension")
  throwIf (header.encodedCount=0) (runtimeError "build embedding cache has zero documents")
  throwIf (header.encodedCount.toNat≠source.documents.length)
    (runtimeError ("embedding cache row count does not match "++sourceOption))
  throwIf (header.documentsSize.toNat≠source.fileSize ∨ header.documentsSha256≠source.sha256)
    (runtimeError ("embedding cache does not match the exact "++sourceOption++" file"))
  throwIf (header.fingerprintSize=0)
    (runtimeError "build embedding cache has an empty embedder fingerprint")
  throwIf (header.fingerprintSize.toNat>maxFingerprintBytes)
    (runtimeError "build embedding cache fingerprint is unreasonably large")

/-- `fixed_header_size`. -/
def fixedHeaderSize : ℕ := cacheMagic.length+4+8+4+8+32

/-- `expected_size`. -/
def expectedSize (header : CacheHeader) : Except Fault ℕ := do
  let values ← checkedMultiply header.encodedCount.toNat header.encodedDimension.toNat
    "build embedding cache payload"
  let payloadBytes ← checkedMultiply values 4 "build embedding cache payload"
  let headerBytes ← checkedAdd fixedHeaderSize header.fingerprintSize.toNat "build embedding cache"
  checkedAdd headerBytes payloadBytes "build embedding cache"

/-- `EmbeddingCacheEmbedder`. -/
structure EmbeddingCacheEmbedder where
  /-- The open file. -/
  input : Stream
  /-- `fingerprint`. -/
  fingerprint : Text
  /-- `dimension`. -/
  dimension : ℕ
  /-- The rows that were not requested yet. -/
  remaining : ℕ
  deriving DecidableEq

/-- The constructor behind opening the file. -/
def construct (source : DocumentsSource) (sourceOption : Text) :
    Reader Fault EmbeddingCacheEmbedder := do
  let cacheSize ← streamSize "embedding cache"
  let header ← readHeader
  attempt (checkHeader source sourceOption header)
  let expected ← attempt (expectedSize header)
  check (cacheSize≠expected)
    (runtimeError "build embedding cache has a truncated or trailing payload")
  demand Fault.unbacked header.fingerprintSize.toNat
  let fingerprint ← take (.thrown (runtimeError "truncated build embedding cache fingerprint"))
    header.fingerprintSize.toNat
  fun stream => .ok
    (⟨stream,fingerprint,header.encodedDimension.toNat,header.encodedCount.toNat⟩,stream)

/-- The constructor of `EmbeddingCacheEmbedder`, with the file when it can be
opened. -/
def openCache (cachePath : Text) (source : DocumentsSource) (sourceOption : Text)
    (file : Option (List UInt8)) : Except Fault EmbeddingCacheEmbedder :=
  match file with
  | none => throwing (runtimeError ("cannot open embedding cache: "++cachePath))
  | some file => do
    let (embedder,_) ← construct source sourceOption ⟨file,0⟩
    return embedder

end Constructor

section Embed

/-- The most values that are decoded at a time. -/
def maximumChunkValues : ℕ := 1024*1024

/-- `decode_little_u32` of a value as it lies in the file. -/
def decodeLittleU32 (bytes : List UInt8) : UInt32 := UInt32.ofNat (ofLittleEndian bytes)

/-- The values of a buffer that was filled from the file. -/
def bufferValues : List UInt8 → List UInt32
  | first::second::third::fourth::rest =>
    decodeLittleU32 [first,second,third,fourth]::bufferValues rest
  | _ => []

/-- The variables that a round of the inner loop changes. -/
structure Decoder where
  /-- The vectors to return. -/
  result : List Embedding
  /-- `squared_norms`. -/
  squaredNorms : List Double
  /-- The row of the next value. -/
  row : ℕ
  /-- Its column. -/
  column : ℕ

/-- One round of the inner loop. -/
def decodeValue (dimension : ℕ) (decoder : Decoder) (raw : UInt32) : Except Fault Decoder := do
  let value := ofBitCast raw
  throwIf (¬value.Finite) (runtimeError "build embedding cache contains NaN or infinity")
  let embedding ← element decoder.result decoder.row
  let embedding ← assign embedding decoder.column value
  let result ← assign decoder.result decoder.row embedding
  let squaredNorm ← element decoder.squaredNorms decoder.row
  let squaredNorms ← assign decoder.squaredNorms decoder.row
    (squaredNorm+value.convert*value.convert)
  if decoder.column+1=dimension then return ⟨result,squaredNorms,decoder.row+1,0⟩
  else return ⟨result,squaredNorms,decoder.row,decoder.column+1⟩

/-- A read of so many bytes, which stops at the end of the file. -/
def readSome (input : Stream) (bytes : ℕ) : List UInt8×Stream :=
  (input.rest.take bytes,input.skip (min bytes input.rest.length))

/-- The rounds of the outer loop, at most so many of them. -/
def decodeChunks (dimension valueCount bufferSize : ℕ) :
    ℕ → ℕ → Decoder → Stream → Except Fault Decoder×Stream
  | 0,decoded,decoder,input =>
    (if decoded<valueCount then .error .endless else .ok decoder,input)
  | rounds+1,decoded,decoder,input =>
    if decoded<valueCount then
      let chunkValues := min (valueCount-decoded) bufferSize
      let chunkBytes := chunkValues*4
      let (bytes,input) := readSome input chunkBytes
      if bytes.length≠chunkBytes then (throwing (runtimeError "truncated embedding cache"),input)
      else match (bufferValues bytes).foldlM (decodeValue dimension) decoder with
      | .error fault => (.error fault,input)
      | .ok decoder =>
        decodeChunks dimension valueCount bufferSize rounds (decoded+chunkValues) decoder input
    else (.ok decoder,input)

/-- How far a norm may be from one. -/
def tolerance : Double := Binary.round false (2/1000)

/-- The check of one norm. -/
def checkNorm (squaredNorm : Double) : Except Fault Unit :=
  let norm := squaredNorm.sqrt
  throwIf (¬norm.Finite ∨ tolerance<(norm-1).abs)
    (runtimeError "build embedding cache contains a non-normalized vector")

/-- The checks of every norm, in order. -/
def checkNorms : List Double → Except Fault Unit
  | [] => return ()
  | squaredNorm::squaredNorms => do
    checkNorm squaredNorm
    checkNorms squaredNorms

/-- The checks behind the loops. -/
def settle (requested : ℕ) (decoder : Decoder) : Except Fault (List Embedding) := do
  throwIf (decoder.row≠requested ∨ decoder.column≠0)
    (logicError "embedding cache batch decoder lost row alignment")
  checkNorms decoder.squaredNorms
  return decoder.result

namespace EmbeddingCacheEmbedder

/-- The checks in front of the loops. -/
def checkRequested (embedder : EmbeddingCacheEmbedder) (requested : ℕ) : Except Fault ℕ := do
  throwIf (requested>embedder.remaining)
    (runtimeError "build requested more vectors than the embedding cache contains")
  checkedMultiply requested embedder.dimension "embedding cache decode batch"

/-- `embed`. A failed call keeps what it has read of the file. -/
def embed (embedder : EmbeddingCacheEmbedder) (texts : List Text) :
    Except Fault (List Embedding)×EmbeddingCacheEmbedder :=
  match embedder.checkRequested texts.length with
  | .error fault => (.error fault,embedder)
  | .ok valueCount =>
    let fresh : Decoder := ⟨.replicate texts.length (.replicate embedder.dimension 0),
      .replicate texts.length 0,0,0⟩
    let (decoded,input) := decodeChunks embedder.dimension valueCount
      (min valueCount maximumChunkValues) valueCount 0 fresh embedder.input
    match decoded>>=settle texts.length with
    | .error fault => (.error fault,{embedder with input := input})
    | .ok result =>
      let after := {embedder with input := input,remaining := embedder.remaining-texts.length}
      if after.remaining=0 ∧ input.rest≠[] then
        (throwing (runtimeError "build embedding cache has unexpected trailing bytes"),after)
      else (.ok result,after)

/-- `require_complete`. -/
def requireComplete (embedder : EmbeddingCacheEmbedder) : Except Fault Unit :=
  throwIf (embedder.remaining≠0)
    (runtimeError "build did not consume the complete embedding cache")

/-- Successive calls of `embed`, each with its answer. -/
def serve (embedder : EmbeddingCacheEmbedder) :
    List (List Text) → List (Except Fault (List Embedding))×EmbeddingCacheEmbedder
  | [] => ([],embedder)
  | texts::batches =>
    let (answer,embedder) := embedder.embed texts
    let (answers,embedder) := serve embedder batches
    (answer::answers,embedder)

end EmbeddingCacheEmbedder

end Embed

section Layout

/-- A digit that was printed is read back. -/
theorem nibbleOf_hexDigit : ∀ nibble<16,nibbleOf (hexDigit nibble)=some nibble := by
  decide

/-- A digit is not whitespace. -/
theorem skipped_hexDigit : ∀ nibble<16,skipped (hexDigit nibble)=false := by
  decide

/-- Bytes that were printed are read back. -/
theorem fromHex_hexDigits (bytes : List UInt8) : fromHex (hexDigits bytes)=some bytes := by
  induction bytes with
  | nil => rfl
  | cons byte bytes ih =>
    have hbyte : byte.toNat<256 := byte.toNat_lt
    have hhigh : byte.toNat/16<16 := by omega
    have hlow : byte.toNat%16<16 := Nat.mod_lt _ (by decide)
    have hdigits : hexDigits (byte::bytes)=
        hexDigit (byte.toNat/16)::hexDigit (byte.toNat%16)::hexDigits bytes := rfl
    have hvalue : UInt8.ofNat (16*(byte.toNat/16)+byte.toNat%16)=byte := by
      rw [Nat.div_add_mod,UInt8.ofNat_toNat]
    rw [hdigits,fromHex,skipped_hexDigit _ hhigh,nibbleOf_hexDigit _ hhigh,
      nibbleOf_hexDigit _ hlow,ih]
    exact congrArg (fun first => some (first::bytes)) hvalue

/-- A field is packed exactly when it fits its width. -/
theorem packField_ok (width : ℕ) (value : ℤ) (bytes : List UInt8) :
    packField width value=.ok bytes ↔
      (0≤value ∧ value<256^width) ∧ bytes=littleEndian width value.toNat := by
  unfold packField
  split <;> simp_all [eq_comm]

/-- What the script needs to lay out a header. -/
structure Packable (dimension count sourceSizeBytes : ℤ) (fingerprint : List Char)
    (sourceDigest : List UInt8) : Prop where
  /-- A row has values, and their number fits its field. -/
  dimension_range : 0<dimension ∧ dimension<256^4
  /-- There are rows, and their number fits its field. -/
  count_range : 0<count ∧ count<256^8
  /-- The size of the source fits its field. -/
  source_range : 0≤ sourceSizeBytes ∧ sourceSizeBytes<256^8
  /-- The embedder is named, and not by an unreasonably large name. -/
  fingerprint_range : 0<(encodeText fingerprint).length ∧
    (encodeText fingerprint).length≤ maxFingerprintBytes
  /-- The digest has its size. -/
  digest_length : sourceDigest.length=32

/-- The script lays out a header exactly for values that pass its checks and
fit their fields. -/
theorem cacheV2Header_ok (dimension count sourceSizeBytes : ℤ) (fingerprint : List Char)
    (sourceDigest header : List UInt8) :
    cacheV2Header dimension count fingerprint sourceSizeBytes (hexDigits sourceDigest)=.ok header ↔
      Packable dimension count sourceSizeBytes fingerprint sourceDigest ∧
      header=cacheMagic++(littleEndian 4 dimension.toNat++(littleEndian 8 count.toNat++
        (littleEndian 4 (encodeText fingerprint).length++
        (littleEndian 8 sourceSizeBytes.toNat++sourceDigest))))++encodeText fingerprint := by
  have hsize : (encodeText fingerprint).length≤ maxFingerprintBytes →
      ((encodeText fingerprint).length : ℤ)<256^4 := by
    unfold maxFingerprintBytes
    omega
  have hempty : encodeText fingerprint=[] ↔ ¬0<(encodeText fingerprint).length := by
    rw [←List.length_eq_zero_iff]
    omega
  rw [cacheV2Header,fromHex_hexDigits]
  dsimp only
  split
  · rename_i hbad
    rw [hempty] at hbad
    constructor
    · exact fun h => nomatch h
    · rintro ⟨h,-⟩
      have hd := h.dimension_range
      have hc := h.count_range
      have hf := h.fingerprint_range
      omega
  · rename_i hgood
    rw [hempty] at hgood
    split
    · rename_i hbad
      constructor
      · exact fun h => nomatch h
      · rintro ⟨h,-⟩
        have hs := h.source_range
        have hl := h.digest_length
        omega
    · rename_i hfits
      simp only [packFixed,bind_eq_ok,packField_ok,pure_eq_ok,Int.toNat_natCast,and_assoc,
        exists_and_left,exists_eq_left]
      constructor
      · rintro ⟨_,hd,_,hc,_,_,hs,hs',hheader⟩
        exact ⟨⟨⟨by omega,hd⟩,⟨by omega,hc⟩,⟨hs,hs'⟩,⟨by omega,by omega⟩,by omega⟩,hheader⟩
      · rintro ⟨h,hheader⟩
        have hd := h.dimension_range
        have hc := h.count_range
        have hs := h.source_range
        have hf := hsize h.fingerprint_range.2
        exact ⟨by omega,hd.2,by omega,hc.2,by omega,hf,hs.1,hs.2,hheader⟩

end Layout

section Accepts

/-- Checked sums do not wrap. -/
theorem checkedAdd_ends {lhs : ℕ} (hl : lhs≤uint64Max) (rhs : ℕ) (description : Text) :
    Ends (checkedAdd lhs rhs description) (fun fault => ∃ exception,fault=.thrown exception)
      (fun sum => sum=lhs+rhs ∧ lhs+rhs≤uint64Max) := by
  refine (throwIf_ends (fun _ => ⟨_,rfl⟩)).bind (fun _ hfits => ?_)
  have hsum : lhs+rhs≤uint64Max := by omega
  rw [(plus64_ok lhs rhs _).mpr ⟨hsum,rfl⟩]
  exact ⟨rfl,hsum⟩

/-- Checked products do not wrap. -/
theorem checkedMultiply_ends (lhs rhs : ℕ) (description : Text) :
    Ends (checkedMultiply lhs rhs description) (fun fault => ∃ exception,fault=.thrown exception)
      (fun product => product=lhs*rhs ∧ lhs*rhs≤uint64Max) := by
  refine (throwIf_ends (fun _ => ⟨_,rfl⟩)).bind (fun _ hfits => ?_)
  have hproduct : lhs*rhs≤uint64Max := by
    rcases Nat.eq_zero_or_pos lhs with hz|hpos
    · rw [hz,Nat.zero_mul]
      exact Nat.zero_le _
    · have hdiv : rhs≤uint64Max/lhs := by
        by_contra hover
        exact hfits ⟨hpos.ne',Nat.lt_of_not_le hover⟩
      rw [Nat.mul_comm]
      exact (Nat.le_div_iff_mul_le hpos).mp hdiv
  rw [(times64_ok lhs rhs _).mpr ⟨hproduct,rfl⟩]
  exact ⟨rfl,hproduct⟩

/-- A sum is returned exactly when it fits. -/
theorem checkedAdd_ok {lhs : ℕ} (hl : lhs≤uint64Max) (rhs value : ℕ) (description : Text) :
    checkedAdd lhs rhs description=.ok value ↔ lhs+rhs≤uint64Max ∧ value=lhs+rhs := by
  simp only [checkedAdd,bind_eq_ok,throwIf_ok,plus64_ok]
  constructor
  · rintro ⟨_,-,hsum⟩
    exact hsum
  · rintro ⟨hsum,hvalue⟩
    exact ⟨(),by omega,hsum,hvalue⟩

/-- A product is returned exactly when it fits. -/
theorem checkedMultiply_ok (lhs rhs value : ℕ) (description : Text) :
    checkedMultiply lhs rhs description=.ok value ↔ lhs*rhs≤uint64Max ∧ value=lhs*rhs := by
  simp only [checkedMultiply,bind_eq_ok,throwIf_ok,times64_ok]
  constructor
  · rintro ⟨_,-,hproduct⟩
    exact hproduct
  · rintro ⟨hproduct,hvalue⟩
    refine ⟨(),fun hover => ?_,hproduct,hvalue⟩
    have hdiv : rhs≤uint64Max/lhs :=
      (Nat.le_div_iff_mul_le (Nat.pos_of_ne_zero hover.1)).mpr (Nat.mul_comm lhs rhs ▸ hproduct)
    omega

/-- The bytes of the fields in front of the fingerprint. -/
def headerBytes (header : CacheHeader) : List UInt8 :=
  cacheMagic++(encode header.encodedDimension++(encode header.encodedCount++
    (encode header.fingerprintSize++(encode header.documentsSize++header.documentsSha256.toList))))

@[simp] theorem cacheMagic_length : cacheMagic.length=8 := by decide

@[simp] theorem headerBytes_length (header : CacheHeader) :
    (headerBytes header).length=fixedHeaderSize := by
  simp [headerBytes,fixedHeaderSize]

/-- A value is read from its encoding and from nothing else. -/
theorem readLittle_recognises (T : Type) [Unsigned T] :
    Recognises (readLittle T) (fun bytes value => bytes=encode value) :=
  collect_recognises T (takeByte_recognises _)

/-- The header is read from its fields. -/
theorem readHeader_recognises :
    Recognises readHeader (fun bytes header => bytes=headerBytes header) := by
  have hr : Recognises readHeader _ :=
    (Recognises.take notACache cacheMagic.length).bind (fun magic => .guarded _ _
    ((readLittle_recognises UInt32).bind (fun dimension =>
    (readLittle_recognises UInt64).bind (fun count =>
    (readLittle_recognises UInt32).bind (fun size =>
    (readLittle_recognises UInt64).bind (fun documents =>
    (takeArray_recognises _ 32).returning (fun sha256 =>
      (⟨dimension,count,size,documents,sha256⟩ : CacheHeader))))))))
  refine hr.congr (fun bytes header => ?_)
  constructor
  · rintro ⟨magic,_,_,rfl,⟨rfl,-⟩,hm,dimension,_,_,rfl,rfl,count,_,_,rfl,rfl,size,_,_,rfl,rfl,
      documents,_,_,rfl,rfl,sha256,rfl,rfl⟩
    rw [ne_eq,not_not] at hm
    rw [hm,headerBytes]
  · rintro rfl
    exact ⟨cacheMagic,_,_,rfl,⟨rfl,rfl⟩,by simp,header.encodedDimension,_,_,rfl,rfl,
      header.encodedCount,_,_,rfl,rfl,header.fingerprintSize,_,_,rfl,rfl,
      header.documentsSize,_,_,rfl,rfl,header.documentsSha256,rfl,rfl⟩

/-- The fields of a well-formed cache. -/
structure CacheImage where
  /-- The number of values in a row. -/
  dimension : UInt32
  /-- The number of rows. -/
  count : UInt64
  /-- The embedder the rows come from. -/
  fingerprint : Text
  /-- The size of the documents file. -/
  documentsSize : UInt64
  /-- The digest of the documents file. -/
  documentsSha256 : Sha256Digest
  /-- The bytes of the rows. -/
  values : List UInt8
  /-- A row has values. -/
  dimension_pos : 0<dimension.toNat
  /-- There are rows. -/
  count_pos : 0<count.toNat
  /-- The embedder is named. -/
  fingerprint_pos : 0<fingerprint.length
  /-- The name is not unreasonably large. -/
  fingerprint_bound : fingerprint.length≤ maxFingerprintBytes
  /-- Every value of every row has four bytes, and nothing follows them. -/
  values_length : values.length=count.toNat*dimension.toNat*4
  /-- The file is small enough to be addressed. -/
  file_bound : fixedHeaderSize+fingerprint.length+values.length≤ streamoffMax

namespace CacheImage

/-- The fields in front of the fingerprint. -/
def header (image : CacheImage) : CacheHeader :=
  ⟨image.dimension,image.count,UInt32.ofNat image.fingerprint.length,image.documentsSize,
    image.documentsSha256⟩

/-- The file of an image. -/
def bytes (image : CacheImage) : List UInt8 :=
  headerBytes image.header++(image.fingerprint++image.values)

/-- What opening the file of an image yields. -/
def embedder (image : CacheImage) : EmbeddingCacheEmbedder :=
  ⟨⟨image.bytes,fixedHeaderSize+image.fingerprint.length⟩,image.fingerprint,
    image.dimension.toNat,image.count.toNat⟩

/-- The rows are those of the documents of a source. -/
structure BoundTo (image : CacheImage) (source : DocumentsSource) : Prop where
  /-- There is a row for every document. -/
  count_eq : image.count.toNat=source.documents.length
  /-- The file has the same size. -/
  size_eq : image.documentsSize.toNat=source.fileSize
  /-- The file has the same digest. -/
  sha256_eq : image.documentsSha256=source.sha256

/-- The size of the fingerprint survives its encoding. -/
theorem fingerprintSize_toNat (image : CacheImage) :
    image.header.fingerprintSize.toNat=image.fingerprint.length := by
  have hb := image.fingerprint_bound
  unfold maxFingerprintBytes at hb
  rw [header,UInt32.toNat_ofNat']
  omega

/-- The size of a file. -/
theorem bytes_length (image : CacheImage) :
    image.bytes.length=fixedHeaderSize+image.fingerprint.length+image.values.length := by
  simp only [bytes,List.length_append,headerBytes_length]
  omega

/-- The rows begin where the constructor stops reading. -/
theorem embedder_rest (image : CacheImage) : image.embedder.input.rest=image.values := by
  rw [embedder,Stream.rest,bytes,←List.append_assoc]
  exact List.drop_left' (by rw [List.length_append,headerBytes_length])

end CacheImage

/-- The size a header announces, when it can be computed. -/
theorem expectedSize_ok (header : CacheHeader) (size : ℕ) : expectedSize header=.ok size ↔
    size=fixedHeaderSize+header.fingerprintSize.toNat+
      header.encodedCount.toNat*header.encodedDimension.toNat*4 ∧ size≤uint64Max := by
  have hf := header.fingerprintSize.toNat_lt
  have hfixed : fixedHeaderSize=64 := by decide
  have hh : fixedHeaderSize+header.fingerprintSize.toNat≤uint64Max := by
    rw [uint64Max]
    omega
  have hadd : ∀ value,checkedAdd fixedHeaderSize header.fingerprintSize.toNat
      "build embedding cache"=.ok value ↔ value=fixedHeaderSize+header.fingerprintSize.toNat :=
    fun value => (checkedAdd_ok (by omega) _ _ _).trans (and_iff_right hh)
  simp only [expectedSize,bind_eq_ok,checkedMultiply_ok,hadd,and_assoc,exists_and_left,
    exists_eq_left,checkedAdd_ok hh]
  constructor
  · rintro ⟨-,-,hsum,rfl⟩
    exact ⟨rfl,hsum⟩
  · rintro ⟨rfl,hsum⟩
    exact ⟨by omega,by omega,hsum,rfl⟩

/-- What the checks of the fields leave. -/
theorem checkHeader_ok (source : DocumentsSource) (sourceOption : Text) (header : CacheHeader)
    (value : Unit) : checkHeader source sourceOption header=.ok value ↔
      0<header.encodedDimension.toNat ∧ 0<header.encodedCount.toNat ∧
      header.encodedCount.toNat=source.documents.length ∧
      header.documentsSize.toNat=source.fileSize ∧ header.documentsSha256=source.sha256 ∧
      0<header.fingerprintSize.toNat ∧ header.fingerprintSize.toNat≤ maxFingerprintBytes := by
  have h32 (number : UInt32) : ¬number=0 ↔ 0<number.toNat := by
    rw [←UInt32.toNat_inj,UInt32.toNat_zero]
    omega
  have h64 (number : UInt64) : ¬number=0 ↔ 0<number.toNat := by
    rw [←UInt64.toNat_inj,UInt64.toNat_zero]
    omega
  simp only [checkHeader,bind_eq_ok,throwIf_ok,exists_const,h32,h64,ne_eq,not_or,not_not,
    gt_iff_lt,not_lt,and_assoc]

/-- What a header that passes its checks says about the rest of the file. -/
structure Announces (header : CacheHeader) (source : DocumentsSource) (rest : List UInt8) : Prop where
  /-- A row has values. -/
  dimension_pos : 0<header.encodedDimension.toNat
  /-- There are rows. -/
  count_pos : 0<header.encodedCount.toNat
  /-- There is a row for every document. -/
  count_eq : header.encodedCount.toNat=source.documents.length
  /-- The documents file has this size. -/
  size_eq : header.documentsSize.toNat=source.fileSize
  /-- The documents file has this digest. -/
  sha256_eq : header.documentsSha256=source.sha256
  /-- The embedder is named. -/
  fingerprint_pos : 0<header.fingerprintSize.toNat
  /-- The name is not unreasonably large. -/
  fingerprint_bound : header.fingerprintSize.toNat≤ maxFingerprintBytes
  /-- The rest is the fingerprint and the rows. -/
  rest_length : rest.length=header.fingerprintSize.toNat+
    header.encodedCount.toNat*header.encodedDimension.toNat*4
  /-- The file is small enough to be addressed. -/
  file_bound : fixedHeaderSize+rest.length≤ streamoffMax

/-- The constructor accepts a header and what it announces. -/
theorem construct_ok (source : DocumentsSource) (sourceOption : Text) (file : List UInt8)
    (embedder : EmbeddingCacheEmbedder) :
    (∃ stop,construct source sourceOption ⟨file,0⟩=.ok (embedder,stop)) ↔
      ∃ header rest,file=headerBytes header++rest ∧ Announces header source rest ∧
        embedder=⟨⟨file,fixedHeaderSize+header.fingerprintSize.toNat⟩,
          rest.take header.fingerprintSize.toNat,header.encodedDimension.toNat,
          header.encodedCount.toNat⟩ := by
  have hbehind (header : CacheHeader) (rest : List UInt8) :
      ((⟨headerBytes header++rest,0⟩ : Stream).skip (headerBytes header).length).rest=rest := by
    rw [Stream.skip_rest]
    exact List.drop_left
  simp only [construct,run_bind_ok,streamSize_ok,readHeader_recognises _ _ _,run_attempt_ok,check,
    run_failIf_ok,run_demand_ok,run_take_ok,expectedSize_ok,checkHeader_ok]
  constructor
  · rintro ⟨_,_,_,⟨haddressed,rfl,rfl⟩,header,_,⟨_,rfl,⟨rest,hrest⟩,rfl⟩,_,_,
      ⟨⟨hd,hc,hcount,hsize,hsha,hf,hbound⟩,rfl⟩,_,_,⟨⟨rfl,-⟩,rfl⟩,_,_,⟨hlength,rfl⟩,
      _,_,⟨-,rfl⟩,_,_,⟨-,rfl,rfl⟩,hresult⟩
    have hfile : file=headerBytes header++rest := hrest.symm
    subst hfile
    rw [hbehind] at hresult
    rw [ne_eq,not_not,List.length_append,headerBytes_length] at hlength
    rw [List.length_append,headerBytes_length] at haddressed
    refine ⟨header,rest,rfl,⟨hd,hc,hcount,hsize,hsha,hf,hbound,by omega,haddressed⟩,?_⟩
    rw [←(Prod.mk.inj (Except.ok.inj hresult)).1]
    simp only [Stream.skip,headerBytes_length,Nat.zero_add]
  · rintro ⟨header,rest,rfl,h,rfl⟩
    have hrest := h.rest_length
    have hfits := h.file_bound
    have hlength : (headerBytes header++rest).length=fixedHeaderSize+rest.length := by
      rw [List.length_append,headerBytes_length]
    have hle : header.fingerprintSize.toNat≤
        ((⟨headerBytes header++rest,0⟩ : Stream).skip (headerBytes header).length).rest.length := by
      rw [hbehind]
      omega
    have hmax : streamoffMax≤uint64Max := by decide
    refine ⟨⟨headerBytes header++rest,fixedHeaderSize+header.fingerprintSize.toNat⟩,
      _,_,⟨by rw [hlength]; exact hfits,rfl,rfl⟩,header,_,
      ⟨_,rfl,List.prefix_append _ _,rfl⟩,(),_,⟨⟨h.dimension_pos,h.count_pos,h.count_eq,h.size_eq,
      h.sha256_eq,h.fingerprint_pos,h.fingerprint_bound⟩,rfl⟩,_,_,⟨⟨rfl,by omega⟩,rfl⟩,(),_,
      ⟨by rw [ne_eq,not_not,hlength]; omega,rfl⟩,(),_,⟨hle,rfl⟩,_,_,⟨hle,rfl,rfl⟩,?_⟩
    rw [hbehind]
    simp only [Stream.skip,headerBytes_length,Nat.zero_add]

/-- The constructor succeeds exactly on the files of images that belong to the
documents. -/
theorem openCache_ok (cachePath : Text) (source : DocumentsSource) (sourceOption : Text)
    (file : Option (List UInt8)) (embedder : EmbeddingCacheEmbedder) :
    openCache cachePath source sourceOption file=.ok embedder ↔
      ∃ image : CacheImage,file=some image.bytes ∧ image.BoundTo source ∧
        embedder=image.embedder := by
  cases file with
  | none => simp [openCache,throwing]
  | some file =>
    have hopen : openCache cachePath source sourceOption (some file)=.ok embedder ↔
        ∃ stop,construct source sourceOption ⟨file,0⟩=.ok (embedder,stop) := by
      simp only [openCache,bind_eq_ok,Prod.exists,pure_eq_ok]
      constructor
      · rintro ⟨_,stop,hrun,rfl⟩
        exact ⟨stop,hrun⟩
      · rintro ⟨stop,hrun⟩
        exact ⟨embedder,stop,hrun,rfl⟩
    rw [hopen,construct_ok]
    constructor
    · rintro ⟨header,rest,rfl,h,rfl⟩
      have hrest := h.rest_length
      have htake : (rest.take header.fingerprintSize.toNat).length=header.fingerprintSize.toNat := by
        rw [List.length_take]
        omega
      have hdrop : (rest.drop header.fingerprintSize.toNat).length=
          rest.length-header.fingerprintSize.toNat := List.length_drop
      have hbound := h.file_bound
      let image : CacheImage := {
        dimension := header.encodedDimension
        count := header.encodedCount
        fingerprint := rest.take header.fingerprintSize.toNat
        documentsSize := header.documentsSize
        documentsSha256 := header.documentsSha256
        values := rest.drop header.fingerprintSize.toNat
        dimension_pos := h.dimension_pos
        count_pos := h.count_pos
        fingerprint_pos := htake.symm ▸ h.fingerprint_pos
        fingerprint_bound := htake.symm ▸ h.fingerprint_bound
        values_length := by omega
        file_bound := by omega }
      have hheader : image.header=header := by
        change CacheHeader.mk _ _ (UInt32.ofNat (rest.take _).length) _ _=header
        rw [htake,UInt32.ofNat_toNat]
      have hbytes : image.bytes=headerBytes header++rest := by
        rw [CacheImage.bytes,hheader]
        exact congrArg _ (List.take_append_drop _ _)
      refine ⟨image,congrArg some hbytes.symm,⟨h.count_eq,h.size_eq,h.sha256_eq⟩,?_⟩
      rw [CacheImage.embedder,hbytes,show image.fingerprint.length=_ from htake]
    · rintro ⟨image,hfile,hbound,rfl⟩
      have hsize := image.fingerprintSize_toNat
      have hvalues := image.values_length
      have hfits := image.file_bound
      have hrest := @List.length_append _ image.fingerprint image.values
      have hcount : image.header.encodedCount.toNat*image.header.encodedDimension.toNat*4=
          image.values.length := hvalues.symm
      refine ⟨image.header,image.fingerprint++image.values,Option.some.inj hfile,
        ⟨image.dimension_pos,image.count_pos,hbound.count_eq,hbound.size_eq,hbound.sha256_eq,
          hsize.symm ▸ image.fingerprint_pos,hsize.symm ▸ image.fingerprint_bound,by omega,by omega⟩,
        ?_⟩
      rw [Option.some.inj hfile,hsize,List.take_left]
      rfl

/-- Every failure in the header is an exception. -/
theorem readHeader_reported : Yields readHeader Reported (fun _ => True) := by
  have hmagic (magic : List UInt8) : Yields (failIf (magic≠cacheMagic) notACache : Reader Fault Unit)
      Reported (fun _ => True) :=
    fun start => (check_meets _ _ start).mono (fun _ h => h) (fun _ _ _ => trivial)
  have hfield (T : Type) [Unsigned T] : Yields (readLittle T) Reported (fun _ => True) :=
    collect_reported T (takeByte_reported _)
  exact (take_reported _ _).bind (fun magic _ => (hmagic magic).bind (fun _ _ =>
    (hfield UInt32).bind (fun _ _ => (hfield UInt64).bind (fun _ _ =>
    (hfield UInt32).bind (fun _ _ => (hfield UInt64).bind (fun _ _ =>
    (takeArray_reported _ 32).bind (fun _ _ => Yields.returned trivial)))))))

/-- Every failed check of a field is an exception. -/
theorem checkHeader_reported (source : DocumentsSource) (sourceOption : Text) (header : CacheHeader) :
    Ends (checkHeader source sourceOption header) Reported (fun _ => True) :=
  (throwIf_ends (fun _ => ⟨_,rfl⟩)).bind (fun _ _ => (throwIf_ends (fun _ => ⟨_,rfl⟩)).bind
    (fun _ _ => (throwIf_ends (fun _ => ⟨_,rfl⟩)).bind (fun _ _ =>
    (throwIf_ends (fun _ => ⟨_,rfl⟩)).bind (fun _ _ => (throwIf_ends (fun _ => ⟨_,rfl⟩)).bind
    (fun _ _ => (throwIf_ends (fun _ => ⟨_,rfl⟩)).mono (fun _ h => h) (fun _ _ => trivial))))))

/-- No product and no sum of the size wraps, whatever the header says. -/
theorem expectedSize_reported (header : CacheHeader) :
    Ends (expectedSize header) Reported (fun size => size=fixedHeaderSize+
      header.fingerprintSize.toNat+header.encodedCount.toNat*header.encodedDimension.toNat*4) := by
  have hf := header.fingerprintSize.toNat_lt
  have hfixed : fixedHeaderSize≤uint64Max := by decide
  refine (checkedMultiply_ends _ _ _).bind (fun values hvalues => ?_)
  refine (checkedMultiply_ends _ _ _).bind (fun bytes hbytes => ?_)
  refine (checkedAdd_ends hfixed _ _).bind (fun front hfront => ?_)
  refine (checkedAdd_ends (by omega) _ _).mono (fun _ h => h) (fun size hsize => ?_)
  rw [hsize.1,hfront.1,hbytes.1,hvalues.1]

/-- The header is read to its end. -/
theorem readHeader_meets (file : List UInt8) : Meets readHeader ⟨file,0⟩ Reported
    (fun _ stream => stream=⟨file,fixedHeaderSize⟩) := by
  refine reported_meets (readHeader_reported _) (fun header stop hok => ?_)
  obtain ⟨_,rfl,-,hstop⟩ := (readHeader_recognises _ _ _).mp hok
  rw [hstop,headerBytes_length,Stream.skip,Nat.zero_add]

/-- The constructor fails with exceptions only: it neither wraps nor asks for
memory that the file does not back. -/
theorem openCache_reported (cachePath : Text) (source : DocumentsSource) (sourceOption : Text)
    (file : Option (List UInt8)) :
    Ends (openCache cachePath source sourceOption file) Reported (fun _ => True) := by
  cases file with
  | none => exact ⟨_,rfl⟩
  | some file =>
    have hrun : Meets (construct source sourceOption) ⟨file,0⟩ Reported (fun _ _ => True) := by
      refine (streamSize_meets "embedding cache" ⟨file,0⟩).bind (fun size stream hs => ?_)
      obtain ⟨hsize,rfl,-⟩ := hs
      change size=file.length at hsize
      subst hsize
      refine (readHeader_meets file).bind (fun header stream hs => ?_)
      refine (attempt_meets (checkHeader_reported source sourceOption header)).bind
        (fun _ after hc => ?_)
      obtain ⟨-,rfl⟩ := hc
      refine (attempt_meets (expectedSize_reported header)).bind (fun expected after he => ?_)
      obtain ⟨he,rfl⟩ := he
      refine (check_meets _ _ _).bind (fun _ last hc => ?_)
      obtain ⟨hlength,rfl⟩ := hc
      have hle : header.fingerprintSize.toNat≤last.rest.length := by
        rw [hs]
        change _≤(file.drop fixedHeaderSize).length
        rw [List.length_drop]
        omega
      have hdemand : Meets (demand Fault.unbacked header.fingerprintSize.toNat) last Reported
          (fun _ _ => True) := by
        unfold Meets demand
        rw [if_pos hle]
        trivial
      exact hdemand.bind (fun _ state _ => (take_reported _ _ state).bind (fun _ _ _ => trivial))
    exact Ends.bind hrun (fun _ _ => trivial)

end Accepts

end Leann.EmbeddingCache
