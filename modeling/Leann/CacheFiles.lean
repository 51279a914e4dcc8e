import Leann.CacheServing
import Leann.GroundTruthReaders
import Leann.PythonValues

/-!
# Embedding caches as the scripts read them

`read_cache` takes the legacy format and the one that is bound to its source.
It checks the fields, the size of the file and every row. What it accepts is
what the fields of a cache lay out, and nothing else.
-/

namespace Leann.CacheFiles

open ByteStream Format Checksum Lines BinaryFloat IndexFile EmbeddingCache CacheServing PythonValues
open Exceptions (Text text bind_eq_ok pure_eq_ok)
open Embeddings (Embedding)
open GroundTruth (decodeUtf8 decodeUtf8_ok)

section Source

/-- The exceptions that end the generation or the use of a cache. -/
inductive CacheError where
  /-- The fields of a cache of a version are incomplete. -/
  | truncatedHeader (version : ℕ)
  /-- The file is no cache. -/
  | unexpectedMagic
  /-- There are no rows, or they are empty. -/
  | notPositive
  /-- The name of the embedder is too long. -/
  | unreasonableFingerprint
  /-- The name of the embedder is incomplete. -/
  | truncatedFingerprint
  /-- The name of the embedder is no text. -/
  | fingerprintNotUtf8
  /-- The file is longer or shorter than its fields say. -/
  | lengthMismatch (expected size : ℕ)
  /-- There is no matrix to validate. -/
  | emptyMatrix
  /-- A value of a block of rows is not finite. -/
  | notFinite (begins : ℕ)
  /-- A row of a block has no length. -/
  | zeroLength (begins : ℕ)
  /-- A row has another length than one. -/
  | notNormalized
  /-- The cache has not a row for every line. -/
  | countMismatch (count lines : ℕ)
  /-- The source has another size. -/
  | sourceSizeMismatch
  /-- The source has another digest. -/
  | sourceShaMismatch
  /-- A legacy cache is not bound to its source. -/
  | unboundCache
  /-- A header cannot be laid out. -/
  | header (failure : HeaderError)
  /-- There is no line to embed. -/
  | noLines
  /-- The cache has another embedder. -/
  | fingerprintMismatch
  /-- The sidecar has another schema. -/
  | unknownSidecar
  /-- The sidecar has another role. -/
  | roleMismatch
  /-- The sidecar has another model. -/
  | modelMismatch
  /-- The sidecar has other bindings. -/
  | bindingsMismatch
  /-- The sidecar belongs to another cache. -/
  | sidecarShaMismatch
  /-- The sidecar belongs to another source. -/
  | sidecarSourceMismatch
  /-- There is neither a sidecar nor a checkpoint. -/
  | noSidecar
  /-- The checkpoint does not publish. -/
  | incompleteProvenance
  /-- The checkpoint that publishes has other inputs. -/
  | publicationInputMismatch
  /-- The checkpoint publishes another cache. -/
  | publicationShaMismatch
  /-- There is a partial file without a checkpoint, or the reverse. -/
  | notTogether
  /-- The checkpoint belongs to other inputs. -/
  | differentInputs
  /-- The checkpoint does not say when it was begun. -/
  | noStartTime
  /-- The partial file is shorter than its checkpoint. -/
  | shorterThanCheckpoint
  /-- The partial file has other rows than its checkpoint. -/
  | payloadMismatch
  /-- The cache to begin with is a legacy one. -/
  | prefixVersion
  /-- The cache to begin with is not smaller. -/
  | prefixTooLarge
  /-- The cache to begin with has another embedder. -/
  | prefixFingerprint
  /-- The cache to begin with has rows of another size. -/
  | prefixDimension
  /-- The cache to begin with has no fitting sidecar. -/
  | prefixProvenance
  /-- The source of the cache to begin with is no part of this one. -/
  | prefixSource
  /-- Not all rows were generated. -/
  | endedEarly
  /-- A call of the operating system or of the endpoint failed. -/
  | callFailed
  deriving DecidableEq

/-- The first bytes of a legacy cache, `MAGIC_V1`. -/
def magicV1 : Text := text "LEANNBC1"

/-- The fields in front of the name of the embedder. -/
structure FixedPart where
  /-- `dimension`. -/
  dimension : ℕ
  /-- `count`. -/
  count : ℕ
  /-- `fingerprint_size`. -/
  fingerprintSize : ℕ
  /-- `source_size` and `source_sha256_raw`, which a legacy cache lacks. -/
  source : Option (ℕ×Text)
  deriving DecidableEq

/-- The version of a cache with these fields. -/
def FixedPart.version (fixed : FixedPart) : ℕ := if fixed.source=none then 1 else 2

/-- One unsigned field of `struct.unpack`. -/
def unpackField (truncated : CacheError) (width : ℕ) : Reader CacheError ℕ := do
  let bytes ← take truncated width
  return ofLittleEndian bytes

/-- `V1_FIXED.unpack` behind the magic. -/
def unpackV1 : Reader CacheError FixedPart := do
  let dimension ← unpackField (.truncatedHeader 1) 4
  let count ← unpackField (.truncatedHeader 1) 8
  let fingerprintSize ← unpackField (.truncatedHeader 1) 4
  return ⟨dimension,count,fingerprintSize,none⟩

/-- `V2_FIXED.unpack` behind the magic. -/
def unpackV2 : Reader CacheError FixedPart := do
  let dimension ← unpackField (.truncatedHeader 2) 4
  let count ← unpackField (.truncatedHeader 2) 8
  let fingerprintSize ← unpackField (.truncatedHeader 2) 4
  let sourceSize ← unpackField (.truncatedHeader 2) 8
  let sourceSha256Raw ← take (.truncatedHeader 2) 32
  return ⟨dimension,count,fingerprintSize,some (sourceSize,sourceSha256Raw)⟩

/-- The magic and the fields behind it. -/
def unpackFixed : Reader CacheError FixedPart := do
  let magic ← take .unexpectedMagic 8
  if magic=magicV1 then unpackV1
  else do
    failIf (magic≠cacheMagic) .unexpectedMagic
    unpackV2

/-- `_decode_fingerprint`. -/
def decodeFingerprint (raw : Text) : Except CacheError (List Char) :=
  match decodeUtf8 raw with
  | .ok characters => .ok characters
  | .error _ => .error .fingerprintNotUtf8

/-- Everything in front of the rows. -/
def readFront : Reader CacheError (FixedPart×List Char) := do
  let fixed ← unpackFixed
  failIf (fixed.dimension=0 ∨ fixed.count=0) .notPositive
  failIf (fixed.fingerprintSize>maxFingerprintBytes) .unreasonableFingerprint
  let raw ← take .truncatedFingerprint fixed.fingerprintSize
  let fingerprint ← attempt (decodeFingerprint raw)
  return (fixed,fingerprint)

/-- What `read_cache` tells of a file. -/
structure CacheMetadata where
  /-- `version`. -/
  version : ℕ
  /-- `count`. -/
  count : ℕ
  /-- `dimensions`. -/
  dimensions : ℕ
  /-- `fingerprint`. -/
  fingerprint : List Char
  /-- `vector_offset`. -/
  vectorOffset : ℕ
  /-- `vector_bytes`. -/
  vectorBytes : ℕ
  /-- `size_bytes`. -/
  sizeBytes : ℕ
  /-- `source_size_bytes` and `source_sha256`. -/
  source : Option (ℕ×List Char)
  deriving DecidableEq

/-- The smallest normal number, `np.finfo(np.float32).tiny`. -/
def tiny : Single := Binary.round false (1/2^126)

/-- `unit_tolerance`. -/
def unitTolerance : Single := Binary.round false (2/1000)

variable (norm : Embedding → Single)

/-- One round of the loop of `validate_vector_matrix`. -/
def validateBlock (requireUnit : Bool) (begins : ℕ) (block : List Embedding) : Except CacheError Unit := do
  raiseWhen (∃ row∈block,∃ value∈row,¬value.Finite) (.notFinite begins)
  raiseWhen (∃ row∈block,norm row≤tiny) (.zeroLength begins)
  raiseWhen (requireUnit=true ∧ ∃ row∈block,unitTolerance<(norm row-1).abs) .notNormalized

/-- The loop of `validate_vector_matrix` over blocks of so many rows. -/
def validateBlocks (requireUnit : Bool) (blockRows : ℕ) : ℕ → ℕ → List Embedding → Except CacheError Unit
  | 0,_,_ => return ()
  | rounds+1,begins,rows => do
    validateBlock norm requireUnit begins (rows.take blockRows)
    validateBlocks requireUnit blockRows rounds (begins+blockRows) (rows.drop blockRows)

/-- `validation_rows`. -/
def validationRows : ℕ := 8192

/-- `validate_vector_matrix` of a matrix. -/
def validateVectorMatrix (requireUnit : Bool) (dimension : ℕ) (rows : List Embedding) :
    Except CacheError Unit := do
  raiseWhen (rows=[] ∨ dimension=0) .emptyMatrix
  validateBlocks norm requireUnit validationRows ((rows.length+validationRows-1)/validationRows) 0 rows

/-- The matrix in these bytes. -/
def matrixRows (dimension count : ℕ) (bytes : Text) : List Embedding :=
  (List.range count).map (fun row => rowAt dimension row (cells bytes))

/-- `read_cache` of a file with these bytes. -/
def readCache (bytes : Text) : Except CacheError (List Embedding×CacheMetadata) := do
  let ((fixed,fingerprint),stream) ← readFront ⟨bytes,0⟩
  let vectorOffset := stream.position
  let vectorBytes := fixed.count*fixed.dimension*4
  raiseWhen (bytes.length≠vectorOffset+vectorBytes) (.lengthMismatch (vectorOffset+vectorBytes) bytes.length)
  let vectors := matrixRows fixed.dimension fixed.count (bytes.drop vectorOffset)
  validateVectorMatrix norm (fixed.version=2) fixed.dimension vectors
  return (vectors,⟨fixed.version,fixed.count,fixed.dimension,fingerprint,vectorOffset,vectorBytes,bytes.length,
    fixed.source.map (fun source => (source.1,hexDigits source.2))⟩)

/-- `validate_cache_source` with `require_integrity`. -/
def validateCacheSource (metadata : CacheMetadata) (characters : List Char) : Except CacheError Unit := do
  let identity := sourceIdentity characters
  raiseWhen (metadata.count≠identity.nonemptyLines) (.countMismatch metadata.count identity.nonemptyLines)
  match metadata.source with
  | some (sizeBytes,sha256) => do
    raiseWhen (sizeBytes≠identity.sizeBytes) .sourceSizeMismatch
    raiseWhen (sha256≠identity.sha256) .sourceShaMismatch
  | none => .error .unboundCache

end Source

section Rows

variable (norm : Embedding → Single)

/-- What a row of a cache has to be. -/
def RowValid (requireUnit : Bool) (row : Embedding) : Prop :=
  (∀ value∈row,value.Finite) ∧ ¬norm row≤tiny ∧ (requireUnit=true → ¬unitTolerance<(norm row-1).abs)

variable {norm} {requireUnit : Bool}

/-- A block passes when its rows do. -/
theorem validateBlock_ok (begins : ℕ) (block : List Embedding) (value : Unit) :
    validateBlock norm requireUnit begins block=.ok value ↔ ∀ row∈block,RowValid norm requireUnit row := by
  simp only [validateBlock,bind_eq_ok,raiseWhen_ok]
  constructor
  · intro h row hrow
    obtain ⟨_,hfinite,_,hlong,hunit⟩ := h
    refine ⟨fun value hvalue => ?_,fun hshort => hlong ⟨row,hrow,hshort⟩,fun hr hfar =>
      hunit ⟨hr,row,hrow,hfar⟩⟩
    by_contra hvalue'
    exact hfinite ⟨row,hrow,value,hvalue,hvalue'⟩
  · intro h
    refine ⟨(),fun hbad => ?_,(),fun hbad => ?_,fun hbad => ?_⟩
    · obtain ⟨row,hrow,value,hvalue,hvalue'⟩ := hbad
      exact hvalue' ((h row hrow).1 value hvalue)
    · obtain ⟨row,hrow,hshort⟩ := hbad
      exact (h row hrow).2.1 hshort
    · obtain ⟨hr,row,hrow,hfar⟩ := hbad
      exact (h row hrow).2.2 hr hfar

/-- All blocks pass when all rows do. -/
theorem validateBlocks_ok {blockRows rounds : ℕ} {begins : ℕ} {rows : List Embedding}
    (h : rows.length≤ rounds*blockRows) (value : Unit) :
    validateBlocks norm requireUnit blockRows rounds begins rows=.ok value ↔
      ∀ row∈rows,RowValid norm requireUnit row := by
  induction rounds generalizing begins rows with
  | zero =>
    have hnil : rows=[] := List.length_eq_zero_iff.mp (by omega)
    rw [hnil,validateBlocks,pure_eq_ok]
    exact ⟨fun _ _ hrow => absurd hrow List.not_mem_nil,fun _ => rfl⟩
  | succ rounds ih =>
    have hrest : (rows.drop blockRows).length≤ rounds*blockRows := by
      rw [List.length_drop]
      rw [Nat.add_mul,Nat.one_mul] at h
      omega
    simp only [validateBlocks,bind_eq_ok,validateBlock_ok,ih hrest,exists_const]
    rw [←List.forall_mem_append,List.take_append_drop]

/-- A matrix passes when it is one and all its rows do. -/
theorem validateVectorMatrix_ok (dimension : ℕ) (rows : List Embedding) (value : Unit) :
    validateVectorMatrix norm requireUnit dimension rows=.ok value ↔
      (rows≠[] ∧ 0<dimension) ∧ ∀ row∈rows,RowValid norm requireUnit row := by
  have hrounds : rows.length≤(rows.length+validationRows-1)/validationRows*validationRows := by
    unfold validationRows
    omega
  simp only [validateVectorMatrix,bind_eq_ok,raiseWhen_ok,validateBlocks_ok hrounds,not_or,exists_const,
    Nat.pos_iff_ne_zero]

/-- The first rows of some values are these values. -/
theorem flatMap_rowAt (dimension count : ℕ) (values : List Single) :
    (List.range count).flatMap (fun row => rowAt dimension row values)=values.take (count*dimension) := by
  induction count with
  | zero => rw [List.range_zero,List.flatMap_nil,Nat.zero_mul,List.take_zero]
  | succ count ih =>
    rw [List.range_succ,List.flatMap_append,ih,List.flatMap_singleton,Nat.add_mul,Nat.one_mul,rowAt]
    exact List.take_add.symm

/-- Whole values are encoded as they were. -/
theorem encode_bufferValues (count : ℕ) {bytes : Text} (h : bytes.length=count*4) :
    (bufferValues bytes).flatMap encode=bytes := by
  induction count generalizing bytes with
  | zero =>
    rw [Nat.zero_mul,List.length_eq_zero_iff] at h
    rw [h]
    rfl
  | succ count ih =>
    obtain ⟨first,second,third,fourth,rest,hbytes,hrest⟩ := exists_first h
    have hvalue : ofLittleEndian [first,second,third,fourth]<2^32 :=
      lt_of_lt_of_eq (ofLittleEndian_lt _) (by simp only [List.length_cons,List.length_nil]; norm_num)
    have hfour : encode (decodeLittleU32 [first,second,third,fourth])=[first,second,third,fourth] := by
      rw [encode,decodeLittleU32]
      change littleEndian 4 (UInt32.ofNat _).toNat=_
      rw [UInt32.toNat_ofNat_of_lt' hvalue]
      exact littleEndian_ofLittleEndian [first,second,third,fourth]
    rw [hbytes,bufferValues,List.flatMap_cons,ih hrest,hfour]
    rfl

/-- The rows of a payload are read back. -/
theorem matrixRows_payload {dimension : ℕ} {rows : List Embedding} (h : ∀ row∈rows,row.length=dimension) :
    matrixRows dimension rows.length (payload rows)=rows := by
  rw [matrixRows,cells_payload]
  apply List.ext_getElem
  · rw [List.length_map,List.length_range]
  · intro row hr hr'
    rw [List.getElem_map,List.getElem_range]
    exact rowAt_flatten h hr'

/-- There are as many rows as asked for. -/
theorem matrixRows_length (dimension count : ℕ) (bytes : Text) :
    (matrixRows dimension count bytes).length=count := by
  rw [matrixRows,List.length_map,List.length_range]

/-- The rows of a whole matrix are whole. -/
theorem length_of_matrixRows {dimension count : ℕ} {bytes : Text} (h : bytes.length=count*dimension*4)
    {row : Embedding} (hrow : row∈matrixRows dimension count bytes) : row.length=dimension := by
  obtain ⟨number,hnumber,rfl⟩ := List.mem_map.mp hrow
  have hfits : (number+1)*dimension≤ count*dimension :=
    Nat.mul_le_mul_right dimension (List.mem_range.mp hnumber)
  rw [Nat.add_mul,Nat.one_mul] at hfits
  rw [rowAt,List.length_take,List.length_drop,cells,List.length_map,bufferValues_length _ h]
  omega

/-- The payload of the rows of a whole matrix are its bytes. -/
theorem payload_matrixRows {dimension count : ℕ} {bytes : Text} (h : bytes.length=count*dimension*4) :
    payload (matrixRows dimension count bytes)=bytes := by
  have hcells : (cells bytes).length=count*dimension := by
    rw [cells,List.length_map,bufferValues_length _ h]
  have hflatten : (matrixRows dimension count bytes).flatten=cells bytes := by
    rw [matrixRows,←List.flatMap_def,flatMap_rowAt,←hcells,List.take_length]
  rw [payload,hflatten,cells,List.flatMap_map]
  refine Eq.trans ?_ (encode_bufferValues _ h)
  congr 1
  funext raw
  rw [floatBytes,bitCast_ofBitCast]

end Rows

section Layout

/-- The bytes of the fields in front of the name of the embedder. -/
def fixedBytes (fixed : FixedPart) : Text :=
  match fixed.source with
  | none => magicV1++(littleEndian 4 fixed.dimension++(littleEndian 8 fixed.count++
      littleEndian 4 fixed.fingerprintSize))
  | some (sourceSize,sourceSha256) => cacheMagic++(littleEndian 4 fixed.dimension++
      (littleEndian 8 fixed.count++(littleEndian 4 fixed.fingerprintSize++
        (littleEndian 8 sourceSize++sourceSha256))))

/-- The fields fit their widths. -/
structure FixedPart.Fits (fixed : FixedPart) : Prop where
  /-- The dimension. -/
  dimension_lt : fixed.dimension<256^4
  /-- The number of rows. -/
  count_lt : fixed.count<256^8
  /-- The size of the name of the embedder. -/
  fingerprintSize_lt : fixed.fingerprintSize<256^4
  /-- The size of the source and its digest. -/
  source_fits : ∀ sourceSize sourceSha256,fixed.source=some (sourceSize,sourceSha256) →
    sourceSize<256^8 ∧ sourceSha256.length=32

/-- A field is read from its bytes and from nothing else. -/
theorem unpackField_recognises (truncated : CacheError) (width : ℕ) :
    Recognises (unpackField truncated width) (fun bytes value =>
      bytes=littleEndian width value ∧ value<256^width) := by
  refine ((Recognises.take truncated width).returning ofLittleEndian).congr (fun bytes value => ?_)
  constructor
  · intro h
    obtain ⟨_,⟨rfl,hlength⟩,hvalue⟩ := h
    rw [hvalue,←hlength]
    exact ⟨(littleEndian_ofLittleEndian _).symm,ofLittleEndian_lt _⟩
  · intro h
    refine ⟨bytes,⟨rfl,by rw [h.1,littleEndian_length]⟩,?_⟩
    rw [h.1,ofLittleEndian_littleEndian,Nat.mod_eq_of_lt h.2]

/-- The fields of a legacy cache are read from their bytes. -/
theorem unpackV1_recognises :
    Recognises unpackV1 (fun bytes fixed => magicV1++bytes=fixedBytes fixed ∧ fixed.Fits ∧ fixed.source=none) := by
  have hr : Recognises unpackV1 _ :=
    (unpackField_recognises (.truncatedHeader 1) 4).field (fun dimension =>
    (unpackField_recognises (.truncatedHeader 1) 8).field (fun count =>
    (unpackField_recognises (.truncatedHeader 1) 4).returning (fun size =>
      (⟨dimension,count,size,none⟩ : FixedPart))))
  refine hr.congr (fun bytes fixed => ?_)
  constructor
  · intro h
    obtain ⟨dimension,hd,_,rfl,count,hc,_,rfl,size,⟨rfl,hs⟩,rfl⟩ := h
    exact ⟨rfl,⟨hd,hc,hs,fun _ _ hsource => absurd hsource (Option.some_ne_none _).symm⟩,rfl⟩
  · intro h
    obtain ⟨dimension,count,size,source⟩ := fixed
    obtain ⟨hbytes,hfits,hsource⟩ := h
    cases hsource
    exact ⟨dimension,hfits.dimension_lt,_,List.append_cancel_left hbytes,count,hfits.count_lt,_,rfl,size,
      ⟨rfl,hfits.fingerprintSize_lt⟩,rfl⟩

/-- The fields of a bound cache are read from their bytes. -/
theorem unpackV2_recognises :
    Recognises unpackV2 (fun bytes fixed => cacheMagic++bytes=fixedBytes fixed ∧ fixed.Fits ∧
      fixed.source≠none) := by
  have hr : Recognises unpackV2 _ :=
    (unpackField_recognises (.truncatedHeader 2) 4).field (fun dimension =>
    (unpackField_recognises (.truncatedHeader 2) 8).field (fun count =>
    (unpackField_recognises (.truncatedHeader 2) 4).field (fun size =>
    (unpackField_recognises (.truncatedHeader 2) 8).field (fun sourceSize =>
    (Recognises.take (CacheError.truncatedHeader 2) 32).returning (fun sourceSha256 =>
      (⟨dimension,count,size,some (sourceSize,sourceSha256)⟩ : FixedPart))))))
  refine hr.congr (fun bytes fixed => ?_)
  constructor
  · intro h
    obtain ⟨dimension,hd,_,rfl,count,hc,_,rfl,size,hs,_,rfl,sourceSize,hsize,_,rfl,sourceSha256,
      ⟨rfl,hsha⟩,rfl⟩ := h
    refine ⟨rfl,⟨hd,hc,hs,fun _ _ hsource => ?_⟩,Option.some_ne_none _⟩
    obtain ⟨rfl,rfl⟩ := Prod.mk.inj (Option.some.inj hsource)
    exact ⟨hsize,hsha⟩
  · intro h
    obtain ⟨dimension,count,size,source⟩ := fixed
    obtain ⟨hbytes,hfits,hsource⟩ := h
    obtain ⟨⟨sourceSize,sourceSha256⟩,rfl⟩ := Option.ne_none_iff_exists'.mp hsource
    obtain ⟨hsize,hsha⟩ := hfits.source_fits _ _ rfl
    exact ⟨dimension,hfits.dimension_lt,_,List.append_cancel_left hbytes,count,hfits.count_lt,_,rfl,size,
      hfits.fingerprintSize_lt,_,rfl,sourceSize,hsize,_,rfl,sourceSha256,⟨rfl,hsha⟩,rfl⟩

/-- The magics differ. -/
theorem cacheMagic_ne : cacheMagic≠magicV1 := by decide

/-- The magic and the fields are read from their bytes. -/
theorem unpackFixed_recognises :
    Recognises unpackFixed (fun bytes fixed => bytes=fixedBytes fixed ∧ fixed.Fits) := by
  have hnext (magic : Text) : Recognises (if magic=magicV1 then unpackV1 else do
      failIf (magic≠cacheMagic) .unexpectedMagic
      unpackV2) (fun bytes fixed => (magic=magicV1 ∨ magic=cacheMagic) ∧ magic++bytes=fixedBytes fixed ∧
        fixed.Fits) := by
    split
    · rename_i hmagic
      refine unpackV1_recognises.congr (fun bytes fixed => ?_)
      rw [hmagic]
      constructor
      · exact fun h => ⟨.inl rfl,h.1,h.2.1⟩
      · intro h
        refine ⟨h.2.1,h.2.2,?_⟩
        cases hsource : fixed.source with
        | none => rfl
        | some source =>
          have hbytes := h.2.1
          rw [fixedBytes,hsource] at hbytes
          exact absurd (List.append_inj_left hbytes rfl).symm cacheMagic_ne
    · rename_i hmagic
      refine (unpackV2_recognises.guarded (magic≠cacheMagic) .unexpectedMagic).congr (fun bytes fixed => ?_)
      constructor
      · intro h
        have hsame : magic=cacheMagic := not_not.mp h.1
        rw [hsame]
        exact ⟨.inr rfl,h.2.1,h.2.2.1⟩
      · intro h
        have hsame : magic=cacheMagic := h.1.resolve_left hmagic
        rw [hsame] at h ⊢
        refine ⟨not_not.mpr rfl,h.2.1,h.2.2,fun hsource => ?_⟩
        have hbytes := h.2.1
        rw [fixedBytes,hsource] at hbytes
        exact absurd (List.append_inj_left hbytes rfl) cacheMagic_ne
  refine ((Recognises.take CacheError.unexpectedMagic 8).bind hnext).congr (fun bytes fixed => ?_)
  constructor
  · intro h
    obtain ⟨magic,_,back,rfl,⟨rfl,-⟩,-,hbytes,hfits⟩ := h
    exact ⟨hbytes,hfits⟩
  · intro h
    obtain ⟨rfl,hfits⟩ := h
    unfold fixedBytes
    split
    · exact ⟨magicV1,magicV1,_,rfl,⟨rfl,rfl⟩,.inl rfl,rfl,hfits⟩
    · exact ⟨cacheMagic,cacheMagic,_,rfl,⟨rfl,rfl⟩,.inr rfl,rfl,hfits⟩

/-- A name is decoded from its bytes. -/
theorem decodeFingerprint_ok (raw : Text) (fingerprint : List Char) :
    decodeFingerprint raw=.ok fingerprint ↔ raw=encodeText fingerprint := by
  rw [←decodeUtf8_ok,decodeFingerprint]
  cases decodeUtf8 raw with
  | ok characters => simp only [Except.ok.injEq]
  | error failure => simp only [reduceCtorEq]

/-- What is in front of the rows. -/
def Front (bytes : Text) (front : FixedPart×List Char) : Prop :=
  bytes=fixedBytes front.1++encodeText front.2 ∧ front.1.Fits ∧ (0<front.1.dimension ∧ 0<front.1.count) ∧
    front.1.fingerprintSize≤ maxFingerprintBytes ∧ front.1.fingerprintSize=(encodeText front.2).length

/-- Everything in front of the rows is read from its bytes. -/
theorem readFront_recognises : Recognises readFront Front := by
  have hr : Recognises readFront _ := unpackFixed_recognises.field (fun fixed =>
    .guarded (fixed.dimension=0 ∨ fixed.count=0) .notPositive
    (.guarded (fixed.fingerprintSize>maxFingerprintBytes) .unreasonableFingerprint
    ((Recognises.take .truncatedFingerprint fixed.fingerprintSize).bind (fun raw =>
    .attempted (decodeFingerprint raw) (fun fingerprint => Recognises.pure (fixed,fingerprint))))))
  refine hr.congr (fun bytes front => ?_)
  constructor
  · intro h
    obtain ⟨fixed,hfits,_,rfl,hpos,hsize,raw,_,_,rfl,⟨rfl,hlength⟩,fingerprint,hdecode,rfl,rfl⟩ := h
    have hraw := (decodeFingerprint_ok _ _).mp hdecode
    rw [List.append_nil]
    exact ⟨by rw [hraw],hfits,by dsimp only; omega,Nat.le_of_not_gt hsize,by rw [←hlength,hraw]⟩
  · intro h
    obtain ⟨fixed,fingerprint⟩ := front
    obtain ⟨rfl,hfits,hpos,hsize,hlength⟩ := h
    dsimp only at hpos hsize hlength
    exact ⟨fixed,hfits,_,rfl,by omega,by omega,encodeText fingerprint,_,[],(List.append_nil _).symm,
      ⟨rfl,hlength.symm⟩,fingerprint,(decodeFingerprint_ok _ _).mpr rfl,rfl,rfl⟩

end Layout

section Contents

/-- The contents of a cache. -/
structure CacheContents (norm : Embedding → Single) where
  /-- The number of values in a row. -/
  dimension : ℕ
  /-- The rows. -/
  rows : List Embedding
  /-- The name of the embedder. -/
  fingerprint : List Char
  /-- The size of the source and its digest, which a legacy cache lacks. -/
  source : Option (ℕ×Text)
  /-- A row has values, and their number fits its field. -/
  dimension_range : 0<dimension ∧ dimension<256^4
  /-- There are rows, and their number fits its field. -/
  rows_range : 0< rows.length ∧ rows.length<256^8
  /-- The name is not unreasonably long. -/
  fingerprint_bound : (encodeText fingerprint).length≤ maxFingerprintBytes
  /-- The size and the digest fit their fields. -/
  source_fits : ∀ sourceSize sourceSha256,source=some (sourceSize,sourceSha256) →
    sourceSize<256^8 ∧ sourceSha256.length=32
  /-- The rows have one size. -/
  rows_length : ∀ row∈rows,row.length=dimension
  /-- The rows are valid. -/
  rows_valid : ∀ row∈rows,RowValid norm (source≠none) row

variable {norm : Embedding → Single}

/-- The fields. -/
def CacheContents.fixed (contents : CacheContents norm) : FixedPart :=
  ⟨contents.dimension,contents.rows.length,(encodeText contents.fingerprint).length,contents.source⟩

/-- The file. -/
def CacheContents.bytes (contents : CacheContents norm) : Text :=
  fixedBytes contents.fixed++encodeText contents.fingerprint++payload contents.rows

/-- What is told of them. -/
def CacheContents.metadata (contents : CacheContents norm) : CacheMetadata where
  version := contents.fixed.version
  count := contents.rows.length
  dimensions := contents.dimension
  fingerprint := contents.fingerprint
  vectorOffset := (fixedBytes contents.fixed++encodeText contents.fingerprint).length
  vectorBytes := contents.rows.length*contents.dimension*4
  sizeBytes := contents.bytes.length
  source := contents.source.map (fun source => (source.1,hexDigits source.2))

/-- The version tells whether a cache is bound. -/
theorem version_eq (fixed : FixedPart) : decide (fixed.version=2)=decide (fixed.source≠none) := by
  unfold FixedPart.version
  split
  · rename_i h
    rw [h]
    rfl
  · rename_i h
    rw [decide_eq_true h]
    rfl

/-- The fields of a cache fit their widths. -/
theorem CacheContents.fits (contents : CacheContents norm) : contents.fixed.Fits where
  dimension_lt := contents.dimension_range.2
  count_lt := contents.rows_range.2
  fingerprintSize_lt := by
    have hbound := contents.fingerprint_bound
    unfold maxFingerprintBytes at hbound
    change (encodeText contents.fingerprint).length<_
    omega
  source_fits := contents.source_fits

/-- A file is read as a cache exactly when it is what the contents of a cache
are laid out as, and then these are what is read. -/
theorem readCache_iff (norm : Embedding → Single) (bytes : Text) (rows : List Embedding)
    (metadata : CacheMetadata) : readCache norm bytes=.ok (rows,metadata) ↔
      ∃ contents : CacheContents norm,bytes=contents.bytes ∧ rows=contents.rows ∧ metadata=contents.metadata := by
  have hrest : (⟨bytes,0⟩ : Stream).rest=bytes := List.drop_zero
  simp only [readCache,bind_eq_ok,raiseWhen_ok,pure_eq_ok,validateVectorMatrix_ok]
  constructor
  · intro h
    obtain ⟨⟨⟨fixed,fingerprint⟩,stream⟩,hread,_,hsize,_,⟨-,hvalid⟩,hresult⟩ := h
    obtain ⟨front,hfront,hbegins,hstream⟩ := (readFront_recognises _ _ _).mp hread
    obtain ⟨hlaid,hfits,hpos,hbound,hlength⟩ := hfront
    rw [hrest] at hbegins
    obtain ⟨behind,rfl⟩ := hbegins
    have hposition : stream.position=front.length := by rw [hstream]; exact Nat.zero_add _
    dsimp only at hsize hvalid hresult hlaid hpos hbound hlength
    rw [hposition,List.drop_left] at hvalid hresult
    rw [hposition,List.length_append,ne_eq,not_not,Nat.add_left_cancel_iff] at hsize
    obtain ⟨hrows,hmetadata⟩ := Prod.mk.inj hresult
    let contents : CacheContents norm := {
      dimension := fixed.dimension
      rows := rows
      fingerprint := fingerprint
      source := fixed.source
      dimension_range := ⟨hpos.1,hfits.dimension_lt⟩
      rows_range := by rw [hrows,matrixRows_length]; exact ⟨hpos.2,hfits.count_lt⟩
      fingerprint_bound := hlength ▸ hbound
      source_fits := hfits.source_fits
      rows_length := fun row hrow => length_of_matrixRows hsize (hrows ▸ hrow)
      rows_valid := fun row hrow => by rw [←version_eq]; exact hvalid row (hrows ▸ hrow) }
    have hfixed : contents.fixed=fixed := by
      change FixedPart.mk fixed.dimension rows.length (encodeText fingerprint).length fixed.source=fixed
      rw [hrows,matrixRows_length,←hlength]
    have hbytes : front++behind=contents.bytes := by
      rw [CacheContents.bytes,hfixed,hlaid]
      change _=fixedBytes fixed++encodeText fingerprint++payload rows
      rw [hrows,payload_matrixRows hsize]
    refine ⟨contents,hbytes,rfl,?_⟩
    rw [hmetadata,CacheContents.metadata,hfixed,←hbytes]
    change _=CacheMetadata.mk fixed.version rows.length fixed.dimension fingerprint
      (fixedBytes fixed++encodeText fingerprint).length (rows.length*fixed.dimension*4) _ _
    rw [←hlaid,hrows,matrixRows_length]
  · intro h
    obtain ⟨contents,hbytes,hrows,hmetadata⟩ := h
    have hlaid : bytes=(fixedBytes contents.fixed++encodeText contents.fingerprint)++payload contents.rows := hbytes
    have hfront : Front (fixedBytes contents.fixed++encodeText contents.fingerprint)
        (contents.fixed,contents.fingerprint) :=
      ⟨rfl,contents.fits,⟨contents.dimension_range.1,contents.rows_range.1⟩,contents.fingerprint_bound,rfl⟩
    have hposition : ((⟨bytes,0⟩ : Stream).skip
        (fixedBytes contents.fixed++encodeText contents.fingerprint).length).position=
          (fixedBytes contents.fixed++encodeText contents.fingerprint).length := Nat.zero_add _
    have hmatrix : matrixRows contents.fixed.dimension contents.fixed.count (payload contents.rows)=
        contents.rows := matrixRows_payload contents.rows_length
    refine ⟨((contents.fixed,contents.fingerprint),_),(readFront_recognises _ _ _).mpr
      ⟨_,hfront,?_,rfl⟩,(),?_,(),⟨?_,fun row hrow => ?_⟩,?_⟩
    · rw [hrest,hlaid]
      exact List.prefix_append _ _
    · rw [ne_eq,not_not,hposition,hlaid,List.length_append,payload_length contents.rows_length]
      rfl
    · rw [hposition,hlaid,List.drop_left,hmatrix]
      exact ⟨List.length_pos_iff.mp contents.rows_range.1,contents.dimension_range.1⟩
    · rw [hposition,hlaid,List.drop_left,hmatrix] at hrow
      rw [version_eq]
      exact contents.rows_valid row hrow
    · rw [hposition,hlaid,List.drop_left,hmatrix,hrows,hmetadata,←hlaid,hbytes]
      rfl

/-- Digits are printed for different bytes in different ways. -/
theorem hexDigits_injective : Function.Injective hexDigits := by
  intro first second h
  have hfirst := fromHex_hexDigits first
  rw [h,fromHex_hexDigits] at hfirst
  exact (Option.some.inj hfirst).symm

/-- A cache is accepted for a source exactly when it is bound to it. -/
theorem validateCacheSource_ok (metadata : CacheMetadata) (characters : List Char) (value : Unit) :
    validateCacheSource metadata characters=.ok value ↔
      metadata.count=(sourceIdentity characters).nonemptyLines ∧
        metadata.source=some ((sourceIdentity characters).sizeBytes,(sourceIdentity characters).sha256) := by
  cases hsource : metadata.source with
  | none =>
    simp only [validateCacheSource,bind_eq_ok,raiseWhen_ok,hsource,reduceCtorEq,and_false,exists_const]
  | some source =>
    simp only [validateCacheSource,bind_eq_ok,raiseWhen_ok,hsource,ne_eq,not_not,exists_const,
      Option.some.injEq,Prod.ext_iff]

/-- What is told of a cache with such a header. -/
def boundMetadata (header : Text) (dimension count : ℕ) (fingerprint characters : List Char) : CacheMetadata where
  version := 2
  count := count
  dimensions := dimension
  fingerprint := fingerprint
  vectorOffset := header.length
  vectorBytes := count*dimension*4
  sizeBytes := header.length+count*dimension*4
  source := some ((sourceIdentity characters).sizeBytes,(sourceIdentity characters).sha256)

section Bound

variable {dimension : ℕ} {rows : List Embedding} {fingerprint characters : List Char} {header bytes : Text}
variable (hheader : cacheV2Header dimension rows.length fingerprint (sourceIdentity characters).sizeBytes
  (sourceIdentity characters).sha256=.ok header)

include hheader

/-- What is written with a header for a source is the contents of a cache. -/
theorem exists_contents (hrows : ∀ row∈rows,row.length=dimension ∧ RowValid norm true row) :
    ∃ contents : CacheContents norm,header++payload rows=contents.bytes ∧ rows=contents.rows ∧
      boundMetadata header dimension rows.length fingerprint characters=contents.metadata := by
  obtain ⟨hp,hlaid⟩ := (cacheV2Header_ok _ _ _ _ _ _).mp hheader
  have hd := hp.dimension_range
  have hc := hp.count_range
  have hs := hp.source_range
  let contents : CacheContents norm := {
    dimension := dimension
    rows := rows
    fingerprint := fingerprint
    source := some ((sourceIdentity characters).sizeBytes,(digest (encodeText characters)).toList)
    dimension_range := by omega
    rows_range := by omega
    fingerprint_bound := hp.fingerprint_range.2
    source_fits := fun sourceSize sourceSha256 hsource => by
      obtain ⟨rfl,rfl⟩ := Prod.mk.inj (Option.some.inj hsource)
      exact ⟨by omega,hp.digest_length⟩
    rows_length := fun row hrow => (hrows row hrow).1
    rows_valid := fun row hrow => (hrows row hrow).2 }
  have hfront : header=fixedBytes contents.fixed++encodeText contents.fingerprint := by
    rw [hlaid,Int.toNat_natCast,Int.toNat_natCast,Int.toNat_natCast]
    rfl
  have hbytes : header++payload rows=contents.bytes := by rw [hfront]; rfl
  refine ⟨contents,hbytes,rfl,?_⟩
  rw [CacheContents.metadata,←hbytes,←hfront,List.length_append,payload_length (fun row hrow => (hrows row hrow).1)]
  rfl

/-- What is written with a header for a source is read back. -/
theorem readCache_written (hrows : ∀ row∈rows,row.length=dimension ∧ RowValid norm true row) :
    readCache norm (header++payload rows)=
      .ok (rows,boundMetadata header dimension rows.length fingerprint characters) :=
  (readCache_iff _ _ _ _).mpr (exists_contents hheader hrows)

end Bound

/-- A file is accepted as a cache of a source exactly when it consists of the
header that is laid out for this source and of one valid row for every line. -/
theorem bound_cache_exact (norm : Embedding → Single) (bytes : Text) (rows : List Embedding) (dimension : ℕ)
    (fingerprint characters : List Char) :
    ((∃ metadata,readCache norm bytes=.ok (rows,metadata) ∧ validateCacheSource metadata characters=.ok () ∧
      metadata.fingerprint=fingerprint ∧ metadata.dimensions=dimension) ∧ fingerprint≠[]) ↔
    ∃ header,cacheV2Header dimension rows.length fingerprint (sourceIdentity characters).sizeBytes
        (sourceIdentity characters).sha256=.ok header ∧ bytes=header++payload rows ∧
      rows.length=(sourceIdentity characters).nonemptyLines ∧
      ∀ row∈rows,row.length=dimension ∧ RowValid norm true row := by
  constructor
  · intro h
    obtain ⟨⟨metadata,hread,hsource,rfl,rfl⟩,hnamed⟩ := h
    obtain ⟨contents,rfl,rfl,rfl⟩ := (readCache_iff _ _ _ _).mp hread
    obtain ⟨hcount,hbound⟩ := (validateCacheSource_ok _ _ _).mp hsource
    obtain ⟨⟨sourceSize,sourceSha256⟩,hgiven,hsame⟩ := Option.map_eq_some_iff.mp hbound
    obtain ⟨hsize,hsha⟩ := Prod.mk.inj hsame
    have hdigest : sourceSha256=(digest (encodeText characters)).toList := hexDigits_injective hsha
    obtain ⟨hsize_lt,hsha_length⟩ := contents.source_fits _ _ hgiven
    have hd := contents.dimension_range
    have hr := contents.rows_range
    have hname : 0<(encodeText contents.fingerprint).length := by
      rw [List.length_pos_iff,ne_eq,←List.isEmpty_iff,encodeText_isEmpty,List.isEmpty_iff]
      exact hnamed
    have hpacked : Packable contents.dimension contents.rows.length (sourceIdentity characters).sizeBytes
        contents.fingerprint (digest (encodeText characters)).toList := by
      dsimp only at hsize
      rw [hsize] at hsize_lt
      exact ⟨by omega,by omega,by omega,⟨hname,contents.fingerprint_bound⟩,hdigest ▸ hsha_length⟩
    refine ⟨_,(cacheV2Header_ok _ _ _ _ _ _).mpr ⟨hpacked,rfl⟩,?_,hcount,fun row hrow =>
      ⟨contents.rows_length row hrow,?_⟩⟩
    · rw [CacheContents.bytes,fixedBytes,CacheContents.fixed,hgiven,hdigest]
      dsimp only at hsize ⊢
      rw [hsize,Int.toNat_natCast,Int.toNat_natCast,Int.toNat_natCast]
      rfl
    · have hvalid := contents.rows_valid row hrow
      rw [hgiven] at hvalid
      exact hvalid
  · intro h
    obtain ⟨header,hheader,rfl,hcount,hrows⟩ := h
    refine ⟨⟨_,readCache_written hheader hrows,(validateCacheSource_ok _ _ _).mpr ⟨hcount,rfl⟩,rfl,rfl⟩,
      fun hempty => ?_⟩
    have hp := ((cacheV2Header_ok _ _ _ _ _ _).mp hheader).1
    have hname := hp.fingerprint_range.1
    rw [hempty] at hname
    exact absurd hname (Nat.lt_irrefl 0)

end Contents

end Leann.CacheFiles
