import Leann.Checksum
import Mathlib.Data.List.Chain
import Mathlib.Algebra.BigOperators.Group.List.Basic

/-!
# The document store

A store is a sealed header, a sealed table of offsets and checksums, and
the documents behind it. `StoreImage` holds the fields of a well-formed
file with the facts that make it one. Opening accepts exactly the images,
and writing produces the image of its documents.
-/

namespace Leann.Documents

open ByteStream Exceptions Format Checksum

/-- `PairIdentity`. -/
abbrev PairIdentity := Vector UInt8 32

/-- `document_magic`. -/
def documentMagic : List UInt8 := text "LEANDC02"

/-- `document_version`. -/
def documentVersion : UInt32 := 2

/-- `is_zero_identity`. -/
def isZeroIdentity (identity : PairIdentity) : Bool := identity.toList.all (·==0)

section Identity

/-- `corpus_identity_domain`. -/
def corpusIdentityDomain : Text := "leann.cpp corpus identity v1"

/-- `hash_u64_le`. -/
def hashU64Le (hasher : Sha256) (value : UInt64) : Except Fault Sha256 :=
  hasher.update (encode value)

/-- Hash every document behind its length. -/
def hashDocuments (hasher : Sha256) : List Text → Except Fault Sha256
  | [] => .ok hasher
  | document::documents => do
    let hasher ← hashU64Le hasher (UInt64.ofNat document.length)
    let hasher ← hasher.update document
    hashDocuments hasher documents

/-- `make_pair_identity`. -/
def makePairIdentity (documents : List Text) : Except Fault PairIdentity := do
  let hasher ← Sha256.new.update corpusIdentityDomain
  let hasher ← hashU64Le hasher (UInt64.ofNat documents.length)
  let hasher ← hashDocuments hasher documents
  hasher.finish

end Identity

section Write

/-- The first of the three writes. -/
def writeHeader (identity : PairIdentity) (count : ℕ) : Output Unit := do
  writeBytes documentMagic
  writeLe documentVersion
  writeBytes identity.toList
  writeLe (UInt64.ofNat count)

/-- The offsets behind the first one, each the end of one document. -/
def writeOffsets (offset : ℕ) : List Text → Output Unit
  | [] => pure ()
  | document::documents => do
    StateT.lift (throwIf (document.length>uint64Max-offset)
      (runtimeError "document store exceeds uint64 address space"))
    writeLe (UInt64.ofNat (offset+document.length))
    writeOffsets (offset+document.length) documents

/-- The second of the three writes. -/
def writeMetadata (path : Text) (documents : List Text) (checksums : List UInt32) : Output Unit := do
  let headerDigest ← sha256FilePrefix path
  writeBytes headerDigest.toList
  writeLe (0 : UInt64)
  writeOffsets 0 documents
  writeVector checksums

/-- The bytes of every document, one behind the other. -/
def writeDocuments : List Text → Output Unit
  | [] => pure ()
  | document::documents => do
    writeBytes document
    writeDocuments documents

/-- The last of the three writes. -/
def writePayload (path : Text) (documents : List Text) : Output Unit := do
  let metadataDigest ← sha256FilePrefix path
  writeBytes metadataDigest.toList
  writeDocuments documents

/-- `DocumentStore::write` with a given identity. The result is the file. -/
def write (path : Text) (documents : List Text) (identity : PairIdentity) :
    Except Fault (List UInt8) := do
  throwIf (isZeroIdentity identity) (invalidArgument "document pair identity must not be zero")
  let checksums := documents.map crc32c
  let (_,file) ← (do
    writeHeader identity documents.length
    writeMetadata path documents checksums
    writePayload path documents : Output Unit) []
  return file

end Write

section Open

/-- An opened store. -/
structure DocumentStore where
  /-- The bytes of the open file. -/
  contents : List UInt8
  /-- Identity shared with the index. -/
  pairIdentity : PairIdentity
  /-- Where each document begins, and where the last one ends. -/
  offsets : List UInt64
  /-- Checksum of each document. -/
  checksums : List UInt32
  /-- Where the documents begin in the file. -/
  dataOffset : ℕ
  /-- Size of the file. -/
  fileSize : ℕ
  deriving DecidableEq

/-- The fields in front of the first digest. -/
def readHeader (path : Text) : Reader Fault (PairIdentity×UInt64) := do
  let magic ← readBytes documentMagic.length
  check (magic≠documentMagic) (runtimeError ("not a leann.cpp document store: "++path))
  let version ← readLe UInt32
  check (version≠documentVersion)
    (runtimeError ("unsupported document store version: "++toText version.toNat))
  let identity ← readArray 32
  check (isZeroIdentity identity) (runtimeError "document store has a zero pair identity")
  let countOnDisk ← readLe UInt64
  return (identity,countOnDisk)

/-- The table between the two digests. -/
def readTable (count : ℕ) : Reader Fault (List UInt64×List UInt32) := do
  let entries ← attempt (plus64 count 1)
  let offsets ← readVector UInt64 entries
  let checksums ← readVector UInt32 count
  return (offsets,checksums)

/-- The body of `DocumentStore::open`. -/
def openReader (path : Text) : Reader Fault DocumentStore := do
  let fileSize ← streamSize "document store"
  let (identity,countOnDisk) ← readHeader path
  let headerSize ← tell
  let storedHeaderDigest ← readArray 32
  let computedHeaderDigest ← sha256StreamPrefix headerSize "document header"
  check (storedHeaderDigest≠computedHeaderDigest)
    (runtimeError "document header SHA-256 checksum mismatch")
  let tablePosition ← attempt (plus64 headerSize 32)
  seek tablePosition
  check (tablePosition>fileSize ∨ fileSize-tablePosition<32 ∨
    countOnDisk.toNat>(uint64Max-8)/12) (runtimeError "document metadata exceeds file size")
  let entryBytes ← attempt (times64 countOnDisk.toNat 12)
  let tableBytes ← attempt (plus64 8 entryBytes)
  check (tableBytes>fileSize-tablePosition-32)
    (runtimeError "document metadata exceeds file size")
  let metadataSize ← attempt (plus64 tablePosition tableBytes)
  check (metadataSize>streamoffMax) (runtimeError "document metadata exceeds stream offset limits")
  seek metadataSize
  let storedMetadataDigest ← readArray 32
  let computedMetadataDigest ← sha256StreamPrefix metadataSize "document metadata"
  check (storedMetadataDigest≠computedMetadataDigest)
    (runtimeError "document metadata SHA-256 checksum mismatch")
  let count ← attempt (checkedSize countOnDisk.toNat "document count")
  seek tablePosition
  let (offsets,checksums) ← readTable count
  check (offsets.head?≠some 0) (runtimeError "invalid document offsets")
  check (¬offsets.IsChain (·≤·)) (runtimeError "document offsets are not monotonic")
  let dataOffset ← attempt (plus64 metadataSize 32)
  check (dataOffset>fileSize ∨ (offsets.getLastD 0).toNat≠fileSize-dataOffset)
    (runtimeError "document payload size does not match its offset table")
  fun stream =>
    .ok (⟨stream.contents,identity,offsets,checksums,dataOffset,fileSize⟩,stream)

/-- `DocumentStore::open` of a file with these bytes. -/
def openStore (path : Text) (file : List UInt8) : Except Fault DocumentStore := do
  let (store,_) ← openReader path ⟨file,0⟩
  return store

end Open

section Read

/-- `DocumentStore::size`. -/
def DocumentStore.size (store : DocumentStore) : ℕ :=
  if store.offsets.isEmpty then 0 else store.offsets.length-1

/-- `DocumentStore::raw_bytes`. -/
def DocumentStore.rawBytes (store : DocumentStore) : ℕ :=
  if store.offsets.isEmpty then 0 else (store.offsets.getLastD 0).toNat

/-- `DocumentStore::read`. The index of the end of the range is computed in
32 bits and the length in 64. -/
def DocumentStore.read (store : DocumentStore) (id : UInt32) : Except Fault Text := do
  throwIf (id.toNat≥store.size) (Exceptions.outOfRange "document id is out of range")
  let first ← element store.offsets id.toNat
  let last ← element store.offsets (id+1).toNat
  let length := (last-first).toNat
  throwIf (store.dataOffset>store.fileSize ∨ first.toNat>store.fileSize-store.dataOffset ∨
    length>store.fileSize-store.dataOffset-first.toNat)
    (runtimeError "document range exceeds file size")
  let absolute ← plus64 store.dataOffset first.toNat
  throwIf (absolute>streamoffMax ∨ length>streamoffMax)
    (runtimeError "document range exceeds stream limits")
  let size ← checkedSize length "document size"
  let (result,_) ← readBytes size ⟨store.contents,absolute⟩
  let checksum ← element store.checksums id.toNat
  throwIf (crc32c result≠checksum)
    (runtimeError ("document CRC32C checksum mismatch for id "++toText id.toNat))
  return result

/-- `DocumentStore::read_many`. -/
def DocumentStore.readMany (store : DocumentStore) : List UInt32 → Except Fault (List Text)
  | [] => .ok []
  | id::ids => do
    let document ← store.read id
    let documents ← store.readMany ids
    return document::documents

end Read

section Image

/-- Bytes followed by their digest. -/
def sealBytes (bytes : List UInt8) : List UInt8 := bytes++(digest bytes).toList

/-- Sealing adds the size of a digest. -/
@[simp] theorem sealBytes_length (bytes : List UInt8) :
    (sealBytes bytes).length=bytes.length+32 := by
  simp [sealBytes]

/-- The fields in front of the first digest. -/
def headerBytes (identity : PairIdentity) (count : UInt64) : List UInt8 :=
  documentMagic++(encode documentVersion++(identity.toList++encode count))

/-- The table between the two digests. -/
def tableBytes (offsets : List UInt64) (checksums : List UInt32) : List UInt8 :=
  offsets.flatMap encode++checksums.flatMap encode

/-- The fields of a well-formed file. -/
structure StoreImage where
  /-- Identity shared with the index. -/
  pairIdentity : PairIdentity
  /-- Where each document begins, and where the last one ends. -/
  offsets : List UInt64
  /-- Checksum of each document. -/
  checksums : List UInt32
  /-- The documents, one behind the other. -/
  payload : List UInt8
  /-- The identity is not the reserved one. -/
  identity_nonzero : isZeroIdentity pairIdentity=false
  /-- There is one offset more than there are documents. -/
  offsets_length : offsets.length=checksums.length+1
  /-- The first document begins at the start of the payload. -/
  offsets_head : offsets.head?=some 0
  /-- No document ends before it begins. -/
  offsets_chain : offsets.IsChain (·≤·)
  /-- The last document ends at the end of the payload. -/
  offsets_last : (offsets.getLastD 0).toNat=payload.length
  /-- The table is small enough to be hashed. -/
  table_bound : 92+12*checksums.length≤uint64Max/8
  /-- The file is small enough to be addressed. -/
  file_bound : 124+12*checksums.length+payload.length≤ streamoffMax

namespace StoreImage

/-- The number of documents as it stands in the header. -/
def count (image : StoreImage) : UInt64 := UInt64.ofNat image.checksums.length

/-- Everything in front of the second digest. -/
def metadata (image : StoreImage) : List UInt8 :=
  sealBytes (headerBytes image.pairIdentity image.count)++tableBytes image.offsets image.checksums

/-- The file of an image. -/
def bytes (image : StoreImage) : List UInt8 := sealBytes image.metadata++image.payload

/-- What opening the file of an image yields. -/
def store (image : StoreImage) : DocumentStore :=
  ⟨image.bytes,image.pairIdentity,image.offsets,image.checksums,
    124+12*image.checksums.length,image.bytes.length⟩

end StoreImage

@[simp] theorem headerBytes_length (identity : PairIdentity) (count : UInt64) :
    (headerBytes identity count).length=52 := by
  have hm : documentMagic.length=8 := by decide
  simp [headerBytes,hm]

@[simp] theorem tableBytes_length (offsets : List UInt64) (checksums : List UInt32) :
    (tableBytes offsets checksums).length=offsets.length*8+checksums.length*4 := by
  simp [tableBytes]

/-- The size of the part of a file that is read when it is opened. -/
@[simp] theorem StoreImage.metadata_length (image : StoreImage) :
    image.metadata.length=92+12*image.checksums.length := by
  have ho := image.offsets_length
  simp only [metadata,List.length_append,sealBytes_length,headerBytes_length,tableBytes_length]
  omega

/-- The size of a file. -/
@[simp] theorem StoreImage.bytes_length (image : StoreImage) :
    image.bytes.length=124+12*image.checksums.length+image.payload.length := by
  simp only [bytes,List.length_append,sealBytes_length,metadata_length]
  omega

/-- The count survives its encoding. -/
@[simp] theorem StoreImage.count_toNat (image : StoreImage) :
    image.count.toNat=image.checksums.length := by
  have hb := image.table_bound
  unfold uint64Max at hb
  rw [count,UInt64.toNat_ofNat']
  omega

/-- The header is read from its fields. -/
theorem readHeader_recognises (path : Text) :
    Recognises (readHeader path) (fun bytes value =>
      bytes=headerBytes value.1 value.2 ∧ isZeroIdentity value.1=false) := by
  have hr : Recognises (readHeader path) _ :=
    (readBytes_recognises documentMagic.length).bind (fun magic => .guarded _ _
    ((readLe_recognises UInt32).bind (fun version => .guarded _ _
    ((readArray_recognises 32).bind (fun identity => .guarded _ _
    ((readLe_recognises UInt64).returning (fun count => (identity,count))))))))
  refine hr.congr (fun bytes value => ?_)
  constructor
  · rintro ⟨magic,_,_,rfl,⟨rfl,-⟩,hm,version,_,_,rfl,rfl,hv,identity,_,_,rfl,rfl,hi,count,rfl,rfl⟩
    rw [ne_eq,not_not] at hm hv
    exact ⟨by rw [hm,hv,headerBytes],by simpa using hi⟩
  · rintro ⟨rfl,hi⟩
    obtain ⟨identity,count⟩ := value
    exact ⟨documentMagic,_,_,rfl,⟨rfl,rfl⟩,by simp,documentVersion,_,_,rfl,rfl,by simp,
      identity,_,_,rfl,rfl,by simpa using hi,count,rfl,rfl⟩

/-- The table is read from its fields when their number can be counted. -/
theorem readTable_recognises (count : ℕ) :
    Recognises (readTable count) (fun bytes value => bytes=tableBytes value.1 value.2 ∧
      value.1.length=count+1 ∧ value.2.length=count ∧ count+1≤uint64Max) := by
  have hr : Recognises (readTable count) _ :=
    (Recognises.attempt (plus64 count 1)).bind (fun entries =>
    (readVector_recognises UInt64 entries).bind (fun offsets =>
    (readVector_recognises UInt32 count).returning (fun checksums => (offsets,checksums))))
  refine hr.congr (fun bytes value => ?_)
  constructor
  · rintro ⟨_,_,_,rfl,⟨rfl,hp⟩,offsets,_,_,rfl,⟨rfl,ho⟩,checksums,⟨rfl,hc⟩,rfl⟩
    obtain ⟨hb,rfl⟩ := (plus64_ok _ _ _).mp hp
    exact ⟨rfl,ho,hc,hb⟩
  · rintro ⟨rfl,ho,hc,hb⟩
    exact ⟨_,[],_,rfl,⟨rfl,(plus64_ok _ _ _).mpr ⟨hb,rfl⟩⟩,value.1,_,_,rfl,⟨rfl,ho⟩,
      value.2,⟨rfl,hc⟩,rfl⟩

/-- The file of an image is its fields one behind the other. -/
theorem StoreImage.bytes_eq (image : StoreImage) :
    image.bytes=headerBytes image.pairIdentity image.count++
      ((digest (headerBytes image.pairIdentity image.count)).toList++
      (tableBytes image.offsets image.checksums++
      ((digest image.metadata).toList++image.payload))) := by
  simp [bytes,metadata,sealBytes]

/-- What follows a prefix extends it. -/
theorem append_prefix {front back file : List UInt8} (hf : front<+:file)
    (hb : back<+:file.drop front.length) : front++back<+:file := by
  obtain ⟨rest,rfl⟩ := hf
  rw [List.drop_left] at hb
  obtain ⟨last,rfl⟩ := hb
  exact ⟨last,by rw [List.append_assoc]⟩

/-- Opening succeeds exactly on the files of images. -/
theorem openStore_ok (path : Text) (file : List UInt8) (store : DocumentStore) :
    openStore path file=.ok store ↔ ∃ image : StoreImage,image.bytes=file ∧ store=image.store := by
  have hrun : openStore path file=.ok store ↔ ∃ stop,openReader path ⟨file,0⟩=.ok (store,stop) := by
    unfold openStore
    cases openReader path ⟨file,0⟩ with
    | error fault => simp [bind,Except.bind]
    | ok pair =>
      obtain ⟨opened,stop⟩ := pair
      simp [bind,Except.bind,pure,Except.pure]
  rw [hrun]
  simp only [openReader,run_bind_ok,streamSize_ok,readHeader_recognises path _ _ _,run_tell_ok,
    readArray_recognises 32 _ _ _,sha256StreamPrefix_ok,run_attempt_ok,run_seek_ok,check,run_failIf_ok,
    readTable_recognises _ _ _ _,plus64_ok,times64_ok,checkedSize_ok,
    exists_and_left,exists_eq_left,exists_const,and_assoc,ne_eq,not_not,
    Except.ok.injEq,Prod.mk.injEq,Stream.skip,Stream.rest,List.drop_zero,headerBytes_length,
    Vector.length_toList,Nat.zero_add,Nat.reduceAdd,tableBytes_length]
  constructor
  · rintro ⟨hsize,_,⟨identity,count⟩,hidentity,hfront,headerDigest,hdigest,-,-,rfl,-,-,
      -,-,-,-,-,metadataDigest,hmetadata,-,htable,rfl,-,⟨offsets,checksums⟩,hoffsets,
      hchecksums,-,hentries,hhead,hchain,-,hlast,rfl,-⟩
    dsimp only at *
    have hcount : count=UInt64.ofNat checksums.length := by rw [hchecksums,UInt64.ofNat_toNat]
    have htake : file.take 52=headerBytes identity count := by
      rw [List.prefix_iff_eq_take.mp hfront,headerBytes_length]
    rw [htake] at hdigest
    have hsealed : sealBytes (headerBytes identity count)<+:file :=
      append_prefix hfront (by rw [headerBytes_length]; exact hdigest)
    have hmeta : sealBytes (headerBytes identity count)++tableBytes offsets checksums<+:file :=
      append_prefix hsealed (by rw [sealBytes_length,headerBytes_length]; exact hentries)
    have hlength : (sealBytes (headerBytes identity count)++tableBytes offsets checksums).length=
        84+(8+count.toNat*12) := by
      simp only [List.length_append,sealBytes_length,headerBytes_length,tableBytes_length]
      omega
    rw [←hlength,←List.prefix_iff_eq_take.mp hmeta] at hmetadata
    obtain ⟨payload,hfile⟩ := append_prefix hmeta hmetadata
    have hfileLength : file.length=84+(8+count.toNat*12)+32+payload.length := by
      rw [←hfile]
      simp only [List.length_append,hlength,Vector.length_toList]
    have hpayload : (offsets.getLastD 0).toNat=payload.length := by omega
    subst hcount
    refine ⟨⟨identity,offsets,checksums,payload,hidentity,by omega,hhead,hchain,hpayload,by omega,
      by omega⟩,hfile,?_⟩
    simp only [StoreImage.store,StoreImage.bytes,StoreImage.metadata,StoreImage.count,
      DocumentStore.mk.injEq,true_and]
    exact ⟨hfile.symm,by omega,by rw [←hfile]; rfl⟩
  · rintro ⟨image,rfl,rfl⟩
    have hb := image.bytes_length
    have ht := image.table_bound
    have hf := image.file_bound
    have hl := image.offsets_last
    have htake : image.bytes.take 52=headerBytes image.pairIdentity image.count := by
      rw [image.bytes_eq,List.take_left' (headerBytes_length _ _)]
    have hdrop : image.bytes.drop 84=tableBytes image.offsets image.checksums++
        ((digest image.metadata).toList++image.payload) := by
      rw [StoreImage.bytes,sealBytes,StoreImage.metadata,List.append_assoc,List.append_assoc,
        List.drop_left' (by simp)]
    have hmeta : image.bytes.take (84+(8+image.checksums.length*12))=image.metadata := by
      rw [StoreImage.bytes,sealBytes,List.append_assoc]
      exact List.take_left' (by rw [image.metadata_length]; omega)
    have hrest : image.bytes.drop (84+(8+image.checksums.length*12))=
        (digest image.metadata).toList++image.payload := by
      rw [StoreImage.bytes,sealBytes,List.append_assoc]
      exact List.drop_left' (by rw [image.metadata_length]; omega)
    have hdigest : image.bytes.drop 52=(digest (headerBytes image.pairIdentity image.count)).toList++
        (tableBytes image.offsets image.checksums++
        ((digest image.metadata).toList++image.payload)) := by
      rw [image.bytes_eq,List.drop_left' (headerBytes_length _ _)]
    unfold uint64Max at ht
    unfold streamoffMax at hf
    have ho := image.offsets_length
    refine ⟨by unfold streamoffMax; omega,
      ⟨image.bytes,84+(image.offsets.length*8+image.checksums.length*4)⟩,
      (image.pairIdentity,image.count),image.identity_nonzero,
      ⟨_,image.bytes_eq.symm⟩,digest (headerBytes image.pairIdentity image.count),?_⟩
    simp only [image.count_toNat,hmeta,hrest,hdigest,hdrop,htake,hb,uint64Max,streamoffMax]
    refine ⟨List.prefix_append _ _,by omega,by omega,trivial,by omega,by omega,by omega,by omega,by omega,
      by omega,by omega,digest image.metadata,List.prefix_append _ _,by omega,by omega,rfl,by omega,
      (image.offsets,image.checksums),ho,rfl,by omega,List.prefix_append _ _,image.offsets_head,
      image.offsets_chain,by omega,by dsimp only; omega,?_,rfl⟩
    simp only [StoreImage.store,hb,DocumentStore.mk.injEq,true_and,and_true]
    omega

end Image

section Offsets

/-- Where a document begins: the total size of those before it. -/
def documentStart (documents : List Text) (i : ℕ) : ℕ := (documents.take i).flatten.length

/-- The offset table of a list of documents. -/
def offsetTable (documents : List Text) : List UInt64 :=
  (List.range (documents.length+1)).map (fun i => UInt64.ofNat (documentStart documents i))

/-- A document ends where it began plus its size. -/
theorem documentStart_succ (documents : List Text) {i : ℕ} (h : i<documents.length) :
    documentStart documents (i+1)=documentStart documents i+documents[i].length := by
  simp only [documentStart,List.take_succ_eq_append_getElem h,List.flatten_append,List.length_append]
  simp

/-- Documents begin inside the payload. -/
theorem documentStart_le (documents : List Text) (i : ℕ) :
    documentStart documents i≤documents.flatten.length := by
  have hs : documents.flatten=(documents.take i).flatten++(documents.drop i).flatten := by
    rw [←List.flatten_append,List.take_append_drop]
  rw [documentStart,hs,List.length_append]
  omega

/-- The table has one entry more than there are documents. -/
@[simp] theorem offsetTable_length (documents : List Text) :
    (offsetTable documents).length=documents.length+1 := by
  simp [offsetTable]

/-- An entry of the table is where its document begins. -/
theorem offsetTable_getElem? (documents : List Text) {i : ℕ} (h : i≤documents.length) :
    (offsetTable documents)[i]?=some (UInt64.ofNat (documentStart documents i)) := by
  simp only [offsetTable,List.getElem?_map]
  rw [List.getElem?_range (by omega)]
  rfl

/-- The table is sorted. -/
theorem offsetTable_chain (documents : List Text) (h : documents.flatten.length≤uint64Max) :
    (offsetTable documents).IsChain (·≤·) := by
  rw [List.isChain_iff_getElem]
  intro i hi
  rw [offsetTable_length] at hi
  simp only [offsetTable,List.getElem_map,List.getElem_range]
  have hs := documentStart_succ documents (i := i) (by omega)
  have hl := documentStart_le documents (i+1)
  unfold uint64Max at h
  rw [UInt64.le_iff_toNat_le,UInt64.toNat_ofNat',UInt64.toNat_ofNat']
  omega

/-- The table ends at the size of the payload. -/
theorem offsetTable_last (documents : List Text) (h : documents.flatten.length≤uint64Max) :
    ((offsetTable documents).getLastD 0).toNat=documents.flatten.length := by
  unfold uint64Max at h
  simp only [offsetTable,List.range_succ,List.map_append,List.map_cons,List.map_nil,
    List.getLastD_concat,documentStart,List.take_length]
  rw [UInt64.toNat_ofNat']
  omega

/-- The offsets behind the first one are those of the shorter lists. -/
theorem writeOffsets_appends (offset : ℕ) (documents : List Text)
    (h : offset+documents.flatten.length≤uint64Max) :
    Appends (writeOffsets offset documents) (((List.range documents.length).map (fun i =>
      UInt64.ofNat (offset+documentStart documents (i+1)))).flatMap encode) := by
  induction documents generalizing offset with
  | nil => exact .nil
  | cons document documents ih =>
    simp only [List.flatten_cons,List.length_append] at h
    have hr := ih (offset+document.length) (by omega)
    have hc : throwIf (document.length>uint64Max-offset)
        (runtimeError "document store exceeds uint64 address space")=.ok () :=
      (throwIf_ok _ _ _).mpr (by omega)
    have hw : writeOffsets offset (document::documents)=(do
        writeLe (UInt64.ofNat (offset+document.length))
        writeOffsets (offset+document.length) documents : Output Unit) := by
      rw [writeOffsets,hc]
      rfl
    rw [hw]
    have hb := (Appends.writeLe (UInt64.ofNat (offset+document.length))).bind hr
    have hl : encode (UInt64.ofNat (offset+document.length))++((List.range documents.length).map
        (fun i => UInt64.ofNat (offset+document.length+documentStart documents (i+1)))).flatMap encode=
        ((List.range (document::documents).length).map (fun i =>
          UInt64.ofNat (offset+documentStart (document::documents) (i+1)))).flatMap encode := by
      rw [List.length_cons,List.range_succ_eq_map]
      simp [documentStart,Function.comp_def,Nat.add_assoc]
    rw [←hl]
    exact hb

/-- The documents are appended one behind the other. -/
theorem writeDocuments_appends (documents : List Text) :
    Appends (writeDocuments documents) documents.flatten := by
  induction documents with
  | nil => exact .nil
  | cons document documents ih => exact (Appends.writeBytes document).bind ih

/-- The table is appended. -/
theorem writeTable_appends (documents : List Text) (checksums : List UInt32)
    (h : documents.flatten.length≤uint64Max) :
    Appends (do
      writeLe (0 : UInt64)
      writeOffsets 0 documents
      writeVector checksums) (tableBytes (offsetTable documents) checksums) := by
  have hb := (Appends.writeLe (0 : UInt64)).bind
    ((writeOffsets_appends 0 documents (by omega)).bind (Appends.writeVector checksums))
  have hl : tableBytes (offsetTable documents) checksums=encode (0 : UInt64)++
      (((List.range documents.length).map (fun i =>
        UInt64.ofNat (0+documentStart documents (i+1)))).flatMap encode++
        checksums.flatMap encode) := by
    rw [tableBytes,offsetTable,List.range_succ_eq_map]
    simp [documentStart,Function.comp_def]
  rw [hl]
  exact hb

/-- The header is appended. -/
theorem writeHeader_appends (identity : PairIdentity) (count : ℕ) :
    Appends (writeHeader identity count) (headerBytes identity (UInt64.ofNat count)) :=
  (Appends.writeBytes documentMagic).bind ((Appends.writeLe documentVersion).bind
    ((Appends.writeBytes identity.toList).bind (Appends.writeLe (UInt64.ofNat count))))

/-- Appending the digest of a file seals it. -/
theorem sealed_ok (path : Text) {writer : Output Unit} {bytes : List UInt8}
    (hw : Appends writer bytes) (file : List UInt8) (value : Unit) (after : List UInt8) :
    (do
      let computed ← sha256FilePrefix path
      writeBytes computed.toList
      writer : Output Unit) file=.ok (value,after) ↔
      file.length≤uint64Max/8 ∧ file.length+32+bytes.length≤ streamoffMax ∧
        after=sealBytes file++bytes := by
  have hb := output_bind_ok (sha256FilePrefix path) (fun computed => (do
    writeBytes computed.toList
    writer : Output Unit)) file after value
  refine hb.trans ?_
  simp only [sha256FilePrefix_ok,and_assoc,exists_and_left,exists_eq_left]
  refine and_congr_right (fun hs => ?_)
  have hl : file.length≤ streamoffMax := by
    unfold uint64Max at hs
    unfold streamoffMax
    omega
  rw [((Appends.writeBytes (digest file).toList).bind hw) file value after hl]
  simp only [List.length_append,Vector.length_toList,sealBytes,List.append_assoc,Nat.add_assoc]

end Offsets

section Written

/-- The size of the file of a list of documents. -/
def fileSize (documents : List Text) : ℕ := 124+12*documents.length+documents.flatten.length

/-- An identity without zeros. -/
theorem ones_nonzero : isZeroIdentity (.replicate 32 1)=false := by decide

/-- The image of a list of documents. -/
def imageOf (documents : List Text) (identity : PairIdentity) (hi : isZeroIdentity identity=false)
    (ht : 92+12*documents.length≤uint64Max/8) (hf : fileSize documents≤ streamoffMax) : StoreImage where
  pairIdentity := identity
  offsets := offsetTable documents
  checksums := documents.map crc32c
  payload := documents.flatten
  identity_nonzero := hi
  offsets_length := by rw [offsetTable_length,List.length_map]
  offsets_head := by simp [offsetTable,List.range_succ_eq_map,documentStart]
  offsets_chain := offsetTable_chain documents (by
    unfold fileSize streamoffMax at hf
    unfold uint64Max
    omega)
  offsets_last := offsetTable_last documents (by
    unfold fileSize streamoffMax at hf
    unfold uint64Max
    omega)
  table_bound := by rw [List.length_map]; exact ht
  file_bound := by rw [List.length_map]; exact hf

/-- Writing succeeds exactly when the identity is not the reserved one and
the file is small enough, and it then produces the image. -/
theorem write_ok (path : Text) (documents : List Text) (identity : PairIdentity)
    (file : List UInt8) : write path documents identity=.ok file ↔
      ∃ hi ht hf,file=(imageOf documents identity hi ht hf).bytes := by
  have hstages : write path documents identity=.ok file ↔ isZeroIdentity identity=false ∧
      ∃ header metadata,writeHeader identity documents.length []=.ok ((),header) ∧
        writeMetadata path documents (documents.map crc32c) header=.ok ((),metadata) ∧
        writePayload path documents metadata=.ok ((),file) := by
    simp only [write,bind_eq_ok,throwIf_ok,Bool.not_eq_true,exists_const,Prod.exists,pure_eq_ok,
      output_bind_ok]
    refine and_congr_right (fun _ => ?_)
    constructor
    · rintro ⟨_,_,⟨_,header,hh,_,metadata,hm,hp⟩,rfl⟩
      exact ⟨header,metadata,hh,hm,hp⟩
    · rintro ⟨header,metadata,hh,hm,hp⟩
      exact ⟨(),file,⟨(),header,hh,(),metadata,hm,hp⟩,rfl⟩
  rw [hstages]
  have hlimit : (0 : ℕ)≤ streamoffMax := Nat.zero_le _
  constructor
  · rintro ⟨hi,header,metadata,hh,hm,hp⟩
    obtain ⟨hhl,rfl⟩ := (writeHeader_appends identity documents.length [] () header hlimit).mp hh
    rw [List.nil_append] at hm
    obtain ⟨hms,hps,rfl⟩ := (sealed_ok path (writeDocuments_appends documents) _ () file).mp hp
    have htotal : documents.flatten.length≤uint64Max := by
      unfold streamoffMax at hps
      unfold uint64Max
      omega
    obtain ⟨-,-,rfl⟩ := (sealed_ok path (writeTable_appends documents (documents.map crc32c) htotal)
      _ () metadata).mp hm
    simp only [List.length_append,sealBytes_length,headerBytes_length,tableBytes_length,
      offsetTable_length,List.length_map] at hms hps
    refine ⟨hi,by omega,?_,?_⟩
    · unfold fileSize
      omega
    · simp [StoreImage.bytes,StoreImage.metadata,StoreImage.count,imageOf]
  · rintro ⟨hi,ht,hf,rfl⟩
    have htotal : documents.flatten.length≤uint64Max := by
      unfold fileSize streamoffMax at hf
      unfold uint64Max
      omega
    unfold fileSize streamoffMax at hf
    refine ⟨hi,headerBytes identity (UInt64.ofNat documents.length),
      sealBytes (headerBytes identity (UInt64.ofNat documents.length))++
        tableBytes (offsetTable documents) (documents.map crc32c),?_,?_,?_⟩
    · refine (writeHeader_appends identity documents.length [] () _ hlimit).mpr ⟨?_,by simp⟩
      rw [headerBytes_length]
      decide
    · refine (sealed_ok path (writeTable_appends documents (documents.map crc32c) htotal)
        _ () _).mpr ⟨?_,?_,rfl⟩
      · rw [headerBytes_length]
        decide
      · rw [headerBytes_length,tableBytes_length,offsetTable_length,List.length_map]
        unfold streamoffMax
        omega
    · refine (sealed_ok path (writeDocuments_appends documents) _ () _).mpr ⟨?_,?_,?_⟩
      · simp only [List.length_append,sealBytes_length,headerBytes_length,tableBytes_length,
          offsetTable_length,List.length_map]
        omega
      · simp only [List.length_append,sealBytes_length,headerBytes_length,tableBytes_length,
          offsetTable_length,List.length_map]
        unfold streamoffMax
        omega
      · simp [StoreImage.bytes,StoreImage.metadata,StoreImage.count,imageOf]

end Written

section Reading

namespace StoreImage

/-- Where a document begins in the payload. -/
def start (image : StoreImage) (i : ℕ) : ℕ := (image.offsets.getD i 0).toNat

/-- The bytes of a document. -/
def document (image : StoreImage) (i : ℕ) : Text :=
  (image.payload.drop (image.start i)).take (image.start (i+1)-image.start i)

/-- An entry of the table, read safely. -/
theorem offsets_getElem? (image : StoreImage) {i : ℕ} (h : i≤ image.checksums.length) :
    image.offsets[i]?=some (image.offsets.getD i 0) := by
  have hl := image.offsets_length
  rw [List.getD_eq_getElem?_getD,List.getElem?_eq_getElem (by omega)]
  rfl

/-- The first document begins at the start of the payload. -/
theorem start_zero (image : StoreImage) : image.start 0=0 := by
  have hh := image.offsets_head
  cases ho : image.offsets with
  | nil => simp [ho] at hh
  | cons first rest =>
    rw [ho,List.head?_cons,Option.some.injEq] at hh
    simp [start,ho,hh]

/-- Documents follow each other. -/
theorem start_le (image : StoreImage) {i : ℕ} (h : i< image.checksums.length) :
    image.start i≤ image.start (i+1) := by
  have hl := image.offsets_length
  have hc := List.isChain_iff_getElem.mp image.offsets_chain i (by omega)
  rw [start,start,List.getD_eq_getElem _ _ (by omega),List.getD_eq_getElem _ _ (by omega)]
  exact UInt64.le_iff_toNat_le.mp hc

/-- The last document ends at the end of the payload. -/
theorem start_last (image : StoreImage) : image.start image.checksums.length=image.payload.length := by
  rw [←image.offsets_last,start,List.getLastD_eq_getLast?,List.getLast?_eq_getElem?,
    image.offsets_length,Nat.add_sub_cancel,List.getD_eq_getElem?_getD]

/-- Every document ends inside the payload. -/
theorem start_le_payload (image : StoreImage) {i : ℕ} (h : i≤ image.checksums.length) :
    image.start i≤ image.payload.length := by
  induction hd : image.checksums.length-i generalizing i with
  | zero =>
    have he : i=image.checksums.length := by omega
    rw [he,image.start_last]
  | succ d ih => exact (image.start_le (by omega)).trans (ih (i := i+1) (by omega) (by omega))

/-- The first documents are the front of the payload. -/
theorem flatten_documents (image : StoreImage) {i : ℕ} (h : i≤ image.checksums.length) :
    ((List.range i).map image.document).flatten=image.payload.take (image.start i) := by
  induction i with
  | zero => simp [start_zero]
  | succ i ih =>
    have hs := image.start_le (i := i) (by omega)
    rw [List.range_succ,List.map_append,List.flatten_append,ih (by omega)]
    simp only [List.map_cons,List.map_nil,List.flatten_cons,List.flatten_nil,List.append_nil,document]
    rw [←List.take_add]
    congr 1
    omega

/-- A document has the size the table says. -/
theorem document_length (image : StoreImage) {i : ℕ} (h : i< image.checksums.length) :
    (image.document i).length=image.start (i+1)-image.start i := by
  have hl := image.start_le_payload (i := i+1) (by omega)
  simp only [document,List.length_take,List.length_drop]
  omega

/-- The store of an image has as many documents as there are checksums. -/
theorem store_size (image : StoreImage) : image.store.size=image.checksums.length := by
  have hl := image.offsets_length
  have hn : ¬image.offsets.isEmpty := by
    rw [List.isEmpty_iff,←List.length_eq_zero_iff]
    omega
  rw [DocumentStore.size,store,if_neg hn,hl,Nat.add_sub_cancel]

/-- The store of an image counts the bytes of the payload. -/
theorem store_rawBytes (image : StoreImage) : image.store.rawBytes=image.payload.length := by
  have hl := image.offsets_length
  have hn : ¬image.offsets.isEmpty := by
    rw [List.isEmpty_iff,←List.length_eq_zero_iff]
    omega
  rw [DocumentStore.rawBytes,store,if_neg hn,image.offsets_last]

/-- The documents begin behind everything else. -/
theorem bytes_drop (image : StoreImage) (i : ℕ) :
    image.bytes.drop (124+12*image.checksums.length+i)=image.payload.drop i := by
  rw [←List.drop_drop,bytes,List.drop_left' (by
    rw [sealBytes_length,metadata_length]
    omega)]

/-- Reading returns the document, unless its checksum differs. The next
index must not wrap around. -/
theorem store_read (image : StoreImage) {id : UInt32} (hid : id.toNat+1<2^32) (document : Text) :
    image.store.read id=.ok document ↔ id.toNat< image.checksums.length ∧
      document=image.document id.toNat ∧ image.checksums[id.toNat]?=some (crc32c document) := by
  simp only [DocumentStore.read,bind_eq_ok,throwIf_ok,element_ok,plus64_ok,checkedSize_ok,readBytes,
    run_take_ok,Prod.exists,pure_eq_ok,exists_const,image.store_size,and_assoc,exists_and_left,
    exists_eq_left,ne_eq,not_not]
  by_cases hlt : id.toNat< image.checksums.length
  · have hnext : (id+1).toNat=id.toNat+1 := by
      rw [UInt32.toNat_add,UInt32.toNat_one]
      omega
    have hle := image.start_le hlt
    have hpayload := image.start_le_payload (i := id.toNat+1) (by omega)
    have hsub : (image.offsets.getD (id.toNat+1) 0-image.offsets.getD id.toNat 0).toNat=
        image.start (id.toNat+1)-image.start id.toNat :=
      UInt64.toNat_sub_of_le _ _ (UInt64.le_iff_toNat_le.mpr hle)
    have hfile := image.file_bound
    have hrest : (⟨image.bytes,124+12*image.checksums.length+image.start id.toNat⟩ : Stream).rest=
        image.payload.drop (image.start id.toNat) := image.bytes_drop _
    have hstart : (image.offsets.getD id.toNat 0).toNat=image.start id.toNat := rfl
    unfold streamoffMax at hfile
    simp only [store,hnext,image.offsets_getElem? (Nat.le_of_lt hlt),image.offsets_getElem? hlt,
      Option.some.injEq,exists_eq_left',hsub,hstart,hrest,image.bytes_length,List.length_drop,
      uint64Max,streamoffMax,ge_iff_le,hlt]
    rw [StoreImage.document]
    constructor
    · rintro ⟨-,-,-,-,-,-,checksum,hc,rfl,rfl⟩
      exact ⟨trivial,rfl,hc⟩
    · rintro ⟨-,rfl,hc⟩
      exact ⟨by omega,by omega,by omega,by omega,by omega,by omega,_,hc,rfl,rfl⟩
  · simp [hlt]

/-- Reading several documents is reading each of them. -/
theorem store_readMany (image : StoreImage) (ids : List UInt32) {document : UInt32 → Text}
    (hr : ∀ id∈ids,image.store.read id=.ok (document id)) :
    image.store.readMany ids=.ok (ids.map document) := by
  induction ids with
  | nil => rfl
  | cons id ids ih =>
    rw [List.forall_mem_cons] at hr
    rw [DocumentStore.readMany,hr.1,ih hr.2]
    rfl

end StoreImage

/-- The documents of an image begin where they began. -/
theorem imageOf_start {documents : List Text} {identity : PairIdentity}
    (hi : isZeroIdentity identity=false) (ht : 92+12*documents.length≤uint64Max/8)
    (hf : fileSize documents≤ streamoffMax) {i : ℕ} (h : i≤documents.length) :
    (imageOf documents identity hi ht hf).start i=documentStart documents i := by
  have hb := documentStart_le documents i
  unfold fileSize streamoffMax at hf
  change ((offsetTable documents).getD i 0).toNat=_
  rw [List.getD_eq_getElem?_getD,offsetTable_getElem? documents h,Option.getD_some,
    UInt64.toNat_ofNat']
  omega

/-- The documents of an image are those it was made from. -/
theorem imageOf_document {documents : List Text} {identity : PairIdentity}
    (hi : isZeroIdentity identity=false) (ht : 92+12*documents.length≤uint64Max/8)
    (hf : fileSize documents≤ streamoffMax) {i : ℕ} (h : i<documents.length) :
    (imageOf documents identity hi ht hf).document i=documents[i] := by
  rw [StoreImage.document,imageOf_start hi ht hf (by omega),imageOf_start hi ht hf (by omega),
    documentStart_succ documents h,
    Nat.add_sub_cancel_left]
  have hsplit : documents.flatten=(documents.take i).flatten++(documents[i]++
      (documents.drop (i+1)).flatten) := by
    rw [←List.flatten_cons,List.cons_getElem_drop_succ,←List.flatten_append,List.take_append_drop]
  change ((documents.flatten.drop (documentStart documents i)).take documents[i].length)=documents[i]
  rw [hsplit,documentStart,List.drop_left,List.take_left]

/-- Rewriting the documents of an image gives its file back. -/
theorem imageOf_documents (image : StoreImage) {documents : List Text}
    (hlen : documents.length=image.checksums.length)
    (hdoc : ∀ i (h : i<documents.length),documents[i]=image.document i ∧
      image.checksums[i]?=some (crc32c documents[i])) :
    ∃ hi ht hf,image.bytes=(imageOf documents image.pairIdentity hi ht hf).bytes := by
  have hdocs : documents=(List.range image.checksums.length).map image.document := by
    apply List.ext_getElem
    · simp [hlen]
    · intro i hi _
      rw [(hdoc i hi).1]
      simp
  have hflat : documents.flatten=image.payload := by
    rw [hdocs,image.flatten_documents le_rfl,image.start_last,List.take_length]
  have hstart (i : ℕ) (h : i≤documents.length) : documentStart documents i=image.start i := by
    rw [documentStart,hdocs,←List.map_take,List.take_range,Nat.min_eq_left (by omega),
      image.flatten_documents (by omega),List.length_take]
    exact Nat.min_eq_left (image.start_le_payload (by omega))
  have hoffsets : offsetTable documents=image.offsets := by
    have hl := image.offsets_length
    apply List.ext_getElem
    · rw [offsetTable_length,hl,hlen]
    · intro i hi ho
      rw [offsetTable_length] at hi
      simp only [offsetTable,List.getElem_map,List.getElem_range]
      rw [hstart i (by omega),StoreImage.start,List.getD_eq_getElem _ _ ho,UInt64.ofNat_toNat]
  have hchecksums : documents.map crc32c=image.checksums := by
    apply List.ext_getElem
    · rw [List.length_map,hlen]
    · intro i hi hc
      rw [List.length_map] at hi
      have hd := (hdoc i hi).2
      rw [List.getElem?_eq_getElem hc,Option.some.injEq] at hd
      rw [List.getElem_map,hd]
  have ht := image.table_bound
  have hf := image.file_bound
  refine ⟨image.identity_nonzero,by omega,by rw [fileSize,hflat]; omega,?_⟩
  simp only [StoreImage.bytes,StoreImage.metadata,StoreImage.count,imageOf,hoffsets,hchecksums,hflat]

end Reading

/-- Stores with identifiers that fit their type round-trip in both
directions: what is written opens and reads back as the documents it was
written from, and what opens and reads is written again byte for byte. -/
theorem documentStore_round_trip :
    (∀ (path : Text) (documents : List Text) (identity : PairIdentity),documents.length<2^32 →
      ((∃ file,write path documents identity=.ok file) ↔
        isZeroIdentity identity=false ∧ fileSize documents≤ streamoffMax) ∧
      ∀ file,write path documents identity=.ok file → ∃ store,openStore path file=.ok store ∧
        store.size=documents.length ∧ store.rawBytes=documents.flatten.length ∧
        store.pairIdentity=identity ∧
        (∀ (id : UInt32) (h : id.toNat<documents.length),store.read id=.ok documents[id.toNat]) ∧
        ∀ ids : List UInt32,(∀ id∈ids,id.toNat<documents.length) →
          store.readMany ids=.ok (ids.map (fun id => documents.getD id.toNat []))) ∧
    ∀ (path : Text) (file : List UInt8) (store : DocumentStore),openStore path file=.ok store →
      store.size<2^32 → ∀ documents : List Text,documents.length=store.size →
      (∀ (id : UInt32) (h : id.toNat<documents.length),store.read id=.ok documents[id.toNat]) →
      write path documents store.pairIdentity=.ok file := by
  constructor
  · intro path documents identity hcount
    have htable : 92+12*documents.length≤uint64Max/8 := by
      unfold uint64Max
      omega
    refine ⟨⟨?_,?_⟩,?_⟩
    · rintro ⟨file,hw⟩
      obtain ⟨hi,-,hf,-⟩ := (write_ok _ _ _ _).mp hw
      exact ⟨hi,hf⟩
    · rintro ⟨hi,hf⟩
      exact ⟨_,(write_ok _ _ _ _).mpr ⟨hi,htable,hf,rfl⟩⟩
    · intro file hw
      obtain ⟨hi,ht,hf,rfl⟩ := (write_ok _ _ _ _).mp hw
      have hchecksums : (imageOf documents identity hi ht hf).checksums.length=documents.length :=
        List.length_map _
      have hread (id : UInt32) (h : id.toNat<documents.length) :
          (imageOf documents identity hi ht hf).store.read id=.ok documents[id.toNat] := by
        refine ((imageOf documents identity hi ht hf).store_read (by omega) _).mpr ⟨?_,?_,?_⟩
        · rw [hchecksums]
          exact h
        · rw [imageOf_document hi ht hf h]
        · change (documents.map crc32c)[id.toNat]?=_
          rw [List.getElem?_map,List.getElem?_eq_getElem h]
          rfl
      refine ⟨_,(openStore_ok _ _ _).mpr ⟨_,rfl,rfl⟩,?_,?_,rfl,hread,fun ids hids => ?_⟩
      · rw [StoreImage.store_size,hchecksums]
      · rw [StoreImage.store_rawBytes]
        rfl
      · apply StoreImage.store_readMany
        intro id hid
        rw [List.getD_eq_getElem _ _ (hids id hid)]
        exact hread id (hids id hid)
  · intro path file store hopen hsize documents hlen hread
    obtain ⟨image,rfl,rfl⟩ := (openStore_ok _ _ _).mp hopen
    rw [image.store_size] at hsize hlen
    refine (write_ok _ _ _ _).mpr (imageOf_documents image hlen (fun i h => ?_))
    have hid : (UInt32.ofNat i).toNat=i := by
      rw [UInt32.toNat_ofNat']
      omega
    have hr := hread (UInt32.ofNat i) (by omega)
    obtain ⟨-,hd,hc⟩ := (image.store_read (by omega) _).mp hr
    simp only [hid] at hd hc
    exact ⟨hd,hc⟩

/-- A store of two documents, one of them empty, is written and read back. -/
theorem documentStore_round_trip_pair :
    ∃ file store,write "pair.docs" [[97],[]] (.replicate 32 1)=.ok file ∧
      openStore "pair.docs" file=.ok store ∧ store.read 0=.ok ([97]) ∧ store.read 1=.ok [] ∧
      write "pair.docs" [[97],[]] store.pairIdentity=.ok file := by
  obtain ⟨hforward,hback⟩ := documentStore_round_trip
  obtain ⟨hwrite,hopen⟩ := hforward "pair.docs" [[97],[]] (.replicate 32 1) (by decide)
  obtain ⟨file,hfile⟩ := hwrite.mpr ⟨by decide,by simp [fileSize,streamoffMax]⟩
  obtain ⟨store,hs,hsize,-,-,hread,-⟩ := hopen file hfile
  refine ⟨file,store,hfile,hs,hread 0 Nat.zero_lt_two,hread 1 Nat.one_lt_two,?_⟩
  exact hback "pair.docs" file store hs (by rw [hsize]; decide) _ hsize.symm hread

/-- The last identifier is followed by the first table entry, so it never
reads anything behind a document with bytes. -/
theorem StoreImage.store_read_last (image : StoreImage)
    (hstart : 0< image.start (2^32-1)) (document : Text) :
    image.store.read 0xffffffff≠.ok document := by
  intro hr
  simp only [DocumentStore.read,bind_eq_ok,throwIf_ok,element_ok,exists_const] at hr
  obtain ⟨-,first,hf,last,hl,hb,-⟩ := hr
  have hid : (0xffffffff : UInt32).toNat=2^32-1 := rfl
  have hnext : ((0xffffffff : UInt32)+1).toNat=0 := rfl
  have hlast : last=0 := by
    have hh := image.offsets_head
    rw [List.head?_eq_getElem?] at hh
    rw [hnext,StoreImage.store,hh] at hl
    exact (Option.some.inj hl).symm
  have hfirst : first.toNat=image.start (2^32-1) := by
    rw [hid,StoreImage.store] at hf
    rw [StoreImage.start,List.getD_eq_getElem?_getD,hf]
    rfl
  have hlt : first.toNat<2^64 := first.toNat_lt
  have hsize := image.file_bound
  have hwrap : (last-first).toNat=2^64-first.toNat := by
    rw [hlast,UInt64.toNat_sub]
    simp only [UInt64.toNat_zero]
    omega
  rw [hwrap] at hb
  simp only [StoreImage.store,image.bytes_length] at hb
  unfold streamoffMax at hsize
  omega

/-- Four billion documents of one byte are written and opened, but the last
one whose identifier exists cannot be read. -/
theorem documentStore_last_document_unreadable :
    ∃ (documents : List Text) (identity : PairIdentity) (file : List UInt8) (store : DocumentStore)
      (id : UInt32),isZeroIdentity identity=false ∧ write "big.docs" documents identity=.ok file ∧
      openStore "big.docs" file=.ok store ∧ id.toNat<documents.length ∧
      ∀ document,store.read id≠.ok document := by
  have hflat (n : ℕ) : (List.replicate n [(97 : UInt8)]).flatten.length=n := by
    rw [List.flatten_replicate_singleton,List.length_replicate]
  obtain ⟨n,hn⟩ : ∃ n,n=2^32 := ⟨_,rfl⟩
  have hi := ones_nonzero
  have ht : 92+12*(List.replicate n [(97 : UInt8)]).length≤uint64Max/8 := by
    rw [List.length_replicate,uint64Max]
    omega
  have hf : fileSize (List.replicate n [(97 : UInt8)])≤ streamoffMax := by
    rw [fileSize,hflat,List.length_replicate,streamoffMax]
    omega
  have hstart : (imageOf _ _ hi ht hf).start (2^32-1)=n-1 := by
    rw [imageOf_start hi ht hf (by rw [List.length_replicate]; omega),documentStart,
      List.take_replicate,hflat]
    omega
  refine ⟨_,_,_,_,0xffffffff,hi,(write_ok _ _ _ _).mpr ⟨hi,ht,hf,rfl⟩,
    (openStore_ok _ _ _).mpr ⟨_,rfl,rfl⟩,?_,StoreImage.store_read_last _ (by omega)⟩
  have hid : (0xffffffff : UInt32).toNat=2^32-1 := rfl
  rw [List.length_replicate]
  omega

section Reports

open Outcomes

/-- Every failure in the header is an exception. -/
theorem readHeader_meets (path : Text) (file : List UInt8) :
    Meets (readHeader path) ⟨file,0⟩ Reported (fun _ stream => stream=⟨file,52⟩) := by
  have hreported : Yields (readHeader path) Reported (fun _ => True) :=
    (take_reported _ _).bind (fun _ _ => (check_reported _ _).bind (fun _ _ =>
    (readLe_reported UInt32).bind (fun _ _ => (check_reported _ _).bind (fun _ _ =>
    (takeArray_reported _ 32).bind (fun _ _ => (check_reported _ _).bind (fun _ _ =>
    (readLe_reported UInt64).bind (fun _ _ => Yields.returned trivial)))))))
  refine reported_meets (hreported _) (fun value stop hok => ?_)
  obtain ⟨bytes,⟨rfl,-⟩,-,rfl⟩ := (readHeader_recognises path _ _ _).mp hok
  rw [headerBytes_length,Stream.skip,Nat.zero_add]

end Reports

end Leann.Documents
