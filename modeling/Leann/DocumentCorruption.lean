import Leann.HostileArtifacts
import Leann.ShiftRegister

/-!
# Corrupted document stores

The table-driven checksum is a shift register that takes every byte from its
lowest bit, so it tells apart documents that differ within 32 consecutive
bits. Everything in front of the payload is under one of two digests, and the
size of the file is fixed by the table.
-/

namespace Leann.DocumentCorruption

open ByteStream Exceptions Outcomes Format Checksum Documents HostileArtifacts
open ShiftRegister (shift feed word feed_append)

section Register

/-- The feedback of `make_crc32c_table`. -/
def polynomial : BitVec 32 := 0x82f63b78#32

/-- The bits of a byte, from the lowest. -/
def byteBits (byte : UInt8) : List Bool := (List.range 8).map byte.toBitVec.getLsbD

/-- The bits of a byte string, in the order in which the checksum takes them. -/
def bitsOf (bytes : List UInt8) : List Bool := bytes.flatMap byteBits

/-- A step of the table computation is one of the register. -/
theorem crc32cShift_toBitVec (value : UInt32) :
    (crc32cShift value).toBitVec=shift polynomial value.toBitVec := by
  have hbit : (value&&&1).toBitVec=BitVec.setWidth 32 (BitVec.ofBool (value.toBitVec.getLsbD 0)) := by
    rw [UInt32.toBitVec_and]
    exact BitVec.and_one_eq_setWidth_ofBool_getLsbD
  rw [crc32cShift,shift,UInt32.toBitVec_xor,UInt32.toBitVec_and,UInt32.toBitVec_sub,hbit]
  cases value.toBitVec.getLsbD 0 with
  | false => rfl
  | true => rfl

/-- So are several. -/
theorem repeat_toBitVec (steps : ℕ) (value : UInt32) :
    (Nat.repeat crc32cShift steps value).toBitVec=(shift polynomial)^[steps] value.toBitVec := by
  induction steps with
  | zero => rfl
  | succ steps ih =>
    rw [Function.iterate_succ_apply',←ih]
    exact crc32cShift_toBitVec _

/-- The bits of a byte fill the lowest places. -/
theorem word_byteBits (byte : UInt8) :
    (word (byteBits byte) : BitVec 32)=byte.toUInt32.toBitVec := by
  apply BitVec.eq_of_getLsbD_eq
  intro i hi
  rw [ShiftRegister.word_getLsbD,byteBits,UInt8.toBitVec_toUInt32,BitVec.getLsbD_setWidth]
  by_cases hb : i<8
  · simp [hi,hb]
  · simp [hi,hb,BitVec.getLsbD_of_ge byte.toBitVec i (by omega)]

/-- The places of the mask of the lowest byte. -/
theorem mask_getLsbD (i : ℕ) : (0xff#32).getLsbD i=decide (i<8) := by
  have hmask : (255 : ℕ)=2^8-1 := rfl
  rw [BitVec.getLsbD_ofNat,hmask,Nat.testBit_two_pow_sub_one]
  by_cases hi : i<8
  · simp [hi,show i<32 by omega]
  · simp [hi]

/-- Eight steps take the lowest byte in and move the others down. -/
theorem iterate_eight (value : BitVec 32) : (shift polynomial)^[8] value=
    (shift polynomial)^[8] (value&&&0xff#32)^^^(value>>>8) := by
  have hsplit : value=(value&&&0xff#32)^^^(value&&& ~~~0xff#32) := by
    apply BitVec.eq_of_getLsbD_eq
    intro i hi
    simp only [BitVec.getLsbD_xor,BitVec.getLsbD_and,BitVec.getLsbD_not,mask_getLsbD]
    by_cases hb : i<8
    · simp [hb]
    · simp [hi,hb]
  have hhigh : (shift polynomial)^[8] (value&&& ~~~0xff#32)=value>>>8 := by
    rw [ShiftRegister.iterate_shift_high]
    · apply BitVec.eq_of_getLsbD_eq
      intro i _
      simp only [BitVec.getLsbD_ushiftRight,BitVec.getLsbD_and,BitVec.getLsbD_not,mask_getLsbD]
      by_cases hb : 8+i<32
      · simp [hb]
      · simp [BitVec.getLsbD_of_ge value (8+i) (by omega)]
    · intro i hi
      simp only [BitVec.getLsbD_and,BitVec.getLsbD_not,mask_getLsbD]
      simp [hi]
  calc (shift polynomial)^[8] value
      =(shift polynomial)^[8] ((value&&&0xff#32)^^^(value&&& ~~~0xff#32)) := by rw [←hsplit]
    _=_ := by rw [ShiftRegister.iterate_shift_xor,hhigh]

/-- An entry of the table is made of eight steps. -/
theorem table_get (entry : Fin 256) :
    crc32cTable.get entry=Nat.repeat crc32cShift 8 (UInt32.ofNat entry.val) := by
  change crc32cTable[entry.val]=_
  rw [crc32cTable,Vector.getElem_ofFn]

/-- One byte through the table is its bits through the register. -/
theorem crc32cStep_toBitVec (checksum : UInt32) (byte : UInt8) :
    (crc32cStep checksum byte).toBitVec=feed polynomial checksum.toBitVec (byteBits byte) := by
  have hlength : (byteBits byte).length=8 := by simp [byteBits]
  have hentry : (crc32cStep checksum byte).toBitVec=
      (Nat.repeat crc32cShift 8 ((checksum^^^byte.toUInt32)&&&0xff)).toBitVec^^^
        (checksum>>>8).toBitVec := by
    rw [crc32cStep,UInt32.toBitVec_xor,table_get,UInt32.ofNat_toNat]
  have hbyte : (checksum.toBitVec^^^byte.toUInt32.toBitVec)>>>8=checksum.toBitVec>>>8 := by
    apply BitVec.eq_of_getLsbD_eq
    intro i _
    rw [BitVec.getLsbD_ushiftRight,BitVec.getLsbD_xor,BitVec.getLsbD_ushiftRight,
      UInt8.toBitVec_toUInt32,BitVec.getLsbD_setWidth,BitVec.getLsbD_of_ge byte.toBitVec _ (by omega)]
    simp
  rw [hentry,repeat_toBitVec,ShiftRegister.feed_short _ _ _ (by rw [hlength]; decide),hlength,
    word_byteBits,iterate_eight (checksum.toBitVec^^^byte.toUInt32.toBitVec),hbyte]
  rfl

/-- A checksum is the complement of what the register holds. -/
theorem crc32c_toBitVec (bytes : List UInt8) :
    (crc32c bytes).toBitVec= ~~~feed polynomial 0xffffffff#32 (bitsOf bytes) := by
  have hloop (checksum : UInt32) : (bytes.foldl crc32cStep checksum).toBitVec=
      feed polynomial checksum.toBitVec (bitsOf bytes) := by
    induction bytes generalizing checksum with
    | nil => rfl
    | cons byte bytes ih =>
      rw [List.foldl_cons,ih,crc32cStep_toBitVec,bitsOf,bitsOf,List.flatMap_cons,feed_append]
  rw [crc32c,UInt32.toBitVec_not,hloop]
  rfl

end Register

section Bursts

@[simp] theorem byteBits_length (byte : UInt8) : (byteBits byte).length=8 := by
  rw [byteBits,List.length_map,List.length_range]

/-- A byte is determined by its bits. -/
theorem byteBits_injective : Function.Injective byteBits := by
  intro first second h
  have hword : first.toUInt32.toBitVec=second.toUInt32.toBitVec := by
    rw [←word_byteBits,h,word_byteBits]
  have hnumber := congrArg BitVec.toNat hword
  rw [UInt32.toNat_toBitVec,UInt32.toNat_toBitVec,UInt8.toNat_toUInt32,UInt8.toNat_toUInt32] at hnumber
  exact UInt8.toNat_inj.mp hnumber

/-- A byte string has eight bits for every byte. -/
theorem bitsOf_length (bytes : List UInt8) : (bitsOf bytes).length=8*bytes.length := by
  induction bytes with
  | nil => rfl
  | cons byte bytes ih =>
    rw [bitsOf] at ih ⊢
    rw [List.flatMap_cons,List.length_append,ih,byteBits_length,List.length_cons]
    omega

theorem bitsOf_append (first second : List UInt8) :
    bitsOf (first++second)=bitsOf first++bitsOf second := List.flatMap_append

/-- A byte string is determined by its bits. -/
theorem bitsOf_injective {first second : List UInt8} (hlength : first.length=second.length)
    (h : bitsOf first=bitsOf second) : first=second := by
  induction first generalizing second with
  | nil => exact (List.length_eq_zero_iff.mp hlength.symm).symm
  | cons byte first ih =>
    cases second with
    | nil => cases hlength
    | cons other second =>
      rw [bitsOf,bitsOf,List.flatMap_cons,List.flatMap_cons] at h
      obtain ⟨hbyte,hrest⟩ := List.append_inj h (by rw [byteBits_length,byteBits_length])
      rw [byteBits_injective hbyte,ih (Nat.succ.inj hlength) hrest]

/-- The bits of a part of a byte string. -/
theorem bitsOf_slice (bytes : List UInt8) (start length : ℕ) (i : ℕ) :
    (bitsOf ((bytes.drop start).take length))[i]?=
      if i<8*length then (bitsOf bytes)[8*start+i]? else none := by
  have htake (bytes : List UInt8) (count : ℕ) : bitsOf (bytes.take count)=(bitsOf bytes).take (8*count) := by
    rcases Nat.le_total count bytes.length with hle|hge
    · have hsplit : bitsOf bytes=bitsOf (bytes.take count)++bitsOf (bytes.drop count) := by
        rw [←bitsOf_append,List.take_append_drop]
      rw [hsplit,List.take_left']
      rw [bitsOf_length,List.length_take,Nat.min_eq_left hle]
    · rw [List.take_of_length_le hge,List.take_of_length_le]
      rw [bitsOf_length]
      omega
  have hdrop (count : ℕ) : bitsOf (bytes.drop count)=(bitsOf bytes).drop (8*count) := by
    have hsplit : bitsOf bytes=bitsOf (bytes.take count)++bitsOf (bytes.drop count) := by
      rw [←bitsOf_append,List.take_append_drop]
    rcases Nat.le_total count bytes.length with hle|hge
    · rw [hsplit,List.drop_left']
      rw [bitsOf_length,List.length_take,Nat.min_eq_left hle]
    · rw [List.drop_eq_nil_of_le hge,List.drop_eq_nil_of_le]
      · rfl
      · rw [bitsOf_length]
        omega
  rw [htake,List.getElem?_take,hdrop,List.getElem?_drop]

/-- The altered bits lie within 32 consecutive bits from some bit on. -/
def Burst (bytes altered : List UInt8) (start : ℕ) : Prop :=
  ∀ i,i<start ∨ start+32≤ i → (bitsOf altered)[i]?=(bitsOf bytes)[i]?

/-- The part of a burst that lies in a part of a byte string. -/
theorem Burst.slice {bytes altered : List UInt8} {start : ℕ} (h : Burst bytes altered start)
    (begin length : ℕ) :
    Burst ((bytes.drop begin).take length) ((altered.drop begin).take length) (start-8*begin) := by
  intro i hi
  rw [bitsOf_slice,bitsOf_slice]
  split
  · exact h _ (by omega)
  · rfl

/-- A burst changes the checksum, wherever it lies and however long the string is. -/
theorem Burst.crc32c_ne {bytes altered : List UInt8} {start : ℕ} (h : Burst bytes altered start)
    (hlength : altered.length=bytes.length) (hne : altered≠bytes) : crc32c altered≠crc32c bytes := by
  intro heq
  have hregister : ~~~feed polynomial 0xffffffff#32 (bitsOf altered)=
      ~~~feed polynomial 0xffffffff#32 (bitsOf bytes) := by
    rw [←crc32c_toBitVec,←crc32c_toBitVec,heq]
  have hbits : (bitsOf altered).length=(bitsOf bytes).length := by
    rw [bitsOf_length,bitsOf_length,hlength]
  exact ShiftRegister.feed_ne polynomial rfl _ hbits start h
    (fun hb => hne (bitsOf_injective hlength hb)) (BitVec.not_inj.mp hregister)

/-- In the other order of the bits of a byte, from the highest, 32 consecutive
bits may change a document and leave its checksum alone. -/
example : crc32c [0x62,0x95,0xe3,0xfd,0x80]=crc32c [0,0,0,0,0] := by decide +kernel

end Bursts

section Payload

/-- The image with other documents of the same total size. -/
def withPayload (image : StoreImage) (altered : List UInt8)
    (hlength : altered.length=image.payload.length) : StoreImage :=
  {image with
    payload := altered
    offsets_last := by rw [hlength]; exact image.offsets_last
    file_bound := by rw [hlength]; exact image.file_bound}

/-- The file of an image up to its payload. -/
theorem bytes_take (image : StoreImage) :
    image.bytes.take (124+12*image.checksums.length)=sealBytes image.metadata := by
  rw [StoreImage.bytes]
  apply List.take_left'
  rw [sealBytes_length,image.metadata_length]
  omega

/-- A document whose checksum differs is reported by its number. -/
theorem read_mismatch (image : StoreImage) {id : UInt32} (hid : id.toNat+1<2^32)
    (hlt : id.toNat< image.checksums.length)
    (hchecksum : image.checksums[id.toNat]?≠some (crc32c (image.document id.toNat))) :
    image.store.read id=
      throwing (runtimeError ("document CRC32C checksum mismatch for id "++toText id.toNat)) := by
  have hnext : (id+1).toNat=id.toNat+1 := by
    rw [UInt32.toNat_add,UInt32.toNat_one]
    omega
  have hle := image.start_le hlt
  have hpayload := image.start_le_payload (i := id.toNat+1) (by omega)
  have hfile := image.file_bound
  have hlength := image.bytes_length
  unfold streamoffMax at hfile
  have hfirst : element image.store.offsets id.toNat=.ok (image.offsets.getD id.toNat 0) :=
    (element_ok _ _ _).mpr (image.offsets_getElem? (Nat.le_of_lt hlt))
  have hlast : element image.store.offsets (id+1).toNat=.ok (image.offsets.getD (id.toNat+1) 0) := by
    rw [hnext]
    exact (element_ok _ _ _).mpr (image.offsets_getElem? hlt)
  have hsub : (image.offsets.getD (id.toNat+1) 0-image.offsets.getD id.toNat 0).toNat=
      image.start (id.toNat+1)-image.start id.toNat :=
    UInt64.toNat_sub_of_le _ _ (UInt64.le_iff_toNat_le.mpr hle)
  have hstart : (image.offsets.getD id.toNat 0).toNat=image.start id.toNat := rfl
  have hsize : ¬id.toNat≥image.store.size := by
    rw [image.store_size]
    omega
  have hdata : image.store.dataOffset=124+12*image.checksums.length := rfl
  have hfileSize : image.store.fileSize=image.bytes.length := rfl
  have hplus : plus64 image.store.dataOffset (image.start id.toNat)=
      .ok (124+12*image.checksums.length+image.start id.toNat) :=
    (plus64_ok _ _ _).mpr ⟨by rw [hdata,uint64Max]; omega,rfl⟩
  have hchecked : checkedSize (image.start (id.toNat+1)-image.start id.toNat) "document size"=
      .ok (image.start (id.toNat+1)-image.start id.toNat) :=
    (checkedSize_ok _ _ _).mpr ⟨by rw [uint64Max]; omega,rfl⟩
  have hread : readBytes (image.start (id.toNat+1)-image.start id.toNat)
      ⟨image.store.contents,124+12*image.checksums.length+image.start id.toNat⟩=
        .ok (image.document id.toNat,
          (⟨image.store.contents,124+12*image.checksums.length+image.start id.toNat⟩ : Stream).skip
            (image.start (id.toNat+1)-image.start id.toNat)) := by
    refine (run_take_ok _ _ _ _ _).mpr ⟨?_,?_,rfl⟩
    · change _≤(image.bytes.drop _).length
      rw [image.bytes_drop,List.length_drop]
      omega
    · change _=(image.bytes.drop _).take _
      rw [image.bytes_drop]
      rfl
  have hstored : element image.store.checksums id.toNat=.ok image.checksums[id.toNat] :=
    (element_ok _ _ _).mpr (List.getElem?_eq_getElem hlt)
  rw [List.getElem?_eq_getElem hlt,ne_eq,Option.some.injEq] at hchecksum
  rw [DocumentStore.read,throwIf,if_neg hsize]
  simp only [bind,Except.bind,hfirst,hlast,hsub,hstart,hplus]
  rw [throwIf,if_neg (by rw [hdata,hfileSize]; omega)]
  simp only [throwIf]
  rw [if_neg (by rw [streamoffMax]; omega)]
  simp only [hchecked,hread,hstored]
  rw [if_pos (Ne.symm hchecksum)]
  rfl

/-- With other documents of the same total size the store opens, and a document
is read exactly when its bytes are the ones its checksum was made from. -/
theorem withPayload_read (image : StoreImage) {altered : List UInt8} {start : ℕ}
    (hlength : altered.length=image.payload.length) (hburst : Burst image.payload altered start)
    {id : UInt32} (hid : id.toNat+1<2^32) (hlt : id.toNat< image.checksums.length)
    (hchecksum : image.checksums[id.toNat]?=some (crc32c (image.document id.toNat))) :
    (withPayload image altered hlength).store.read id=
      if (withPayload image altered hlength).document id.toNat=image.document id.toNat then
        .ok (image.document id.toNat)
      else
        throwing (runtimeError ("document CRC32C checksum mismatch for id "++toText id.toNat)) := by
  split
  · rename_i hsame
    exact ((withPayload image altered hlength).store_read hid _).mpr
      ⟨hlt,hsame.symm,hchecksum⟩
  · rename_i hchanged
    apply read_mismatch (withPayload image altered hlength) hid hlt
    change image.checksums[id.toNat]?≠_
    rw [hchecksum,ne_eq,Option.some.injEq]
    have hpart := hburst.slice (image.start id.toNat)
      (image.start (id.toNat+1)-image.start id.toNat)
    refine (Burst.crc32c_ne hpart ?_ hchanged).symm
    simp only [List.length_take,List.length_drop,hlength]

end Payload

section Front

/-- The header of an image lies at the front of its file, with its digest
behind it. -/
theorem header_sealed (image : StoreImage) :
    image.bytes.take 52=headerBytes image.pairIdentity image.count ∧
      (image.bytes.drop 52).take 32=(digest (image.bytes.take 52)).toList := by
  have hlength : (headerBytes image.pairIdentity image.count).length=52 := headerBytes_length _ _
  have htake : image.bytes.take 52=headerBytes image.pairIdentity image.count := by
    rw [image.bytes_eq]
    exact List.take_left' hlength
  refine ⟨htake,?_⟩
  rw [htake,image.bytes_eq,List.drop_left' hlength]
  exact List.take_left' Vector.length_toList

/-- Everything in front of the second digest is under it. -/
theorem metadata_sealed (image : StoreImage) :
    image.bytes.take (92+12*image.checksums.length)=image.metadata ∧
      (image.bytes.drop (92+12*image.checksums.length)).take 32=
        (digest (image.bytes.take (92+12*image.checksums.length))).toList := by
  have htake : image.bytes.take (92+12*image.checksums.length)=image.metadata := by
    rw [StoreImage.bytes,sealBytes,List.append_assoc]
    exact List.take_left' image.metadata_length
  refine ⟨htake,?_⟩
  rw [htake,StoreImage.bytes,sealBytes,List.append_assoc,List.drop_left' image.metadata_length]
  exact List.take_left' Vector.length_toList

/-- The number of documents is the last field of the header. -/
theorem count_field (image : StoreImage) : (image.bytes.drop 44).take 8=encode image.count := by
  have hsplit : image.bytes=(documentMagic++(encode documentVersion++image.pairIdentity.toList))++
      (encode image.count++image.bytes.drop 52) := by
    have hback : image.bytes.drop 52=(digest (headerBytes image.pairIdentity image.count)).toList++
        (tableBytes image.offsets image.checksums++
        ((digest image.metadata).toList++image.payload)) := by
      rw [image.bytes_eq]
      exact List.drop_left' (headerBytes_length _ _)
    rw [hback,image.bytes_eq,headerBytes]
    simp only [List.append_assoc]
  have hfront : (documentMagic++(encode documentVersion++image.pairIdentity.toList)).length=44 := by
    have hmagic : documentMagic.length=8 := by decide
    simp [hmagic]
  rw [hsplit,List.drop_left' hfront]
  exact List.take_left' (encode_length _)

/-- The header says how many documents there are. -/
theorem count_of_header {image other : StoreImage}
    (h : image.bytes.take 52=other.bytes.take 52) :
    image.checksums.length=other.checksums.length := by
  rw [(header_sealed image).1,(header_sealed other).1,headerBytes,headerBytes] at h
  obtain ⟨-,h⟩ := List.append_inj h rfl
  obtain ⟨-,h⟩ := List.append_inj h rfl
  obtain ⟨-,h⟩ := List.append_inj h (by rw [Vector.length_toList,Vector.length_toList])
  rw [←image.count_toNat,encode_injective UInt64 h,other.count_toNat]

/-- The table says how long the payload is. -/
theorem payload_of_metadata {image other : StoreImage} (h : image.metadata=other.metadata)
    (hcount : image.checksums.length=other.checksums.length) :
    image.payload.length=other.payload.length := by
  obtain ⟨-,htable⟩ := List.append_inj h (by
    rw [sealBytes_length,sealBytes_length,headerBytes_length,headerBytes_length])
  have hlengths : image.offsets.length=other.offsets.length := by
    rw [image.offsets_length,other.offsets_length,hcount]
  obtain ⟨hoffsets,-⟩ := List.append_inj htable (by
    rw [encode_flatMap_length,encode_flatMap_length,hlengths])
  rw [←image.offsets_last,flatMap_encode_injective hlengths hoffsets,other.offsets_last]

/-- No well-formed file is the front of another one. -/
theorem bytes_of_front {image other : StoreImage} (h : image.bytes<+:other.bytes) :
    image.bytes=other.bytes := by
  have htake (size : ℕ) (hs : size≤ image.bytes.length) :
      image.bytes.take size=other.bytes.take size := by
    obtain ⟨rest,hrest⟩ := h
    rw [←hrest,List.take_append_of_le_length hs]
  have hlength := image.bytes_length
  have hcount := count_of_header (htake 52 (by omega))
  have hmetadata : image.metadata=other.metadata := by
    rw [←(metadata_sealed image).1,htake _ (by omega),hcount,(metadata_sealed other).1]
  have hpayload := payload_of_metadata hmetadata hcount
  apply h.eq_of_length
  rw [hlength,other.bytes_length,hcount,hpayload]

/-- The altered copy stores the digest of its own first bytes, and not the one
that was there. -/
def Resealed (file altered : List UInt8) (size : ℕ) : Prop :=
  (altered.drop size).take 32=(digest (altered.take size)).toList ∧
    (altered.drop size).take 32≠(file.drop size).take 32

/-- The first bytes of both files are different and have the same digest. -/
def Collides (file altered : List UInt8) (size : ℕ) : Prop :=
  altered.take size≠file.take size ∧ digest (altered.take size)=digest (file.take size)

/-- Under a digest that was not replaced nothing is changed. -/
theorem take_of_sealed {file altered : List UInt8} {size : ℕ}
    (hfile : (file.drop size).take 32=(digest (file.take size)).toList)
    (haltered : (altered.drop size).take 32=(digest (altered.take size)).toList)
    (hcollides : ¬Collides file altered size) (hresealed : ¬Resealed file altered size) :
    altered.take size=file.take size := by
  have hstored : (altered.drop size).take 32=(file.drop size).take 32 := by
    by_contra hne
    exact hresealed ⟨haltered,hne⟩
  by_contra hne
  refine hcollides ⟨hne,Vector.toList_inj.mp ?_⟩
  rw [←haltered,hstored,hfile]

/-- A well-formed file with another front has a digest that was replaced, and
over the number of documents too when that is another one. -/
theorem front_of_bytes {image other : StoreImage}
    (hheader : ¬Collides image.bytes other.bytes 52)
    (hmetadata : ¬Collides image.bytes other.bytes (92+12*image.checksums.length))
    (hsealed : ¬Resealed image.bytes other.bytes (92+12*image.checksums.length))
    (hcount : (other.bytes.drop 44).take 8≠(image.bytes.drop 44).take 8 →
      ¬Resealed image.bytes other.bytes 52) :
    other.bytes.take (124+12*image.checksums.length)=
      image.bytes.take (124+12*image.checksums.length) := by
  have hnumber : other.checksums.length=image.checksums.length := by
    by_cases hfield : (other.bytes.drop 44).take 8=(image.bytes.drop 44).take 8
    · rw [count_field,count_field] at hfield
      rw [←other.count_toNat,encode_injective UInt64 hfield,image.count_toNat]
    · exact count_of_header (take_of_sealed (header_sealed image).2 (header_sealed other).2 hheader
        (hcount hfield))
  have hother := (metadata_sealed other).2
  rw [hnumber] at hother
  have hfront := take_of_sealed (metadata_sealed image).2 hother hmetadata hsealed
  rw [(metadata_sealed image).1,←hnumber,(metadata_sealed other).1] at hfront
  rw [bytes_take,←hnumber,bytes_take,hfront]

end Front

section Caught

/-- A file that is no image is rejected by an exception. -/
theorem openStore_throws (path : Text) {file : List UInt8}
    (h : ∀ image : StoreImage,image.bytes≠file) :
    ∃ exception,openStore path file=throwing exception := by
  have hreported := openStore_reported path file
  cases hopen : openStore path file with
  | ok store =>
    obtain ⟨image,hbytes,-⟩ := (openStore_ok path file store).mp hopen
    exact absurd hbytes (h image)
  | error fault =>
    obtain ⟨exception,rfl⟩ := hreported.of_error hopen
    exact ⟨exception,rfl⟩

/-- Corruption of a store that was written is caught exactly where it is. A
truncation, an extension and a change in front of the payload, unless a digest
is replaced with it, keep the store from opening. A burst in the payload keeps
exactly the documents it alters from being read. -/
theorem document_corruption_caught (path : Text) (documents : List Text) (identity : PairIdentity)
    (file : List UInt8) (hwrite : write path documents identity=.ok file) (reader : Text) :
    (∀ size<file.length,∃ exception,openStore reader (file.take size)=throwing exception) ∧
    (∀ more≠[],∃ exception,openStore reader (file++more)=throwing exception) ∧
    (∀ altered,altered.take (124+12*documents.length)≠file.take (124+12*documents.length) →
      ¬Collides file altered 52 → ¬Collides file altered (92+12*documents.length) →
      ¬Resealed file altered (92+12*documents.length) →
      ((altered.drop 44).take 8≠(file.drop 44).take 8 → ¬Resealed file altered 52) →
      ∃ exception,openStore reader altered=throwing exception) ∧
    (documents.length<2^32 → ∀ altered start,altered.length=documents.flatten.length →
      Burst documents.flatten altered start →
      ∃ store,openStore reader (file.take (124+12*documents.length)++altered)=.ok store ∧
        ∀ (id : UInt32) (h : id.toNat<documents.length),store.read id=
          if (altered.drop (documentStart documents id.toNat)).take documents[id.toNat].length=
            documents[id.toNat] then .ok documents[id.toNat]
          else throwing (runtimeError
            ("document CRC32C checksum mismatch for id "++toText id.toNat))) := by
  obtain ⟨hi,ht,hf,rfl⟩ := (write_ok _ _ _ _).mp hwrite
  obtain ⟨image,himage⟩ : ∃ image,image=imageOf documents identity hi ht hf := ⟨_,rfl⟩
  have hcount : image.checksums.length=documents.length := by
    rw [himage]
    exact List.length_map _
  rw [←himage]
  refine ⟨fun size hsize => ?_,fun more hmore => ?_,fun altered hne hheader hmetadata hsealed hfield => ?_,
    fun hids altered start hlength hburst => ?_⟩
  · refine openStore_throws reader (fun other hother => ?_)
    have hprefix : other.bytes<+:image.bytes := by
      rw [hother]
      exact List.take_prefix _ _
    have hsame := congrArg List.length (hother.symm.trans (bytes_of_front hprefix))
    rw [List.length_take] at hsame
    omega
  · refine openStore_throws reader (fun other hother => ?_)
    have hprefix : image.bytes<+:other.bytes := by
      rw [hother]
      exact List.prefix_append _ _
    have hsame := (bytes_of_front hprefix).trans hother
    exact hmore (List.append_right_eq_self.mp hsame.symm)
  · refine openStore_throws reader (fun other hother => ?_)
    subst hother
    rw [←hcount] at hne hmetadata hsealed
    exact hne (front_of_bytes hheader hmetadata hsealed hfield)
  · have hpayload : image.payload=documents.flatten := by rw [himage]; rfl
    rw [←hpayload] at hlength hburst
    refine ⟨(withPayload image altered hlength).store,?_,fun id hid => ?_⟩
    · refine (openStore_ok _ _ _).mpr ⟨withPayload image altered hlength,?_,rfl⟩
      rw [←hcount,bytes_take]
      rfl
    · have hdocument : image.document id.toNat=documents[id.toNat] := by
        simp only [himage]
        exact imageOf_document hi ht hf hid
      have hchecksum : image.checksums[id.toNat]?=some (crc32c (image.document id.toNat)) := by
        rw [hdocument]
        simp only [himage]
        change (documents.map crc32c)[id.toNat]?=_
        rw [List.getElem?_map,List.getElem?_eq_getElem hid]
        rfl
      have hstart : image.start id.toNat=documentStart documents id.toNat := by
        rw [himage]
        exact imageOf_start hi ht hf (Nat.le_of_lt hid)
      have hnext : image.start (id.toNat+1)=documentStart documents (id.toNat+1) := by
        rw [himage]
        exact imageOf_start hi ht hf hid
      have hpart : (withPayload image altered hlength).document id.toNat=
          (altered.drop (documentStart documents id.toNat)).take documents[id.toNat].length := by
        change (altered.drop (image.start id.toNat)).take
          (image.start (id.toNat+1)-image.start id.toNat)=_
        rw [hstart,hnext,documentStart_succ documents hid,Nat.add_sub_cancel_left]
      rw [withPayload_read image hlength hburst (by omega) (by rw [hcount]; exact hid) hchecksum,
        hpart,hdocument]

/-- Everything under the second digest of a store of the one document `a`. -/
def oneMetadata (identity : PairIdentity) : List UInt8 :=
  sealBytes (headerBytes identity 1)++tableBytes (offsetTable [[97]]) [crc32c [97]]

/-- The file of that store. -/
def oneStore (identity : PairIdentity) : List UInt8 := sealBytes (oneMetadata identity)++[97]

theorem oneMetadata_length (identity : PairIdentity) : (oneMetadata identity).length=104 := by
  simp [oneMetadata,offsetTable]

/-- It is what is written. -/
theorem write_one {identity : PairIdentity} (hi : isZeroIdentity identity=false) :
    write "one.docs" [[97]] identity=.ok (oneStore identity) := by
  refine (write_ok _ _ _ _).mpr ⟨hi,by decide,by decide,?_⟩
  simp [oneStore,oneMetadata,StoreImage.bytes,StoreImage.metadata,StoreImage.count,imageOf]

/-- Its second digest lies behind what is under it. -/
theorem oneStore_take (identity : PairIdentity) :
    (oneStore identity).take 104=oneMetadata identity := by
  rw [oneStore,sealBytes,List.append_assoc]
  exact List.take_left' (oneMetadata_length identity)

/-- A store of one document, cut off, with another digest and with another
document. -/
theorem document_corruption_caught_one :
    ∃ file,write "one.docs" [[97]] (.replicate 32 1)=.ok file ∧
      (∃ exception,openStore "one.docs" (file.take 100)=throwing exception) ∧
      (∃ exception,openStore "one.docs" (file.take 104++(file.drop 104).map (·+1))=
        throwing exception) ∧
      ∃ store,openStore "one.docs" (file.take 136++[98])=.ok store ∧
        store.read 0=throwing (runtimeError ("document CRC32C checksum mismatch for id "++toText 0)) := by
  have hwrite : write "one.docs" [[97]] (.replicate 32 1)=.ok (oneStore (.replicate 32 1)) :=
    write_one (by decide)
  obtain ⟨htruncated,-,hfront,hburst⟩ := document_corruption_caught "one.docs" [[97]]
    (.replicate 32 1) (oneStore (.replicate 32 1)) hwrite "one.docs"
  have hlength : (oneStore (.replicate 32 1)).length=137 := by
    simp [oneStore,oneMetadata_length]
  obtain ⟨altered,haltered⟩ : ∃ altered,altered=(oneStore (.replicate 32 1)).take 104++
      ((oneStore (.replicate 32 1)).drop 104).map (·+1) := ⟨_,rfl⟩
  have hsame (size : ℕ) (hs : size≤104) : altered.take size=(oneStore (.replicate 32 1)).take size := by
    rw [haltered,List.take_append_of_le_length (by rw [List.length_take,hlength]; exact hs),
      List.take_take,Nat.min_eq_left hs]
  have hother : (altered.drop 104).take 32≠((oneStore (.replicate 32 1)).drop 104).take 32 := by
    obtain ⟨byte,rest,hbytes⟩ : ∃ byte rest,(oneStore (.replicate 32 1)).drop 104=byte::rest := by
      apply List.exists_cons_of_ne_nil
      rw [ne_eq,List.drop_eq_nil_iff]
      omega
    have hdrop : altered.drop 104=(byte+1)::rest.map (·+1) := by
      rw [haltered,List.drop_left' (by rw [List.length_take,hlength]; rfl),hbytes,List.map_cons]
    rw [hdrop,hbytes,List.take_succ_cons,List.take_succ_cons]
    intro heq
    have hbyte := congrArg UInt8.toNat (List.cons.inj heq).1
    rw [UInt8.toNat_add,UInt8.toNat_one] at hbyte
    omega
  have hchanged : altered.take 136≠(oneStore (.replicate 32 1)).take 136 := by
    intro heq
    apply hother
    rw [List.take_drop,List.take_drop,heq]
  have hsealed : ¬Resealed (oneStore (.replicate 32 1)) altered 104 := by
    rintro ⟨hdigest,-⟩
    apply hother
    rw [hdigest,hsame 104 le_rfl,oneStore_take,oneStore,sealBytes,List.append_assoc,
      List.drop_left' (oneMetadata_length _)]
    exact (List.take_left' Vector.length_toList).symm
  have hthrows := hfront altered hchanged (fun h => h.1 (hsame 52 (by decide)))
    (fun h => h.1 (hsame 104 le_rfl)) hsealed (fun h => absurd (by
      rw [List.take_drop,List.take_drop,hsame _ (by decide)]) h)
  rw [haltered] at hthrows
  obtain ⟨store,hopen,hread⟩ := hburst (by decide) [98] 0 rfl (fun i hi => by
    have hbeyond : 8≤ i := by omega
    rw [List.getElem?_eq_none,List.getElem?_eq_none] <;> rw [bitsOf_length] <;> exact hbeyond)
  refine ⟨_,hwrite,htruncated 100 (by rw [hlength]; decide),hthrows,store,hopen,?_⟩
  exact (hread 0 (by decide)).trans (if_neg (by decide))

/-- A change in front of the payload opens when the digests are replaced with
it, although no two digests agree; and behind the last number of a document
that fits 32 bits an unaltered document is not read. -/
theorem document_corruption_missed :
    (∃ (documents : List Text) (identity : PairIdentity) (file altered : List UInt8)
      (store : DocumentStore),write "one.docs" documents identity=.ok file ∧ altered≠file ∧
      altered.length=file.length ∧
      altered.drop (124+12*documents.length)=file.drop (124+12*documents.length) ∧
      ¬Collides file altered 52 ∧ ¬Collides file altered (92+12*documents.length) ∧
      openStore "one.docs" altered=.ok store) ∧
    (∃ (documents : List Text) (identity : PairIdentity) (file altered : List UInt8)
      (store : DocumentStore) (id : UInt32),write "big.docs" documents identity=.ok file ∧
      altered.length=documents.flatten.length ∧ Burst documents.flatten altered 0 ∧
      openStore "big.docs" (file.take (124+12*documents.length)++altered)=.ok store ∧
      ∃ h : id.toNat<documents.length,
        (altered.drop (documentStart documents id.toNat)).take documents[id.toNat].length=
          documents[id.toNat] ∧ ∀ document,store.read id≠.ok document) := by
  constructor
  · have hother : write "one.docs" [[97]] (.replicate 32 2)=.ok (oneStore (.replicate 32 2)) :=
      write_one (by decide)
    obtain ⟨hi,ht,hf,hbytes⟩ := (write_ok _ _ _ _).mp hother
    have hmetadata : digest (oneMetadata (.replicate 32 2))≠digest (oneMetadata (.replicate 32 1)) := by
      decide +kernel
    have hlength (identity : PairIdentity) : (oneStore identity).length=137 := by
      simp [oneStore,oneMetadata_length]
    have hdrop (identity : PairIdentity) : (oneStore identity).drop 136=[97] :=
      List.drop_left' (by rw [sealBytes_length,oneMetadata_length])
    refine ⟨[[97]],.replicate 32 1,oneStore (.replicate 32 1),oneStore (.replicate 32 2),_,
      write_one (by decide),fun heq => hmetadata ?_,by rw [hlength,hlength],by
        exact (hdrop _).trans (hdrop _).symm,fun h => absurd h.2 (by decide +kernel),
      fun h => hmetadata ?_,(openStore_ok _ _ _).mpr ⟨_,hbytes.symm,rfl⟩⟩
    · rw [←oneStore_take,heq,oneStore_take]
    · have hdigests : digest ((oneStore (.replicate 32 2)).take 104)=
          digest ((oneStore (.replicate 32 1)).take 104) := h.2
      rwa [oneStore_take,oneStore_take] at hdigests
  · obtain ⟨n,hn⟩ : ∃ n,n+2=2^32 := ⟨2^32-2,rfl⟩
    have hflatten : (List.replicate (n+2) [(97 : UInt8)]).flatten=List.replicate (n+2) 97 :=
      List.flatten_replicate_singleton
    have hlength : (List.replicate (n+2) [(97 : UInt8)]).flatten.length=n+2 := by
      rw [hflatten,List.length_replicate]
    have hi := ones_nonzero
    have ht : 92+12*(List.replicate (n+2) [(97 : UInt8)]).length≤uint64Max/8 := by
      rw [List.length_replicate,uint64Max]
      omega
    have hf : fileSize (List.replicate (n+2) [(97 : UInt8)])≤ streamoffMax := by
      rw [fileSize,hlength,List.length_replicate,streamoffMax]
      omega
    obtain ⟨image,himage⟩ : ∃ image,image=imageOf _ _ hi ht hf := ⟨_,rfl⟩
    have hcount : image.checksums.length=(List.replicate (n+2) [(97 : UInt8)]).length := by
      rw [himage]
      exact List.length_map _
    have hpayload : image.payload=List.replicate (n+2) 97 := by
      rw [himage]
      exact hflatten
    have haltered : ((98 : UInt8)::List.replicate (n+1) 97).length=image.payload.length := by
      rw [hpayload,List.length_cons,List.length_replicate,List.length_replicate]
    have hstart : documentStart (List.replicate (n+2) [(97 : UInt8)]) (n+1)=n+1 := by
      rw [documentStart,List.take_replicate,List.flatten_replicate_singleton,List.length_replicate]
      omega
    have hid : (0xffffffff : UInt32).toNat=n+1 := by
      have hvalue : (0xffffffff : UInt32).toNat=2^32-1 := rfl
      omega
    refine ⟨List.replicate (n+2) [97],.replicate 32 1,image.bytes,98::List.replicate (n+1) 97,
      (withPayload image _ haltered).store,0xffffffff,(write_ok _ _ _ _).mpr ⟨hi,ht,hf,by rw [himage]⟩,
      ?_,fun i hi => ?_,?_,?_,?_,?_⟩
    · rw [haltered,hpayload,hlength,List.length_replicate]
    · have hfar : 8≤ i := by omega
      have hhead : List.replicate (n+2) (97 : UInt8)=97::List.replicate (n+1) 97 :=
        List.replicate_succ
      rw [hflatten,hhead,bitsOf,bitsOf,List.flatMap_cons,List.flatMap_cons,
        List.getElem?_append_right (by rw [byteBits_length]; exact hfar),
        List.getElem?_append_right (by rw [byteBits_length]; exact hfar),byteBits_length,
        byteBits_length]
    · refine (openStore_ok _ _ _).mpr ⟨_,?_,rfl⟩
      rw [←hcount,bytes_take]
      rfl
    · rw [hid,List.length_replicate]
      omega
    · simp only [hid,List.getElem_replicate,List.length_singleton]
      rw [hstart,List.drop_succ_cons,List.drop_replicate,Nat.add_sub_cancel_left]
      rfl
    · refine StoreImage.store_read_last _ ?_
      have hlast : 2^32-1=n+1 := by omega
      change 0< image.start (2^32-1)
      rw [hlast,himage,imageOf_start hi ht hf (by rw [List.length_replicate]; omega),hstart]
      exact Nat.succ_pos n

end Caught

end Leann.DocumentCorruption
