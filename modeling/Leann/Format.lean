import Leann.ByteStream
import Leann.Exceptions

/-!
# Fixed-width values and blocks of bytes in artifact files

The reading and writing helpers of `format.hpp` over the byte streams of
the library. Every helper that writes appends one string, and every helper
that reads recognises one grammar, so a format is compared field by field.
-/

namespace Leann.Format

open ByteStream Exceptions Outcomes

/-- `std::numeric_limits<std::uint64_t>::max()`, which is also that of
`std::size_t`. -/
def uint64Max : ℕ := 2^64-1

/-- `std::numeric_limits<std::streamoff>::max()`, the largest file offset. -/
def streamoffMax : ℕ := 2^63-1

section Arithmetic

/-- Unsigned 64-bit addition that must not lose a carry. -/
def plus64 (first second : ℕ) : Except Fault ℕ :=
  if first+second≤uint64Max then .ok (first+second) else .error .wrapped

/-- Unsigned 64-bit multiplication that must not lose a carry. -/
def times64 (first second : ℕ) : Except Fault ℕ :=
  if first*second≤uint64Max then .ok (first*second) else .error .wrapped

/-- A sum is returned exactly when it fits. -/
@[simp] theorem plus64_ok (first second value : ℕ) :
    plus64 first second=.ok value ↔ first+second≤uint64Max ∧ value=first+second := by
  unfold plus64
  split <;> simp_all [eq_comm]

/-- A product is returned exactly when it fits. -/
@[simp] theorem times64_ok (first second value : ℕ) :
    times64 first second=.ok value ↔ first*second≤uint64Max ∧ value=first*second := by
  unfold times64
  split <;> simp_all [eq_comm]

end Arithmetic

/-- An unsigned type with a fixed number of bytes. -/
class Unsigned (T : Type) where
  /-- `sizeof(T)`. -/
  width : ℕ
  /-- The value as a natural number. -/
  toNat : T → ℕ
  /-- The value modulo the size of the type. -/
  ofNat : ℕ → T
  /-- Every value fits the width. -/
  toNat_lt : ∀ value,toNat value<256^width
  /-- A value is determined by its natural number. -/
  ofNat_toNat : ∀ value,ofNat (toNat value)=value
  /-- Conversion is exact on numbers that fit. -/
  toNat_ofNat : ∀ number<256^width,toNat (ofNat number)=number

instance : Unsigned UInt8 where
  width := 1
  toNat := UInt8.toNat
  ofNat := UInt8.ofNat
  toNat_lt := UInt8.toNat_lt
  ofNat_toNat _ := UInt8.ofNat_toNat
  toNat_ofNat _ h := UInt8.toNat_ofNat_of_lt h

instance : Unsigned UInt32 where
  width := 4
  toNat := UInt32.toNat
  ofNat := UInt32.ofNat
  toNat_lt := UInt32.toNat_lt
  ofNat_toNat _ := UInt32.ofNat_toNat
  toNat_ofNat _ h := UInt32.toNat_ofNat_of_lt h

instance : Unsigned UInt64 where
  width := 8
  toNat := UInt64.toNat
  ofNat := UInt64.ofNat
  toNat_lt := UInt64.toNat_lt
  ofNat_toNat _ := UInt64.ofNat_toNat
  toNat_ofNat _ h := UInt64.toNat_ofNat_of_lt h

/-- The bytes of a value on disk. -/
def encode {T : Type} [Unsigned T] (value : T) : List UInt8 :=
  littleEndian (Unsigned.width T) (Unsigned.toNat value)

@[simp] theorem encode_length {T : Type} [Unsigned T] (value : T) :
    (encode value).length=Unsigned.width T := littleEndian_length _ _

@[simp] theorem width_uint8 : Unsigned.width UInt8=1 := rfl

@[simp] theorem width_uint32 : Unsigned.width UInt32=4 := rfl

@[simp] theorem width_uint64 : Unsigned.width UInt64=8 := rfl

/-- A table of values of one width has the expected size. -/
@[simp] theorem encode_flatMap_length {T : Type} [Unsigned T] (values : List T) :
    (values.flatMap encode).length=values.length*Unsigned.width T := by
  simp [List.length_flatMap,List.map_const']

section Writing

/-- A file being written, which holds at most as many bytes as an offset can
address. -/
abbrev Output (α : Type) := StateT (List UInt8) (Except Fault) α

/-- `write_bytes`. -/
def writeBytes (data : List UInt8) : Output Unit := fun file =>
  if file.length+data.length≤ streamoffMax then .ok ((),file++data)
  else throwing (runtimeError "failed to write index data")

/-- `write_le`, one byte after another. -/
def writeLe {T : Type} [Unsigned T] (value : T) : Output Unit :=
  writeBytes ((List.range (Unsigned.width T)).map
    (fun i => UInt8.ofNat ((Unsigned.toNat value>>>(i*8))&&&0xff)))

/-- `write_vector`. -/
def writeVector {T : Type} [Unsigned T] : List T → Output Unit
  | [] => pure ()
  | value::values => do
    writeLe value
    writeVector values

/-- On a file of an addressable size the writer appends one string, and it
fails only when the result is too large. -/
def Appends (writer : Output Unit) (bytes : List UInt8) : Prop :=
  ∀ file value after,file.length≤ streamoffMax → (writer file=.ok (value,after) ↔
    file.length+bytes.length≤ streamoffMax ∧ after=file++bytes)

/-- Two writers succeed one after the other. -/
theorem output_bind_ok {α β : Type} (writer : Output α) (next : α → Output β)
    (file after : List UInt8) (result : β) :
    (writer>>=next) file=.ok (result,after) ↔
      ∃ value middle,writer file=.ok (value,middle) ∧ next value middle=.ok (result,after) := by
  cases h : writer file with
  | error failure => simp [bind,StateT.bind,Except.bind,h]
  | ok pair =>
    obtain ⟨value,middle⟩ := pair
    simp [bind,StateT.bind,Except.bind,h,and_assoc]

namespace Appends

/-- Writing nothing. -/
theorem nil : Appends (pure ()) [] := by
  intro file value after hl
  change Except.ok (value,file)=_ ↔ _
  simp [hl,eq_comm]

/-- Appending one block. -/
theorem writeBytes (data : List UInt8) : Appends (writeBytes data) data := by
  intro file value after _
  unfold Format.writeBytes throwing
  split <;> simp_all [eq_comm]

/-- Appending one value. -/
theorem writeLe {T : Type} [Unsigned T] (value : T) : Appends (writeLe value) (encode value) := by
  have hb := writeBytes (encode value)
  rw [encode,littleEndian_eq_map] at hb
  rw [encode,littleEndian_eq_map]
  exact hb

/-- Writers in sequence append the concatenation. -/
theorem bind {first second : Output Unit} {front back : List UInt8} (hf : Appends first front)
    (hs : Appends second back) : Appends (do first; second) (front++back) := by
  intro file value after hl
  have hb := output_bind_ok first (fun _ => second) file after value
  refine hb.trans ?_
  constructor
  · rintro ⟨_,middle,ha,hc⟩
    obtain ⟨hm,rfl⟩ := (hf _ _ _ hl).mp ha
    rw [←List.length_append] at hm
    obtain ⟨hn,rfl⟩ := (hs _ _ _ hm).mp hc
    simp only [List.length_append] at hn ⊢
    exact ⟨by omega,by rw [List.append_assoc]⟩
  · rintro ⟨hn,rfl⟩
    rw [List.length_append] at hn
    have hm : (file++front).length≤ streamoffMax := by
      rw [List.length_append]
      omega
    exact ⟨(),file++front,(hf _ _ _ hl).mpr ⟨by omega,rfl⟩,
      (hs _ _ _ hm).mpr ⟨by rw [List.length_append]; omega,by rw [List.append_assoc]⟩⟩

/-- Appending a table. -/
theorem writeVector {T : Type} [Unsigned T] (values : List T) :
    Appends (writeVector values) (values.flatMap encode) := by
  induction values with
  | nil => exact nil
  | cons value values ih => exact (writeLe value).bind ih

end Appends

/-- A writer keeps what the file holds. -/
def Extends {α : Type} (writer : Output α) : Prop :=
  ∀ file value after,writer file=.ok (value,after) → file<+:after

namespace Extends

/-- Writing nothing. -/
theorem pure {α : Type} (value : α) : Extends (pure value : Output α) := by
  intro file value' after h
  exact (Prod.mk.inj (Except.ok.inj h)).2 ▸ List.prefix_rfl

/-- Computing something. -/
theorem lift {α : Type} (result : Except Fault α) : Extends (StateT.lift result : Output α) := by
  intro file value after h
  cases result with
  | error fault => cases h
  | ok value' =>
    exact (Prod.mk.inj (Except.ok.inj h)).2 ▸ List.prefix_rfl

/-- Writers in sequence. -/
theorem bind {α β : Type} {writer : Output α} {next : α → Output β} (hw : Extends writer)
    (hn : ∀ value,Extends (next value)) : Extends (writer>>=next) := by
  intro file result after h
  obtain ⟨value,middle,hf,hs⟩ := (output_bind_ok writer next file after result).mp h
  exact (hw file value middle hf).trans (hn value middle result after hs)

/-- Appending one block. -/
theorem writeBytes (data : List UInt8) : Extends (writeBytes data) := by
  intro file value after h
  unfold Format.writeBytes throwing at h
  split at h
  · rw [←(Prod.mk.inj (Except.ok.inj h)).2]
    exact List.prefix_append _ _
  · cases h

/-- Appending one value. -/
theorem writeLe {T : Type} [Unsigned T] (value : T) : Extends (writeLe value) := writeBytes _

/-- Appending a table. -/
theorem writeVector {T : Type} [Unsigned T] (values : List T) : Extends (writeVector values) := by
  induction values with
  | nil => exact pure ()
  | cons value values ih => exact (writeLe value).bind (fun _ => ih)

end Extends

end Writing

section Reading

/-- The exception of every read past the end. -/
def truncated : Fault := .thrown (runtimeError "truncated index data")

/-- Throw while reading when a condition holds. -/
def check (condition : Prop) [Decidable condition] (exception : Exception) : Reader Fault Unit :=
  failIf condition (.thrown exception)

/-- `input.get()`, where the end of the file is an error. -/
def getByte : Reader Fault UInt8 := do
  let bytes ← take truncated 1
  return bytes.headD 0

/-- `read_le`, collecting the bytes of a value from the lowest upwards. -/
def readLe (T : Type) [Unsigned T] : Reader Fault T := do
  let value ← (List.range (Unsigned.width T)).foldlM (fun value i => do
    let byte ← getByte
    return value|||(byte.toNat<<<(i*8))) 0
  return Unsigned.ofNat value

/-- `read_bytes`. -/
def readBytes (size : ℕ) : Reader Fault (List UInt8) := take truncated size

/-- `read_vector`, whose values are allocated before the first is read. -/
def readVector (T : Type) [Unsigned T] (count : ℕ) : Reader Fault (List T) := do
  demand Fault.unbacked (count*Unsigned.width T)
  readMany (readLe T) count

/-- `resize` followed by `read_bytes` into the new storage. -/
def readResized (size : ℕ) : Reader Fault (List UInt8) := do
  demand Fault.unbacked size
  readBytes size

/-- `read_bytes` into a fixed array. -/
def readArray (size : ℕ) : Reader Fault (Vector UInt8 size) := do
  let bytes ← readBytes size
  return Vector.ofFn (fun i => bytes.getD i.val 0)

/-- `checked_size`, which admits every value because `std::size_t` is as wide. -/
def checkedSize (value : ℕ) (field : Text) : Except Fault ℕ :=
  if value>uint64Max then throwing (runtimeError (field++" does not fit in memory"))
  else .ok value

/-- One byte is read as it stands, whatever is thrown at the end. -/
theorem takeByte_recognises (failure : Fault) :
    Recognises (do
      let bytes ← take failure 1
      return bytes.headD 0 : Reader Fault UInt8) (fun bytes byte => bytes=[byte]) := by
  refine ((Recognises.take failure 1).returning (fun bytes => bytes.headD 0)).congr ?_
  intro bytes byte
  constructor
  · rintro ⟨_,⟨rfl,hl⟩,rfl⟩
    obtain ⟨only,rfl⟩ := List.length_eq_one_iff.mp hl
    rfl
  · rintro rfl
    exact ⟨[byte],⟨rfl,rfl⟩,rfl⟩

/-- Or-ing a shifted byte into a value below it adds its place value. -/
theorem or_shiftLeft_byte {value width : ℕ} (hv : value<256^width) (byte : ℕ) :
    value|||(byte<<<(width*8))=value+256^width*byte := by
  have hp : (256 : ℕ)^width=2^(width*8) := by
    rw [Nat.mul_comm,Nat.pow_mul]
  rw [hp] at hv ⊢
  rw [Nat.or_comm,←Nat.shiftLeft_add_eq_or_of_lt hv,Nat.shiftLeft_eq]
  ring

/-- One byte is read as it stands. -/
theorem getByte_recognises : Recognises getByte (fun bytes byte => bytes=[byte]) :=
  takeByte_recognises truncated

/-- The bytes that a reader of one byte collects from some position on extend
the value below it. -/
theorem collect_loop {next : Reader Fault UInt8} (h : Recognises next (fun bytes byte => bytes=[byte]))
    (count start value : ℕ) (hv : value<256^start) :
    Recognises ((List.range' start count).foldlM (fun value i => do
      let byte ← next
      return value|||(byte.toNat<<<(i*8))) value : Reader Fault ℕ)
      (fun bytes result => bytes.length=count ∧ result=value+256^start*ofLittleEndian bytes) := by
  induction count generalizing start value with
  | zero =>
    refine (Recognises.pure value).congr (fun bytes result => ?_)
    constructor
    · rintro ⟨rfl,rfl⟩
      simp [ofLittleEndian]
    · rintro ⟨hl,rfl⟩
      rw [List.length_eq_zero_iff] at hl
      simp [hl,ofLittleEndian]
  | succ count ih =>
    have hn (byte : UInt8) : value|||(byte.toNat<<<(start*8))<256^(start+1) := by
      have hb : byte.toNat<256 := byte.toNat_lt
      have hm := Nat.mul_le_mul_left (256^start) hb
      rw [Nat.mul_succ] at hm
      rw [or_shiftLeft_byte hv,pow_succ]
      omega
    rw [List.range'_succ,List.foldlM_cons]
    simp only [bind_assoc,pure_bind]
    refine (h.bind (fun byte => ih (start+1) _ (hn byte))).congr ?_
    intro bytes result
    constructor
    · rintro ⟨byte,_,back,rfl,rfl,hl,rfl⟩
      refine ⟨by simp [hl],?_⟩
      rw [or_shiftLeft_byte hv]
      simp only [List.cons_append,List.nil_append,ofLittleEndian,pow_succ]
      ring
    · rintro ⟨hl,rfl⟩
      cases bytes with
      | nil => simp at hl
      | cons byte back =>
        refine ⟨byte,[byte],back,rfl,rfl,by simpa using hl,?_⟩
        rw [or_shiftLeft_byte hv]
        simp only [ofLittleEndian,pow_succ]
        ring

/-- A value collected from the lowest byte upwards is read from its encoding
and from nothing else. -/
theorem collect_recognises (T : Type) [Unsigned T] {next : Reader Fault UInt8}
    (h : Recognises next (fun bytes byte => bytes=[byte])) :
    Recognises (do
      let value ← (List.range (Unsigned.width T)).foldlM (fun value i => do
        let byte ← next
        return value|||(byte.toNat<<<(i*8))) 0
      return Unsigned.ofNat value : Reader Fault T) (fun bytes value => bytes=encode value) := by
  have hl := collect_loop h (Unsigned.width T) 0 0 (by simp)
  rw [←List.range_eq_range'] at hl
  refine (hl.returning Unsigned.ofNat).congr (fun bytes value => ?_)
  constructor
  · rintro ⟨_,⟨hw,rfl⟩,rfl⟩
    have hb := ofLittleEndian_lt bytes
    rw [hw] at hb
    simp only [pow_zero,Nat.one_mul,Nat.zero_add,encode]
    rw [Unsigned.toNat_ofNat _ hb,←hw,littleEndian_ofLittleEndian]
  · rintro rfl
    refine ⟨_,⟨encode_length value,rfl⟩,?_⟩
    rw [encode,ofLittleEndian_littleEndian,Nat.mod_eq_of_lt (Unsigned.toNat_lt value)]
    simp [Unsigned.ofNat_toNat]

/-- A value is read from its encoding and from nothing else. -/
theorem readLe_recognises (T : Type) [Unsigned T] :
    Recognises (readLe T) (fun bytes value => bytes=encode value) :=
  collect_recognises T getByte_recognises

/-- A block of bytes is read as it stands. -/
theorem readBytes_recognises (size : ℕ) :
    Recognises (readBytes size) (fun bytes value => value=bytes ∧ bytes.length=size) :=
  .take truncated size

/-- A table is read from the encodings of its values. -/
theorem readVector_recognises (T : Type) [Unsigned T] (count : ℕ) :
    Recognises (readVector T count) (fun bytes values =>
      bytes=values.flatMap encode ∧ values.length=count) := by
  have hr : Recognises (readLe T) (fun bytes value => bytes=encode value ∧ True) :=
    (readLe_recognises T).congr (fun bytes value => by simp)
  have hm : Recognises (readMany (readLe T) count) (fun bytes values =>
      bytes=values.flatMap encode ∧ values.length=count) :=
    (hr.readMany count).congr (fun bytes values => by simp)
  refine Recognises.demand Fault.unbacked hm ?_
  rintro bytes values ⟨rfl,rfl⟩
  rw [encode_flatMap_length]

/-- A resized block is read as it stands. -/
theorem readResized_recognises (size : ℕ) :
    Recognises (readResized size) (fun bytes value => value=bytes ∧ bytes.length=size) :=
  Recognises.demand Fault.unbacked (readBytes_recognises size) (fun _ _ h => h.2.ge)

/-- An array is read from its bytes, whatever is thrown at the end. -/
theorem takeArray_recognises (failure : Fault) (size : ℕ) :
    Recognises (do
      let bytes ← take failure size
      return Vector.ofFn (fun i => bytes.getD i.val 0) : Reader Fault (Vector UInt8 size))
      (fun bytes value => bytes=value.toList) := by
  refine ((Recognises.take failure size).returning _).congr (fun bytes value => ?_)
  constructor
  · rintro ⟨_,⟨rfl,hl⟩,rfl⟩
    subst hl
    apply List.ext_getElem <;> simp
  · rintro rfl
    refine ⟨value.toList,⟨rfl,by simp⟩,?_⟩
    ext i hi
    simp

/-- An array is read from its bytes. -/
theorem readArray_recognises (size : ℕ) :
    Recognises (readArray size) (fun bytes value => bytes=value.toList) :=
  takeArray_recognises truncated size

/-- A size is accepted when it fits. -/
@[simp] theorem checkedSize_ok (value result : ℕ) (field : Text) :
    checkedSize value field=.ok result ↔ value≤uint64Max ∧ result=value := by
  unfold checkedSize throwing
  split <;> simp_all [eq_comm]

/-- Values are determined by their encodings. -/
theorem encode_injective (T : Type) [Unsigned T] : Function.Injective (encode : T → List UInt8) := by
  have hdecode (value : T) : ofLittleEndian (encode value)=Unsigned.toNat value := by
    rw [encode,ofLittleEndian_littleEndian,Nat.mod_eq_of_lt (Unsigned.toNat_lt value)]
  intro first second h
  rw [←Unsigned.ofNat_toNat first,←hdecode,h,hdecode,Unsigned.ofNat_toNat]

/-- Tables of one size are determined by the encodings of their values. -/
theorem flatMap_encode_injective {T : Type} [Unsigned T] {first second : List T}
    (hlength : first.length=second.length) (h : first.flatMap encode=second.flatMap encode) :
    first=second := by
  induction first generalizing second with
  | nil => exact (List.length_eq_zero_iff.mp hlength.symm).symm
  | cons value first ih =>
    cases second with
    | nil => cases hlength
    | cons other second =>
      rw [List.flatMap_cons,List.flatMap_cons] at h
      obtain ⟨hvalue,hrest⟩ := List.append_inj h (by rw [encode_length,encode_length])
      rw [encode_injective T hvalue,ih (Nat.succ.inj hlength) hrest]

end Reading

section Reports

/-- A failure that an exception reports. -/
def Reported (fault : Fault) : Prop := ∃ exception,fault=.thrown exception

/-- A read that fails with an exception. -/
theorem take_reported (exception : Exception) (size : ℕ) :
    Yields (take (.thrown exception) size) Reported (fun _ => True) := by
  intro start
  unfold Meets take
  split
  · trivial
  · exact ⟨exception,rfl⟩

/-- A computation that reads nothing leaves the stream alone. -/
theorem attempt_meets {α : Type} {result : Except Fault α} {each : α → Prop} {stream : Stream}
    (h : Ends result Reported each) : Meets (attempt result) stream Reported
      (fun value after => each value ∧ after=stream) := by
  cases result with
  | error fault => exact h
  | ok value => exact ⟨h,rfl⟩

/-- Behind a check its condition is known to fail. -/
theorem check_meets (condition : Prop) [Decidable condition] (exception : Exception)
    (stream : Stream) : Meets (check condition exception) stream Reported
      (fun _ after => ¬condition ∧ after=stream) := by
  unfold Meets check failIf
  split
  · exact ⟨exception,rfl⟩
  · rename_i h
    exact ⟨h,rfl⟩

/-- A reader that fails with exceptions only, by its successful runs. -/
theorem reported_meets {α : Type} {reader : Reader Fault α} {start : Stream}
    {post : α → Stream → Prop} (h : Meets reader start Reported (fun _ _ => True))
    (hok : ∀ value stop,reader start=.ok (value,stop) → post value stop) :
    Meets reader start Reported post := by
  unfold Meets at h ⊢
  cases hr : reader start with
  | error fault =>
    rw [hr] at h
    exact h
  | ok result => exact hok result.1 result.2 hr

/-- One byte is read or its absence is reported. -/
theorem takeByte_reported (exception : Exception) :
    Yields (do
      let bytes ← take (.thrown exception) 1
      return bytes.headD 0 : Reader Fault UInt8) Reported (fun _ => True) :=
  (take_reported exception 1).bind (fun _ _ => Yields.returned trivial)

/-- An array is read or its truncation is reported. -/
theorem takeArray_reported (exception : Exception) (size : ℕ) :
    Yields (do
      let bytes ← take (.thrown exception) size
      return Vector.ofFn (fun i => bytes.getD i.val 0) : Reader Fault (Vector UInt8 size)) Reported
      (fun _ => True) :=
  (take_reported exception size).bind (fun _ _ => Yields.returned trivial)

/-- A value collected byte by byte is read or its truncation is reported. -/
theorem collect_reported (T : Type) [Unsigned T] {next : Reader Fault UInt8}
    (h : Yields next Reported (fun _ => True)) :
    Yields (do
      let value ← (List.range (Unsigned.width T)).foldlM (fun value i => do
        let byte ← next
        return value|||(byte.toNat<<<(i*8))) 0
      return Unsigned.ofNat value : Reader Fault T) Reported (fun _ => True) := by
  refine Yields.bind (Yields.foldlM _ (fun _ _ => True) trivial
    (fun _ _ _ _ _ _ => ?_)) (fun _ _ => Yields.returned trivial)
  exact h.bind (fun _ _ => Yields.returned trivial)

/-- Several values are read or a truncation is reported. -/
theorem readMany_reported {α : Type} {reader : Reader Fault α} (h : Yields reader Reported (fun _ => True))
    (count : ℕ) : Yields (readMany reader count) Reported (fun _ => True) := by
  induction count with
  | zero => exact Yields.returned trivial
  | succ count ih => exact h.bind (fun _ _ => ih.bind (fun _ _ => Yields.returned trivial))

/-- A value is read or its truncation is reported. -/
theorem readLe_reported (T : Type) [Unsigned T] : Yields (readLe T) Reported (fun _ => True) :=
  collect_reported T (takeByte_reported _)

/-- A table that the file backs is read to its end, or a truncation is reported. -/
theorem readVector_meets (T : Type) [Unsigned T] (count : ℕ) {stream : Stream}
    (hfits : count*Unsigned.width T≤ stream.rest.length) :
    Meets (readVector T count) stream Reported
      (fun _ after => after=stream.skip (count*Unsigned.width T)) := by
  have hdemand : Meets (demand Fault.unbacked (count*Unsigned.width T)) stream Reported
      (fun _ _ => True) := by
    unfold Meets demand
    rw [if_pos hfits]
    trivial
  refine reported_meets
    (hdemand.bind (fun _ state _ => readMany_reported (readLe_reported T) count state))
    (fun values stop hok => ?_)
  obtain ⟨bytes,⟨rfl,hcount⟩,-,rfl⟩ := (readVector_recognises T count _ _ _).mp hok
  rw [encode_flatMap_length,hcount]

/-- A sum that fits is returned. -/
theorem plus64_ends {first second : ℕ} (h : first+second≤uint64Max) :
    Ends (plus64 first second) Reported (fun sum => sum=first+second) := by
  rw [(plus64_ok _ _ _).mpr ⟨h,rfl⟩]
  rfl

/-- A product that fits is returned. -/
theorem times64_ends {first second : ℕ} (h : first*second≤uint64Max) :
    Ends (times64 first second) Reported (fun product => product=first*second) := by
  rw [(times64_ok _ _ _).mpr ⟨h,rfl⟩]
  rfl

/-- A size is returned or reported. -/
theorem checkedSize_ends (value : ℕ) (field : Text) :
    Ends (checkedSize value field) Reported (fun size => size=value) := by
  unfold checkedSize throwing
  split
  · exact ⟨_,rfl⟩
  · rfl

/-- The position is known. -/
theorem tell_meets (start : Stream) : Meets (tell : Reader Fault ℕ) start Reported
    (fun position after => position=start.position ∧ after=start) := ⟨rfl,rfl⟩

/-- A position is set. -/
theorem seek_meets (position : ℕ) (start : Stream) :
    Meets (seek position : Reader Fault Unit) start Reported
      (fun _ after => after=⟨start.contents,position⟩) := rfl

/-- A check passes or is reported. -/
theorem check_reported (condition : Prop) [Decidable condition] (exception : Exception) :
    Yields (check condition exception) Reported (fun _ => True) :=
  fun start => (check_meets _ _ start).mono (fun _ h => h) (fun _ _ _ => trivial)

/-- A stored digest is read or its truncation is reported. -/
theorem readArray_meets (size : ℕ) (stream : Stream) : Meets (readArray size) stream Reported
    (fun _ after => after.contents=stream.contents) := by
  refine reported_meets (takeArray_reported _ size stream) (fun value stop hok => ?_)
  obtain ⟨_,-,-,rfl⟩ := (readArray_recognises size _ _ _).mp hok
  rfl

end Reports

end Leann.Format
