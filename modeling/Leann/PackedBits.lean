import Leann.Outcomes
import Leann.Exceptions
import Mathlib.Algebra.Ring.Nat

/-!
# Numbers packed into bytes

Fields of at most eight bits that lie at any bit of a byte string, least
significant bit first. Reading a field is a shift of the whole string read
as one number, and writing one sets the bits of that number.
-/

namespace Leann.PackedBits

open Exceptions

/-- The number whose bits are those of the bytes. -/
def number : List UInt8 → ℕ
  | [] => 0
  | byte::bytes => 2^8*number bytes+byte.toNat

/-- Nothing is packed yet. -/
theorem number_replicate (count : ℕ) : number (List.replicate count (0 : UInt8))=0 := by
  induction count with
  | zero => rfl
  | succ count ih =>
    rw [List.replicate_succ,number,ih]
    rfl

/-- A bit of the number is a bit of a byte. -/
theorem testBit_number (bytes : List UInt8) (i : ℕ) :
    (number bytes).testBit i=(bytes.getD (i/8) 0).toNat.testBit (i%8) := by
  induction bytes generalizing i with
  | nil => simp [number]
  | cons byte bytes ih =>
    rw [number,Nat.testBit_two_pow_mul_add _ byte.toNat_lt]
    by_cases hi : i<8
    · rw [if_pos hi,Nat.div_eq_of_lt hi,Nat.mod_eq_of_lt hi]
      rfl
    · rw [if_neg hi,ih]
      have hd : i/8=(i-8)/8+1 := by omega
      have hm : i%8=(i-8)%8 := by omega
      rw [hd,hm,List.getD_cons_succ]

/-- A byte has no more than its bits. -/
theorem testBit_byte (byte : UInt8) {i : ℕ} (hi : 8≤ i) : byte.toNat.testBit i=false :=
  Nat.testBit_lt_two_pow (Nat.lt_of_lt_of_le byte.toNat_lt (Nat.pow_le_pow_right (by omega) hi))

/-- Read the field of so many bits that begins at a bit. -/
def unpackCode (packed : List UInt8) (offsetBits bits : ℕ) : Except Fault ℕ := do
  let byte := offsetBits/8
  let shift := offsetBits%8
  let low ← element packed byte
  let value := low.toNat>>>shift
  let value ← if shift+bits>8 then do
      let high ← element packed (byte+1)
      pure (value|||high.toNat<<<(8-shift))
    else pure value
  return value&&&(2^bits-1)

/-- Set the field of so many bits that begins at a bit. -/
def packCode (packed : List UInt8) (offsetBits bits value : ℕ) : Except Fault (List UInt8) := do
  let byte := offsetBits/8
  let shift := offsetBits%8
  let low ← element packed byte
  let packed ← assign packed byte (low|||UInt8.ofNat (value<<<shift))
  if shift+bits>8 then do
    let high ← element packed (byte+1)
    assign packed (byte+1) (high|||UInt8.ofNat (value>>>(8-shift)))
  else return packed

theorem element_getD {packed : List UInt8} {i : ℕ} (hi : i<packed.length) :
    element packed i=.ok (packed.getD i 0) :=
  (element_ok _ _ _).mpr (by rw [List.getD_eq_getElem?_getD,List.getElem?_eq_getElem hi,Option.getD_some])

/-- A field inside the bytes is read from the number. -/
theorem unpackCode_ok {packed : List UInt8} {offsetBits bits : ℕ} (hb : 0<bits) (hb8 : bits≤8)
    (hl : offsetBits+bits≤8*packed.length) :
    unpackCode packed offsetBits bits=.ok (number packed>>>offsetBits%2^bits) := by
  have hlow : element packed (offsetBits/8)=.ok (packed.getD (offsetBits/8) 0) :=
    element_getD (by omega)
  have hsame : ∀ j,j<bits → offsetBits%8+j<8 →
      (number packed).testBit (offsetBits+j)=
        (packed.getD (offsetBits/8) 0).toNat.testBit (offsetBits%8+j) := fun j _ hs => by
    rw [testBit_number,show (offsetBits+j)/8=offsetBits/8 by omega,
      show (offsetBits+j)%8=offsetBits%8+j by omega]
  have hnext : ∀ j,j<bits → 8≤offsetBits%8+j →
      (number packed).testBit (offsetBits+j)=
        (packed.getD (offsetBits/8+1) 0).toNat.testBit (offsetBits%8+j-8) := fun j _ hs => by
    rw [testBit_number,show (offsetBits+j)/8=offsetBits/8+1 by omega,
      show (offsetBits+j)%8=offsetBits%8+j-8 by omega]
  by_cases hs : offsetBits%8+bits>8
  · have hhigh : element packed (offsetBits/8+1)=.ok (packed.getD (offsetBits/8+1) 0) :=
      element_getD (by omega)
    have hu : unpackCode packed offsetBits bits=
        .ok (((packed.getD (offsetBits/8) 0).toNat>>>(offsetBits%8)|||
          (packed.getD (offsetBits/8+1) 0).toNat<<<(8-offsetBits%8))&&&(2^bits-1)) := by
      simp only [unpackCode,hlow,hhigh,if_pos hs,bind,Except.bind,pure,Except.pure]
    rw [hu]
    congr 1
    refine Nat.eq_of_testBit_eq (fun j => ?_)
    rw [Nat.testBit_and,Nat.testBit_or,Nat.testBit_shiftRight,Nat.testBit_shiftLeft,
      Nat.testBit_two_pow_sub_one,Nat.testBit_mod_two_pow,Nat.testBit_shiftRight]
    by_cases hj : j<bits
    · by_cases hjs : offsetBits%8+j<8
      · have hn : ¬j≥8-offsetBits%8 := by omega
        simp [hj,hn,hsame j hj hjs]
      · have hge : j≥8-offsetBits%8 := by omega
        rw [hnext j hj (by omega),testBit_byte _ (show 8≤offsetBits%8+j by omega),
          show offsetBits%8+j-8=j-(8-offsetBits%8) by omega]
        simp [hj,hge]
    · simp [hj]
  · have hu : unpackCode packed offsetBits bits=
        .ok ((packed.getD (offsetBits/8) 0).toNat>>>(offsetBits%8)&&&(2^bits-1)) := by
      simp only [unpackCode,hlow,if_neg hs,bind,Except.bind,pure,Except.pure]
    rw [hu]
    congr 1
    refine Nat.eq_of_testBit_eq (fun j => ?_)
    rw [Nat.testBit_and,Nat.testBit_shiftRight,Nat.testBit_two_pow_sub_one,Nat.testBit_mod_two_pow,
      Nat.testBit_shiftRight]
    by_cases hj : j<bits
    · simp [hj,hsame j hj (by omega)]
    · simp [hj]

/-- The bits of an assigned byte string. -/
theorem testBit_number_set {packed : List UInt8} {byte : ℕ} (hb : byte<packed.length)
    (value : UInt8) (i : ℕ) : (number (packed.set byte value)).testBit i=
      if i/8=byte then value.toNat.testBit (i%8) else (number packed).testBit i := by
  rw [testBit_number,testBit_number]
  by_cases hi : i/8=byte
  · rw [if_pos hi,hi,List.getD_eq_getElem?_getD,List.getElem?_set_self hb,Option.getD_some]
  · rw [if_neg hi]
    simp only [List.getD_eq_getElem?_getD,List.getElem?_set_ne (Ne.symm hi)]

theorem assign_ok {packed : List UInt8} {i : ℕ} (hi : i<packed.length) (value : UInt8) :
    assign packed i value=.ok (packed.set i value) := if_pos hi

/-- A field inside the bytes is set in the number. -/
theorem packCode_ok {packed : List UInt8} {offsetBits bits value : ℕ} (hb : 0<bits) (hb8 : bits≤8)
    (hl : offsetBits+bits≤8*packed.length) (hv : value<2^bits) :
    ∃ result,packCode packed offsetBits bits value=.ok result ∧
      result.length=packed.length ∧ number result=number packed|||value<<<offsetBits := by
  have hlow : element packed (offsetBits/8)=.ok (packed.getD (offsetBits/8) 0) :=
    element_getD (by omega)
  have hbyte : offsetBits/8<packed.length := by omega
  have hbit : ∀ j,bits≤j → value.testBit j=false := fun j hj =>
    Nat.testBit_lt_two_pow (Nat.lt_of_lt_of_le hv (Nat.pow_le_pow_right (by omega) hj))
  have hword : ∀ (number : ℕ) j,j<8 → (UInt8.ofNat number).toNat.testBit j=number.testBit j :=
    fun number j hj => by
      rw [UInt8.toNat_ofNat',Nat.testBit_mod_two_pow]
      simp [hj]
  have hfirst : ∀ i,(number (packed.set (offsetBits/8) (packed.getD (offsetBits/8) 0|||
      UInt8.ofNat (value<<<(offsetBits%8))))).testBit i=((number packed).testBit i ||
        (decide (i/8=offsetBits/8) && (value<<<offsetBits).testBit i)) := fun i => by
    rw [testBit_number_set hbyte]
    by_cases hi : i/8=offsetBits/8
    · have hge : (i%8≥offsetBits%8)=(i≥offsetBits) := by
        rw [eq_iff_iff]
        omega
      rw [if_pos hi,UInt8.toNat_or,Nat.testBit_or,hword _ _ (Nat.mod_lt _ (by omega)),
        testBit_number,hi,Nat.testBit_shiftLeft,Nat.testBit_shiftLeft,
        show i-offsetBits=i%8-offsetBits%8 by omega]
      simp only [hge,decide_true,Bool.true_and]
    · simp [hi]
  by_cases hs : offsetBits%8+bits>8
  · have hbyte1 : offsetBits/8+1<(packed.set (offsetBits/8) (packed.getD (offsetBits/8) 0|||
        UInt8.ofNat (value<<<(offsetBits%8)))).length := by
      rw [List.length_set]
      omega
    have hp : packCode packed offsetBits bits value=.ok ((packed.set (offsetBits/8)
        (packed.getD (offsetBits/8) 0|||UInt8.ofNat (value<<<(offsetBits%8)))).set (offsetBits/8+1)
        ((packed.set (offsetBits/8) (packed.getD (offsetBits/8) 0|||
          UInt8.ofNat (value<<<(offsetBits%8)))).getD (offsetBits/8+1) 0|||
          UInt8.ofNat (value>>>(8-offsetBits%8)))) := by
      simp only [packCode,hlow,if_pos hs,bind,Except.bind,assign_ok hbyte,element_getD hbyte1,
        assign_ok hbyte1]
    refine ⟨_,hp,by rw [List.length_set,List.length_set],Nat.eq_of_testBit_eq (fun i => ?_)⟩
    rw [testBit_number_set hbyte1,Nat.testBit_or]
    by_cases hi : i/8=offsetBits/8+1
    · rw [if_pos hi,UInt8.toNat_or,Nat.testBit_or,hword _ _ (Nat.mod_lt _ (by omega)),←hi,
        ←testBit_number,hfirst,Nat.testBit_shiftRight,Nat.testBit_shiftLeft,
        show 8-offsetBits%8+i%8=i-offsetBits by omega]
      have hne : i/8≠offsetBits/8 := by omega
      have hge : i≥offsetBits := by omega
      simp [hne,hge]
    · rw [if_neg hi,hfirst,Nat.testBit_shiftLeft]
      by_cases he : i/8=offsetBits/8
      · simp [he]
      · by_cases hge : i≥offsetBits
        · simp [he,hge,hbit (i-offsetBits) (by omega)]
        · simp [hge]
  · have hp : packCode packed offsetBits bits value=.ok (packed.set (offsetBits/8)
        (packed.getD (offsetBits/8) 0|||UInt8.ofNat (value<<<(offsetBits%8)))) := by
      simp only [packCode,hlow,if_neg hs,bind,Except.bind,assign_ok hbyte,pure,Except.pure]
    refine ⟨_,hp,by rw [List.length_set],Nat.eq_of_testBit_eq (fun i => ?_)⟩
    rw [hfirst,Nat.testBit_or,Nat.testBit_shiftLeft]
    by_cases he : i/8=offsetBits/8
    · simp [he]
    · by_cases hge : i≥offsetBits
      · simp [he,hge,hbit (i-offsetBits) (by omega)]
      · simp [hge]

/-- `unpack_code` on a span that begins at a byte of a longer array. Only the
ends of the array are checked. -/
def unpackCodeIn (codes : List UInt8) (start offsetBits bits : ℕ) : Except Fault ℕ := do
  let byte := offsetBits/8
  let shift := offsetBits%8
  let low ← element codes (start+byte)
  let value := low.toNat>>>shift
  let value ← if shift+bits>8 then do
      let high ← element codes (start+(byte+1))
      pure (value|||high.toNat<<<(8-shift))
    else pure value
  return value&&&(2^bits-1)

/-- `pack_code` on a span that begins at a byte of a longer array. Only the
ends of the array are checked. -/
def packCodeIn (codes : List UInt8) (start offsetBits bits value : ℕ) :
    Except Fault (List UInt8) := do
  let byte := offsetBits/8
  let shift := offsetBits%8
  let low ← element codes (start+byte)
  let codes ← assign codes (start+byte) (low|||UInt8.ofNat (value<<<shift))
  if shift+bits>8 then do
    let high ← element codes (start+(byte+1))
    assign codes (start+(byte+1)) (high|||UInt8.ofNat (value>>>(8-shift)))
  else return codes

variable {front row back : List UInt8} {offsetBits bits value : ℕ}

/-- A byte of a span. -/
theorem element_span {i : ℕ} (hi : i< row.length) :
    element (front++row++back) (front.length+i)=element row i := by
  have hfind : (front++row++back)[front.length+i]?=row[i]? := by
    rw [List.append_assoc,List.getElem?_append_right (Nat.le_add_right _ _),Nat.add_sub_cancel_left,
      List.getElem?_append_left hi]
  rw [element,element,hfind]

/-- Writing a byte of a span. -/
theorem assign_span {i : ℕ} (hi : i< row.length) (value : UInt8) :
    assign (front++row++back) (front.length+i) value=.ok (front++row.set i value++back) := by
  have hlt : front.length+i<(front++row++back).length := by
    rw [List.length_append,List.length_append]
    omega
  rw [assign_ok hlt,List.append_assoc,List.set_append_right _ _ (Nat.le_add_right _ _),
    Nat.add_sub_cancel_left,List.set_append_left _ _ hi,List.append_assoc]

/-- A field inside a span is read from its bytes. -/
theorem unpackCodeIn_eq (hb : 0<bits) (hl : offsetBits+bits≤8*row.length) :
    unpackCodeIn (front++row++back) front.length offsetBits bits=unpackCode row offsetBits bits := by
  have hlow : offsetBits/8< row.length := by omega
  by_cases hs : offsetBits%8+bits>8
  · have hhigh : offsetBits/8+1< row.length := by omega
    simp only [unpackCodeIn,unpackCode,element_span hlow,if_pos hs,element_span hhigh]
  · simp only [unpackCodeIn,unpackCode,element_span hlow,if_neg hs]

/-- A field inside a span is set in its bytes, and the other bytes stay. -/
theorem packCodeIn_eq (hb : 0<bits) (hl : offsetBits+bits≤8*row.length) {after : List UInt8}
    (h : packCode row offsetBits bits value=.ok after) :
    packCodeIn (front++row++back) front.length offsetBits bits value=.ok (front++after++back) := by
  have hlow : offsetBits/8< row.length := by omega
  by_cases hs : offsetBits%8+bits>8
  · have hhigh : offsetBits/8+1<(row.set (offsetBits/8) (row.getD (offsetBits/8) 0|||
        UInt8.ofNat (value<<<(offsetBits%8)))).length := by
      rw [List.length_set]
      omega
    simp only [packCode,element_getD hlow,if_pos hs,bind,Except.bind,assign_ok hlow,
      element_getD hhigh,assign_ok hhigh,Except.ok.injEq] at h
    simp only [packCodeIn,element_span hlow,element_getD hlow,if_pos hs,bind,Except.bind,
      assign_span hlow,element_span hhigh,element_getD hhigh,assign_span hhigh,h]
  · simp only [packCode,element_getD hlow,if_neg hs,bind,Except.bind,assign_ok hlow,pure,Except.pure,
      Except.ok.injEq] at h
    simp only [packCodeIn,element_span hlow,element_getD hlow,if_neg hs,bind,Except.bind,
      assign_span hlow,pure,Except.pure,h]

/-- The other fields of the bytes stay when a field is set. -/
theorem packCode_other (hb : 0<bits) (hb8 : bits≤8) (hl : offsetBits+bits≤8*row.length)
    (hv : value<2^bits) {after : List UInt8} (h : packCode row offsetBits bits value=.ok after)
    {other : ℕ} (ho : other+bits≤8*row.length) (hd : other+bits≤offsetBits ∨ offsetBits+bits≤other) :
    unpackCode after other bits=unpackCode row other bits := by
  obtain ⟨result,hresult,hlength,hnumber⟩ := packCode_ok hb hb8 hl hv
  rw [h,Except.ok.injEq] at hresult
  rw [hresult,unpackCode_ok hb hb8 (hlength.symm ▸ ho),unpackCode_ok hb hb8 ho,hnumber]
  congr 1
  refine Nat.eq_of_testBit_eq (fun j => ?_)
  rw [Nat.testBit_mod_two_pow,Nat.testBit_mod_two_pow,Nat.testBit_shiftRight,Nat.testBit_shiftRight,
    Nat.testBit_or,Nat.testBit_shiftLeft]
  by_cases hj : j<bits
  · by_cases hge : other+j≥offsetBits
    · have hfar : bits≤other+j-offsetBits := by omega
      have hzero : value.testBit (other+j-offsetBits)=false :=
        Nat.testBit_lt_two_pow (Nat.lt_of_lt_of_le hv (Nat.pow_le_pow_right (by omega) hfar))
      rw [hzero,Bool.and_false,Bool.or_false]
    · simp [hge]
  · simp [hj]

end Leann.PackedBits
