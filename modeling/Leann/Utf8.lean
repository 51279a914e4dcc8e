import Leann.StructuredOutput

/-!
# Well-formed UTF-8

The check reads a text sequence by sequence, through indices that never leave
it. It accepts exactly the texts that encode Unicode scalar values, and such
a text encodes only one sequence of them.
-/

namespace Leann.Utf8

open Exceptions Outcomes StructuredOutput

/-! ### The loop as it reads -/

/-- The inner loop: the bytes behind the first of a sequence. -/
def readContinuation (value : Text) (index : ℕ) (codePoint : ℕ) : ℕ → ℕ → Except Fault (Option ℕ)
  | _,0 => .ok (some codePoint)
  | offset,left+1 => do
    let continuation ← element value (index+offset)
    if continuation &&& 0xc0≠0x80 then return none
    readContinuation value index (codePoint<<<6 ||| (continuation &&& 0x3f).toNat) (offset+1) left

/-- The outer loop of `is_valid_utf8`, from an index on. -/
def scan (value : Text) (index : ℕ) : Except Fault Bool :=
  if _ : index<value.length then do
    let lead ← element value index
    let length := utf8SequenceLength lead
    if _ : length=0 ∨ index+length>value.length then return false
    else
      match ← readContinuation value index (leadBits length lead) 1 (length-1) with
      | none => return false
      | some codePoint =>
        if codePoint<sequenceMinimum length ∨ 0x10ffff<codePoint ∨
            0xd800≤ codePoint ∧ codePoint≤0xdfff then return false
        else scan value (index+length)
  else return true
termination_by value.length-index
decreasing_by omega

/-- The inner loop reads what the text holds there. -/
theorem readContinuation_eq {value : Text} {index left : ℕ} (codePoint offset : ℕ)
    (hfits : index+offset+left≤value.length) :
    readContinuation value index codePoint offset left=
      .ok (continueSequence codePoint ((value.drop (index+offset)).take left)) := by
  induction left generalizing codePoint offset with
  | zero => simp [readContinuation,continueSequence]
  | succ left ih =>
    have hindex : index+offset<value.length := by omega
    have hread : element value (index+offset)=.ok value[index+offset] :=
      (element_ok _ _ _).mpr (List.getElem?_eq_getElem hindex)
    rw [List.drop_eq_getElem_cons hindex,List.take_succ_cons,readContinuation,hread,continueSequence]
    by_cases hbyte : value[index+offset] &&& 0xc0≠0x80
    · simp only [bind,Except.bind,if_pos hbyte]
      rfl
    · simp only [bind,Except.bind,if_neg hbyte]
      exact ih _ (offset+1) (by omega)

/-- The loop ends, stays within the text and answers what the check says of the
rest of it. -/
theorem scan_eq (value : Text) (index : ℕ) :
    scan value index=.ok (isValidUtf8 (value.drop index)) := by
  induction hleft : value.length-index using Nat.strongRecOn generalizing index with
  | ind left ih =>
    rw [scan]
    by_cases hindex : index<value.length
    · have hread : element value index=.ok value[index] :=
        (element_ok _ _ _).mpr (List.getElem?_eq_getElem hindex)
      rw [dif_pos hindex,hread,List.drop_eq_getElem_cons hindex,isValidUtf8]
      simp only [bind,Except.bind]
      have hcheck : (utf8SequenceLength value[index]=0 ∨
          (value.drop (index+1)).length+1<utf8SequenceLength value[index]) ↔
          (utf8SequenceLength value[index]=0 ∨
            index+utf8SequenceLength value[index]>value.length) := by
        rw [List.length_drop]
        omega
      by_cases hlength : utf8SequenceLength value[index]=0 ∨
          index+utf8SequenceLength value[index]>value.length
      · rw [dif_pos hlength,if_pos (hcheck.mpr hlength)]
        rfl
      · have hsize : 0<utf8SequenceLength value[index] ∧
            index+utf8SequenceLength value[index]≤value.length := by omega
        rw [dif_neg hlength,if_neg (mt hcheck.mp hlength),readContinuation_eq _ 1 (by omega)]
        simp only [isValidSequence]
        cases continueSequence (leadBits (utf8SequenceLength value[index]) value[index])
            ((value.drop (index+1)).take (utf8SequenceLength value[index]-1)) with
        | none => rfl
        | some codePoint =>
          simp only
          split
          · next hrange => simp [pure,Except.pure,hrange]
          · next hrange =>
            rw [ih _ (by omega) _ rfl,List.drop_drop]
            have hnext : index+1+(utf8SequenceLength value[index]-1)=
                index+utf8SequenceLength value[index] := by omega
            rw [hnext]
            simp [hrange]
    · rw [dif_neg hindex,List.drop_eq_nil_of_le (by omega),isValidUtf8]
      rfl

/-! ### Sequences and scalar values -/

/-- The text of a sequence of Unicode scalar values. -/
def encode (points : List Char) : Text := points.flatMap String.utf8EncodeChar

/-- What holds of the 256 bytes holds of every byte. -/
theorem forall_byte {property : UInt8 → Prop}
    (h : ∀ value<256,property (UInt8.ofNat value)) (byte : UInt8) : property byte := by
  have hbyte := h byte.toNat byte.toNat_lt
  rwa [UInt8.ofNat_toNat] at hbyte

/-- The class of the first byte of a sequence, with its share of the code point. -/
theorem lead_cases (lead : UInt8) :
    (utf8SequenceLength lead=0 ∧ (0x80≤lead.toNat ∧ lead.toNat<0xc0 ∨ 0xf8≤lead.toNat)) ∨
    (utf8SequenceLength lead=1 ∧ lead.toNat<0x80 ∧ leadBits 1 lead=lead.toNat) ∨
    (utf8SequenceLength lead=2 ∧ 0xc0≤lead.toNat ∧ lead.toNat<0xe0 ∧
      leadBits 2 lead=lead.toNat-0xc0) ∨
    (utf8SequenceLength lead=3 ∧ 0xe0≤lead.toNat ∧ lead.toNat<0xf0 ∧
      leadBits 3 lead=lead.toNat-0xe0) ∨
    (utf8SequenceLength lead=4 ∧ 0xf0≤lead.toNat ∧ lead.toNat<0xf8 ∧
      leadBits 4 lead=lead.toNat-0xf0) := by
  revert lead
  apply forall_byte
  decide +kernel

/-- The bytes behind the first, with their share of the code point. -/
theorem continuation_cases (byte : UInt8) :
    (byte &&& 0xc0≠0x80 ∧ ¬(0x80≤byte.toNat ∧ byte.toNat<0xc0)) ∨
    (byte &&& 0xc0=0x80 ∧ 0x80≤byte.toNat ∧ byte.toNat<0xc0 ∧
      (byte &&& 0x3f).toNat=byte.toNat-0x80) := by
  revert byte
  apply forall_byte
  decide +kernel

/-- One more byte of a sequence. -/
theorem continueSequence_cons (codePoint : ℕ) (byte : UInt8) (rest : Text) :
    continueSequence codePoint (byte::rest)=
      if 0x80≤byte.toNat ∧ byte.toNat<0xc0 then
        continueSequence (codePoint*64+(byte.toNat-0x80)) rest
      else none := by
  rw [continueSequence]
  rcases continuation_cases byte with ⟨hbyte,hrange⟩ | ⟨hbyte,hlow,hhigh,hshare⟩
  · rw [if_pos hbyte,if_neg hrange]
  · have hshift : codePoint<<<6 ||| (byte.toNat-0x80)=codePoint*64+(byte.toNat-0x80) := by
      rw [← Nat.shiftLeft_add_eq_or_of_lt (by omega),Nat.shiftLeft_eq]
    rw [if_neg (not_not_intro hbyte),if_pos ⟨hlow,hhigh⟩,hshare,hshift]

theorem continueSequence_nil (codePoint : ℕ) : continueSequence codePoint []=some codePoint := rfl

/-- A byte is the number it was made of. -/
theorem byte_eq (byte : UInt8) {value : ℕ} (h : byte.toNat=value) : UInt8.ofNat value=byte := by
  rw [← h,UInt8.ofNat_toNat]

/-- The scalar value of a checked code point. -/
theorem exists_char {codePoint : ℕ} (hlimit : codePoint≤0x10ffff)
    (hsurrogate : ¬(0xd800≤ codePoint ∧ codePoint≤0xdfff)) :
    ∃ point : Char,point.val.toNat=codePoint := by
  have hvalid : codePoint.isValidChar := by
    unfold Nat.isValidChar
    omega
  exact ⟨⟨UInt32.ofNatLT codePoint (Char.isValidUInt32 codePoint hvalid),
    Char.isValidChar_of_isValidCharNat codePoint hvalid⟩,UInt32.toNat_ofNatLT⟩

/-- A checked sequence encodes a scalar value. -/
theorem exists_of_isValidSequence {lead : UInt8} {continuation : Text}
    (hlength : continuation.length+1=utf8SequenceLength lead)
    (hvalid : isValidSequence (utf8SequenceLength lead) lead continuation=true) :
    ∃ point : Char,String.utf8EncodeChar point=lead::continuation := by
  unfold isValidSequence at hvalid
  split at hvalid
  · cases hvalid
  · next codePoint hread =>
    obtain ⟨hminimum,hlimit,hsurrogate⟩ : sequenceMinimum (utf8SequenceLength lead)≤ codePoint ∧
        codePoint≤0x10ffff ∧ ¬(0xd800≤ codePoint ∧ codePoint≤0xdfff) := by
      simp only [decide_eq_true_eq] at hvalid
      omega
    obtain ⟨point,hpoint⟩ := exists_char hlimit hsurrogate
    refine ⟨point,?_⟩
    rcases lead_cases lead with ⟨hl,_⟩ | ⟨hl,hlow,hb⟩ | ⟨hl,hlow,hhigh,hb⟩ | ⟨hl,hlow,hhigh,hb⟩ |
      ⟨hl,hlow,hhigh,hb⟩
    · omega
    · rw [hl] at hlength hread
      obtain rfl := List.length_eq_zero_iff.mp (Nat.succ.inj hlength)
      simp only [continueSequence_nil,hb,Option.some.injEq] at hread
      rw [String.utf8EncodeChar,hpoint,if_pos (by omega),byte_eq lead hread]
    · rw [hl] at hlength hread hminimum
      obtain ⟨first,rfl⟩ := List.length_eq_one_iff.mp (Nat.succ.inj hlength)
      simp only [continueSequence_cons,continueSequence_nil,hb,Option.ite_none_right_eq_some,
        Option.some.injEq,sequenceMinimum] at hread hminimum
      rw [String.utf8EncodeChar,hpoint,if_neg (by omega),if_pos (by omega),
        byte_eq lead (by omega),byte_eq first (by omega)]
    · rw [hl] at hlength hread hminimum
      obtain ⟨first,second,rfl⟩ := List.length_eq_two.mp (Nat.succ.inj hlength)
      simp only [continueSequence_cons,continueSequence_nil,hb,Option.ite_none_right_eq_some,
        Option.some.injEq,sequenceMinimum] at hread hminimum
      rw [String.utf8EncodeChar,hpoint,if_neg (by omega),if_neg (by omega),if_pos (by omega),
        byte_eq lead (by omega),byte_eq first (by omega),
        byte_eq second (by omega)]
    · rw [hl] at hlength hread hminimum
      obtain ⟨first,second,third,rfl⟩ := List.length_eq_three.mp (Nat.succ.inj hlength)
      simp only [continueSequence_cons,continueSequence_nil,hb,Option.ite_none_right_eq_some,
        Option.some.injEq,sequenceMinimum] at hread hminimum
      rw [String.utf8EncodeChar,hpoint,if_neg (by omega),if_neg (by omega),if_neg (by omega),
        byte_eq lead (by omega),byte_eq first (by omega),
        byte_eq second (by omega),byte_eq third (by omega)]

/-- A sequence that passes every check is a valid text. -/
theorem isValidUtf8_sequence {lead : UInt8} {continuation : Text} {codePoint : ℕ}
    (hlength : continuation.length+1=utf8SequenceLength lead)
    (hread : continueSequence (leadBits (utf8SequenceLength lead) lead) continuation=some codePoint)
    (hminimum : sequenceMinimum (utf8SequenceLength lead)≤ codePoint) (hlimit : codePoint≤0x10ffff)
    (hsurrogate : ¬(0xd800≤ codePoint ∧ codePoint≤0xdfff)) :
    isValidUtf8 (lead::continuation)=true := by
  have hall : utf8SequenceLength lead-1=continuation.length := by omega
  rw [isValidUtf8,if_neg (by omega),hall,List.take_length,List.drop_length,isValidSequence,hread,
    isValidUtf8]
  simp only [Bool.and_true,decide_eq_true_eq]
  omega

/-- Every encoded scalar value is a valid text. -/
theorem isValidUtf8_encodeChar (point : Char) : isValidUtf8 (String.utf8EncodeChar point)=true := by
  have hvalid : point.val.toNat<0xd800 ∨ 0xdfff<point.val.toNat ∧ point.val.toNat<0x110000 :=
    point.valid
  generalize hvalue : point.val.toNat=value at hvalid
  have hbyte (number : ℕ) (h : number<256) : (UInt8.ofNat number).toNat=number :=
    UInt8.toNat_ofNat_of_lt' h
  rw [String.utf8EncodeChar,hvalue]
  split
  · have hlead := hbyte value (by omega)
    have hclass := lead_cases (UInt8.ofNat value)
    obtain ⟨hl,hb⟩ : utf8SequenceLength (UInt8.ofNat value)=1 ∧
        leadBits 1 (UInt8.ofNat value)=value := by omega
    have hread : continueSequence (leadBits 1 (UInt8.ofNat value)) []=some value := by
      rw [hb,continueSequence_nil]
    exact isValidUtf8_sequence hl.symm (hl▸hread) (hl▸Nat.zero_le _) (by omega) (by omega)
  · split
    · have hlead := hbyte (value/64%32+0xc0) (by omega)
      have hfirst := hbyte (value%64+0x80) (by omega)
      have hclass := lead_cases (UInt8.ofNat (value/64%32+0xc0))
      obtain ⟨hl,hb⟩ : utf8SequenceLength (UInt8.ofNat (value/64%32+0xc0))=2 ∧
          leadBits 2 (UInt8.ofNat (value/64%32+0xc0))=value/64 := by omega
      have hread : continueSequence (leadBits 2 (UInt8.ofNat (value/64%32+0xc0)))
          [UInt8.ofNat (value%64+0x80)]=some value := by
        rw [hb,continueSequence_cons,hfirst,if_pos (by omega),continueSequence_nil,Option.some.injEq]
        omega
      have hminimum : sequenceMinimum 2≤value := by
        change 0x80≤value
        omega
      exact isValidUtf8_sequence hl.symm (hl▸hread) (hl▸hminimum) (by omega) (by omega)
    · split
      · have hlead := hbyte (value/4096%16+0xe0) (by omega)
        have hfirst := hbyte (value/64%64+0x80) (by omega)
        have hsecond := hbyte (value%64+0x80) (by omega)
        have hclass := lead_cases (UInt8.ofNat (value/4096%16+0xe0))
        obtain ⟨hl,hb⟩ : utf8SequenceLength (UInt8.ofNat (value/4096%16+0xe0))=3 ∧
            leadBits 3 (UInt8.ofNat (value/4096%16+0xe0))=value/4096 := by omega
        have hread : continueSequence (leadBits 3 (UInt8.ofNat (value/4096%16+0xe0)))
            [UInt8.ofNat (value/64%64+0x80),UInt8.ofNat (value%64+0x80)]=some value := by
          rw [hb,continueSequence_cons,hfirst,if_pos (by omega),continueSequence_cons,hsecond,
            if_pos (by omega),continueSequence_nil,Option.some.injEq]
          omega
        have hminimum : sequenceMinimum 3≤value := by
          change 0x800≤value
          omega
        exact isValidUtf8_sequence hl.symm (hl▸hread) (hl▸hminimum) (by omega) (by omega)
      · have hlead := hbyte (value/262144%8+0xf0) (by omega)
        have hfirst := hbyte (value/4096%64+0x80) (by omega)
        have hsecond := hbyte (value/64%64+0x80) (by omega)
        have hthird := hbyte (value%64+0x80) (by omega)
        have hclass := lead_cases (UInt8.ofNat (value/262144%8+0xf0))
        obtain ⟨hl,hb⟩ : utf8SequenceLength (UInt8.ofNat (value/262144%8+0xf0))=4 ∧
            leadBits 4 (UInt8.ofNat (value/262144%8+0xf0))=value/262144 := by omega
        have hread : continueSequence (leadBits 4 (UInt8.ofNat (value/262144%8+0xf0)))
            [UInt8.ofNat (value/4096%64+0x80),UInt8.ofNat (value/64%64+0x80),
              UInt8.ofNat (value%64+0x80)]=some value := by
          rw [hb,continueSequence_cons,hfirst,if_pos (by omega),continueSequence_cons,hsecond,
            if_pos (by omega),continueSequence_cons,hthird,if_pos (by omega),continueSequence_nil,Option.some.injEq]
          omega
        have hminimum : sequenceMinimum 4≤value := by
          change 0x10000≤value
          omega
        exact isValidUtf8_sequence hl.symm (hl▸hread) (hl▸hminimum) (by omega) (by omega)

/-- A text is valid exactly when it encodes scalar values. -/
theorem isValidUtf8_iff (value : Text) : isValidUtf8 value=true ↔ ∃ points,encode points=value := by
  constructor
  · intro h
    induction value using isValidUtf8.induct with
    | case1 => exact ⟨[],rfl⟩
    | case2 lead rest length hlength =>
      rw [isValidUtf8,if_pos hlength] at h
      cases h
    | case3 lead rest length hlength ih =>
      rw [isValidUtf8,if_neg hlength,Bool.and_eq_true] at h
      have hsize : 0<length ∧ length≤ rest.length+1 := by omega
      have htake : (rest.take (length-1)).length+1=utf8SequenceLength lead := by
        change _=length
        rw [List.length_take]
        omega
      obtain ⟨point,hpoint⟩ := exists_of_isValidSequence htake h.1
      obtain ⟨points,hpoints⟩ := ih h.2
      refine ⟨point::points,?_⟩
      rw [encode,List.flatMap_cons,hpoint,List.cons_append]
      rw [encode] at hpoints
      rw [hpoints,List.take_append_drop]
  · rintro ⟨points,rfl⟩
    induction points with
    | nil => rw [encode,List.flatMap_nil,isValidUtf8]
    | cons point points ih =>
      rw [encode,List.flatMap_cons,isValidUtf8_append (isValidUtf8_encodeChar point)]
      exact ih

/-- A text encodes one sequence of scalar values at most. -/
theorem encode_injective : Function.Injective encode := by
  intro first second h
  have hbytes : List.utf8Encode first=List.utf8Encode second := congrArg List.toByteArray h
  have hdecoded := congrArg ByteArray.utf8Decode? hbytes
  rw [List.utf8Decode?_utf8Encode,List.utf8Decode?_utf8Encode,Option.some.injEq] at hdecoded
  simpa using congrArg Array.toList hdecoded

/-- The check ends without leaving the text, and it accepts exactly the texts
that encode a sequence of Unicode scalar values, of which there is then one. -/
theorem scan_wellFormed (value : Text) :
    ∃ answer,scan value 0=.ok answer ∧
      (answer=true ↔ ∃ points,encode points=value) ∧
      ∀ first second,encode first=value → encode second=value → first=second := by
  refine ⟨isValidUtf8 value,?_,isValidUtf8_iff value,fun first second hfirst hsecond => ?_⟩
  · rw [scan_eq,List.drop_zero]
  · exact encode_injective (hfirst.trans hsecond.symm)

/-- An overlong form, a surrogate half, a value above the last one, a stray and
a truncated byte are all refused, and their neighbours are not. -/
example : scan [0xc0,0x80] 0=.ok false ∧ scan [0xed,0xa0,0x80] 0=.ok false ∧
    scan [0xf4,0x90,0x80,0x80] 0=.ok false ∧ scan [0x80] 0=.ok false ∧
    scan [0xe2,0x82] 0=.ok false ∧ scan [0xf4,0x8f,0xbf,0xbf,0xed,0x9f,0xbf] 0=.ok true := by
  decide +kernel

end Leann.Utf8
