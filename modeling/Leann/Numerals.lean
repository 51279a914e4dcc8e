import Leann.Lines
import Leann.LockOwner
import Mathlib.Data.List.TakeWhile
import Mathlib.Data.Rat.Cast.Order
import Mathlib.Tactic.FieldSimp
import Mathlib.Tactic.Linarith
import Mathlib.Tactic.Ring

/-!
# Decimal numerals

A decimal numeral has an optional minus, digits with an optional point
between them, and an optional exponent. A text spells at most one numeral,
and a numeral denotes one rational number.
-/

namespace Leann.Numerals

open Exceptions Lines LockOwner

section DecimalDigits

/-- A string of decimal digits. -/
abbrev Digits := {digits : Text // ∀ byte∈digits,IsDigit byte}

/-- No digits. -/
def noDigits : Digits := ⟨[],fun _ hb => (List.not_mem_nil hb).elim⟩

/-- The digits in front of a text and what follows them. -/
def splitDigits (text : Text) : Digits×Text :=
  (⟨text.takeWhile (fun byte => decide (IsDigit byte)),fun _ hb =>
      of_decide_eq_true (List.mem_takeWhile_imp (p := fun byte => decide (IsDigit byte)) hb)⟩,
    text.dropWhile (fun byte => decide (IsDigit byte)))

/-- The two parts are the text. -/
theorem splitDigits_append (text : Text) : (splitDigits text).1.val++(splitDigits text).2=text :=
  List.takeWhile_append_dropWhile (p := fun byte => decide (IsDigit byte)) (l := text)

/-- What follows the digits begins with none. -/
theorem splitDigits_head (text : Text) : ∀ byte∈(splitDigits text).2.head?,¬IsDigit byte := by
  intro byte hb
  have hnot := List.head?_dropWhile_not (fun byte => decide (IsDigit byte)) text
  have hfound : (text.dropWhile (fun byte => decide (IsDigit byte))).head?=some byte := hb
  rw [hfound] at hnot
  exact of_decide_eq_false hnot

/-- Digits in front of no other digit are the ones in front. -/
theorem splitDigits_eq (digits : Digits) {rest : Text} (h : ∀ byte∈rest.head?,¬IsDigit byte) :
    splitDigits (digits.val++rest)=(digits,rest) := by
  have hdigits : ∀ byte∈digits.val,decide (IsDigit byte)=true :=
    fun byte hb => decide_eq_true (digits.property byte hb)
  have hrest : rest.takeWhile (fun byte => decide (IsDigit byte))=[] := by
    cases rest with
    | nil => rfl
    | cons byte rest => exact List.takeWhile_cons_of_neg (by simpa using h byte rfl)
  have hdrop : rest.dropWhile (fun byte => decide (IsDigit byte))=rest := by
    cases rest with
    | nil => rfl
    | cons byte rest => exact List.dropWhile_cons_of_neg (by simpa using h byte rfl)
  have hfront : (digits.val++rest).takeWhile (fun byte => decide (IsDigit byte))=digits.val := by
    rw [List.takeWhile_append_of_pos hdigits,hrest,List.append_nil]
  have hback : (digits.val++rest).dropWhile (fun byte => decide (IsDigit byte))=rest := by
    rw [List.dropWhile_append_of_pos hdigits,hdrop]
  exact Prod.ext (Subtype.ext hfront) hback

/-- A digit shifts the number in front of it. -/
theorem decimalValue_concat (digits : Text) (byte : UInt8) :
    decimalValue (digits++[byte])=decimalValue digits*10+(byte.toNat-48) := by
  rw [decimalValue,List.foldl_append]
  rfl

/-- More digits shift the number in front of them. -/
theorem decimalValue_append (digits others : Text) :
    decimalValue (digits++others)=decimalValue digits*10^others.length+decimalValue others := by
  induction others using List.reverseRecOn with
  | nil => simp [decimalValue]
  | append_singleton others byte ih =>
    rw [←List.append_assoc,decimalValue_concat,ih,decimalValue_concat,List.length_append,
      List.length_singleton,pow_succ]
    ring

/-- A digit is less than ten. -/
theorem digit_lt {byte : UInt8} (h : IsDigit byte) : byte.toNat-48<10 := by
  have hhigh : byte.toNat≤57 := h.2
  omega

/-- Digits write a number below the power of ten of their count. -/
theorem decimalValue_lt (digits : Digits) : decimalValue digits.val<10^digits.val.length := by
  obtain ⟨digits,h⟩ := digits
  dsimp only
  induction digits using List.reverseRecOn with
  | nil => exact Nat.one_pos
  | append_singleton digits byte ih =>
    have hbyte := digit_lt (h byte (List.mem_append_right _ (List.mem_singleton.mpr rfl)))
    have hdigits := ih (fun other ho => h other (List.mem_append_left _ ho))
    rw [decimalValue_concat,List.length_append,List.length_singleton,pow_succ]
    omega

/-- Digits write zero when all of them are zeros. -/
theorem decimalValue_eq_zero (digits : Digits) :
    decimalValue digits.val=0 ↔ ∀ byte∈digits.val,byte=48 := by
  obtain ⟨digits,h⟩ := digits
  dsimp only
  induction digits using List.reverseRecOn with
  | nil => exact ⟨fun _ _ hb => (List.not_mem_nil hb).elim,fun _ => rfl⟩
  | append_singleton digits byte ih =>
    have hbyte := h byte (List.mem_append_right _ (List.mem_singleton.mpr rfl))
    have hlow : 48≤byte.toNat := hbyte.1
    have hdigits := ih (fun other ho => h other (List.mem_append_left _ ho))
    have hzero : byte.toNat-48=0 ↔ byte=48 := by
      rw [←UInt8.toNat_inj]
      change _ ↔ byte.toNat=48
      omega
    simp only [decimalValue_concat,List.mem_append,List.mem_singleton,or_imp,forall_and,forall_eq]
    rw [←hdigits,←hzero]
    omega

/-- The characters of a number are digits. -/
theorem toDigits_range {value : ℕ} {character : Char} (h : character∈Nat.toDigits 10 value) :
    48≤ character.toNat ∧ character.toNat≤57 := by
  have hd := Nat.isDigit_of_mem_toDigits (by decide) (by decide) h
  rw [Char.isDigit_iff_toNat] at hd
  exact hd

/-- `std::to_string` writes the decimal digits of a number. -/
theorem toText_eq (value : ℕ) :
    toText value=(Nat.toDigits 10 value).map (fun character => UInt8.ofNat character.toNat) := by
  have hencode : toText value=(Nat.toDigits 10 value).flatMap String.utf8EncodeChar := by
    have hbytes : (String.ofList (Nat.toDigits 10 value)).toUTF8=
        (Nat.toDigits 10 value).utf8Encode := by simp [String.toUTF8]
    rw [toText,text,Nat.toString_eq_repr,Nat.repr_eq_ofList_toDigits,hbytes,List.utf8Encode,
      List.data_toByteArray]
  rw [hencode,List.map_eq_flatMap]
  refine List.flatMap_congr (fun character hc => ?_)
  have hd := toDigits_range hc
  have hle : character.val.toNat≤0x7f := by
    change character.toNat≤127
    omega
  unfold String.utf8EncodeChar
  dsimp only
  rw [if_pos hle]
  rfl

/-- A character of a written number is a digit. -/
theorem toText_digit (value : ℕ) : ∀ byte∈toText value,IsDigit byte := by
  rw [toText_eq]
  intro byte hb
  obtain ⟨character,hc,rfl⟩ := List.mem_map.mp hb
  have hd := toDigits_range hc
  have hbyte : (UInt8.ofNat character.toNat).toNat=character.toNat := by
    rw [UInt8.toNat_ofNat']
    exact Nat.mod_eq_of_lt (by omega)
  rw [IsDigit,UInt8.le_iff_toNat_le,UInt8.le_iff_toNat_le,hbyte]
  exact hd

/-- A written number has a digit. -/
theorem toText_ne_nil (value : ℕ) : toText value≠[] := by
  rw [toText_eq,←List.length_pos_iff,List.length_map]
  exact Nat.length_toDigits_pos

/-- The digits written for a number write it. -/
theorem decimalValue_toText (value : ℕ) : decimalValue (toText value)=value := by
  have hfold : ∀ (characters : List Char) (start : ℕ),
      (∀ character∈characters,character.toNat<256) →
      (characters.map (fun character => UInt8.ofNat character.toNat)).foldl
        (fun found byte => found*10+(byte.toNat-48)) start=Nat.ofDigitChars 10 characters start := by
    intro characters
    induction characters with
    | nil => exact fun start _ => Nat.ofDigitChars_nil.symm
    | cons character characters ih =>
      intro start h
      rw [List.forall_mem_cons] at h
      have hbyte : (UInt8.ofNat character.toNat).toNat=character.toNat := by
        rw [UInt8.toNat_ofNat']
        exact Nat.mod_eq_of_lt h.1
      rw [List.map_cons,List.foldl_cons,Nat.ofDigitChars_cons,ih _ h.2,hbyte,Nat.mul_comm start 10]
      rfl
  rw [decimalValue,toText_eq,hfold _ 0,Nat.ofDigitChars_ten_toDigits]
  intro character hc
  have hd := toDigits_range hc
  omega

/-- The digits that `std::to_string` writes. -/
def written (value : ℕ) : Digits := ⟨toText value,toText_digit value⟩

end DecimalDigits

section Grammar

/-- The byte of a minus. -/
def minus : UInt8 := 45

/-- The byte of a plus. -/
def plus : UInt8 := 43

/-- The byte of a decimal point. -/
def point : UInt8 := 46

/-- The bytes in front of an exponent. -/
def IsMarker (byte : UInt8) : Prop := byte=101 ∨ byte=69

instance (byte : UInt8) : Decidable (IsMarker byte) := inferInstanceAs (Decidable (_∨_))

/-- The bytes that may stand in front of the digits of an exponent. -/
def IsSign (byte : UInt8) : Prop := byte=plus ∨ byte=minus

instance (byte : UInt8) : Decidable (IsSign byte) := inferInstanceAs (Decidable (_∨_))

/-- A numeral of an integer. -/
structure Integer where
  /-- Its sign, when it has one. -/
  sign : Option {byte : UInt8 // IsSign byte}
  /-- Its digits. -/
  digits : Digits
  /-- It has a digit. -/
  digits_ne : digits.val≠[]

/-- The exponent of a numeral. -/
structure Exponent extends Integer where
  /-- The byte in front of it. -/
  marker : {byte : UInt8 // IsMarker byte}

/-- A decimal numeral. -/
structure Numeral where
  /-- Whether a minus stands in front. -/
  negative : Bool
  /-- The digits in front of the point. -/
  whole : Digits
  /-- The digits behind the point, when there is one. -/
  fraction : Option Digits
  /-- The exponent, when there is one. -/
  exponent : Option Exponent
  /-- It has a digit on one side of the point. -/
  some_digit : whole.val≠[] ∨ ∃ digits∈fraction,digits.val≠[]

/-- How an integer is spelled. -/
def Integer.spelled (integer : Integer) : Text :=
  (integer.sign.map (·.val)).toList++integer.digits.val

/-- The number of an integer. -/
def Integer.value (integer : Integer) : ℤ :=
  if integer.sign.map (·.val)=some minus then -decimalValue integer.digits.val
  else decimalValue integer.digits.val

/-- How an exponent is spelled. -/
def Exponent.spelled (exponent : Exponent) : Text := exponent.marker.val::exponent.toInteger.spelled

namespace Numeral

/-- How the fraction of a numeral is spelled. -/
def fractionSpelled (fraction : Option Digits) : Text :=
  match fraction with
  | some digits => point::digits.val
  | none => []

/-- How the exponent of a numeral is spelled. -/
def exponentSpelled (exponent : Option Exponent) : Text :=
  match exponent with
  | some exponent => exponent.spelled
  | none => []

/-- How a numeral is spelled. -/
def spelled (numeral : Numeral) : Text :=
  (if numeral.negative then [minus] else [])++numeral.whole.val++
    fractionSpelled numeral.fraction++exponentSpelled numeral.exponent

/-- The digits behind the point. -/
def fractionDigits (numeral : Numeral) : Digits := numeral.fraction.getD noDigits

/-- The power of ten by which the exponent shifts the point. -/
def power (numeral : Numeral) : ℤ := (numeral.exponent.map (·.value)).getD 0

/-- The magnitude that a numeral denotes. -/
def magnitude (numeral : Numeral) : ℚ :=
  (decimalValue numeral.whole.val+
    decimalValue numeral.fractionDigits.val/10^numeral.fractionDigits.val.length)*
      10^numeral.power

/-- The rational number that a numeral denotes. -/
def denoted (numeral : Numeral) : ℚ :=
  if numeral.negative then -numeral.magnitude else numeral.magnitude

end Numeral

end Grammar

section Reading

/-- The sign at the front of a text, and what follows it. -/
def readSign (text : Text) : Option {byte : UInt8 // IsSign byte}×Text :=
  match text with
  | [] => (none,[])
  | sign::after => if h : IsSign sign then (some ⟨sign,h⟩,after) else (none,text)

/-- The exponent at the front of a text, and what follows it. -/
def readExponent (text : Text) : Option Exponent×Text :=
  match text with
  | [] => (none,[])
  | marker::scan =>
    if hm : IsMarker marker then
      let signed := readSign scan
      let digits := splitDigits signed.2
      if hd : digits.1.val≠[] then (some ⟨⟨signed.1,digits.1,hd⟩,⟨marker,hm⟩⟩,digits.2)
      else (none,text)
    else (none,text)

/-- The point and the digits behind it at the front of a text, and what follows. -/
def readFraction (text : Text) : Option Digits×Text :=
  match text with
  | [] => (none,[])
  | byte::rest =>
    if byte=point then (some (splitDigits rest).1,(splitDigits rest).2) else (none,text)

/-- The minus at the front of a text, and what follows it. -/
def readMinus (text : Text) : Bool×Text :=
  if text.head?=some minus then (true,text.tail) else (false,text)

/-- The numeral that a text spells. -/
def Numeral.read (text : Text) : Option Numeral :=
  let signed := readMinus text
  let whole := splitDigits signed.2
  let fraction := readFraction whole.2
  if h : whole.1.val≠[] ∨ ∃ digits∈fraction.1,digits.val≠[] then
    let exponent := readExponent fraction.2
    if exponent.2=[] then some ⟨signed.1,whole.1,fraction.1,exponent.1,h⟩ else none
  else none

/-- What was read as a minus stood in front. -/
theorem readMinus_spelled (text : Text) :
    (if (readMinus text).1 then [minus] else [])++(readMinus text).2=text := by
  unfold readMinus
  split
  · rename_i h
    exact List.cons_head?_tail h
  · rfl

/-- What was read as a fraction stood in front. -/
theorem readFraction_spelled (text : Text) :
    Numeral.fractionSpelled (readFraction text).1++(readFraction text).2=text := by
  cases text with
  | nil => rfl
  | cons byte rest =>
    rw [readFraction]
    split
    · rename_i h
      rw [h]
      exact congrArg (point::·) (splitDigits_append rest)
    · rfl

/-- What was read as a sign stood in front. -/
theorem readSign_spelled (text : Text) :
    ((readSign text).1.map (·.val)).toList++(readSign text).2=text := by
  cases text with
  | nil => rfl
  | cons sign after =>
    rw [readSign]
    split <;> rfl

/-- What was read as an exponent stood in front. -/
theorem readExponent_spelled (text : Text) :
    Numeral.exponentSpelled (readExponent text).1++(readExponent text).2=text := by
  cases text with
  | nil => rfl
  | cons marker scan =>
    rw [readExponent]
    split
    · dsimp only
      split
      · have hscan : ((readSign scan).1.map (·.val)).toList++
            ((splitDigits (readSign scan).2).1.val++(splitDigits (readSign scan).2).2)=scan := by
          rw [splitDigits_append,readSign_spelled]
        rw [←List.append_assoc] at hscan
        exact congrArg (marker::·) hscan
      · rfl
    · rfl

namespace Numeral

/-- A numeral that was read is spelled by the text. -/
theorem spelled_of_read {text : Text} {numeral : Numeral} (h : read text=some numeral) :
    numeral.spelled=text := by
  unfold read at h
  dsimp only at h
  split at h
  · split at h
    · rename_i hrest
      have hexponent := readExponent_spelled (readFraction (splitDigits (readMinus text).2).2).2
      rw [hrest,List.append_nil] at hexponent
      rw [←Option.some.inj h]
      unfold spelled
      dsimp only
      rw [hexponent,List.append_assoc,readFraction_spelled,List.append_assoc,splitDigits_append,
        readMinus_spelled]
    · cases h
  · cases h

end Numeral

/-- A sign is no digit. -/
theorem not_digit_of_sign {byte : UInt8} (h : IsSign byte) : ¬IsDigit byte := by
  rcases h with h|h <;> rw [h] <;> decide

/-- The byte in front of an exponent is no digit and no point. -/
theorem marker_plain {byte : UInt8} (h : IsMarker byte) : ¬IsDigit byte ∧ byte≠point := by
  rcases h with h|h <;> rw [h] <;> decide

/-- The sign of an integer at the front of a text is read. -/
theorem readSign_eq (integer : Integer) (rest : Text) :
    readSign (integer.spelled++rest)=(integer.sign,integer.digits.val++rest) := by
  obtain ⟨sign,digits,hne⟩ := integer
  cases sign with
  | some sign => exact dif_pos sign.property
  | none =>
    have hspelled : (Integer.mk none digits hne).spelled=digits.val := rfl
    obtain ⟨byte,others,hdigits⟩ := List.exists_cons_of_ne_nil hne
    have hdigit := digits.property byte (by rw [hdigits]; exact List.mem_cons_self)
    rw [hspelled,hdigits]
    exact dif_neg (fun hs => not_digit_of_sign hs hdigit)

/-- An exponent at the end of a text is read. -/
theorem readExponent_eq (exponent : Option Exponent) :
    readExponent (Numeral.exponentSpelled exponent)=(exponent,[]) := by
  cases exponent with
  | none => rfl
  | some exponent =>
    have hsign := readSign_eq exponent.toInteger []
    have hdigits := @splitDigits_eq exponent.digits [] (fun _ hb => by cases hb)
    rw [List.append_nil] at hsign
    change readExponent (exponent.marker.val::exponent.toInteger.spelled)=_
    rw [readExponent,dif_pos exponent.marker.property,hsign]
    simp only [hdigits,dif_pos exponent.digits_ne]

/-- A fraction in front of an exponent is read. -/
theorem readFraction_eq (fraction : Option Digits) (exponent : Option Exponent) :
    readFraction (Numeral.fractionSpelled fraction++Numeral.exponentSpelled exponent)=
      (fraction,Numeral.exponentSpelled exponent) := by
  have hhead : ∀ byte∈(Numeral.exponentSpelled exponent).head?,¬IsDigit byte ∧ byte≠point := by
    intro byte hb
    cases exponent with
    | none => cases hb
    | some exponent =>
      rw [←Option.some.inj hb]
      exact marker_plain exponent.marker.property
  cases fraction with
  | some digits =>
    have hspelled : Numeral.fractionSpelled (some digits)++Numeral.exponentSpelled exponent=
        point::(digits.val++Numeral.exponentSpelled exponent) := rfl
    rw [hspelled,readFraction,if_pos rfl,splitDigits_eq digits (fun byte hb => (hhead byte hb).1)]
  | none =>
    have hspelled : Numeral.fractionSpelled none++Numeral.exponentSpelled exponent=
        Numeral.exponentSpelled exponent := rfl
    rw [hspelled]
    cases htext : Numeral.exponentSpelled exponent with
    | nil => rfl
    | cons byte rest =>
      rw [htext] at hhead
      rw [readFraction,if_neg (hhead byte rfl).2]

namespace Numeral

/-- A spelled numeral is read. -/
theorem read_spelled (numeral : Numeral) : read numeral.spelled=some numeral := by
  obtain ⟨negative,whole,fraction,exponent,hsome⟩ := numeral
  -- The text behind the minus begins with a digit or with the point.
  have hhead : (fractionSpelled fraction++exponentSpelled exponent).head?≠some minus ∧
      ∀ byte∈(fractionSpelled fraction++exponentSpelled exponent).head?,¬IsDigit byte := by
    cases fraction with
    | some digits =>
      have hpoint : (fractionSpelled (some digits)++exponentSpelled exponent).head?=some point := rfl
      rw [hpoint]
      exact ⟨by decide,fun byte hb => by rw [←Option.some.inj hb]; decide⟩
    | none =>
      cases exponent with
      | none => exact ⟨nofun,fun byte hb => by cases hb⟩
      | some exponent =>
        have hm := exponent.marker.property
        refine ⟨fun hb => ?_,fun byte hb => ?_⟩
        · rw [Option.some.inj hb] at hm
          exact absurd hm (by decide)
        · rw [←Option.some.inj hb]
          exact (marker_plain hm).1
  have hminus : readMinus ((if negative then [minus] else [])++
      (whole.val++(fractionSpelled fraction++exponentSpelled exponent)))=
        (negative,whole.val++(fractionSpelled fraction++exponentSpelled exponent)) := by
    cases negative with
    | true => rfl
    | false =>
      refine if_neg (fun hb => ?_)
      cases hwhole : whole.val with
      | nil =>
        rw [hwhole] at hb
        exact hhead.1 hb
      | cons byte rest =>
        have hdigit := whole.property byte (by rw [hwhole]; exact List.mem_cons_self)
        rw [hwhole] at hb
        rw [Option.some.inj hb] at hdigit
        exact absurd hdigit (by decide)
  unfold read spelled
  dsimp only
  rw [List.append_assoc,List.append_assoc,hminus]
  dsimp only
  rw [splitDigits_eq whole hhead.2]
  dsimp only
  rw [readFraction_eq]
  dsimp only
  rw [dif_pos hsome,readExponent_eq,if_pos rfl]

/-- A text spells the numeral that is read from it, and no other. -/
theorem read_eq_some (text : Text) (numeral : Numeral) :
    read text=some numeral ↔ numeral.spelled=text := by
  constructor
  · exact spelled_of_read
  · intro h
    rw [←h]
    exact numeral.read_spelled

end Numeral

end Reading

end Leann.Numerals
