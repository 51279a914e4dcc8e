import Leann.BinaryFloat
import Leann.Numerals

/-!
# The decimal scanner of the command line

`parse_finite_decimal` copies the digits of a decimal and folds the point into
the exponent, so that `strtod` never sees the point of a locale. The exponent
is cut off at a limit. For a text no longer than an argument can be, the
result is the number the text denotes, rounded once.
-/

namespace Leann.DecimalScanner

open Exceptions LockOwner Numerals BinaryFloat

section Scanner

/-- A result of `long long` arithmetic. -/
def longLong (value : ℤ) : Except Fault ℤ :=
  if -2^63≤value ∧ value<2^63 then .ok value else .error .wrapped

/-- `std::to_string` of a `long long`. -/
def signedText (value : ℤ) : Text :=
  if value<0 then minus::toText value.natAbs else toText value.natAbs

/-- `is_ascii_digit`. -/
def isAsciiDigit (character : UInt8) : Bool := decide (IsDigit character)

/-- `decimal_exponent_limit`. -/
def decimalExponentLimit : ℤ := 1000000

/-- What the scanner keeps of the digits. -/
structure Scanned where
  /-- `normalized`. -/
  normalized : Text
  /-- `has_digits`. -/
  hasDigits : Bool
  /-- `has_nonzero_digit`. -/
  hasNonzeroDigit : Bool

/-- `append_digit`. -/
def appendDigit (scanned : Scanned) (digit : UInt8) : Scanned :=
  ⟨scanned.normalized++[digit],true,scanned.hasNonzeroDigit || decide (digit≠48)⟩

/-- The loop over the digits in front of the point. -/
def scanDigits (scanned : Scanned) : Text → Scanned×Text
  | [] => (scanned,[])
  | character::rest =>
    if isAsciiDigit character then scanDigits (appendDigit scanned character) rest
    else (scanned,character::rest)

/-- The loop over the digits behind the point, which counts them. -/
def scanFraction (scanned : Scanned) (fractionDigits : ℤ) : Text → Except Fault (Scanned×ℤ×Text)
  | [] => .ok (scanned,fractionDigits,[])
  | character::rest =>
    if isAsciiDigit character then do
      let counted ← longLong (fractionDigits+1)
      scanFraction (appendDigit scanned character) counted rest
    else .ok (scanned,fractionDigits,character::rest)

/-- The point, when there is one, and the digits behind it. -/
def scanPoint (scanned : Scanned) (text : Text) : Except Fault (Scanned×ℤ×Text) :=
  if text.head?=some point then scanFraction scanned 0 text.tail else .ok (scanned,0,text)

/-- The loop over the digits of the exponent. -/
def scanMagnitude (magnitude : ℤ) : Text → Except Fault (ℤ×Text)
  | [] => .ok (magnitude,[])
  | character::rest =>
    if isAsciiDigit character then
      if magnitude<decimalExponentLimit then do
        let shifted ← longLong (magnitude*10)
        let increased ← longLong (shifted+((character.toNat : ℤ)-48))
        scanMagnitude increased rest
      else scanMagnitude magnitude rest
    else .ok (magnitude,character::rest)

/-- The exponent and what stands behind it. A marker without digits is left
where it is. -/
def scanExponent (text : Text) : Except Fault (ℤ×Text) :=
  match text with
  | [] => .ok (0,[])
  | marker::scan =>
    if marker=101 ∨ marker=69 then do
      let negative := scan.head?=some minus
      let digits := if scan.head?=some plus ∨ scan.head?=some minus then scan.tail else scan
      let (magnitude,after) ← scanMagnitude 0 digits
      if after.length<digits.length then
        let limited := min magnitude decimalExponentLimit
        let exponent ← if negative then longLong (-limited) else .ok limited
        return (exponent,after)
      else return (0,text)
    else .ok (0,text)

/-- `parse_finite_decimal`. The conversion returns a double and how many
bytes it has read. -/
def parseFiniteDecimal (strtod : Text → Double×ℕ) (text : Text) : Except Fault (Option Double) := do
  let (sign,unsigned) := if text.head?=some minus then ([minus],text.tail) else ([],text)
  let (scanned,rest) := scanDigits ⟨sign,false,false⟩ unsigned
  let (scanned,fractionDigits,rest) ← scanPoint scanned rest
  if scanned.hasDigits=false then return none
  let (exponent,rest) ← scanExponent rest
  if rest≠[] then return none
  let shifted ← longLong (exponent-fractionDigits)
  let normalized := scanned.normalized++101::signedText shifted
  let (parsed,consumed) := strtod normalized
  -- Both zeros compare equal to `0.0`.
  if consumed≠normalized.length ∨ ¬parsed.Finite ∨ (parsed.pattern=0 ∧ scanned.hasNonzeroDigit) then
    return none
  return some parsed

end Scanner

section Loops

/-- Small numbers are results. -/
theorem longLong_eq {value : ℤ} (h : -2^63≤value ∧ value<2^63) : longLong value=.ok value := if_pos h

/-- The test of a digit. -/
theorem isAsciiDigit_iff (character : UInt8) : isAsciiDigit character=true ↔ IsDigit character :=
  decide_eq_true_iff

/-- What is kept after some more digits. -/
def Scanned.appended (scanned : Scanned) (digits : Text) : Scanned :=
  ⟨scanned.normalized++digits,scanned.hasDigits || decide (digits≠[]),
    scanned.hasNonzeroDigit || digits.any (fun digit => decide (digit≠48))⟩

/-- One more digit. -/
theorem Scanned.appended_cons (scanned : Scanned) (digit : UInt8) (digits : Text) :
    (appendDigit scanned digit).appended digits=scanned.appended (digit::digits) := by
  simp [appended,appendDigit,Bool.or_assoc]

/-- Digits behind digits. -/
theorem Scanned.appended_append (scanned : Scanned) (digits others : Text) :
    (scanned.appended digits).appended others=scanned.appended (digits++others) := by
  have hne : (scanned.hasDigits || decide (digits≠[]) || decide (others≠[]))=
      (scanned.hasDigits || decide (digits++others≠[])) := by
    cases digits <;> simp
  rw [appended,appended,appended,List.append_assoc,hne,Bool.or_assoc,List.any_append]

/-- No digits. -/
theorem Scanned.appended_nil (scanned : Scanned) : scanned.appended []=scanned := by
  simp [appended]

/-- The first loop takes the digits in front. -/
theorem scanDigits_eq (scanned : Scanned) (digits : Digits) {rest : Text}
    (h : ∀ byte∈rest.head?,¬IsDigit byte) :
    scanDigits scanned (digits.val++rest)=(scanned.appended digits.val,rest) := by
  obtain ⟨digits,hdigits⟩ := digits
  dsimp only
  induction digits generalizing scanned with
  | nil =>
    rw [Scanned.appended_nil]
    cases rest with
    | nil => rfl
    | cons character rest =>
      exact if_neg (by rw [isAsciiDigit_iff]; exact h character rfl)
  | cons digit digits ih =>
    rw [List.forall_mem_cons] at hdigits
    rw [List.cons_append,scanDigits,if_pos ((isAsciiDigit_iff digit).mpr hdigits.1),ih _ hdigits.2,
      Scanned.appended_cons]

/-- The second loop takes the digits behind the point and counts them. -/
theorem scanFraction_eq (scanned : Scanned) (count : ℕ) (digits : Digits) {rest : Text}
    (h : ∀ byte∈rest.head?,¬IsDigit byte) (hc : count+digits.val.length<2^63) :
    scanFraction scanned count (digits.val++rest)=
      .ok (scanned.appended digits.val,(count+digits.val.length : ℕ),rest) := by
  obtain ⟨digits,hdigits⟩ := digits
  dsimp only at hc ⊢
  induction digits generalizing scanned count with
  | nil =>
    rw [Scanned.appended_nil]
    cases rest with
    | nil => rfl
    | cons character rest =>
      exact if_neg (by rw [isAsciiDigit_iff]; exact h character rfl)
  | cons digit digits ih =>
    rw [List.forall_mem_cons] at hdigits
    rw [List.length_cons] at hc
    have hcount : longLong ((count : ℤ)+1)=.ok ((count+1 : ℕ) : ℤ) := longLong_eq (by omega)
    rw [List.cons_append,scanFraction,if_pos ((isAsciiDigit_iff digit).mpr hdigits.1),hcount]
    change scanFraction _ _ _=_
    rw [ih _ (count+1) hdigits.2 (by omega),Scanned.appended_cons,List.length_cons,
      Nat.add_right_comm count 1,Nat.add_assoc]

/-- The third loop takes the digits of the exponent. Up to the limit it keeps
their value. -/
theorem scanMagnitude_eq {magnitude : ℤ} (h0 : 0≤ magnitude) (digits : Digits) {rest : Text}
    (h : ∀ byte∈rest.head?,¬IsDigit byte) :
    ∃ found,scanMagnitude magnitude (digits.val++rest)=.ok (found,rest) ∧
      min found decimalExponentLimit=
        min (magnitude*10^digits.val.length+decimalValue digits.val) decimalExponentLimit := by
  obtain ⟨digits,hdigits⟩ := digits
  dsimp only
  induction digits generalizing magnitude with
  | nil =>
    refine ⟨magnitude,?_,by simp [decimalValue]⟩
    cases rest with
    | nil => rfl
    | cons character rest =>
      exact if_neg (by rw [isAsciiDigit_iff]; exact h character rfl)
  | cons digit digits ih =>
    rw [List.forall_mem_cons] at hdigits
    have hlow : 48≤digit.toNat := hdigits.1.1
    have hdigit := digit_lt hdigits.1
    have hvalue : decimalValue (digit::digits)=
        (digit.toNat-48)*10^digits.length+decimalValue digits := by
      have happend := decimalValue_append [digit] digits
      rwa [show decimalValue [digit]=digit.toNat-48 by simp [decimalValue]] at happend
    rw [List.cons_append,scanMagnitude,if_pos ((isAsciiDigit_iff digit).mpr hdigits.1),hvalue,List.length_cons,
      pow_succ]
    have hten : (1 : ℤ)≤10^digits.length := one_le_pow₀ (by norm_num)
    by_cases hlimit : magnitude<decimalExponentLimit
    · have hsmall : magnitude<1000000 := hlimit
      rw [if_pos hlimit,longLong_eq (by omega)]
      change ∃ found,(longLong _>>=_)=_ ∧ _
      rw [longLong_eq (by omega)]
      change ∃ found,scanMagnitude _ _=_ ∧ _
      obtain ⟨found,hfound,hmin⟩ :=
        @ih (magnitude*10+((digit.toNat : ℤ)-48)) (by omega) hdigits.2
      refine ⟨found,hfound,?_⟩
      rw [hmin]
      push_cast [Nat.cast_sub hlow]
      ring_nf
    · have hlarge : decimalExponentLimit≤ magnitude := not_lt.mp hlimit
      rw [if_neg hlimit]
      obtain ⟨found,hfound,hmin⟩ := ih h0 hdigits.2
      refine ⟨found,hfound,?_⟩
      have hfirst : decimalExponentLimit≤ magnitude*10^digits.length+decimalValue digits := by
        nlinarith
      have hsecond : decimalExponentLimit≤ magnitude*(10^digits.length*10)+
          ((digit.toNat-48)*10^digits.length+decimalValue digits : ℕ) := by
        push_cast
        nlinarith [mul_nonneg h0 (show (0 : ℤ)≤10^digits.length by positivity)]
      rw [hmin,min_eq_right hfirst,min_eq_right hsecond]

end Loops

section Reading

/-- An exponent that is cut off at the limit. -/
def limitedPower (power : ℤ) : ℤ := max (-decimalExponentLimit) (min power decimalExponentLimit)

/-- The exponent that `std::to_string` writes behind an `e`. -/
def writtenExponent (value : ℤ) : Exponent where
  marker := ⟨101,Or.inl rfl⟩
  sign := if value<0 then some ⟨minus,Or.inr rfl⟩ else none
  digits := written value.natAbs
  digits_ne := toText_ne_nil _

/-- It is spelled as the scanner writes it. -/
theorem writtenExponent_spelled (value : ℤ) :
    (writtenExponent value).spelled=101::signedText value := by
  unfold Exponent.spelled Integer.spelled writtenExponent signedText
  dsimp only
  split <;> rfl

/-- And it is the number that was written. -/
theorem writtenExponent_value (value : ℤ) : (writtenExponent value).value=value := by
  have hdigits : decimalValue (writtenExponent value).digits.val=value.natAbs :=
    decimalValue_toText value.natAbs
  unfold Integer.value
  rw [hdigits]
  by_cases h : value<0
  · have hsign : (writtenExponent value).sign.map (·.val)=some minus := by
      unfold writtenExponent
      rw [if_pos h]
      rfl
    rw [if_pos hsign]
    omega
  · have hsign : (writtenExponent value).sign.map (·.val)≠some minus := by
      unfold writtenExponent
      rw [if_neg h]
      exact nofun
    rw [if_neg hsign]
    omega

/-- The scanner passes the sign of an exponent. -/
theorem passSign_eq (scan : Text) :
    (if scan.head?=some plus ∨ scan.head?=some minus then scan.tail else scan)=(readSign scan).2 := by
  cases scan with
  | nil => rfl
  | cons sign after =>
    rw [readSign]
    by_cases hs : IsSign sign
    · rw [dif_pos hs]
      refine if_pos (hs.imp ?_ ?_)
      · exact congrArg some
      · exact congrArg some
    · rw [dif_neg hs]
      refine if_neg (fun h => hs (h.imp ?_ ?_))
      · exact Option.some.inj
      · exact Option.some.inj

/-- It looks at the sign itself. -/
theorem readSign_minus (scan : Text) :
    (readSign scan).1.map (·.val)=some minus ↔ scan.head?=some minus := by
  cases scan with
  | nil => exact ⟨fun h => (by cases h),fun h => (by cases h)⟩
  | cons sign after =>
    rw [readSign]
    by_cases hs : IsSign sign
    · rw [dif_pos hs]
      rfl
    · rw [dif_neg hs]
      exact ⟨fun h => (by cases h),fun h => absurd (Or.inr (Option.some.inj h)) hs⟩

/-- A magnitude that is cut off under the sign is cut off. -/
theorem limitedPower_neg (magnitude : ℕ) :
    limitedPower (-magnitude)=-min (magnitude : ℤ) decimalExponentLimit := by
  unfold limitedPower decimalExponentLimit
  omega

/-- A magnitude needs only the upper limit. -/
theorem limitedPower_natCast (magnitude : ℕ) :
    limitedPower magnitude=min (magnitude : ℤ) decimalExponentLimit := by
  unfold limitedPower decimalExponentLimit
  omega

/-- The scanner reads the exponent and cuts it off. -/
theorem scanExponent_eq (text : Text) :
    scanExponent text=
      .ok (limitedPower (((readExponent text).1.map (·.value)).getD 0),(readExponent text).2) := by
  cases text with
  | nil => rfl
  | cons marker scan =>
    by_cases hm : IsMarker marker
    · obtain ⟨found,hfound,hmin⟩ := scanMagnitude_eq le_rfl (splitDigits (readSign scan).2).1
        (splitDigits_head (readSign scan).2)
      rw [splitDigits_append] at hfound
      rw [zero_mul,zero_add] at hmin
      have hlength : (splitDigits (readSign scan).2).2.length<(readSign scan).2.length ↔
          (splitDigits (readSign scan).2).1.val≠[] := by
        have happend := congrArg List.length (splitDigits_append (readSign scan).2)
        rw [List.length_append] at happend
        rw [←List.length_pos_iff]
        omega
      have hm' : marker=101 ∨ marker=69 := hm
      rw [scanExponent,if_pos hm']
      dsimp only
      rw [passSign_eq,hfound]
      change (if _ then _ else _)=_
      rw [readExponent,dif_pos hm]
      dsimp only
      by_cases hd : (splitDigits (readSign scan).2).1.val≠[]
      · rw [if_pos (hlength.mpr hd),dif_pos hd,hmin]
        simp only [Option.map_some,Option.getD_some,Integer.value,readSign_minus]
        by_cases hminus : scan.head?=some minus
        · rw [if_pos hminus,if_pos hminus,limitedPower_neg,longLong_eq]
          · rfl
          · unfold decimalExponentLimit
            omega
        · rw [if_neg hminus,if_neg hminus,limitedPower_natCast]
          rfl
      · rw [if_neg (fun h => hd (hlength.mp h)),dif_neg hd]
        rfl
    · have hm' : ¬(marker=101 ∨ marker=69) := hm
      rw [scanExponent,if_neg hm',readExponent,dif_neg hm]
      rfl

/-- The numeral that the scanner hands to the conversion. -/
def folded (numeral : Numeral) : Numeral where
  negative := numeral.negative
  whole := ⟨numeral.whole.val++numeral.fractionDigits.val,fun byte hb =>
    (List.mem_append.mp hb).elim (numeral.whole.property byte) (numeral.fractionDigits.property byte)⟩
  fraction := none
  exponent :=
    some (writtenExponent (limitedPower numeral.power-numeral.fractionDigits.val.length))
  some_digit := by
    left
    rcases numeral.some_digit with h|⟨digits,hd,h⟩
    · exact List.append_ne_nil_of_left_ne_nil h _
    · refine List.append_ne_nil_of_right_ne_nil _ ?_
      rw [Numeral.fractionDigits,Option.mem_def.mp hd]
      exact h

/-- What becomes of a numeral that the scanner has read. -/
def converted (strtod : Text → Double×ℕ) (numeral : Numeral) : Option Double :=
  let (parsed,consumed) := strtod (folded numeral).spelled
  if consumed≠(folded numeral).spelled.length ∨ ¬parsed.Finite ∨
      (parsed.pattern=0 ∧ decimalValue (folded numeral).whole.val≠0) then none
  else some parsed

/-- The scanner reads the point and the digits behind it. -/
theorem scanPoint_eq (scanned : Scanned) {text : Text} (h : text.length<2^62) :
    scanPoint scanned text=
      .ok (scanned.appended ((readFraction text).1.getD noDigits).val,
        (((readFraction text).1.getD noDigits).val.length : ℤ),(readFraction text).2) := by
  unfold scanPoint
  cases text with
  | nil =>
    rw [readFraction]
    exact congrArg (fun kept => Except.ok (kept,_,_)) scanned.appended_nil.symm
  | cons byte rest =>
    rw [readFraction]
    by_cases hb : byte=point
    · have hcount : 0+(splitDigits rest).1.val.length<2^63 := by
        have happend := congrArg List.length (splitDigits_append rest)
        rw [List.length_append] at happend
        rw [List.length_cons] at h
        omega
      have hscan := scanFraction_eq scanned 0 (splitDigits rest).1 (splitDigits_head rest) hcount
      rw [splitDigits_append,Nat.zero_add] at hscan
      rw [if_pos (show (byte::rest).head?=some point from congrArg some hb),if_pos hb]
      exact hscan
    · have hhead : (byte::rest).head?≠some point := fun he => hb (Option.some.inj he)
      rw [if_neg hhead,if_neg hb]
      exact congrArg (fun kept => Except.ok (kept,_,_)) scanned.appended_nil.symm

/-- A digit other than zero has been seen when the digits do not write zero. -/
theorem hasNonzero_iff (digits : Digits) :
    digits.val.any (fun digit => decide (digit≠48))=true ↔ decimalValue digits.val≠0 := by
  rw [ne_eq,decimalValue_eq_zero,List.any_eq_true]
  simp

/-- The scanner reads a numeral and converts it. -/
theorem parseFiniteDecimal_eq (strtod : Text → Double×ℕ) {text : Text} (h : text.length<2^62) :
    parseFiniteDecimal strtod text=.ok ((Numeral.read text).bind (converted strtod)) := by
  let signed := readMinus text
  let whole := splitDigits signed.2
  let fraction := readFraction whole.2
  let exponent := readExponent fraction.2
  let sign := if signed.1 then [minus] else []
  have hsign : (if text.head?=some minus then ([minus],text.tail) else ([],text))=
      (sign,signed.2) := by
    unfold sign signed readMinus
    split <;> rfl
  have hlength : whole.2.length<2^62 := by
    have hsigned := congrArg List.length (readMinus_spelled text)
    have hwhole := congrArg List.length (splitDigits_append (readMinus text).2)
    rw [List.length_append] at hsigned hwhole
    change (splitDigits (readMinus text).2).2.length<2^62
    omega
  have hwhole : scanDigits ⟨sign,false,false⟩ signed.2=
      (Scanned.appended ⟨sign,false,false⟩ whole.1.val,whole.2) := by
    have hscan := scanDigits_eq ⟨sign,false,false⟩ (splitDigits signed.2).1
      (splitDigits_head signed.2)
    rwa [splitDigits_append] at hscan
  have hkept : (Scanned.appended ⟨sign,false,false⟩ whole.1.val).appended
      (fraction.1.getD noDigits).val=
        Scanned.appended ⟨sign,false,false⟩ (whole.1.val++(fraction.1.getD noDigits).val) :=
    Scanned.appended_append _ _ _
  unfold parseFiniteDecimal
  rw [hsign]
  dsimp only
  rw [hwhole]
  dsimp only
  rw [scanPoint_eq _ hlength,hkept]
  change (if _ then _ else _)=_
  have hdigits : (Scanned.appended ⟨sign,false,false⟩
      (whole.1.val++(fraction.1.getD noDigits).val)).hasDigits=false ↔
        ¬(whole.1.val≠[] ∨ ∃ digits∈fraction.1,digits.val≠[]) := by
    have hfraction : (∃ digits∈fraction.1,digits.val≠[]) ↔ (fraction.1.getD noDigits).val≠[] := by
      cases fraction.1 with
      | none => simp [noDigits]
      | some digits => simp
    rw [hfraction]
    simp only [Scanned.appended,Bool.false_or,decide_eq_false_iff_not,ne_eq,not_not,
      List.append_eq_nil_iff,not_or]
  by_cases hsome : whole.1.val≠[] ∨ ∃ digits∈fraction.1,digits.val≠[]
  · rw [if_neg (fun hf => hdigits.mp hf hsome),scanExponent_eq]
    change (if exponent.2≠[] then _ else _)=_
    have hread : Numeral.read text=
        if exponent.2=[] then some ⟨signed.1,whole.1,fraction.1,exponent.1,hsome⟩ else none :=
      dif_pos hsome
    rw [hread]
    by_cases hrest : exponent.2=[]
    · let numeral : Numeral := ⟨signed.1,whole.1,fraction.1,exponent.1,hsome⟩
      have hrange : -2^63≤limitedPower numeral.power-(numeral.fractionDigits.val.length : ℤ) ∧
          limitedPower numeral.power-(numeral.fractionDigits.val.length : ℤ)<2^63 := by
        have hfraction : numeral.fractionDigits.val.length≤whole.2.length := by
          have hspelled := congrArg List.length (readFraction_spelled whole.2)
          rw [List.length_append] at hspelled
          refine le_trans ?_ (le_of_le_of_eq (Nat.le_add_right _ _) hspelled)
          change (fraction.1.getD noDigits).val.length≤(Numeral.fractionSpelled fraction.1).length
          cases fraction.1 with
          | none => exact Nat.le_refl 0
          | some digits => exact Nat.le_succ _
        unfold limitedPower decimalExponentLimit
        omega
      have hspelled : (folded numeral).spelled=sign++(whole.1.val++
          (fraction.1.getD noDigits).val)++101::signedText
            (limitedPower numeral.power-numeral.fractionDigits.val.length) := by
        rw [←writtenExponent_spelled]
        change sign++_++[]++_=_
        rw [List.append_nil]
        rfl
      rw [if_neg (not_not.mpr hrest),if_pos hrest]
      change (longLong (limitedPower numeral.power-numeral.fractionDigits.val.length)>>=_)=
        .ok (converted strtod numeral)
      rw [longLong_eq hrange]
      change (if _ then _ else _)=_
      unfold converted
      dsimp only
      rw [hspelled,apply_ite Except.ok]
      exact if_congr (or_congr Iff.rfl (or_congr Iff.rfl (and_congr_right' (hasNonzero_iff (folded numeral).whole)))) rfl rfl
    · rw [if_pos hrest,if_neg hrest]
      rfl
  · have hread : Numeral.read text=none := dif_neg hsome
    rw [if_pos (hdigits.mpr hsome),hread]
    rfl

end Reading

section Rounding

/-- The double nearest the number of a numeral, which keeps the sign. -/
def rounded (numeral : Numeral) : Double := Binary.round numeral.negative numeral.denoted

/-- The number is zero, or its rounding is finite and not zero. -/
def Representable (numeral : Numeral) : Prop :=
  numeral.denoted=0 ∨ (rounded numeral).Finite ∧ (rounded numeral).value≠0

/-- The conversion rounds correctly: it reads all of a numeral without a point
and returns the nearest double. -/
def CorrectlyRounds (strtod : Text → Double×ℕ) : Prop :=
  ∀ numeral : Numeral,numeral.fraction=none →
    strtod numeral.spelled=(rounded numeral,numeral.spelled.length)

/-- All digits of a numeral, as one number. -/
def digitsValue (numeral : Numeral) : ℕ :=
  decimalValue (numeral.whole.val++numeral.fractionDigits.val)

/-- The point may be folded into the exponent. -/
theorem magnitude_eq (numeral : Numeral) :
    numeral.magnitude=
      digitsValue numeral*10^(numeral.power-numeral.fractionDigits.val.length) := by
  rw [Numeral.magnitude,digitsValue,decimalValue_append,zpow_sub₀ (by norm_num),zpow_natCast]
  push_cast
  field_simp

/-- A magnitude is not negative. -/
theorem magnitude_nonneg (numeral : Numeral) : 0≤numeral.magnitude := by
  rw [magnitude_eq]
  exact mul_nonneg (Nat.cast_nonneg _) (zpow_nonneg (by norm_num) _)

/-- A number is zero when its magnitude is. -/
theorem denoted_eq_zero (numeral : Numeral) : numeral.denoted=0 ↔ numeral.magnitude=0 := by
  rw [Numeral.denoted]
  split
  · exact neg_eq_zero
  · exact Iff.rfl

/-- The absolute value of a number is its magnitude. -/
theorem abs_denoted (numeral : Numeral) : |numeral.denoted|=numeral.magnitude := by
  rw [Numeral.denoted]
  split
  · rw [abs_neg,abs_of_nonneg (magnitude_nonneg numeral)]
  · exact abs_of_nonneg (magnitude_nonneg numeral)

/-- The rounding has the sign of the text. -/
theorem rounded_negative (numeral : Numeral) : (rounded numeral).negative=numeral.negative := by
  have hm := magnitude_nonneg numeral
  unfold rounded Binary.round
  split
  · rfl
  · rename_i h
    change decide (numeral.denoted<0)=numeral.negative
    rw [denoted_eq_zero] at h
    have hpos : 0<numeral.magnitude := lt_of_le_of_ne hm (Ne.symm h)
    unfold Numeral.denoted
    cases numeral.negative with
    | true => exact decide_eq_true (by simpa using hpos)
    | false => exact decide_eq_false (by simpa using hm)

/-- The pattern of the rounding is that of the magnitude. -/
theorem rounded_pattern (numeral : Numeral) :
    (rounded numeral).pattern=min (double.nearest (numeral.magnitude*2^double.shift)) double.infinity := by
  unfold rounded Binary.round
  split
  · rename_i h
    have hzero : double.nearest (numeral.magnitude*2^double.shift)≤0 := by
      refine double.nearest_le (by rw [(denoted_eq_zero numeral).mp h,zero_mul]) ?_
      rw [(denoted_eq_zero numeral).mp h,zero_mul]
      exact Nat.cast_nonneg _
    rw [Nat.le_zero.mp hzero]
    rfl
  · rw [←abs_denoted]
    rfl

/-- The value of a float is zero when its pattern is. -/
theorem value_eq_zero (a : Double) : a.value=0 ↔ a.pattern=0 := by
  rw [Binary.value,←double.grid_zero,double.grid_strictMono.injective.eq_iff,←Binary.natAbs_key,
    Int.natAbs_eq_zero]

/-- The limit of the scanner is beyond the range of a double. -/
theorem two_pow_le_ten_pow : (2 : ℚ)^1200≤10^1000 :=
  calc (2 : ℚ)^1200≤2^(3*1000) := pow_le_pow_right₀ (by norm_num) (by norm_num)
    _=(2^3)^1000 := pow_mul 2 3 1000
    _≤10^1000 := pow_le_pow_left₀ (by norm_num) (by norm_num) _

/-- Numbers of this size are beyond the range. -/
theorem not_finite_of_large {numeral : Numeral} (h : 10^1000≤numeral.magnitude) :
    ¬(rounded numeral).Finite := by
  have hlarge : (double.units double.infinity : ℚ)≤numeral.magnitude*2^double.shift := by
    have hpower : 2^double.exponentBits-2=2046 := rfl
    calc (double.units double.infinity : ℚ)=2^52*2^2046 := by
          rw [double.units_infinity (by decide),hpower,double_binade,Nat.cast_mul,Nat.cast_pow,
            Nat.cast_pow,Nat.cast_ofNat]
      _≤2^1200*2^1074 := by
          rw [←pow_add,←pow_add]
          exact pow_le_pow_right₀ (by norm_num) (by norm_num)
      _≤10^1000*2^1074 := mul_le_mul_of_nonneg_right two_pow_le_ten_pow (by positivity)
      _≤numeral.magnitude*2^double.shift := by
          rw [double_shift]
          exact mul_le_mul_of_nonneg_right h (by positivity)
  have hnearest := double.le_nearest hlarge
  rw [Binary.Finite,rounded_pattern]
  omega

/-- Numbers of this size round to zero. -/
theorem pattern_of_small {numeral : Numeral} (h : numeral.magnitude≤1/10^1000) :
    (rounded numeral).pattern=0 := by
  have hm := magnitude_nonneg numeral
  have hsmall : double.nearest (numeral.magnitude*2^double.shift)≤0 := by
    refine double.nearest_le_of_lt (by positivity) ?_
    have hunits : (double.units 0 : ℚ)+double.units (0+1)=1 := by
      rw [double.units_of_lt double.binade_pos,double.units_of_lt (by decide)]
      norm_num
    rw [hunits,double_shift]
    calc 2*(numeral.magnitude*2^1074)≤2*(1/10^1000*2^1074) :=
          mul_le_mul_of_nonneg_left (mul_le_mul_of_nonneg_right h (by positivity)) (by norm_num)
      _=2^1075/10^1000 := by
          rw [←mul_assoc,mul_one_div,div_mul_eq_mul_div,←pow_succ']
      _≤2^1075/2^1200 :=
          div_le_div_of_nonneg_left (by positivity) (by positivity) two_pow_le_ten_pow
      _<1 := by
          rw [div_lt_one (by positivity)]
          exact pow_lt_pow_right₀ (by norm_num) (by norm_num)
  rw [rounded_pattern]
  omega

end Rounding

section Exactness

/-- Folding the point keeps the digits. -/
theorem digitsValue_folded (numeral : Numeral) : digitsValue (folded numeral)=digitsValue numeral :=
  congrArg decimalValue (List.append_nil (numeral.whole.val++numeral.fractionDigits.val))

/-- The magnitude that the conversion is given. -/
theorem magnitude_folded (numeral : Numeral) :
    (folded numeral).magnitude=
      digitsValue numeral*10^(limitedPower numeral.power-numeral.fractionDigits.val.length) := by
  have hpower : (folded numeral).power=
      limitedPower numeral.power-numeral.fractionDigits.val.length :=
    writtenExponent_value _
  have hfraction : ((folded numeral).fractionDigits.val.length : ℤ)=0 := rfl
  rw [magnitude_eq,digitsValue_folded,hpower,hfraction,sub_zero]

/-- The digits of a numeral are part of its spelling. -/
theorem digits_length_le (numeral : Numeral) :
    numeral.whole.val.length+numeral.fractionDigits.val.length≤numeral.spelled.length := by
  have hfraction : numeral.fractionDigits.val.length≤
      (Numeral.fractionSpelled numeral.fraction).length := by
    unfold Numeral.fractionDigits
    cases numeral.fraction with
    | none => exact Nat.le_refl 0
    | some digits => exact Nat.le_succ _
  unfold Numeral.spelled
  rw [List.length_append,List.length_append,List.length_append]
  omega

/-- A digit other than zero is beyond the range at a large exponent. -/
theorem large_of_power {number : ℕ} (hn : number≠0) {power : ℤ} (h : 1000≤power) :
    (10 : ℚ)^1000≤number*10^power := by
  have hone : (1 : ℚ)≤number := by exact_mod_cast Nat.pos_of_ne_zero hn
  calc (10 : ℚ)^1000=10^(1000 : ℤ) := (zpow_natCast 10 1000).symm
    _≤10^power := zpow_le_zpow_right₀ (by norm_num) h
    _≤number*10^power := le_mul_of_one_le_left (zpow_nonneg (by norm_num) _) hone

/-- So many digits round to zero at a small exponent. -/
theorem small_of_power {number length : ℕ} (hn : number<10^length) (hl : length<999000) {power : ℤ}
    (h : power≤-1000000) : number*(10 : ℚ)^power≤1/10^1000 := by
  have hnumber : (number : ℚ)≤10^(length : ℤ) := by
    rw [zpow_natCast]
    exact_mod_cast hn.le
  calc number*(10 : ℚ)^power≤10^(length : ℤ)*10^power :=
        mul_le_mul_of_nonneg_right hnumber (zpow_nonneg (by norm_num) _)
    _=10^(length+power) := (zpow_add₀ (by norm_num) _ _).symm
    _≤10^(-1000 : ℤ) := zpow_le_zpow_right₀ (by norm_num) (by omega)
    _=1/10^1000 := by
        rw [zpow_neg,one_div]
        exact congrArg _ (zpow_natCast 10 1000)

/-- Cutting the exponent off changes a number only where both are beyond the
range or both round to zero. -/
theorem limited_cases {numeral : Numeral} (hl : numeral.spelled.length<999000)
    (h0 : digitsValue numeral≠0) :
    (folded numeral).magnitude=numeral.magnitude ∨
      (10^1000≤(folded numeral).magnitude ∧ 10^1000≤numeral.magnitude) ∨
      ((folded numeral).magnitude≤1/10^1000 ∧ numeral.magnitude≤1/10^1000) := by
  have hlength := digits_length_le numeral
  have hdigits : digitsValue numeral<
      10^(numeral.whole.val.length+numeral.fractionDigits.val.length) := by
    have hlt := decimalValue_lt (folded numeral).whole
    rwa [show (folded numeral).whole.val.length=
      numeral.whole.val.length+numeral.fractionDigits.val.length from List.length_append] at hlt
  rw [magnitude_folded,magnitude_eq]
  rcases lt_trichotomy numeral.power (limitedPower numeral.power) with hp|hp|hp
  · -- The exponent was below the limit.
    have hsmall : limitedPower numeral.power≤-1000000 := by
      unfold limitedPower decimalExponentLimit at hp ⊢
      omega
    right
    right
    exact ⟨small_of_power hdigits (by omega) (by omega),small_of_power hdigits (by omega) (by omega)⟩
  · left
    rw [←hp]
  · -- The exponent was above the limit.
    have hlarge : 1000000≤limitedPower numeral.power := by
      unfold limitedPower decimalExponentLimit at hp ⊢
      omega
    right
    left
    exact ⟨large_of_power h0 (by omega),large_of_power h0 (by omega)⟩

/-- Equal magnitudes under one sign are rounded alike. -/
theorem rounded_congr {numeral other : Numeral} (hs : numeral.negative=other.negative)
    (hm : numeral.magnitude=other.magnitude) : rounded numeral=rounded other := by
  have hnegative : (rounded numeral).negative=(rounded other).negative := by
    rw [rounded_negative,rounded_negative,hs]
  have hpattern : (rounded numeral).pattern=(rounded other).pattern := by
    rw [rounded_pattern,rounded_pattern,hm]
  exact Binary.ext hnegative hpattern

/-- What the conversion makes of a numeral is its rounding, when the numeral
can be represented. -/
theorem converted_iff {strtod : Text → Double×ℕ} (h : CorrectlyRounds strtod) {numeral : Numeral}
    (hl : numeral.spelled.length<999000) (value : Double) :
    converted strtod numeral=some value ↔ Representable numeral ∧ value=rounded numeral := by
  have hzero : numeral.denoted=0 ↔ digitsValue numeral=0 := by
    rw [denoted_eq_zero,magnitude_eq,mul_eq_zero,Nat.cast_eq_zero]
    exact or_iff_left (zpow_ne_zero _ (by norm_num))
  have hconverted : converted strtod numeral=
      if ¬(rounded (folded numeral)).Finite ∨
        ((rounded (folded numeral)).pattern=0 ∧ digitsValue numeral≠0) then none
      else some (rounded (folded numeral)) := by
    unfold converted
    rw [h (folded numeral) rfl]
    exact if_congr (by rw [ne_self_iff_false,false_or]; rfl) rfl rfl
  rw [hconverted,Representable,hzero]
  by_cases h0 : digitsValue numeral=0
  · have hsame : rounded (folded numeral)=rounded numeral := by
      refine rounded_congr rfl ?_
      rw [magnitude_folded,magnitude_eq,h0,Nat.cast_zero,zero_mul,zero_mul]
    have hpattern : (rounded numeral).pattern=0 := by
      refine pattern_of_small ?_
      rw [magnitude_eq,h0,Nat.cast_zero,zero_mul]
      positivity
    have hfinite : (rounded numeral).Finite := by
      rw [Binary.Finite,hpattern]
      decide
    rw [hsame,if_neg (by simp [hfinite,h0])]
    simp [h0,eq_comm]
  · rcases limited_cases hl h0 with hm|⟨hf,hm⟩|⟨hf,hm⟩
    · rw [rounded_congr (show (folded numeral).negative=numeral.negative from rfl) hm,
        ne_eq (rounded numeral).value,value_eq_zero]
      by_cases hgood : (rounded numeral).Finite ∧ (rounded numeral).pattern≠0
      · rw [if_neg (by tauto)]
        simp [h0,hgood,eq_comm]
      · rw [if_pos (by tauto)]
        simp only [reduceCtorEq,false_iff]
        tauto
    · have hlarge := not_finite_of_large hm
      rw [if_pos (Or.inl (not_finite_of_large hf))]
      simp [h0,hlarge]
    · have hsmall := (value_eq_zero _).mpr (pattern_of_small hm)
      rw [if_pos (Or.inr ⟨pattern_of_small hf,h0⟩)]
      simp [h0,hsmall]

/-- A conversion that rounds correctly. -/
def exactStrtod (text : Text) : Double×ℕ :=
  match Numeral.read text with
  | some numeral => (rounded numeral,text.length)
  | none => (Binary.round false 0,0)

/-- It does. -/
theorem exactStrtod_correct : CorrectlyRounds exactStrtod := by
  intro numeral _
  rw [exactStrtod,numeral.read_spelled]

/-- **The decimal scanner is exact.** For a text no longer than an argument,
no `long long` overflows, and a value is returned exactly for a decimal
numeral whose number is zero or rounds to a finite double other than zero. It
is that rounding, with the sign of the text. -/
theorem parseFiniteDecimal_exact {strtod : Text → Double×ℕ} (h : CorrectlyRounds strtod)
    {text : Text} (hl : text.length<999000) :
    ∃ found,parseFiniteDecimal strtod text=.ok found ∧ ∀ value,found=some value ↔
      ∃ numeral : Numeral,numeral.spelled=text ∧ Representable numeral ∧ value=rounded numeral ∧
        value.negative=numeral.negative := by
  refine ⟨_,parseFiniteDecimal_eq strtod (by omega),fun value => ?_⟩
  rw [Option.bind_eq_some_iff]
  refine exists_congr (fun numeral => ?_)
  rw [Numeral.read_eq_some]
  refine and_congr_right (fun hspelled => ?_)
  rw [converted_iff h (by rwa [hspelled])]
  refine and_congr_right (fun _ => ⟨fun hv => ⟨hv,?_⟩,fun hv => hv.1⟩)
  rw [hv,rounded_negative]

/-- It holds of a numeral with a point and an exponent. -/
theorem parseFiniteDecimal_exact_twentieth :
    ∃ found,parseFiniteDecimal exactStrtod "-5.E-2"=.ok found ∧ ∀ value,found=some value ↔
      ∃ numeral : Numeral,numeral.spelled=text "-5.E-2" ∧ Representable numeral ∧
        value=rounded numeral ∧ value.negative=numeral.negative :=
  parseFiniteDecimal_exact exactStrtod_correct (by decide)

/-- The sign of a zero is kept, and a marker without digits is rejected. -/
example : parseFiniteDecimal exactStrtod "-0"=.ok (some (Binary.ofPattern true 0)) ∧
    parseFiniteDecimal exactStrtod "1e+"=.ok none := by decide +kernel

end Exactness

end Leann.DecimalScanner
