import Leann.JsonStream
import Leann.JsonTexts

/-!
# Strings and numbers in JSON output

A string is escaped byte by byte, which escapes the characters it encodes and
is read as these again. A number is written as a numeral that denotes it.
-/

namespace Leann.JsonScalars

open BinaryFloat Exceptions Numerals Utf8 JsonTexts LockOwner

open JsonStream (fixedPlaces fixedUnits paddedText fixedText)

open StructuredOutput (escape)

section Values

/-- The code points that a text encodes. -/
def points (value : Text) : List Char := (value.toByteArray.utf8Decode?.getD #[]).toList

/-- A text is well-formed UTF-8. -/
def WellFormed (value : Text) : Prop := ∃ characters,encode characters=value

/-- A value without parts. -/
inductive Scalar where
  /-- A string. -/
  | string (value : Text)
  /-- An unsigned integer. -/
  | unsigned (value : UInt64)
  /-- A flag. -/
  | flag (value : Bool)
  /-- A float with a precision. -/
  | fixed (value : Double) (precision : ℤ)

/-- The number that a float in fixed notation denotes. -/
def printed (value : Double) (precision : ℤ) : ℚ :=
  (if value.negative then -1 else 1)*(fixedUnits value precision/10^fixedPlaces precision)

/-- The code points of a string as numbers. -/
def codePoints (value : Text) : List ℕ := (points value).map Char.toNat

/-- The value of a field. -/
def Scalar.json : Scalar → Json
  | .string value => .string (codePoints value)
  | .unsigned value => .number value.toNat
  | .flag value => .flag value
  | .fixed value precision => .number (printed value precision)

end Values

section Strings

/-- The code points of an encoded text are those it was made of. -/
theorem points_encode (characters : List Char) : points (encode characters)=characters := by
  have hdecoded : (encode characters).toByteArray.utf8Decode?=some characters.toArray :=
    List.utf8Decode?_utf8Encode
  rw [points,hdecoded]
  rfl

theorem encode_points {value : Text} (h : WellFormed value) : encode (points value)=value := by
  obtain ⟨characters,hvalue⟩ := h
  rw [←hvalue,points_encode]

theorem encode_append (first second : List Char) :
    encode (first++second)=encode first++encode second := List.flatMap_append

/-- A hexadecimal digit. -/
def hexCharacter (value : ℕ) : Char := Char.ofNat (if value<10 then 48+value else 87+value)

/-- How a character of a string is written. -/
def escapeCharacter (character : Char) : List Char :=
  if character= '"' then ['\\','"']
  else if character= '\\' then ['\\','\\']
  else if character= '\n' then ['\\','n']
  else if character= '\r' then ['\\','r']
  else if character= '\t' then ['\\','t']
  else if character.toNat=8 then ['\\','b']
  else if character.toNat=12 then ['\\','f']
  else if character.toNat<0x20 then
    ['\\','u','0','0',hexCharacter (character.toNat/16),hexCharacter (character.toNat%16)]
  else [character]

/-- What holds of the characters of ASCII. -/
theorem forall_ascii (property : Char → Prop) (h : ∀ value<128,property (Char.ofNat value))
    {character : Char} (hc : character.toNat<128) : property character := by
  have hone := h character.toNat hc
  rwa [Char.ofNat_toNat] at hone

/-- Only bytes beyond ASCII encode a character beyond it. -/
theorem encodeChar_high {character : Char} (hc : 128≤ character.toNat) :
    ∀ byte∈String.utf8EncodeChar character,0x80≤byte.toNat := by
  have hvalid : character.val.toNat<0xd800 ∨ 0xdfff<character.val.toNat ∧ character.val.toNat<0x110000 :=
    character.valid
  have hlarge : 128≤ character.val.toNat := hc
  have hbyte (number : ℕ) (h : number<256) : (UInt8.ofNat number).toNat=number :=
    UInt8.toNat_ofNat_of_lt' h
  intro byte hmem
  rw [String.utf8EncodeChar] at hmem
  generalize character.val.toNat=value at hmem hvalid hlarge
  split at hmem
  · omega
  · split at hmem
    · simp only [List.mem_cons,List.not_mem_nil,or_false] at hmem
      rcases hmem with hmem | hmem <;> (rw [hmem,hbyte _ (by omega)]; omega)
    · split at hmem
      · simp only [List.mem_cons,List.not_mem_nil,or_false] at hmem
        rcases hmem with hmem | hmem | hmem <;> (rw [hmem,hbyte _ (by omega)]; omega)
      · simp only [List.mem_cons,List.not_mem_nil,or_false] at hmem
        rcases hmem with hmem | hmem | hmem | hmem <;> (rw [hmem,hbyte _ (by omega)]; omega)

/-- A byte beyond ASCII is written as it is. -/
theorem escape_high (byte : UInt8) : 0x80≤byte.toNat → escape byte=[byte] := by
  revert byte
  apply forall_byte
  decide +kernel

/-- Characters are escaped byte by byte. -/
theorem escape_encodeChar (character : Char) :
    (String.utf8EncodeChar character).flatMap escape=encode (escapeCharacter character) := by
  by_cases hc : character.toNat<128
  · revert hc
    refine forall_ascii (fun character =>
      (String.utf8EncodeChar character).flatMap escape=encode (escapeCharacter character)) ?_
    decide +kernel
  · have hplain : escapeCharacter character=[character] := by
      have hne : ∀ other : Char,other.toNat<128 → character≠other :=
        fun other ho he => hc (he ▸ ho)
      unfold escapeCharacter
      rw [if_neg (hne _ (by decide)),if_neg (hne _ (by decide)),if_neg (hne _ (by decide)),
        if_neg (hne _ (by decide)),if_neg (hne _ (by decide)),if_neg (by omega),if_neg (by omega),
        if_neg (by omega)]
    rw [hplain,encode,List.flatMap_singleton]
    have hbytes := encodeChar_high (not_lt.mp hc)
    generalize String.utf8EncodeChar character=bytes at hbytes
    induction bytes with
    | nil => rfl
    | cons byte bytes ih =>
      rw [List.forall_mem_cons] at hbytes
      rw [List.flatMap_cons,escape_high byte hbytes.1,ih hbytes.2]
      rfl

/-- A string is escaped. -/
theorem escape_encode (characters : List Char) :
    (encode characters).flatMap escape=encode (characters.flatMap escapeCharacter) := by
  induction characters with
  | nil => rfl
  | cons character characters ih =>
    rw [List.flatMap_cons,encode_append,←ih,←escape_encodeChar,encode,encode,List.flatMap_cons,
      List.flatMap_append]

/-- How a string is written. -/
def quoted (value : Text) : List Char := '"'::(points value).flatMap escapeCharacter++['"']

/-- The digits of a control character name it. -/
theorem hexUnit_control {character : Char} (h : character.toNat<128) :
    character.toNat<0x20 → hexUnit '0' '0' (hexCharacter (character.toNat/16))
      (hexCharacter (character.toNat%16))=some character.toNat := by
  revert h
  refine forall_ascii (fun character => character.toNat<0x20 → hexUnit '0' '0'
    (hexCharacter (character.toNat/16)) (hexCharacter (character.toNat%16))=
      some character.toNat) ?_
  decide +kernel

/-- A letter behind a backslash is read as its code point. -/
theorem readUnits_letter {letter : Char} {point : ℕ} (h : escapedPoint letter=some point)
    (hu : letter≠ 'u') (text : List Char) :
    readUnits ('\\'::letter::text)=
      (readUnits text).map (fun found => (point::found.1,found.2)) := by
  rw [readUnits.eq_4 _ _ (fun _ _ _ _ _ hletter => (hu hletter).elim),h]
  cases readUnits text <;> rfl

/-- Any other character is read as itself. -/
theorem readUnits_plain {character : Char} (hquote : character≠ '"') (hslash : character≠ '\\')
    (hcontrol : ¬character.toNat<0x20) (text : List Char) :
    readUnits (character::text)=
      (readUnits text).map (fun found => (character.toNat::found.1,found.2)) := by
  rw [readUnits.eq_5 _ _ hquote (fun _ _ _ _ _ hc => (hslash hc).elim)
    (fun _ _ hc => (hslash hc).elim),if_neg (not_or.mpr ⟨hslash,hcontrol⟩)]
  cases readUnits text <;> rfl

/-- An escaped character is read as the character. -/
theorem readUnits_escaped (character : Char) (text : List Char) :
    readUnits (escapeCharacter character++text)=
      (readUnits text).map (fun found => (character.toNat::found.1,found.2)) := by
  unfold escapeCharacter
  split_ifs with hquote hslash hline hreturn htab hback hfeed hcontrol
  · rw [hquote]
    exact readUnits_letter rfl (by decide) text
  · rw [hslash]
    exact readUnits_letter rfl (by decide) text
  · rw [hline]
    exact readUnits_letter rfl (by decide) text
  · rw [hreturn]
    exact readUnits_letter rfl (by decide) text
  · rw [htab]
    exact readUnits_letter rfl (by decide) text
  · rw [hback]
    exact readUnits_letter rfl (by decide) text
  · rw [hfeed]
    exact readUnits_letter rfl (by decide) text
  · have hunit := hexUnit_control (by omega) hcontrol
    change readUnits ('\\':: 'u':: '0':: '0'::_::_::text)=_
    rw [readUnits.eq_3,hunit]
    cases readUnits text <;> rfl
  · exact readUnits_plain hquote hslash hcontrol text

/-- So are the characters of a string. -/
theorem readUnits_string (characters rest : List Char) :
    readUnits (characters.flatMap escapeCharacter++ '"'::rest)=
      some (characters.map Char.toNat,rest) := by
  induction characters with
  | nil => rfl
  | cons character characters ih =>
    rw [List.flatMap_cons,List.append_assoc,readUnits_escaped,ih]
    rfl

/-- A written string is read as its code points. -/
theorem readString_quoted (value : Text) (rest : List Char) :
    readString (quoted value++rest)=some (codePoints value,rest) := by
  have hplain : ∀ point∈codePoints value,¬(0xd800≤point ∧ point≤0xdbff) := by
    intro point hp
    obtain ⟨character,_,hcharacter⟩ := List.mem_map.mp hp
    rw [←hcharacter]
    exact scalar_plain character
  rw [quoted,List.append_assoc,List.cons_append,List.singleton_append,readString,readUnits_string,
    Option.map_some]
  exact congrArg (fun points => some (points,rest)) (joinSurrogates_eq hplain)

end Strings

section Numbers

/-- A written number has as many digits as it needs. -/
theorem toText_length_le (value : ℕ) {places : ℕ} (hp : 0<places) :
    (toText value).length≤places ↔ value<10^places := by
  rw [toText_eq,List.length_map,Nat.length_toDigits_le_iff (by decide) hp]

/-- No zero stands in front of the other digits. -/
theorem toText_leading {value : ℕ} (h : (toText value).head?=some 48) : toText value=[48] := by
  obtain ⟨rest,hrest⟩ := List.head?_eq_some_iff.mp h
  have hvalue := decimalValue_toText value
  have hdigits : ∀ byte∈rest,IsDigit byte := fun byte hb =>
    toText_digit value byte (hrest ▸ List.mem_cons_of_mem _ hb)
  have hlength := @toText_length_le value rest.length
  rw [hrest,List.length_cons] at hlength
  have hzero : decimalValue (48::rest)=decimalValue rest := rfl
  have hlt : decimalValue rest<10^rest.length := decimalValue_lt ⟨rest,hdigits⟩
  rw [hrest,hzero] at hvalue
  rw [hvalue] at hlt
  cases rest with
  | nil => exact hrest
  | cons byte rest =>
    have hshort := (hlength (Nat.succ_pos _)).mpr hlt
    omega

/-- Zeros in front of digits do not change their number. -/
theorem decimalValue_zeros (count : ℕ) (digits : Text) :
    decimalValue (List.replicate count 48++digits)=decimalValue digits := by
  induction count with
  | zero => rfl
  | succ count ih => exact ih

/-- A padded number has the digits that are asked for. -/
theorem paddedText_length {places value : ℕ} (hp : 0<places) (h : value<10^places) :
    (paddedText places value).length=places := by
  have hle := (toText_length_le value hp).mpr h
  rw [paddedText,List.length_append,List.length_replicate]
  omega

theorem paddedText_digit (places value : ℕ) : ∀ byte∈paddedText places value,IsDigit byte := by
  intro byte hb
  rcases List.mem_append.mp hb with hzero | hdigit
  · rw [List.eq_of_mem_replicate hzero]
    decide
  · exact toText_digit value byte hdigit

/-- The numeral of a float in fixed notation. -/
def fixedNumeral (value : Double) (precision : ℤ) : Numeral where
  negative := value.negative
  whole := written (fixedUnits value precision/10^fixedPlaces precision)
  fraction :=
    if fixedPlaces precision=0 then none
    else some ⟨paddedText (fixedPlaces precision)
      (fixedUnits value precision%10^fixedPlaces precision),paddedText_digit _ _⟩
  exponent := none
  some_digit := Or.inl (toText_ne_nil _)

/-- It is spelled as the float is written. -/
theorem fixedNumeral_spelled (value : Double) (precision : ℤ) :
    (fixedNumeral value precision).spelled=fixedText value precision := by
  by_cases hp : fixedPlaces precision=0
  · simp [Numeral.spelled,fixedNumeral,fixedText,hp,Numeral.fractionSpelled,Numeral.exponentSpelled,
      written,minus]
  · simp [Numeral.spelled,fixedNumeral,fixedText,hp,Numeral.fractionSpelled,Numeral.exponentSpelled,
      written,minus,point]

/-- It is a number. -/
theorem fixedNumeral_isNumber (value : Double) (precision : ℤ) :
    IsNumber (fixedNumeral value precision) := by
  refine ⟨toText_ne_nil _,toText_leading,fun digits hd => ?_⟩
  by_cases hp : fixedPlaces precision=0
  · simp [fixedNumeral,hp] at hd
  · have hlength := paddedText_length (Nat.pos_of_ne_zero hp)
      (Nat.mod_lt (fixedUnits value precision) (pow_pos (by decide : 0<10) (fixedPlaces precision)))
    simp only [fixedNumeral,if_neg hp,Option.mem_def,Option.some.injEq] at hd
    rw [←hd]
    exact List.ne_nil_of_length_eq_add_one (hlength.trans (Nat.succ_pred hp).symm)

/-- It denotes the number that is printed. -/
theorem fixedNumeral_denoted (value : Double) (precision : ℤ) :
    (fixedNumeral value precision).denoted=printed value precision := by
  have hmagnitude : (fixedNumeral value precision).magnitude=
      fixedUnits value precision/10^fixedPlaces precision := by
    by_cases hp : fixedPlaces precision=0
    · have hnone : decimalValue noDigits.val=0 := rfl
      simp [Numeral.magnitude,Numeral.fractionDigits,Numeral.power,fixedNumeral,hp,written,
        decimalValue_toText,hnone]
    · have hpower : (0 : ℚ)<10^fixedPlaces precision := by positivity
      have hsplit := Nat.div_add_mod (fixedUnits value precision) (10^fixedPlaces precision)
      have hlength := paddedText_length (Nat.pos_of_ne_zero hp)
        (Nat.mod_lt (fixedUnits value precision) (pow_pos (by decide : 0<10) (fixedPlaces precision)))
      simp only [Numeral.magnitude,Numeral.fractionDigits,Numeral.power,fixedNumeral,if_neg hp,written,
        Option.getD_some,Option.map_none,Option.getD_none,decimalValue_toText,hlength,
        zpow_zero,mul_one]
      rw [paddedText,decimalValue_zeros,decimalValue_toText,eq_div_iff hpower.ne',add_mul,
        div_mul_cancel₀ _ hpower.ne',mul_comm]
      exact_mod_cast hsplit
  rw [Numeral.denoted,printed,hmagnitude]
  change (if value.negative=true then _ else _)=_
  split <;> ring

end Numbers

section Scalars

/-- The characters of a text of ASCII. -/
def characters (bytes : Text) : List Char := bytes.map (fun byte => Char.ofNat byte.toNat)

/-- They are encoded as the text. -/
theorem encode_characters {bytes : Text} (h : ∀ byte∈bytes,byte.toNat<128) :
    encode (characters bytes)=bytes := by
  have hone (byte : UInt8) : byte.toNat<128 →
      String.utf8EncodeChar (Char.ofNat byte.toNat)=[byte] := by
    revert byte
    apply forall_byte
    decide +kernel
  induction bytes with
  | nil => rfl
  | cons byte bytes ih =>
    rw [List.forall_mem_cons] at h
    change String.utf8EncodeChar _++encode (characters bytes)=_
    rw [hone byte h.1,ih h.2]
    rfl

/-- Their numbers are the bytes of the text. -/
theorem characters_bytes (bytes : Text) :
    (characters bytes).map (fun digit => UInt8.ofNat digit.toNat)=bytes := by
  have hone (byte : UInt8) : UInt8.ofNat (Char.ofNat byte.toNat).toNat=byte := by
    revert byte
    apply forall_byte
    decide +kernel
  rw [characters,List.map_map]
  exact List.map_id'' hone bytes

/-- The bytes of the numbers that are written. -/
def IsNumberByte (byte : UInt8) : Prop := byte=45 ∨ byte=46 ∨ IsDigit byte

instance (byte : UInt8) : Decidable (IsNumberByte byte) := inferInstanceAs (Decidable (_∨_))

/-- They are characters of numbers. -/
theorem isNumberCharacter_byte (byte : UInt8) : IsNumberByte byte →
    byte.toNat<128 ∧ isNumberCharacter (Char.ofNat byte.toNat)=true := by
  revert byte
  apply forall_byte
  decide +kernel

/-- A float is written with them. -/
theorem fixedText_bytes (value : Double) (precision : ℤ) :
    ∀ byte∈fixedText value precision,IsNumberByte byte := by
  intro byte hb
  unfold fixedText at hb
  dsimp only at hb
  rcases List.mem_append.mp hb with hfront | hfraction
  · rcases List.mem_append.mp hfront with hsign | hwhole
    · split at hsign
      · exact Or.inl (List.mem_singleton.mp hsign)
      · cases hsign
    · exact Or.inr (Or.inr (toText_digit _ byte hwhole))
  · split at hfraction
    · cases hfraction
    · rcases List.mem_cons.mp hfraction with hpoint | hdigit
      · exact Or.inr (Or.inl hpoint)
      · exact Or.inr (Or.inr (paddedText_digit _ _ byte hdigit))

/-- How a value is written. -/
def Scalar.text : Scalar → List Char
  | .string value => quoted value
  | .unsigned value => characters (toText value.toNat)
  | .flag value => if value then ['t','r','u','e'] else ['f','a','l','s','e']
  | .fixed value precision => characters (fixedText value precision)

/-- A character of a number begins nothing else. -/
theorem readValue_digit {first : Char} (h : isNumberCharacter first=true) (fuel : ℕ)
    (rest : List Char) : readValue (fuel+1) (first::rest)=
      (readNumber (first::rest)).map (fun found => (.number found.1,found.2)) := by
  have hother {other : Char} {back back' : List Char} (ho : isNumberCharacter other=false)
      (he : first::back=other::back') : False := by
    rw [(List.cons.inj he).1,ho] at h
    cases h
  have hliteral : readLiteral (first::rest)=none :=
    readLiteral.eq_4 _ (fun _ => hother rfl) (fun _ => hother rfl) (fun _ => hother rfl)
  rw [readValue.eq_5 _ _ (fun _ => hother rfl) (fun _ => hother rfl) (fun _ => hother rfl),hliteral]

/-- A written numeral is read as its number. -/
theorem readValue_numeral {numeral : Numeral} {bytes : Text} (hspelled : numeral.spelled=bytes)
    (hnumber : IsNumber numeral) (hbytes : ∀ byte∈bytes,IsNumberByte byte) (fuel : ℕ)
    {rest : List Char} (hrest : ∀ next∈rest.head?,isNumberCharacter next=false) :
    readValue (fuel+1) (characters bytes++rest)=some (.number numeral.denoted,rest) := by
  have hdigits : ∀ digit∈characters bytes,isNumberCharacter digit=true := by
    intro digit hd
    obtain ⟨byte,hb,hdigit⟩ := List.mem_map.mp hd
    exact hdigit ▸ (isNumberCharacter_byte byte (hbytes byte hb)).2
  have hread := readNumber_append hdigits (hspelled.trans (characters_bytes bytes).symm) hnumber hrest
  cases hchars : characters bytes with
  | nil =>
    have hempty : bytes=[] := List.map_eq_nil_iff.mp hchars
    rw [hempty,Numeral.spelled] at hspelled
    simp only [List.append_eq_nil_iff] at hspelled
    exact (hnumber.1 hspelled.1.1.2).elim
  | cons first digits =>
    rw [hchars] at hdigits hread
    rw [List.cons_append] at hread ⊢
    rw [readValue_digit (hdigits first List.mem_cons_self),hread]
    rfl

/-- A written value is read as itself. -/
theorem readValue_scalar (value : Scalar) (fuel : ℕ) {rest : List Char}
    (hrest : ∀ next∈rest.head?,isNumberCharacter next=false) :
    readValue (fuel+1) (value.text++rest)=some (value.json,rest) := by
  cases value with
  | string value =>
    change (readString (quoted value++rest)).map _=_
    rw [readString_quoted]
    rfl
  | unsigned value =>
    have hbytes : ∀ byte∈toText value.toNat,IsNumberByte byte := fun byte hb =>
      Or.inr (Or.inr (toText_digit _ byte hb))
    have hspelled : Numeral.spelled ⟨false,written value.toNat,none,none,Or.inl (toText_ne_nil _)⟩=
        toText value.toNat := by
      simp [Numeral.spelled,Numeral.fractionSpelled,Numeral.exponentSpelled,written]
    have hnumber : IsNumber ⟨false,written value.toNat,none,none,Or.inl (toText_ne_nil _)⟩ :=
      ⟨toText_ne_nil _,toText_leading,fun _ hd => nomatch hd⟩
    have hdenoted : Numeral.denoted ⟨false,written value.toNat,none,none,Or.inl (toText_ne_nil _)⟩=
        value.toNat := by
      have hnone : decimalValue noDigits.val=0 := rfl
      simp [Numeral.denoted,Numeral.magnitude,Numeral.fractionDigits,Numeral.power,written,
        decimalValue_toText,hnone]
    have hread := readValue_numeral hspelled hnumber hbytes fuel hrest
    rw [hdenoted] at hread
    exact hread
  | flag value => cases value <;> rfl
  | fixed value precision =>
    have hread := readValue_numeral (fixedNumeral_spelled value precision)
      (fixedNumeral_isNumber value precision) (fixedText_bytes value precision) fuel hrest
    rw [fixedNumeral_denoted] at hread
    exact hread

end Scalars

end Leann.JsonScalars
