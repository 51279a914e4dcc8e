import Leann.Numerals
import Leann.Utf8

/-!
# JSON texts

A reader for the grammar of RFC 8259. A text is read as Unicode scalar values.
A string stands for code points: an escape for the one it names, and a pair
of escaped surrogates for the one they encode. A number stands for the
rational number it denotes. Members of an object stay in their order.
-/

namespace Leann.JsonTexts

open Exceptions Numerals Utf8

section Definitions

/-- A value of a JSON text. -/
inductive Json where
  /-- The literal `null`. -/
  | null
  /-- The literals `true` and `false`. -/
  | flag (value : Bool)
  /-- A number. -/
  | number (value : ℚ)
  /-- A string of code points. -/
  | string (points : List ℕ)
  /-- An array. -/
  | array (elements : List Json)
  /-- An object. -/
  | object (members : List (List ℕ×Json))

/-- White space. -/
def isSpace (character : Char) : Bool :=
  character= ' ' ∨ character= '\t' ∨ character= '\n' ∨ character= '\r'

/-- Skip white space. -/
def skip (text : List Char) : List Char := text.dropWhile isSpace

/-- The value of a hexadecimal digit. -/
def hexValue (digit : Char) : Option ℕ :=
  if '0'≤digit ∧ digit≤ '9' then some (digit.toNat-48)
  else if 'a'≤digit ∧ digit≤ 'f' then some (digit.toNat-87)
  else if 'A'≤digit ∧ digit≤ 'F' then some (digit.toNat-55)
  else none

/-- The value of four hexadecimal digits. -/
def hexUnit (first second third fourth : Char) : Option ℕ := do
  return (((← hexValue first)*16+(← hexValue second))*16+(← hexValue third))*16+(← hexValue fourth)

/-- The code point that a letter behind a backslash stands for. -/
def escapedPoint (letter : Char) : Option ℕ :=
  if letter= '"' then some 0x22
  else if letter= '\\' then some 0x5c
  else if letter= '/' then some 0x2f
  else if letter= 'b' then some 0x08
  else if letter= 'f' then some 0x0c
  else if letter= 'n' then some 0x0a
  else if letter= 'r' then some 0x0d
  else if letter= 't' then some 0x09
  else none

/-- What stands behind an opening quotation mark. -/
def readUnits : List Char → Option (List ℕ×List Char)
  | [] => none
  | '"'::rest => some ([],rest)
  | '\\':: 'u'::first::second::third::fourth::rest => do
    let unit ← hexUnit first second third fourth
    let (units,rest) ← readUnits rest
    return (unit::units,rest)
  | '\\'::letter::rest => do
    let point ← escapedPoint letter
    let (units,rest) ← readUnits rest
    return (point::units,rest)
  | character::rest =>
    if character= '\\' ∨ character.toNat<0x20 then none
    else do
      let (units,rest) ← readUnits rest
      return (character.toNat::units,rest)

/-- Put pairs of surrogates together. -/
def joinSurrogates : List ℕ → List ℕ
  | [] => []
  | [unit] => [unit]
  | high::low::units =>
    if (0xd800≤high ∧ high≤0xdbff) ∧ 0xdc00≤low ∧ low≤0xdfff then
      (0x10000+(high-0xd800)*0x400+(low-0xdc00))::joinSurrogates units
    else high::joinSurrogates (low::units)

/-- A string. -/
def readString : List Char → Option (List ℕ×List Char)
  | '"'::rest => (readUnits rest).map (fun found => (joinSurrogates found.1,found.2))
  | _ => none

/-- The characters of numbers. -/
def isNumberCharacter (character : Char) : Bool :=
  character∈['+','-','.','0','1','2','3','4','5','6','7','8','9','e','E']

/-- The numerals that are numbers: no digit is missing, and no zero stands in
front of other digits. -/
def IsNumber (numeral : Numeral) : Prop :=
  numeral.whole.val≠[] ∧ (numeral.whole.val.head?=some 48 → numeral.whole.val=[48]) ∧
    ∀ digits∈numeral.fraction,digits.val≠[]

instance (numeral : Numeral) : Decidable (IsNumber numeral) :=
  match h : numeral.fraction with
  | none => decidable_of_iff (numeral.whole.val≠[] ∧
      (numeral.whole.val.head?=some 48 → numeral.whole.val=[48])) (by simp [IsNumber,h])
  | some digits => decidable_of_iff (numeral.whole.val≠[] ∧
      (numeral.whole.val.head?=some 48 → numeral.whole.val=[48]) ∧ digits.val≠[])
        (by simp [IsNumber,h])

/-- A number, which reaches as far as its characters do. -/
def readNumber (text : List Char) : Option (ℚ×List Char) :=
  match Numeral.read ((text.takeWhile isNumberCharacter).map (fun digit => UInt8.ofNat digit.toNat)) with
  | none => none
  | some numeral =>
    if IsNumber numeral then some (numeral.denoted,text.dropWhile isNumberCharacter) else none

/-- The literals. -/
def readLiteral (text : List Char) : Option (Json×List Char) :=
  match text with
  | 't':: 'r':: 'u':: 'e'::rest => some (.flag true,rest)
  | 'f':: 'a':: 'l':: 's':: 'e'::rest => some (.flag false,rest)
  | 'n':: 'u':: 'l':: 'l'::rest => some (.null,rest)
  | _ => none

mutual

/-- A value at the front of a text. The first argument bounds the nesting
and the number of members. -/
def readValue : ℕ → List Char → Option (Json×List Char)
  | 0,_ => none
  | fuel+1,'{'::text =>
    match skip text with
    | '}'::rest => some (.object [],rest)
    | text => (readMembers fuel text).map (fun found => (.object found.1,found.2))
  | fuel+1,'['::text =>
    match skip text with
    | ']'::rest => some (.array [],rest)
    | text => (readElements fuel text).map (fun found => (.array found.1,found.2))
  | _+1,'"'::text => (readString ('"'::text)).map (fun found => (.string found.1,found.2))
  | _+1,text =>
    match readLiteral text with
    | some found => some found
    | none => (readNumber text).map (fun found => (.number found.1,found.2))

/-- The members of an object, at least one, and its closing brace. -/
def readMembers : ℕ → List Char → Option (List (List ℕ×Json)×List Char)
  | 0,_ => none
  | fuel+1,text => do
    let (key,text) ← readString text
    match skip text with
    | ':'::text => do
      let (value,text) ← readValue fuel (skip text)
      match skip text with
      | ','::text => do
        let (members,text) ← readMembers fuel (skip text)
        return ((key,value)::members,text)
      | '}'::text => return ([(key,value)],text)
      | _ => none
    | _ => none

/-- The elements of an array, at least one, and its closing bracket. -/
def readElements : ℕ → List Char → Option (List Json×List Char)
  | 0,_ => none
  | fuel+1,text => do
    let (value,text) ← readValue fuel text
    match skip text with
    | ','::text => do
      let (elements,text) ← readElements fuel (skip text)
      return (value::elements,text)
    | ']'::text => return ([value],text)
    | _ => none

end

/-- The value of a JSON text. -/
def readJson (text : List Char) : Option Json :=
  match readValue (text.length+1) (skip text) with
  | some (value,rest) => if skip rest=[] then some value else none
  | none => none

/-- A text of bytes is the JSON text of a value: it is UTF-8, and the scalar
values it encodes are read as this value. -/
def Parses (bytes : Text) (value : Json) : Prop :=
  ∃ points,encode points=bytes ∧ readJson points=some value

end Definitions

section Reading

/-- A text is the JSON text of one value at most. -/
theorem Parses.unique {bytes : Text} {value other : Json} (h : Parses bytes value)
    (h' : Parses bytes other) : value=other := by
  obtain ⟨points,hpoints,hvalue⟩ := h
  obtain ⟨points',hpoints',hother⟩ := h'
  rw [encode_injective (hpoints.trans hpoints'.symm),hother,Option.some.injEq] at hvalue
  exact hvalue.symm

/-- White space in front is skipped. -/
theorem skip_append {spaces : List Char} (h : ∀ space∈spaces,isSpace space) (text : List Char) :
    skip (spaces++text)=skip text := List.dropWhile_append_of_pos h

/-- Nothing else is. -/
theorem skip_cons {character : Char} (h : isSpace character=false) (text : List Char) :
    skip (character::text)=character::text := by
  rw [skip,List.dropWhile_cons_of_neg (by rw [h]; exact Bool.false_ne_true)]

/-- Code points that are no surrogates stay as they are. -/
theorem joinSurrogates_eq {points : List ℕ} (h : ∀ point∈points,¬(0xd800≤point ∧ point≤0xdbff)) :
    joinSurrogates points=points := by
  induction points with
  | nil => rfl
  | cons point points ih =>
    rw [List.forall_mem_cons] at h
    cases points with
    | nil => rfl
    | cons next points =>
      rw [joinSurrogates,if_neg (fun hboth => h.1 hboth.1),ih h.2]

/-- A scalar value is no surrogate. -/
theorem scalar_plain (character : Char) : ¬(0xd800≤ character.toNat ∧ character.toNat≤0xdbff) := by
  have hvalid := character.valid
  have hval : character.val.toNat=character.toNat := rfl
  rw [UInt32.isValidChar,Nat.isValidChar,hval] at hvalid
  omega

/-- A number that nothing of a number follows. -/
theorem readNumber_append {digits rest : List Char} {numeral : Numeral}
    (hdigits : ∀ digit∈digits,isNumberCharacter digit)
    (hspelled : numeral.spelled=digits.map (fun digit => UInt8.ofNat digit.toNat))
    (hnumber : IsNumber numeral) (hrest : ∀ next∈rest.head?,isNumberCharacter next=false) :
    readNumber (digits++rest)=some (numeral.denoted,rest) := by
  have htake : rest.takeWhile isNumberCharacter=[] := by
    cases rest with
    | nil => rfl
    | cons next rest => exact List.takeWhile_cons_of_neg (by rw [hrest next rfl]; exact Bool.false_ne_true)
  have hdrop : rest.dropWhile isNumberCharacter=rest := by
    cases rest with
    | nil => rfl
    | cons next rest => exact List.dropWhile_cons_of_neg (by rw [hrest next rfl]; exact Bool.false_ne_true)
  rw [readNumber,List.takeWhile_append_of_pos hdigits,htake,List.append_nil,←hspelled,
    Numeral.read_spelled,List.dropWhile_append_of_pos hdigits,hdrop]
  exact if_pos hnumber

end Reading

end Leann.JsonTexts
