import Leann.Exceptions

/-!
# Structured output

A JSON document is written into a buffer that is forwarded once it is
complete. Strings are arbitrary bytes, and a string that is no UTF-8 is
refused. Nothing else can go wrong.
-/

namespace Leann.StructuredOutput

open Exceptions

section Utf8

/-- `utf8_sequence_length`. -/
def utf8SequenceLength (lead : UInt8) : ℕ :=
  if lead<0x80 then 1
  else if lead &&& 0xe0=0xc0 then 2
  else if lead &&& 0xf0=0xe0 then 3
  else if lead &&& 0xf8=0xf0 then 4
  else 0

/-- What the first byte of a sequence says of its code point. -/
def leadBits (length : ℕ) (lead : UInt8) : ℕ :=
  (if length=1 then lead
    else if length=2 then lead &&& 0x1f
    else if length=3 then lead &&& 0x0f
    else lead &&& 0x07).toNat

/-- The loop over the other bytes. -/
def continueSequence (codePoint : ℕ) : Text → Option ℕ
  | [] => some codePoint
  | byte::rest =>
    if byte &&& 0xc0≠0x80 then none
    else continueSequence (codePoint<<<6 ||| (byte &&& 0x3f).toNat) rest

/-- The least code point of a sequence of this length. -/
def sequenceMinimum : ℕ → ℕ
  | 2 => 0x80
  | 3 => 0x800
  | 4 => 0x10000
  | _ => 0

/-- One round of the loop of `is_valid_utf8`. -/
def isValidSequence (length : ℕ) (lead : UInt8) (continuation : Text) : Bool :=
  match continueSequence (leadBits length lead) continuation with
  | none => false
  | some codePoint =>
    ¬(codePoint<sequenceMinimum length ∨ 0x10ffff<codePoint ∨ 0xd800≤ codePoint ∧ codePoint≤0xdfff)

/-- `is_valid_utf8`. -/
def isValidUtf8 : Text → Bool
  | [] => true
  | lead::rest =>
    let length := utf8SequenceLength lead
    if length=0 ∨ rest.length+1<length then false
    else isValidSequence length lead (rest.take (length-1)) && isValidUtf8 (rest.drop (length-1))
termination_by value => value.length
decreasing_by
  rw [List.length_drop,List.length_cons]
  omega

/-- What stands behind a valid text decides. -/
theorem isValidUtf8_append {front : Text} (h : isValidUtf8 front=true) (rest : Text) :
    isValidUtf8 (front++rest)=isValidUtf8 rest := by
  induction front using isValidUtf8.induct with
  | case1 => rfl
  | case2 lead others length hlength =>
    rw [isValidUtf8,if_pos hlength] at h
    cases h
  | case3 lead others length hlength ih =>
    rw [isValidUtf8,if_neg hlength,Bool.and_eq_true] at h
    obtain ⟨hzero,hlong⟩ := not_or.mp hlength
    have hfits : length-1≤others.length := by omega
    have hlength' : ¬(length=0 ∨ (others++rest).length+1<length) := by
      rw [List.length_append]
      omega
    rw [List.cons_append,isValidUtf8,if_neg hlength',List.take_append_of_le_length hfits,
      List.drop_append_of_le_length hfits,ih h.2,h.1,Bool.true_and]

/-- The bytes of ASCII. -/
def IsAscii (value : Text) : Prop := ∀ byte∈value,byte<0x80

instance (value : Text) : Decidable (IsAscii value) := inferInstanceAs (Decidable (∀ _∈_,_))

/-- They are valid. -/
theorem isValidUtf8_ascii {value : Text} (h : IsAscii value) : isValidUtf8 value=true := by
  induction value with
  | nil => rw [isValidUtf8]
  | cons byte value ih =>
    have hone : isValidUtf8 [byte]=true := by
      have hlead : utf8SequenceLength byte=1 := if_pos (h byte List.mem_cons_self)
      have hbyte : byte.toNat<128 := UInt8.lt_iff_toNat_lt.mp (h byte List.mem_cons_self)
      have hcheck : isValidSequence 1 byte []=true := by
        unfold isValidSequence continueSequence leadBits sequenceMinimum
        simp only [if_true,decide_eq_true_eq]
        omega
      rw [isValidUtf8,hlead,if_neg (by decide),List.take_nil,hcheck,List.drop_nil,isValidUtf8]
      rfl
    have hrest := isValidUtf8_append hone value
    rw [List.singleton_append] at hrest
    exact hrest.trans (ih (fun other ho => h other (List.mem_cons_of_mem _ ho)))

/-- Behind a valid text, ASCII changes nothing. -/
theorem isValidUtf8_append_ascii {rest : Text} (h : IsAscii rest) (front : Text)
    (valid : isValidUtf8 front=true) : isValidUtf8 (front++rest)=true :=
  (isValidUtf8_append valid rest).trans (isValidUtf8_ascii h)

end Utf8

section Writer

/-- `JsonWriter`, with the top of its stack in front. The depth is the
height of the stack. -/
structure JsonWriter where
  /-- The buffer. -/
  output : Text := []
  /-- `first_`. -/
  first : List Bool := []

/-- A piece of a document. -/
abbrev Writing := StateT JsonWriter (Except Fault) Unit

/-- `operator<<`. -/
def emit (bytes : Text) : Writing := modify (fun writer => {writer with output := writer.output++bytes})

/-- `newline`. -/
def newline : Writing := do
  emit "\n"
  emit (List.replicate ((← get).first.length*2) 32)

/-- `separate`. -/
def separate : Writing := do
  match (← get).first with
  | [] => return
  | first::rest =>
    if first=false then emit ","
    modify (fun writer => {writer with first := false::rest})
    newline

/-- `push`. -/
def push : Writing := modify (fun writer => {writer with first := true::writer.first})

/-- `pop`. -/
def pop : Writing := do
  match (← get).first with
  | [] => return
  | empty::rest =>
    modify (fun writer => {writer with first := rest})
    if empty=false then newline

/-- `std::hex` of one digit. -/
def hexDigit (value : UInt8) : UInt8 := if value<10 then 48+value else 87+value

/-- How a byte of a string is written. -/
def escape (byte : UInt8) : Text :=
  if byte=34 then "\\\""
  else if byte=92 then "\\\\"
  else if byte=10 then "\\n"
  else if byte=13 then "\\r"
  else if byte=9 then "\\t"
  else if byte=8 then "\\b"
  else if byte=12 then "\\f"
  else if byte<0x20 then text "\\u00"++[hexDigit (byte>>>4),hexDigit (byte &&& 0x0f)]
  else [byte]

/-- `write_string`. -/
def writeString (value context : Text) : Writing := do
  if isValidUtf8 value=false then
    throw (.thrown (runtimeError
      ("cannot emit JSON for "++context++": value is not valid UTF-8; use --format text")))
  emit "\""
  emit (value.flatMap escape)
  emit "\""

/-- `write_key`. -/
def writeKey (key : Text) : Writing := do
  separate
  writeString key key
  emit ": "

/-- `begin_object` and `begin_element`. -/
def beginObject : Writing := do
  separate
  emit "\x7b"
  push

/-- `end_object`. -/
def endObject : Writing := do
  pop
  emit "\x7d"
  if (← get).first=[] then emit "\n"

/-- `begin_array`. -/
def beginArray (key : Text) : Writing := do
  writeKey key
  emit "["
  push

/-- `end_array`. -/
def endArray : Writing := do
  pop
  emit "]"

/-- `field` with a string. -/
def fieldString (key value : Text) : Writing := do
  writeKey key
  writeString value key

/-- `field` with a number. -/
def fieldNumber (key : Text) (value : ℕ) : Writing := do
  writeKey key
  emit (toText value)

/-- `field` with a flag. -/
def fieldFlag (key : Text) (value : Bool) : Writing := do
  writeKey key
  emit (if value then "true" else "false")

/-- `JsonDocument`. -/
def jsonDocument (writing : Writing) : Except Fault Text :=
  (writing.run {}).map (fun result => result.2.output)

end Writer

section Acceptance

/-- From any state, a piece of a document is written if and only if a condition holds. -/
def Accepts (writing : Writing) (condition : Prop) : Prop :=
  ∀ writer,(∃ after,writing.run writer=.ok ((),after)) ↔ condition

/-- Then the document is complete if and only if it holds. -/
theorem Accepts.document {writing : Writing} {condition : Prop} (h : Accepts writing condition) :
    (∃ output,jsonDocument writing=.ok output) ↔ condition := by
  rw [←h {}]
  unfold jsonDocument
  cases hrun : writing.run {} with
  | error fault => simp [Except.map]
  | ok result =>
    obtain ⟨_,after⟩ := result
    simp [Except.map]

/-- One piece behind another. -/
theorem Accepts.bind {first second : Writing} {condition condition' : Prop}
    (h : Accepts first condition) (h' : Accepts second condition') :
    Accepts (first>>=fun _ => second) (condition ∧ condition') := by
  intro writer
  rw [←h writer,StateT.run_bind]
  constructor
  · rintro ⟨after,hafter⟩
    obtain ⟨⟨_,middle⟩,hmiddle,hrest⟩ := (bind_eq_ok _ _ _).mp hafter
    exact ⟨⟨middle,hmiddle⟩,(h' middle).mp ⟨after,hrest⟩⟩
  · rintro ⟨⟨middle,hmiddle⟩,hc⟩
    obtain ⟨after,hafter⟩ := (h' middle).mpr hc
    exact ⟨after,(bind_eq_ok _ _ _).mpr ⟨_,hmiddle,hafter⟩⟩

/-- One piece for every item. -/
theorem Accepts.each {α : Type} {items : List α} {writing : α → Writing} {condition : α → Prop}
    (h : ∀ item∈items,Accepts (writing item) (condition item)) :
    Accepts (items.forM writing) (∀ item∈items,condition item) := by
  induction items with
  | nil => exact fun writer => ⟨fun _ item hi => (nomatch hi),fun _ => ⟨writer,rfl⟩⟩
  | cons item items ih =>
    have hall := (h item List.mem_cons_self).bind
      (ih (fun other ho => h other (List.mem_cons_of_mem _ ho)))
    exact fun writer => (hall writer).trans List.forall_mem_cons.symm

/-- What is known to hold may be left out. -/
theorem Accepts.congr {writing : Writing} {condition condition' : Prop} (h : Accepts writing condition)
    (same : condition ↔ condition') : Accepts writing condition' := fun writer => (h writer).trans same

/-- A piece without a string. -/
theorem accepts_always {writing : Writing} (step : JsonWriter → JsonWriter)
    (h : ∀ writer,writing.run writer=.ok ((),step writer)) : Accepts writing True :=
  fun writer => ⟨fun _ => trivial,fun _ => ⟨step writer,h writer⟩⟩

/-- Bytes are written. -/
theorem accepts_emit (bytes : Text) : Accepts (emit bytes) True := accepts_always _ (fun _ => rfl)

/-- A bracket is opened. -/
theorem accepts_push : Accepts push True := accepts_always _ (fun _ => rfl)

/-- A line is ended. -/
theorem accepts_newline : Accepts newline True :=
  accepts_always (fun writer =>
    ⟨writer.output++text "\n"++List.replicate (writer.first.length*2) 32,writer.first⟩) (fun _ => rfl)

/-- Two pieces that are always written. -/
theorem Accepts.both {first second : Writing} (h : Accepts first True) (h' : Accepts second True) :
    Accepts (first>>=fun _ => second) True := (h.bind h').congr (and_self_iff)

/-- A piece that depends on the state. -/
theorem accepts_state {writing : JsonWriter → Writing} {condition : Prop}
    (h : ∀ writer,Accepts (writing writer) condition) : Accepts (get>>=writing) condition :=
  fun writer => h writer writer

/-- Nothing is written. -/
theorem accepts_nothing : Accepts (pure ()) True := accepts_always _ (fun _ => rfl)

/-- A comma and a new line. -/
theorem accepts_separate : Accepts separate True := by
  refine accepts_state (fun writer => ?_)
  cases writer.first with
  | nil => exact accepts_nothing
  | cons first rest =>
    have hrest : Accepts (modify (fun writer => {writer with first := false::rest})>>=fun _ =>
        newline) True := (accepts_always _ (fun _ => rfl)).both accepts_newline
    cases first with
    | false => exact (accepts_emit ",").both hrest
    | true => exact hrest

/-- A bracket is closed. -/
theorem accepts_pop : Accepts pop True := by
  refine accepts_state (fun writer => ?_)
  cases writer.first with
  | nil => exact accepts_nothing
  | cons empty rest =>
    refine (accepts_always _ (fun _ => rfl)).both ?_
    cases empty with
    | false => exact accepts_newline
    | true => exact accepts_nothing

/-- Strings must be valid. -/
theorem accepts_writeString (value context : Text) :
    Accepts (writeString value context) (isValidUtf8 value=true) := by
  intro writer
  cases h : isValidUtf8 value with
  | false =>
    refine ⟨?_,fun hf => nomatch hf⟩
    rintro ⟨after,hafter⟩
    simp [writeString,h,throw,throwThe,MonadExceptOf.throw,StateT.lift,bind,
      StateT.bind,Except.bind,StateT.run] at hafter
  | true =>
    refine ⟨fun _ => rfl,fun _ => ?_⟩
    simp only [writeString,h]
    exact (((accepts_emit _).both ((accepts_emit _).both (accepts_emit _))) writer).mpr trivial

variable (key : Text) (ascii : IsAscii key)

include ascii

/-- The keys are. -/
theorem accepts_writeKey : Accepts (writeKey key) True :=
  accepts_separate.both (((accepts_writeString key key).congr
    (iff_true_intro (isValidUtf8_ascii ascii))).both (accepts_emit _))

/-- A string under a key. -/
theorem accepts_fieldString (value : Text) :
    Accepts (fieldString key value) (isValidUtf8 value=true) :=
  ((accepts_writeKey key ascii).bind (accepts_writeString value key)).congr (Iff.of_eq (true_and _))

/-- A number under a key. -/
theorem accepts_fieldNumber (value : ℕ) : Accepts (fieldNumber key value) True :=
  (accepts_writeKey key ascii).both (accepts_emit _)

/-- A flag under a key. -/
theorem accepts_fieldFlag (value : Bool) : Accepts (fieldFlag key value) True :=
  (accepts_writeKey key ascii).both (accepts_emit _)

/-- An array begins. -/
theorem accepts_beginArray : Accepts (beginArray key) True :=
  (accepts_writeKey key ascii).both ((accepts_emit _).both accepts_push)

omit ascii

/-- An array ends. -/
theorem accepts_endArray : Accepts endArray True := accepts_pop.both (accepts_emit _)

/-- An object begins. -/
theorem accepts_beginObject : Accepts beginObject True :=
  accepts_separate.both ((accepts_emit _).both accepts_push)

/-- An object ends. -/
theorem accepts_endObject : Accepts endObject True := by
  refine accepts_pop.both ((accepts_emit _).both (accepts_state (fun writer => ?_)))
  split
  · exact accepts_emit _
  · exact accepts_nothing

end Acceptance

end Leann.StructuredOutput
