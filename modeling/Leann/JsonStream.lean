import Leann.BinaryFloat
import Leann.StructuredOutput
import Leann.Utf8

/-!
# The JSON writer on a stream

How a number is written depends on flags that stay set on a stream. The JSON
writer sets them where it needs them and takes them back, so that between its
calls they are as in a new stream. What it writes is then what the writer of
the structured output writes, which has no flags.
-/

namespace Leann.JsonStream

open BinaryFloat Exceptions

section Streams

/-- The base in which integers are written. -/
inductive Base where
  /-- `std::dec`. -/
  | dec
  /-- `std::hex`. -/
  | hex

/-- The notation in which floats are written. -/
inductive FloatField where
  /-- `std::defaultfloat`. -/
  | default
  /-- `std::fixed`. -/
  | fixed

/-- A stream that keeps what is written. -/
structure Stream where
  /-- The text. -/
  written : Text := []
  /-- The base of integers. -/
  base : Base := .dec
  /-- The notation of floats. -/
  floatField : FloatField := .default
  /-- `precision`. -/
  precision : ℤ := 6
  /-- `width`, which the next insertion takes back. -/
  width : ℕ := 0
  /-- `fill`. -/
  fill : UInt8 := 32

/-- An insertion of characters, which are padded on the left. -/
def Stream.insert (stream : Stream) (bytes : Text) : Stream :=
  {stream with
    written := stream.written++List.replicate (stream.width-bytes.length) stream.fill++bytes
    width := 0}

/-- The hexadecimal digits of a number. -/
def hexText (value : ℕ) : Text :=
  (Nat.toDigits 16 value).map (fun digit => UInt8.ofNat digit.toNat)

/-- An insertion of an unsigned integer. -/
def Stream.insertUnsigned (stream : Stream) (value : ℕ) : Stream :=
  match stream.base with
  | .dec => stream.insert (toText value)
  | .hex => stream.insert (hexText value)

/-- The integer nearest to a number, an even one of two. -/
def nearestEven (x : ℚ) : ℕ :=
  let low := ⌊x⌋₊
  if x-low<1/2 then low
  else if 1/2<x-low then low+1
  else if low%2=0 then low else low+1

/-- The number of digits behind the point. A negative precision is not one. -/
def fixedPlaces (precision : ℤ) : ℕ := if precision<0 then 6 else precision.toNat

/-- The magnitude of a float in units of its last digit. -/
def fixedUnits (value : Double) (precision : ℤ) : ℕ :=
  nearestEven (|value.value| *10^fixedPlaces precision)

/-- A number with so many digits. -/
def paddedText (places value : ℕ) : Text :=
  List.replicate (places-(toText value).length) 48++toText value

/-- A float in fixed notation. -/
def fixedText (value : Double) (precision : ℤ) : Text :=
  let places := fixedPlaces precision
  let units := fixedUnits value precision
  (if value.negative then [45] else [])++toText (units/10^places)++
    if places=0 then [] else 46::paddedText places (units%10^places)

/-- An insertion of a finite float. Its other notation is not used and left open. -/
def Stream.insertDouble (general : ℤ → Double → Text) (stream : Stream) (value : Double) : Stream :=
  match stream.floatField with
  | .default => stream.insert (general stream.precision value)
  | .fixed => stream.insert (fixedText value stream.precision)

end Streams

section Writer

/-- `JsonWriter`, with the top of its stack in front. -/
structure JsonWriter where
  /-- `output_`. -/
  output : Stream := {}
  /-- `depth_`. -/
  depth : ℕ := 0
  /-- `first_`. -/
  first : List Bool := []

/-- A call of the writer. -/
abbrev Writing := StateT JsonWriter (Except Fault) Unit

/-- A manipulator or an insertion. -/
def onStream (change : Stream → Stream) : Writing :=
  modify (fun writer => {writer with output := change writer.output})

/-- `operator<<` of characters. -/
def put (bytes : Text) : Writing := onStream (·.insert bytes)

/-- `newline`. -/
def newline : Writing := do
  put "\n"
  put (List.replicate ((← get).depth*2) 32)

/-- `separate`. -/
def separate : Writing := do
  match (← get).first with
  | [] => return
  | first::rest =>
    if first=false then put ","
    modify (fun writer => {writer with first := false::rest})
    newline

/-- `push`. -/
def push : Writing :=
  modify (fun writer => {writer with depth := writer.depth+1,first := true::writer.first})

/-- `pop`. -/
def pop : Writing := do
  match (← get).first with
  | [] => return
  | empty::rest =>
    modify (fun writer => {writer with first := rest,depth := writer.depth-1})
    if empty=false then newline

/-- One round of the loop of `write_string`. -/
def writeByte (byte : UInt8) : Writing := do
  if byte=34 then put "\\\""
  else if byte=92 then put "\\\\"
  else if byte=10 then put "\\n"
  else if byte=13 then put "\\r"
  else if byte=9 then put "\\t"
  else if byte=8 then put "\\b"
  else if byte=12 then put "\\f"
  else if byte<0x20 then
    put "\\u"
    onStream (fun stream => {stream with base := .hex})
    onStream (fun stream => {stream with width := 4})
    onStream (fun stream => {stream with fill := 48})
    onStream (·.insertUnsigned byte.toNat)
    onStream (fun stream => {stream with base := .dec})
    onStream (fun stream => {stream with fill := 32})
  else put [byte]

/-- `write_string`. -/
def writeString (value context : Text) : Writing := do
  if StructuredOutput.isValidUtf8 value=false then
    throw (.thrown (runtimeError
      ("cannot emit JSON for "++context++": value is not valid UTF-8; use --format text")))
  put "\""
  value.forM writeByte
  put "\""

/-- `write_key`. -/
def writeKey (key : Text) : Writing := do
  separate
  writeString key key
  put ": "

/-- `begin_object`. -/
def beginObject : Writing := do
  separate
  put "\x7b"
  push

/-- `end_object`. -/
def endObject : Writing := do
  pop
  put "\x7d"
  if (← get).depth=0 then put "\n"

/-- `begin_object_field`. -/
def beginObjectField (key : Text) : Writing := do
  writeKey key
  put "\x7b"
  push

/-- `begin_array`. -/
def beginArray (key : Text) : Writing := do
  writeKey key
  put "["
  push

/-- `end_array`. -/
def endArray : Writing := do
  pop
  put "]"

/-- `begin_element`. -/
def beginElement : Writing := do
  separate
  put "\x7b"
  push

/-- `field` with a string. -/
def fieldString (key value : Text) : Writing := do
  writeKey key
  writeString value key

/-- `field` with an unsigned integer. -/
def fieldUnsigned (key : Text) (value : UInt64) : Writing := do
  writeKey key
  onStream (·.insertUnsigned value.toNat)

/-- `field` with a flag. -/
def fieldFlag (key : Text) (value : Bool) : Writing := do
  writeKey key
  put (if value then "true" else "false")

/-- `field` with a float and a precision. -/
def fieldFixed (general : ℤ → Double → Text) (key : Text) (value : Double) (precision : ℤ) :
    Writing := do
  writeKey key
  if ¬value.Finite then
    throw (.thrown (runtimeError ("refusing to emit a non-finite value for "++key)))
  onStream (fun stream => {stream with floatField := .fixed})
  onStream (fun stream => {stream with precision := precision})
  onStream (·.insertDouble general value)
  onStream (fun stream => {stream with floatField := .default})

/-- The calls of the writer. -/
inductive Call where
  /-- `begin_object`. -/
  | beginObject
  /-- `end_object`. -/
  | endObject
  /-- `begin_object_field`. -/
  | beginObjectField (key : Text)
  /-- `begin_array`. -/
  | beginArray (key : Text)
  /-- `end_array`. -/
  | endArray
  /-- `begin_element`. -/
  | beginElement
  /-- `field` with a string. -/
  | fieldString (key value : Text)
  /-- `field` with an unsigned integer. -/
  | fieldUnsigned (key : Text) (value : UInt64)
  /-- `field` with a flag. -/
  | fieldFlag (key : Text) (value : Bool)
  /-- `field` with a float and a precision. -/
  | fieldFixed (key : Text) (value : Double) (precision : ℤ)

/-- A call is made. -/
def perform (general : ℤ → Double → Text) : Call → Writing
  | .beginObject => beginObject
  | .endObject => endObject
  | .beginObjectField key => beginObjectField key
  | .beginArray key => beginArray key
  | .endArray => endArray
  | .beginElement => beginElement
  | .fieldString key value => fieldString key value
  | .fieldUnsigned key value => fieldUnsigned key value
  | .fieldFlag key value => fieldFlag key value
  | .fieldFixed key value precision => fieldFixed general key value precision

/-- `JsonDocument`: the calls write into a buffer, and `commit` forwards it.
An exception passes the commit by. -/
def jsonDocument (general : ℤ → Double → Text) (calls : List Call) (destination : Stream) :
    Except Fault Unit×Stream :=
  match (calls.forM (perform general)).run {} with
  | .ok (_,writer) => (.ok (),destination.insert writer.output.written)
  | .error fault => (.error fault,destination)

end Writer

end Leann.JsonStream

namespace Leann.StructuredOutput

open BinaryFloat Exceptions JsonStream

section Calls

/-- `begin_object_field`. -/
def beginObjectField (key : Text) : Writing := do
  writeKey key
  emit "\x7b"
  push

/-- `field` with a float and a precision. -/
def fieldFixed (key : Text) (value : Double) (precision : ℤ) : Writing := do
  writeKey key
  if ¬value.Finite then
    throw (.thrown (runtimeError ("refusing to emit a non-finite value for "++key)))
  emit (fixedText value precision)

/-- A call is made. -/
def perform : Call → Writing
  | .beginObject => beginObject
  | .endObject => endObject
  | .beginObjectField key => beginObjectField key
  | .beginArray key => beginArray key
  | .endArray => endArray
  | .beginElement => beginObject
  | .fieldString key value => fieldString key value
  | .fieldUnsigned key value => fieldNumber key value.toNat
  | .fieldFlag key value => fieldFlag key value
  | .fieldFixed key value precision => fieldFixed key value precision

end Calls

end Leann.StructuredOutput

namespace Leann.JsonStream

open BinaryFloat Exceptions

open StructuredOutput (emit escape isValidUtf8)

section Refinement

/-- The flags are those of a new stream, and the depth is the height of the stack. -/
structure Settled (writer : JsonWriter) : Prop where
  /-- Integers are decimal. -/
  base_eq : writer.output.base=.dec
  /-- The notation of floats is the default one. -/
  floatField_eq : writer.output.floatField=.default
  /-- Nothing is padded. -/
  width_eq : writer.output.width=0
  /-- Padding is made of spaces. -/
  fill_eq : writer.output.fill=32
  /-- The depth counts the open brackets. -/
  depth_eq : writer.depth=writer.first.length

/-- The writer without flags. -/
def plain (writer : JsonWriter) : StructuredOutput.JsonWriter := ⟨writer.output.written,writer.first⟩

/-- From a settled writer, a call ends as without flags, and the writer is
settled again. -/
def RefinesAt (writer : JsonWriter) (writing : Writing) (plainly : StructuredOutput.Writing) : Prop :=
  match plainly.run (plain writer) with
  | .ok (_,after) => ∃ next,writing.run writer=.ok ((),next) ∧ Settled next ∧ plain next=after
  | .error fault => writing.run writer=.error fault

/-- A call refines one without flags. -/
def Refines (writing : Writing) (plainly : StructuredOutput.Writing) : Prop :=
  ∀ writer,Settled writer → RefinesAt writer writing plainly

/-- One call behind another. -/
theorem RefinesAt.bind {writer : JsonWriter} {first second : Writing}
    {first' second' : StructuredOutput.Writing} (h : RefinesAt writer first first')
    (h' : Refines second second') :
    RefinesAt writer (first>>=fun _ => second) (first'>>=fun _ => second') := by
  unfold RefinesAt at h ⊢
  rw [StateT.run_bind,StateT.run_bind]
  cases hrun : first'.run (plain writer) with
  | error fault =>
    rw [hrun] at h
    rw [h]
    rfl
  | ok result =>
    rw [hrun] at h
    obtain ⟨next,hnext,hsettled,hplain⟩ := h
    have hsecond := h' next hsettled
    rw [RefinesAt,hplain] at hsecond
    rw [hnext]
    exact hsecond

/-- One call behind another. -/
theorem Refines.bind {first second : Writing} {first' second' : StructuredOutput.Writing}
    (h : Refines first first') (h' : Refines second second') :
    Refines (first>>=fun _ => second) (first'>>=fun _ => second') :=
  fun writer hs => (h writer hs).bind h'

/-- Nothing is written. -/
theorem refines_nothing : Refines (pure ()) (pure ()) := fun writer hs => ⟨writer,rfl,hs,rfl⟩

/-- The same exception is thrown. -/
theorem refines_throw (fault : Fault) : Refines (throw fault) (throw fault) := fun _ _ => rfl

/-- A change of the state. -/
theorem refinesAt_modify {writer : JsonWriter} {change : JsonWriter → JsonWriter}
    {change' : StructuredOutput.JsonWriter → StructuredOutput.JsonWriter}
    (hs : Settled (change writer)) (hp : plain (change writer)=change' (plain writer)) :
    RefinesAt writer (modify change) (modify change') := ⟨change writer,rfl,hs,hp⟩

/-- A call that depends on the state. -/
theorem RefinesAt.state {writer : JsonWriter} {writing : JsonWriter → Writing}
    {plainly : StructuredOutput.JsonWriter → StructuredOutput.Writing}
    (h : RefinesAt writer (writing writer) (plainly (plain writer))) :
    RefinesAt writer (get>>=writing) (get>>=plainly) := h

/-- Characters are inserted as they are. -/
theorem insert_written {stream : Stream} (h : stream.width=0) (bytes : Text) :
    (stream.insert bytes).written=stream.written++bytes := by
  rw [Stream.insert,h,Nat.zero_sub,List.replicate_zero,List.append_nil]

/-- Characters are written as they are. -/
theorem refines_put (bytes : Text) : Refines (put bytes) (emit bytes) := by
  intro writer hs
  refine refinesAt_modify ⟨hs.base_eq,hs.floatField_eq,rfl,hs.fill_eq,hs.depth_eq⟩ ?_
  exact congrArg (StructuredOutput.JsonWriter.mk · writer.first) (insert_written hs.width_eq bytes)

/-- A line is ended. -/
theorem refines_newline : Refines newline StructuredOutput.newline := by
  refine (refines_put "\n").bind (fun writer hs => RefinesAt.state ?_)
  rw [hs.depth_eq]
  exact refines_put _ writer hs

/-- A line is ended behind a change of the stack. -/
theorem refinesAt_newline {writer : JsonWriter} {change : JsonWriter → JsonWriter}
    {change' : StructuredOutput.JsonWriter → StructuredOutput.JsonWriter}
    (hs : Settled (change writer)) (hp : plain (change writer)=change' (plain writer)) :
    RefinesAt writer (modify change>>=fun _ => newline)
      (modify change'>>=fun _ => StructuredOutput.newline) :=
  (refinesAt_modify hs hp).bind refines_newline

/-- A comma and a new line. -/
theorem refines_separate : Refines separate StructuredOutput.separate := by
  refine fun writer hs => RefinesAt.state ?_
  obtain ⟨output,depth,first⟩ := writer
  cases first with
  | nil => exact refines_nothing _ hs
  | cons first rest =>
    cases first with
    | true =>
      exact refinesAt_newline
        ⟨hs.base_eq,hs.floatField_eq,hs.width_eq,hs.fill_eq,hs.depth_eq⟩ rfl
    | false =>
      -- The comma does not change the stack.
      have hcomma : Settled ⟨output.insert ",",depth,false::rest⟩ :=
        ⟨hs.base_eq,hs.floatField_eq,rfl,hs.fill_eq,hs.depth_eq⟩
      have hline := @refinesAt_newline ⟨output.insert ",",depth,false::rest⟩
        (fun writer => {writer with first := false::rest})
        (fun writer => {writer with first := false::rest}) hcomma rfl
      have hplain : plain ⟨output.insert ",",depth,false::rest⟩=⟨output.written++text ",",false::rest⟩ :=
        congrArg (StructuredOutput.JsonWriter.mk · (false::rest)) (insert_written hs.width_eq ",")
      rw [RefinesAt,hplain] at hline
      exact hline

/-- A bracket is opened. -/
theorem refines_push : Refines push StructuredOutput.push := fun _ hs =>
  refinesAt_modify ⟨hs.base_eq,hs.floatField_eq,hs.width_eq,hs.fill_eq,
    congrArg Nat.succ hs.depth_eq⟩ rfl

/-- A bracket is closed. -/
theorem refines_pop : Refines pop StructuredOutput.pop := by
  refine fun writer hs => RefinesAt.state ?_
  obtain ⟨output,depth,first⟩ := writer
  cases first with
  | nil => exact refines_nothing _ hs
  | cons empty rest =>
    have hdepth : depth-1=rest.length := by
      have hd : depth=rest.length+1 := hs.depth_eq
      omega
    have hpopped : Settled ⟨output,depth-1,rest⟩ :=
      ⟨hs.base_eq,hs.floatField_eq,hs.width_eq,hs.fill_eq,hdepth⟩
    cases empty with
    | false => exact refinesAt_newline hpopped rfl
    | true => exact (refinesAt_modify hpopped rfl).bind refines_nothing

/-- The digits of a control character. -/
theorem hexText_control (byte : UInt8) :
    byte<0x20 → List.replicate (4-(hexText byte.toNat).length) (48 : UInt8)++hexText byte.toNat=
      [48,48,StructuredOutput.hexDigit (byte>>>4),StructuredOutput.hexDigit (byte &&& 0x0f)] := by
  revert byte
  apply Utf8.forall_byte
  decide +kernel

/-- A byte of a string is written with the flags set and taken back. -/
theorem refines_writeByte (byte : UInt8) : Refines (writeByte byte) (emit (escape byte)) := by
  unfold writeByte escape
  repeat' split
  any_goals exact refines_put _
  rename_i hcontrol
  intro writer hs
  have hwritten : ((writer.output.insert "\\u").written++
      List.replicate (4-(hexText byte.toNat).length) (48 : UInt8)++hexText byte.toNat)=
        writer.output.written++(text "\\u00"++
          [StructuredOutput.hexDigit (byte>>>4),StructuredOutput.hexDigit (byte &&& 0x0f)]) := by
    have hdigits := hexText_control byte hcontrol
    rw [insert_written hs.width_eq,List.append_assoc,hdigits,List.append_assoc]
    rfl
  refine ⟨_,rfl,⟨rfl,hs.floatField_eq,rfl,rfl,hs.depth_eq⟩,?_⟩
  exact congrArg (StructuredOutput.JsonWriter.mk · writer.first) hwritten

/-- Pieces one behind the other. -/
theorem emit_append (first second : Text) :
    (emit first>>=fun _ => emit second)=emit (first++second) := by
  funext writer
  exact congrArg (fun output => Except.ok ((),StructuredOutput.JsonWriter.mk output writer.first))
    (List.append_assoc writer.output first second)

/-- The bytes of a string are written one by one. -/
theorem refines_bytes (value : Text) : Refines (value.forM writeByte) (emit (value.flatMap escape)) := by
  induction value with
  | nil =>
    intro writer hs
    refine ⟨writer,rfl,hs,?_⟩
    exact congrArg (StructuredOutput.JsonWriter.mk · writer.first) (List.append_nil _).symm
  | cons byte value ih =>
    rw [List.flatMap_cons,←emit_append]
    exact (refines_writeByte byte).bind ih

/-- A string is written. -/
theorem refines_writeString (value context : Text) :
    Refines (writeString value context) (StructuredOutput.writeString value context) := by
  unfold writeString StructuredOutput.writeString
  split
  · exact (refines_throw _).bind ((refines_put _).bind ((refines_bytes value).bind (refines_put _)))
  · exact (refines_put _).bind ((refines_bytes value).bind (refines_put _))

/-- A key is written. -/
theorem refines_writeKey (key : Text) : Refines (writeKey key) (StructuredOutput.writeKey key) :=
  refines_separate.bind ((refines_writeString key key).bind (refines_put _))

/-- An object is ended. -/
theorem refines_endObject : Refines endObject StructuredOutput.endObject := by
  refine refines_pop.bind ((refines_put _).bind (fun writer hs => RefinesAt.state ?_))
  have hsame : writer.depth=0 ↔ (plain writer).first=[] := by
    rw [hs.depth_eq,List.length_eq_zero_iff]
    rfl
  simp only [hsame]
  split
  · exact refines_put _ writer hs
  · exact refines_nothing writer hs

/-- A float is written in fixed notation, and the notation is taken back. -/
theorem refines_fixed (general : ℤ → Double → Text) (value : Double) (precision : ℤ) :
    Refines (do
      onStream (fun stream => {stream with floatField := .fixed})
      onStream (fun stream => {stream with precision := precision})
      onStream (·.insertDouble general value)
      onStream (fun stream => {stream with floatField := .default}))
      (emit (fixedText value precision)) := by
  intro writer hs
  refine ⟨_,rfl,⟨hs.base_eq,rfl,rfl,hs.fill_eq,hs.depth_eq⟩,?_⟩
  refine congrArg (StructuredOutput.JsonWriter.mk · writer.first) ?_
  exact @insert_written {writer.output with floatField := .fixed,precision := precision}
    hs.width_eq _

/-- Every call of the writer is one without flags. -/
theorem refines_perform (general : ℤ → Double → Text) (call : Call) :
    Refines (perform general call) (StructuredOutput.perform call) := by
  cases call with
  | beginObject => exact refines_separate.bind ((refines_put _).bind refines_push)
  | endObject => exact refines_endObject
  | beginObjectField key => exact (refines_writeKey key).bind ((refines_put _).bind refines_push)
  | beginArray key => exact (refines_writeKey key).bind ((refines_put _).bind refines_push)
  | endArray => exact refines_pop.bind (refines_put _)
  | beginElement => exact refines_separate.bind ((refines_put _).bind refines_push)
  | fieldString key value => exact (refines_writeKey key).bind (refines_writeString value key)
  | fieldUnsigned key value =>
    refine (refines_writeKey key).bind (fun writer hs => ?_)
    have hdecimal : writer.output.insertUnsigned value.toNat=writer.output.insert (toText value.toNat) := by
      rw [Stream.insertUnsigned,hs.base_eq]
    refine refinesAt_modify ?_ ?_
    · dsimp only
      rw [hdecimal]
      exact ⟨hs.base_eq,hs.floatField_eq,rfl,hs.fill_eq,hs.depth_eq⟩
    · dsimp only
      rw [hdecimal]
      exact congrArg (StructuredOutput.JsonWriter.mk · writer.first) (insert_written hs.width_eq _)
  | fieldFlag key value => exact (refines_writeKey key).bind (refines_put _)
  | fieldFixed key value precision =>
    refine (refines_writeKey key).bind ?_
    split
    · exact (refines_throw _).bind (refines_fixed general value precision)
    · exact refines_fixed general value precision

/-- So are calls one behind the other. -/
theorem refines_calls (general : ℤ → Double → Text) (calls : List Call) :
    Refines (calls.forM (perform general)) (calls.forM StructuredOutput.perform) := by
  induction calls with
  | nil => exact refines_nothing
  | cons call calls ih => exact (refines_perform general call).bind ih

end Refinement

end Leann.JsonStream
