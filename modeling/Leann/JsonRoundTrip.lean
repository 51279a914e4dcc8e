import Leann.JsonScalars
import Leann.Outcomes

/-!
# JSON output is lossless or absent

A document is the tree of the calls that write it. Where all strings are
UTF-8 and all floats are finite, the text that is written is read as this
tree again, at any depth and with any characters in its strings. Otherwise
a call throws, and the destination of the document stays as it was.
-/

namespace Leann.JsonRoundTrip

open BinaryFloat Exceptions Outcomes Utf8 JsonTexts JsonScalars

open JsonStream (Call Stream jsonDocument refines_calls)

open StructuredOutput (Writing emit escape isValidUtf8)

section Trees

mutual

/-- The members of an object. -/
inductive Members where
  /-- There are no more. -/
  | none
  /-- A field. -/
  | scalar (key : Text) (value : Scalar) (rest : Members)
  /-- An object under a key. -/
  | object (key : Text) (inner : Members) (rest : Members)
  /-- An array under a key. -/
  | array (key : Text) (inner : Elements) (rest : Members)

/-- The elements of an array. -/
inductive Elements where
  /-- There are no more. -/
  | none
  /-- An object. -/
  | element (inner : Members) (rest : Elements)

end

/-- The call for a field. -/
def scalarCall (key : Text) : Scalar → Call
  | .string value => .fieldString key value
  | .unsigned value => .fieldUnsigned key value
  | .flag value => .fieldFlag key value
  | .fixed value precision => .fieldFixed key value precision

mutual

/-- The calls that write members. -/
def Members.calls : Members → List Call
  | .none => []
  | .scalar key value rest => scalarCall key value::rest.calls
  | .object key inner rest => .beginObjectField key::inner.calls++.endObject::rest.calls
  | .array key inner rest => .beginArray key::inner.calls++.endArray::rest.calls

/-- The calls that write elements. -/
def Elements.calls : Elements → List Call
  | .none => []
  | .element inner rest => .beginElement::inner.calls++.endObject::rest.calls

end

/-- The calls that write a document. -/
def documentCalls (members : Members) : List Call := .beginObject::members.calls++[.endObject]

mutual

/-- The members that are written. -/
def Members.json : Members → List (List ℕ×Json)
  | .none => []
  | .scalar key value rest => (codePoints key,value.json)::rest.json
  | .object key inner rest => (codePoints key,.object inner.json)::rest.json
  | .array key inner rest => (codePoints key,.array inner.json)::rest.json

/-- The elements that are written. -/
def Elements.json : Elements → List Json
  | .none => []
  | .element inner rest => .object inner.json::rest.json

end

/-- A call with well-formed strings and a finite float. -/
def Clean : Call → Prop
  | .beginObject => True
  | .endObject => True
  | .beginObjectField key => WellFormed key
  | .beginArray key => WellFormed key
  | .endArray => True
  | .beginElement => True
  | .fieldString key value => WellFormed key ∧ WellFormed value
  | .fieldUnsigned key _ => WellFormed key
  | .fieldFlag key _ => WellFormed key
  | .fieldFixed key value _ => WellFormed key ∧ value.Finite

end Trees

section Texts

/-- A new line. -/
def newlineText (depth : ℕ) : List Char := '\n'::List.replicate (depth*2) ' '

/-- What stands in front of a member or element. -/
def leadText (depth : ℕ) (first : Bool) : List Char :=
  (if first then [] else [','])++newlineText depth

/-- What stands in front of a closing bracket. -/
def closeText (depth : ℕ) (empty : Bool) : List Char := if empty then [] else newlineText depth

/-- A key. -/
def keyText (key : Text) : List Char := quoted key++[':',' ']

/-- There are no members. -/
def Members.isNone : Members → Bool
  | .none => true
  | _ => false

/-- There are no elements. -/
def Elements.isNone : Elements → Bool
  | .none => true
  | _ => false

mutual

/-- How members are written below so many brackets. -/
def Members.text (depth : ℕ) (first : Bool) : Members → List Char
  | .none => []
  | .scalar key value rest =>
    leadText depth first++keyText key++value.text++rest.text depth false
  | .object key inner rest =>
    leadText depth first++keyText key++ '{'::inner.text (depth+1) true++
      closeText depth inner.isNone++ '}'::rest.text depth false
  | .array key inner rest =>
    leadText depth first++keyText key++ '['::inner.text (depth+1) true++
      closeText depth inner.isNone++ ']'::rest.text depth false

/-- How elements are written below so many brackets. -/
def Elements.text (depth : ℕ) (first : Bool) : Elements → List Char
  | .none => []
  | .element inner rest =>
    leadText depth first++ '{'::inner.text (depth+1) true++
      closeText depth inner.isNone++ '}'::rest.text depth false

end

/-- How a document is written. -/
def documentText (members : Members) : List Char :=
  '{'::members.text 1 true++closeText 0 members.isNone++['}','\n']

example : encode (documentText (.scalar "a\t" (.unsigned 7) (.array "b" .none .none)))=
    text "\x7b\n  \"a\\t\": 7,\n  \"b\": []\n\x7d\n" := by
  decide +kernel

end Texts

section Writing

/-- From a stack, a text is written and a stack is left. -/
def Writes (writing : Writing) (before after : List Bool) (text : List Char) : Prop :=
  ∀ output,writing.run ⟨output,before⟩=.ok ((),⟨output++encode text,after⟩)

/-- One piece behind another. -/
theorem Writes.bind {first second : Writing} {before middle after : List Bool}
    {text others : List Char} (h : Writes first before middle text)
    (h' : Writes second middle after others) :
    Writes (first>>=fun _ => second) before after (text++others) := by
  intro output
  rw [StateT.run_bind,h,encode_append,←List.append_assoc]
  exact h' _

/-- Bytes are written. -/
theorem writes_emit (text : List Char) {bytes : Text} (h : encode text=bytes) (stack : List Bool) :
    Writes (emit bytes) stack stack text := by
  intro output
  rw [h]
  rfl

/-- Nothing is written. -/
theorem writes_nothing (stack : List Bool) : Writes (pure ()) stack stack [] := by
  intro output
  change _=Except.ok ((),(⟨output++[],stack⟩ : StructuredOutput.JsonWriter))
  rw [List.append_nil]
  rfl

/-- The stack is changed. -/
theorem writes_modify {change : StructuredOutput.JsonWriter → StructuredOutput.JsonWriter}
    {before after : List Bool} (h : ∀ output,change ⟨output,before⟩=⟨output,after⟩) :
    Writes (modify change) before after [] := by
  intro output
  change Except.ok ((),change ⟨output,before⟩)=
    Except.ok ((),(⟨output++[],after⟩ : StructuredOutput.JsonWriter))
  rw [List.append_nil,h]

/-- A piece that depends on the stack. -/
theorem Writes.state {writing : StructuredOutput.JsonWriter → Writing} {before after : List Bool}
    {text : List Char} (h : ∀ output,Writes (writing ⟨output,before⟩) before after text) :
    Writes (get>>=writing) before after text := fun output => h output output

/-- Spaces are written. -/
theorem encode_spaces (count : ℕ) : encode (List.replicate count ' ')=List.replicate count 32 := by
  induction count with
  | zero => rfl
  | succ count ih =>
    rw [List.replicate_succ,List.replicate_succ,←ih]
    rfl

/-- A line is ended. -/
theorem writes_newline (stack : List Bool) :
    Writes StructuredOutput.newline stack stack (newlineText stack.length) :=
  (writes_emit ['\n'] rfl stack).bind
    (Writes.state (fun _ => writes_emit _ (encode_spaces _) stack))

/-- A comma and a new line. -/
theorem writes_separate (first : Bool) (stack : List Bool) :
    Writes StructuredOutput.separate (first::stack) (false::stack)
      (leadText (stack.length+1) first) := by
  have hline : Writes (modify (fun writer => {writer with first := false::stack})>>=fun _ =>
      StructuredOutput.newline) (first::stack) (false::stack) (newlineText (stack.length+1)) :=
    (writes_modify (fun _ => rfl)).bind (writes_newline (false::stack))
  refine Writes.state (fun _ => ?_)
  cases first with
  | true => exact hline
  | false => exact (writes_emit [','] rfl _).bind hline

/-- A bracket is opened. -/
theorem writes_push (stack : List Bool) : Writes StructuredOutput.push stack (true::stack) [] :=
  writes_modify (fun _ => rfl)

/-- A bracket is closed. -/
theorem writes_pop (empty : Bool) (stack : List Bool) :
    Writes StructuredOutput.pop (empty::stack) stack (closeText stack.length empty) := by
  refine Writes.state (fun _ => ?_)
  cases empty with
  | true => exact (writes_modify (fun _ => rfl)).bind (writes_nothing stack)
  | false => exact (writes_modify (fun _ => rfl)).bind (writes_newline stack)

/-- A string is written. -/
theorem writes_string {value : Text} (h : WellFormed value) (context : Text) (stack : List Bool) :
    Writes (StructuredOutput.writeString value context) stack stack (quoted value) := by
  have hbytes : encode ((points value).flatMap escapeCharacter)=value.flatMap escape := by
    rw [←escape_encode,encode_points h]
  have hall := (writes_emit ['"'] rfl stack).bind
    ((writes_emit _ hbytes stack).bind (writes_emit ['"'] rfl stack))
  rw [StructuredOutput.writeString,if_neg (by rw [(isValidUtf8_iff value).mpr h]; decide)]
  exact hall

/-- A key is written. -/
theorem writes_key {key : Text} (h : WellFormed key) (first : Bool) (stack : List Bool) :
    Writes (StructuredOutput.writeKey key) (first::stack) (false::stack)
      (leadText (stack.length+1) first++keyText key) :=
  (writes_separate first stack).bind
    ((writes_string h key _).bind (writes_emit [':',' '] rfl _))

/-- A field is written. -/
theorem writes_scalar {key : Text} {value : Scalar} (h : Clean (scalarCall key value))
    (first : Bool) (stack : List Bool) :
    Writes (StructuredOutput.perform (scalarCall key value)) (first::stack) (false::stack)
      (leadText (stack.length+1) first++keyText key++value.text) := by
  cases value with
  | string value => exact (writes_key h.1 first stack).bind (writes_string h.2 key _)
  | unsigned value =>
    have hascii : ∀ byte∈toText value.toNat,byte.toNat<128 := fun byte hb =>
      (isNumberCharacter_byte byte (Or.inr (Or.inr (Numerals.toText_digit _ byte hb)))).1
    exact (writes_key h first stack).bind (writes_emit _ (encode_characters hascii) _)
  | flag value =>
    refine (writes_key h first stack).bind (writes_emit _ ?_ _)
    cases value <;> decide
  | fixed value precision =>
    have hascii : ∀ byte∈JsonStream.fixedText value precision,byte.toNat<128 := fun byte hb =>
      (isNumberCharacter_byte byte (fixedText_bytes value precision byte hb)).1
    have hwritten : Writes (emit (JsonStream.fixedText value precision)) (false::stack) (false::stack)
        (characters (JsonStream.fixedText value precision)) :=
      writes_emit _ (encode_characters hascii) _
    have hfinite : ¬¬value.Finite := not_not_intro h.2
    change Writes (StructuredOutput.fieldFixed key value precision) _ _ _
    unfold StructuredOutput.fieldFixed
    rw [if_neg hfinite]
    exact (writes_key h.1 first stack).bind hwritten

/-- A bracket is opened under a key. -/
theorem writes_bracket {key : Text} (h : WellFormed key) (first : Bool) (stack : List Bool)
    (text : List Char) {bracket : Text} (hb : encode text=bracket) :
    Writes (do StructuredOutput.writeKey key; emit bracket; StructuredOutput.push)
      (first::stack) (true::false::stack)
      (leadText (stack.length+1) first++keyText key++text) := by
  have hall := (writes_key h first stack).bind ((writes_emit _ hb _).bind (writes_push _))
  rw [List.append_nil] at hall
  exact hall

/-- An element is begun. -/
theorem writes_beginElement (first : Bool) (stack : List Bool) :
    Writes StructuredOutput.beginObject (first::stack) (true::false::stack)
      (leadText (stack.length+1) first++['{']) :=
  (writes_separate first stack).bind ((writes_emit ['{'] rfl _).bind (writes_push _))

/-- An object is ended that stands in a bracket. -/
theorem writes_endObject (empty first : Bool) (stack : List Bool) :
    Writes StructuredOutput.endObject (empty::first::stack) (first::stack)
      (closeText (stack.length+1) empty++['}']) :=
  (writes_pop empty (first::stack)).bind ((writes_emit ['}'] rfl _).bind
    (Writes.state (fun _ => writes_nothing _)))

/-- An array is ended. -/
theorem writes_endArray (empty : Bool) (stack : List Bool) :
    Writes StructuredOutput.endArray (empty::stack) stack (closeText stack.length empty++[']']) :=
  (writes_pop empty stack).bind (writes_emit [']'] rfl _)

/-- The calls for a part, with what surrounds it, and the calls behind. -/
theorem writes_part (opening closing : Call) {inner rest : List Call} {first : Bool}
    {stack after inside : List Bool} {open' inner' close' rest' : List Char}
    (ho : Writes (StructuredOutput.perform opening) (first::stack) (true::false::stack) open')
    (hi : Writes (inner.forM StructuredOutput.perform) (true::false::stack) inside inner')
    (hc : Writes (StructuredOutput.perform closing) inside (false::stack) close')
    (hr : Writes (rest.forM StructuredOutput.perform) (false::stack) after rest') :
    Writes ((opening::inner++closing::rest).forM StructuredOutput.perform) (first::stack) after
      (open'++(inner'++(close'++rest'))) := by
  rw [List.forM_eq_forM,List.cons_append,List.forM_cons,List.forM_append,List.forM_cons]
  exact ho.bind (hi.bind (hc.bind hr))

mutual

/-- Members are written. -/
theorem writes_members (members : Members) (first : Bool) (stack : List Bool)
    (h : ∀ call∈members.calls,Clean call) :
    Writes (members.calls.forM StructuredOutput.perform) (first::stack)
      ((first && members.isNone)::stack) (members.text (stack.length+1) first) :=
  match members with
  | .none => by
    rw [Members.isNone,Bool.and_true]
    exact writes_nothing _
  | .scalar key value rest => by
    rw [Members.calls,List.forall_mem_cons] at h
    have hrest := writes_members rest false stack h.2
    change Writes _ _ ((first && false)::stack) _
    rw [Bool.and_false,Members.text]
    exact (writes_scalar h.1 first stack).bind hrest
  | .object key inner rest => by
    rw [Members.calls,List.cons_append,List.forall_mem_cons,List.forall_mem_append,
      List.forall_mem_cons] at h
    have hrest := writes_members rest false stack h.2.2.2
    have hinner := writes_members inner true (false::stack) h.2.1
    have hopen := writes_bracket h.1 first stack ['{'] rfl
    have hall := writes_part (.beginObjectField key) .endObject hopen hinner
      (writes_endObject _ _ _) hrest
    change Writes _ _ ((first && false)::stack) _
    rw [Bool.and_false,Members.text]
    simp only [List.append_assoc,List.cons_append,List.nil_append] at hall ⊢
    exact hall
  | .array key inner rest => by
    rw [Members.calls,List.cons_append,List.forall_mem_cons,List.forall_mem_append,
      List.forall_mem_cons] at h
    have hrest := writes_members rest false stack h.2.2.2
    have hinner := writes_elements inner true (false::stack) h.2.1
    have hopen := writes_bracket h.1 first stack ['['] rfl
    have hall := writes_part (.beginArray key) .endArray hopen hinner
      (writes_endArray _ _) hrest
    change Writes _ _ ((first && false)::stack) _
    rw [Bool.and_false,Members.text]
    simp only [List.append_assoc,List.cons_append,List.nil_append] at hall ⊢
    exact hall

/-- Elements are written. -/
theorem writes_elements (elements : Elements) (first : Bool) (stack : List Bool)
    (h : ∀ call∈elements.calls,Clean call) :
    Writes (elements.calls.forM StructuredOutput.perform) (first::stack)
      ((first && elements.isNone)::stack) (elements.text (stack.length+1) first) :=
  match elements with
  | .none => by
    rw [Elements.isNone,Bool.and_true]
    exact writes_nothing _
  | .element inner rest => by
    rw [Elements.calls,List.cons_append,List.forall_mem_cons,List.forall_mem_append,
      List.forall_mem_cons] at h
    have hrest := writes_elements rest false stack h.2.2.2
    have hinner := writes_members inner true (false::stack) h.2.1
    have hall := writes_part .beginElement .endObject
      (writes_beginElement first stack) hinner (writes_endObject _ _ _) hrest
    change Writes _ _ ((first && false)::stack) _
    rw [Bool.and_false,Elements.text]
    simp only [List.append_assoc,List.cons_append,List.nil_append] at hall ⊢
    exact hall

end

/-- A document is written. -/
theorem writes_document {members : Members} (h : ∀ call∈documentCalls members,Clean call) :
    Writes ((documentCalls members).forM StructuredOutput.perform) [] [] (documentText members) := by
  rw [documentCalls,List.cons_append,List.forall_mem_cons,List.forall_mem_append] at h
  have hopen : Writes (StructuredOutput.perform .beginObject) [] [true] ['{'] :=
    (writes_nothing []).bind ((writes_emit ['{'] rfl _).bind (writes_push _))
  have hclose : Writes (StructuredOutput.perform .endObject) [members.isNone] []
      (closeText 0 members.isNone++['}','\n']) :=
    (writes_pop members.isNone []).bind ((writes_emit ['}'] rfl _).bind
      (Writes.state (fun _ => writes_emit ['\n'] rfl _)))
  have hinner := writes_members members true [] h.2.1
  have hall := hopen.bind (hinner.bind (hclose.bind (writes_nothing _)))
  rw [List.append_nil] at hall
  rw [List.forM_eq_forM,documentCalls,List.cons_append,List.forM_cons,List.forM_append,
    List.forM_cons,documentText,List.append_assoc]
  exact hall

end Writing

section Reading

/-- New lines are skipped. -/
theorem skip_newline (depth : ℕ) (text : List Char) : skip (newlineText depth++text)=skip text := by
  refine skip_append (fun space hs => ?_) text
  rcases List.mem_cons.mp hs with hline | hspace
  · rw [hline]
    rfl
  · rw [List.eq_of_mem_replicate hspace]
    rfl

/-- So is what stands in front of a closing bracket. -/
theorem skip_close (depth : ℕ) (empty : Bool) (text : List Char) :
    skip (closeText depth empty++text)=skip text := by
  cases empty with
  | true => rfl
  | false => exact skip_newline depth text

mutual

/-- How much of the bound the reading of members takes. -/
def Members.size : Members → ℕ
  | .none => 0
  | .scalar _ _ rest => rest.size+2
  | .object _ inner rest => inner.size+rest.size+2
  | .array _ inner rest => inner.size+rest.size+2

/-- How much of the bound the reading of elements takes. -/
def Elements.size : Elements → ℕ
  | .none => 0
  | .element inner rest => inner.size+rest.size+2

end

mutual

/-- Every unit of the bound has a character. -/
theorem Members.size_le (members : Members) (depth : ℕ) (first : Bool) :
    members.size≤(members.text depth first).length :=
  match members with
  | .none => Nat.zero_le _
  | .scalar key value rest => by
    have hrest := Members.size_le rest depth false
    simp only [Members.size,Members.text,keyText,List.length_append,List.length_cons]
    omega
  | .object key inner rest => by
    have hrest := Members.size_le rest depth false
    have hinner := Members.size_le inner (depth+1) true
    simp only [Members.size,Members.text,List.length_append,List.length_cons]
    omega
  | .array key inner rest => by
    have hrest := Members.size_le rest depth false
    have hinner := Elements.size_le inner (depth+1) true
    simp only [Members.size,Members.text,List.length_append,List.length_cons]
    omega

/-- Every unit of the bound has a character. -/
theorem Elements.size_le (elements : Elements) (depth : ℕ) (first : Bool) :
    elements.size≤(elements.text depth first).length :=
  match elements with
  | .none => Nat.zero_le _
  | .element inner rest => by
    have hrest := Elements.size_le rest depth false
    have hinner := Members.size_le inner (depth+1) true
    simp only [Elements.size,Elements.text,List.length_append,List.length_cons]
    omega

end

/-- No value begins with white space. -/
theorem skip_value {fuel : ℕ} {text : List Char} {found : Json×List Char}
    (h : readValue fuel text=some found) : skip text=text := by
  cases text with
  | nil => rfl
  | cons first rest =>
    cases hspace : isSpace first with
    | false => exact skip_cons hspace rest
    | true =>
      have hnone : readValue fuel (first::rest)=none := by
        cases fuel with
        | zero => rfl
        | succ fuel =>
          rcases of_decide_eq_true hspace with hc | hc | hc | hc <;> (rw [hc]; rfl)
      rw [hnone] at h
      cases h

/-- Members that are read make an object. -/
theorem readValue_object {fuel : ℕ} {text rest : List Char} {members : List (List ℕ×Json)}
    (h : readMembers fuel (skip text)=some (members,rest)) :
    readValue (fuel+1) ('{'::text)=some (.object members,rest) := by
  rw [readValue]
  split
  · next hempty =>
    rw [hempty] at h
    cases fuel <;> cases h
  · rw [h]
    rfl

/-- Elements that are read make an array. -/
theorem readValue_array {fuel : ℕ} {text rest : List Char} {elements : List Json}
    (h : readElements fuel (skip text)=some (elements,rest)) :
    readValue (fuel+1) ('['::text)=some (.array elements,rest) := by
  rw [readValue]
  split
  · next hempty =>
    rw [hempty] at h
    cases fuel with
    | zero => cases h
    | succ fuel => cases fuel <;> cases h
  · rw [h]
    rfl

/-- What follows a member: a comma and members, or the end of the object. -/
def MembersFollow (fuel : ℕ) (text : List Char) (members : List (List ℕ×Json))
    (rest : List Char) : Prop :=
  skip text= '}'::rest ∧ members=[] ∨
    ∃ more,skip text= ','::more ∧ readMembers fuel (skip more)=some (members,rest)

/-- What follows an element: a comma and elements, or the end of the array. -/
def ElementsFollow (fuel : ℕ) (text : List Char) (elements : List Json) (rest : List Char) : Prop :=
  skip text= ']'::rest ∧ elements=[] ∨
    ∃ more,skip text= ','::more ∧ readElements fuel (skip more)=some (elements,rest)

/-- A member is read and what follows it. -/
theorem readMembers_cons {fuel : ℕ} {text after rest : List Char} {value : Json}
    {members : List (List ℕ×Json)} (key : Text) (hv : readValue fuel text=some (value,after))
    (hf : MembersFollow fuel after members rest) :
    readMembers (fuel+1) (keyText key++text)=some ((codePoints key,value)::members,rest) := by
  have hkey : readString (keyText key++text)=some (codePoints key,':':: ' '::text) := by
    rw [keyText,List.append_assoc]
    exact readString_quoted key _
  have hvalue : readValue fuel (skip (' '::text))=some (value,after) := by
    have hskip : skip (' '::text)=skip text := rfl
    rw [hskip,skip_value hv,hv]
  have hcolon : skip (':':: ' '::text)= ':':: ' '::text := rfl
  rw [readMembers,hkey]
  simp only [Option.bind_eq_bind,Option.bind_some,hcolon,hvalue]
  rcases hf with ⟨hend,hmembers⟩ | ⟨more,hcomma,hmore⟩
  · rw [hend,hmembers]
    rfl
  · rw [hcomma]
    simp only [hmore,Option.bind_some]
    rfl

/-- An element is read and what follows it. -/
theorem readElements_cons {fuel : ℕ} {text after rest : List Char} {value : Json}
    {elements : List Json} (hv : readValue fuel text=some (value,after))
    (hf : ElementsFollow fuel after elements rest) :
    readElements (fuel+1) text=some (value::elements,rest) := by
  rw [readElements,hv]
  simp only [Option.bind_eq_bind,Option.bind_some]
  rcases hf with ⟨hend,helements⟩ | ⟨more,hcomma,hmore⟩
  · rw [hend,helements]
    rfl
  · rw [hcomma]
    simp only [hmore,Option.bind_some]
    rfl

/-- Members follow a comma. -/
theorem membersFollow_cons {fuel : ℕ} {text after rest : List Char} {value : Json}
    {members : List (List ℕ×Json)} (depth : ℕ) (key : Text)
    (hv : readValue fuel text=some (value,after)) (hf : MembersFollow fuel after members rest) :
    MembersFollow (fuel+1) (leadText depth false++(keyText key++text))
      ((codePoints key,value)::members) rest := by
  refine Or.inr ⟨newlineText depth++(keyText key++text),rfl,?_⟩
  rw [skip_newline]
  exact readMembers_cons key hv hf

/-- Elements follow a comma. -/
theorem elementsFollow_cons {fuel : ℕ} {text after rest : List Char} {value : Json}
    {elements : List Json} (depth : ℕ) (hv : readValue fuel text=some (value,after))
    (hf : ElementsFollow fuel after elements rest) :
    ElementsFollow (fuel+1) (leadText depth false++text) (value::elements) rest := by
  refine Or.inr ⟨newlineText depth++text,rfl,?_⟩
  rw [skip_newline,skip_value hv]
  exact readElements_cons hv hf

/-- What follows a comma is read. -/
theorem MembersFollow.comma {fuel : ℕ} {text rest : List Char} {members : List (List ℕ×Json)}
    (h : MembersFollow fuel (','::text) members rest) :
    readMembers fuel (skip text)=some (members,rest) := by
  rcases h with ⟨hend,_⟩ | ⟨more,hcomma,hmore⟩
  · cases hend
  · have hsame : ','::text= ','::more := hcomma
    rw [(List.cons.inj hsame).2]
    exact hmore

/-- What follows a comma is read. -/
theorem ElementsFollow.comma {fuel : ℕ} {text rest : List Char} {elements : List Json}
    (h : ElementsFollow fuel (','::text) elements rest) :
    readElements fuel (skip text)=some (elements,rest) := by
  rcases h with ⟨hend,_⟩ | ⟨more,hcomma,hmore⟩
  · cases hend
  · have hsame : ','::text= ','::more := hcomma
    rw [(List.cons.inj hsame).2]
    exact hmore

/-- An object is read, an empty one also. -/
theorem readValue_members {members : Members} {fuel depth close : ℕ} {after : List Char}
    (h : MembersFollow fuel (members.text depth false++(newlineText close++ '}'::after))
      members.json after) :
    readValue (fuel+1) ('{'::(members.text depth true++
      (closeText close members.isNone++ '}'::after)))=some (.object members.json,after) := by
  cases members with
  | none => rfl
  | scalar key value rest => exact readValue_object h.comma
  | object key inner rest => exact readValue_object h.comma
  | array key inner rest => exact readValue_object h.comma

/-- An array is read, an empty one also. -/
theorem readValue_elements {elements : Elements} {fuel depth close : ℕ} {after : List Char}
    (h : ElementsFollow fuel (elements.text depth false++(newlineText close++ ']'::after))
      elements.json after) :
    readValue (fuel+1) ('['::(elements.text depth true++
      (closeText close elements.isNone++ ']'::after)))=some (.array elements.json,after) := by
  cases elements with
  | none => rfl
  | element inner rest => exact readValue_array h.comma

/-- Behind a member stands no character of a number. -/
theorem text_head (members : Members) (depth close : ℕ) (rest : List Char) :
    ∀ next∈(members.text depth false++(newlineText close++rest)).head?,
      isNumberCharacter next=false := by
  cases members <;> (intro next hn; cases hn; rfl)

mutual

/-- Members that are written behind a comma follow. -/
theorem members_follow (members : Members) (fuel : ℕ) (h : members.size≤fuel) (depth close : ℕ)
    (rest : List Char) :
    MembersFollow fuel (members.text depth false++(newlineText close++ '}'::rest))
      members.json rest :=
  match members,fuel,h with
  | .none,_,_ => Or.inl ⟨skip_newline close _,rfl⟩
  | .scalar key value others,fuel+2,h => by
    have hrest := members_follow others (fuel+1) (by rw [Members.size] at h; omega) depth
      close rest
    have hvalue := readValue_scalar value fuel (text_head others depth close ('}'::rest))
    have hall := membersFollow_cons depth key hvalue hrest
    rw [Members.text]
    simp only [List.append_assoc] at hall ⊢
    exact hall
  | .object key inner others,fuel+2,h => by
    have hrest := members_follow others (fuel+1) (by rw [Members.size] at h; omega) depth
      close rest
    have hvalue := readValue_members (members_follow inner fuel
      (by rw [Members.size] at h; omega) (depth+1) depth
      (others.text depth false++(newlineText close++ '}'::rest)))
    have hall := membersFollow_cons depth key hvalue hrest
    rw [Members.text]
    simp only [List.append_assoc,List.cons_append] at hall ⊢
    exact hall
  | .array key inner others,fuel+2,h => by
    have hrest := members_follow others (fuel+1) (by rw [Members.size] at h; omega) depth
      close rest
    have hvalue := readValue_elements (elements_follow inner fuel
      (by rw [Members.size] at h; omega) (depth+1) depth
      (others.text depth false++(newlineText close++ '}'::rest)))
    have hall := membersFollow_cons depth key hvalue hrest
    rw [Members.text]
    simp only [List.append_assoc,List.cons_append] at hall ⊢
    exact hall

/-- Elements that are written behind a comma follow. -/
theorem elements_follow (elements : Elements) (fuel : ℕ) (h : elements.size≤fuel)
    (depth close : ℕ) (rest : List Char) :
    ElementsFollow fuel (elements.text depth false++(newlineText close++ ']'::rest))
      elements.json rest :=
  match elements,fuel,h with
  | .none,_,_ => Or.inl ⟨skip_newline close _,rfl⟩
  | .element inner others,fuel+2,h => by
    have hrest := elements_follow others (fuel+1) (by rw [Elements.size] at h; omega) depth
      close rest
    have hvalue := readValue_members (members_follow inner fuel
      (by rw [Elements.size] at h; omega) (depth+1) depth
      (others.text depth false++(newlineText close++ ']'::rest)))
    have hall := elementsFollow_cons depth hvalue hrest
    rw [Elements.text]
    simp only [List.append_assoc,List.cons_append] at hall ⊢
    exact hall

end

/-- A document is read as its members. -/
theorem readJson_document (members : Members) :
    readJson (documentText members)=some (.object members.json) := by
  have hsize : members.size≤(documentText members).length := by
    have hmembers := Members.size_le members 1 true
    rw [documentText,List.length_append,List.length_append,List.length_cons]
    omega
  have hread := readValue_members (members_follow members _ hsize 1 0 ['\n'])
  have htext : '{'::(members.text 1 true++(closeText 0 members.isNone++['}','\n']))=
      documentText members := by
    simp only [documentText,List.append_assoc,List.cons_append]
  rw [htext] at hread
  rw [readJson,skip_value hread,hread]
  rfl

end Reading

section Failures

open StructuredOutput (Accepts accepts_separate accepts_emit accepts_push accepts_pop
  accepts_beginObject accepts_endObject accepts_endArray accepts_writeString)

/-- Keys must be well-formed. -/
theorem accepts_key (key : Text) : Accepts (StructuredOutput.writeKey key) (WellFormed key) :=
  (accepts_separate.bind (((accepts_writeString key key).congr (isValidUtf8_iff key)).bind
    (accepts_emit _))).congr ((Iff.of_eq (true_and _)).trans (Iff.of_eq (and_true _)))

/-- Nothing more can go wrong behind a key. -/
theorem accepts_behind (key : Text) {writing : Writing} (h : Accepts writing True) :
    Accepts (StructuredOutput.writeKey key>>=fun _ => writing) (WellFormed key) :=
  ((accepts_key key).bind h).congr (Iff.of_eq (and_true _))

/-- Floats must be finite. -/
theorem accepts_fixed (key : Text) (value : Double) (precision : ℤ) :
    Accepts (StructuredOutput.fieldFixed key value precision) (WellFormed key ∧ value.Finite) := by
  refine (accepts_key key).bind ?_
  by_cases hfinite : value.Finite
  · rw [if_neg (not_not_intro hfinite)]
    exact (accepts_emit _).congr (iff_of_true trivial hfinite)
  · rw [if_pos hfinite]
    exact fun writer => iff_of_false (fun ⟨after,hafter⟩ => nomatch hafter) hfinite

/-- A call is made if and only if it is clean. -/
theorem accepts_perform (call : Call) : Accepts (StructuredOutput.perform call) (Clean call) := by
  cases call with
  | beginObject => exact accepts_beginObject
  | endObject => exact accepts_endObject
  | beginObjectField key => exact accepts_behind key ((accepts_emit _).both accepts_push)
  | beginArray key => exact accepts_behind key ((accepts_emit _).both accepts_push)
  | endArray => exact accepts_endArray
  | beginElement => exact accepts_beginObject
  | fieldString key value =>
    exact (accepts_key key).bind ((accepts_writeString value key).congr (isValidUtf8_iff value))
  | fieldUnsigned key value => exact accepts_behind key (accepts_emit _)
  | fieldFlag key value => exact accepts_behind key (accepts_emit _)
  | fieldFixed key value precision => exact accepts_fixed key value precision

/-- What a piece of a document throws is a runtime error. -/
def Raises (writing : Writing) : Prop :=
  ∀ writer fault,writing.run writer=.error fault → ∃ what,fault=.thrown (runtimeError what)

/-- One piece behind another. -/
theorem Raises.bind {first second : Writing} (h : Raises first) (h' : Raises second) :
    Raises (first>>=fun _ => second) := by
  intro writer fault hrun
  rw [StateT.run_bind] at hrun
  cases hfirst : first.run writer with
  | error other =>
    rw [hfirst] at hrun
    cases hrun
    exact h writer fault hfirst
  | ok result =>
    rw [hfirst] at hrun
    exact h' result.2 fault hrun

/-- What always ends throws nothing. -/
theorem raises_never {writing : Writing} (h : Accepts writing True) : Raises writing := by
  intro writer fault hrun
  obtain ⟨after,hafter⟩ := (h writer).mpr trivial
  rw [hafter] at hrun
  cases hrun

/-- A string that is not well-formed is reported. -/
theorem raises_writeString (value context : Text) :
    Raises (StructuredOutput.writeString value context) := by
  unfold StructuredOutput.writeString
  split
  · refine Raises.bind ?_ (raises_never ((accepts_emit _).both ((accepts_emit _).both (accepts_emit _))))
    intro writer fault hrun
    cases hrun
    exact ⟨_,rfl⟩
  · exact raises_never ((accepts_emit _).both ((accepts_emit _).both (accepts_emit _)))

/-- So is a key, and behind it nothing else is thrown. -/
theorem raises_behind (key : Text) {writing : Writing} (h : Raises writing) :
    Raises (StructuredOutput.writeKey key>>=fun _ => writing) :=
  ((raises_never accepts_separate).bind ((raises_writeString key key).bind
    (raises_never (accepts_emit _)))).bind h

/-- A call throws runtime errors only. -/
theorem raises_perform (call : Call) : Raises (StructuredOutput.perform call) := by
  cases call with
  | beginObject => exact raises_never accepts_beginObject
  | endObject => exact raises_never accepts_endObject
  | beginObjectField key =>
    exact raises_behind key (raises_never ((accepts_emit _).both accepts_push))
  | beginArray key => exact raises_behind key (raises_never ((accepts_emit _).both accepts_push))
  | endArray => exact raises_never accepts_endArray
  | beginElement => exact raises_never accepts_beginObject
  | fieldString key value => exact raises_behind key (raises_writeString value key)
  | fieldUnsigned key value => exact raises_behind key (raises_never (accepts_emit _))
  | fieldFlag key value => exact raises_behind key (raises_never (accepts_emit _))
  | fieldFixed key value precision =>
    refine raises_behind key ?_
    split
    · refine Raises.bind ?_ (raises_never (accepts_emit _))
      intro writer fault hrun
      cases hrun
      exact ⟨_,rfl⟩
    · exact raises_never (accepts_emit _)

/-- So do calls one behind the other. -/
theorem raises_calls (calls : List Call) : Raises (calls.forM StructuredOutput.perform) := by
  induction calls with
  | nil => exact raises_never StructuredOutput.accepts_nothing
  | cons call calls ih => exact (raises_perform call).bind ih

end Failures

section Documents

/-- A document of clean calls is written as its text. -/
theorem jsonDocument_clean (general : ℤ → Double → Text) {members : Members} (destination : Stream)
    (h : ∀ call∈documentCalls members,Clean call) :
    jsonDocument general (documentCalls members) destination=
      (.ok (),destination.insert (encode (documentText members))) := by
  have hrefined := refines_calls general (documentCalls members) {} ⟨rfl,rfl,rfl,rfl,rfl⟩
  have hwritten := writes_document h []
  have hplain : JsonStream.plain {}=⟨[],[]⟩ := rfl
  rw [JsonStream.RefinesAt,hplain,hwritten] at hrefined
  obtain ⟨next,hrun,_,hnext⟩ := hrefined
  have houtput : next.output.written=encode (documentText members) :=
    congrArg StructuredOutput.JsonWriter.output hnext
  rw [jsonDocument,hrun]
  exact congrArg (fun bytes => (Except.ok (),destination.insert bytes)) houtput

/-- A document with a call that is not clean is not written. -/
theorem jsonDocument_unclean (general : ℤ → Double → Text) {calls : List Call} (destination : Stream)
    (h : ∃ call∈calls,¬Clean call) :
    ∃ what,jsonDocument general calls destination=(.error (.thrown (runtimeError what)),destination) := by
  have hrefined := refines_calls general calls {} ⟨rfl,rfl,rfl,rfl,rfl⟩
  have haccepts := StructuredOutput.Accepts.each (fun call (_ : call∈calls) => accepts_perform call)
  rw [JsonStream.RefinesAt] at hrefined
  cases hrun : (calls.forM StructuredOutput.perform).run (JsonStream.plain {}) with
  | ok result =>
    obtain ⟨call,hc,hunclean⟩ := h
    exact (hunclean ((haccepts _).mp ⟨result.2,hrun⟩ call hc)).elim
  | error fault =>
    rw [hrun] at hrefined
    obtain ⟨what,hwhat⟩ := raises_calls calls _ fault hrun
    refine ⟨what,?_⟩
    have hfails : (calls.forM (JsonStream.perform general)).run {}=.error fault := hrefined
    rw [jsonDocument,hfails,hwhat]

/-- Where all strings are well-formed and all floats are finite, the document
is written, and its text is the JSON text of the tree of the calls and of no
other value. Where one is not, an exception is thrown and nothing is written. -/
theorem json_lossless_or_absent (general : ℤ → Double → Text) (members : Members)
    (destination : Stream) :
    ((∀ call∈documentCalls members,Clean call) →
      ∃ output,jsonDocument general (documentCalls members) destination=
          (.ok (),destination.insert output) ∧
        ∀ value,Parses output value ↔ value=.object members.json) ∧
    ((∃ call∈documentCalls members,¬Clean call) →
      ∃ what,jsonDocument general (documentCalls members) destination=
        (.error (.thrown (runtimeError what)),destination)) := by
  refine ⟨fun h => ?_,jsonDocument_unclean general destination⟩
  have hparses : Parses (encode (documentText members)) (.object members.json) :=
    ⟨documentText members,rfl,readJson_document members⟩
  refine ⟨_,jsonDocument_clean general destination h,fun value => ⟨fun hv => hv.unique hparses,?_⟩⟩
  intro hv
  rw [hv]
  exact hparses

end Documents

end Leann.JsonRoundTrip
