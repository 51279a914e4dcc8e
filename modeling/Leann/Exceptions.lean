import Leann.Outcomes

/-!
# Byte strings and thrown exceptions

A `std::string` is its bytes. An exception is its dynamic type, which the
callers distinguish, together with the text its `what` returns. A fault is
an exception or an event that must not happen at all.
-/

namespace Leann.Exceptions

open Outcomes

/-- The bytes of a `std::string`, of a path or of a message. -/
abbrev Text := List UInt8

/-- Texts are compared by their bytes. -/
instance lawfulText : LawfulBEq Text := inferInstance

/-- The bytes of a source literal. -/
def text (literal : String) : Text := literal.toUTF8.data.toList

instance : Coe String Text := ⟨text⟩

/-- `std::to_string` of an unsigned value. -/
def toText (value : ℕ) : Text := text (toString value)

/-- The exception types this code throws or lets through. -/
inductive ExceptionKind where
  /-- `std::runtime_error` itself. -/
  | runtimeError
  /-- `std::invalid_argument`. -/
  | invalidArgument
  /-- `std::out_of_range`. -/
  | outOfRange
  /-- `std::logic_error` itself. -/
  | logicError
  /-- `std::overflow_error`. -/
  | overflowError
  /-- `leann::BuildCancelled`. -/
  | buildCancelled
  deriving DecidableEq

/-- A thrown exception. -/
structure Exception where
  /-- Its dynamic type. -/
  kind : ExceptionKind
  /-- The text returned by `what`. -/
  what : Text
  deriving DecidableEq

/-- Throw `std::runtime_error`. -/
def runtimeError (what : Text) : Exception := ⟨.runtimeError,what⟩

/-- Throw `std::invalid_argument`. -/
def invalidArgument (what : Text) : Exception := ⟨.invalidArgument,what⟩

/-- Throw `std::out_of_range`. -/
def outOfRange (what : Text) : Exception := ⟨.outOfRange,what⟩

/-- Throw `std::logic_error`. -/
def logicError (what : Text) : Exception := ⟨.logicError,what⟩

/-- Throw `std::overflow_error`. -/
def overflowError (what : Text) : Exception := ⟨.overflowError,what⟩

/-- How a computation ends without a result. Only the first is visible to a
caller; the others are events the code must exclude by its own checks. -/
inductive Fault where
  /-- An exception reaches the caller. -/
  | thrown (exception : Exception)
  /-- A container or a span is indexed outside its bounds. -/
  | outOfBounds
  /-- A 64-bit operation overflows. -/
  | wrapped
  /-- Memory is requested for more bytes than the file still holds. -/
  | unbacked
  /-- A loop does not come to an end. -/
  | endless
  deriving DecidableEq

/-- `operator[]` of a vector or a span, whose bounds the caller must respect. -/
def element {α : Type} (values : List α) (index : ℕ) : Except Fault α :=
  match values[index]? with
  | some value => .ok value
  | none => .error .outOfBounds

/-- An element is returned exactly when the index has one. -/
theorem element_ok {α : Type} (values : List α) (index : ℕ) (value : α) :
    element values index=.ok value ↔ values[index]?=some value := by
  unfold element
  split <;> simp_all

/-- Assignment through `operator[]`, whose bounds the caller must respect. -/
def assign {α : Type} (values : List α) (index : ℕ) (value : α) : Except Fault (List α) :=
  if index<values.length then .ok (values.set index value) else .error .outOfBounds

/-- Throw an exception to the caller. -/
def throwing {α : Type} (exception : Exception) : Except Fault α := .error (.thrown exception)

/-- Throw an exception to the caller when a condition holds. -/
def throwIf (condition : Prop) [Decidable condition] (exception : Exception) : Except Fault Unit :=
  if condition then throwing exception else .ok ()

/-- A check passes exactly when its condition fails. -/
theorem throwIf_ok (condition : Prop) [Decidable condition] (exception : Exception) (value : Unit) :
    throwIf condition exception=.ok value ↔ ¬condition := by
  unfold throwIf throwing
  split <;> simp_all

/-- A sequence of computations succeeds when both do. -/
theorem bind_eq_ok {ε α β : Type} (first : Except ε α) (next : α → Except ε β) (result : β) :
    (first>>=next)=.ok result ↔ ∃ value,first=.ok value ∧ next value=.ok result := by
  cases first <;> simp [bind,Except.bind]

/-- Returning succeeds with its value. -/
theorem pure_eq_ok {ε α : Type} (given value : α) :
    (pure given : Except ε α)=.ok value ↔ value=given := by
  simp [pure,Except.pure,eq_comm]

section Rules

variable {α : Type} {fails : Fault → Prop}

/-- Behind a check its condition is known to fail. -/
theorem throwIf_ends {condition : Prop} [Decidable condition] {exception : Exception}
    (h : condition → fails (.thrown exception)) :
    Ends (throwIf condition exception) fails (fun _ => ¬condition) := by
  unfold throwIf throwing
  split <;> simp_all

/-- An element inside the bounds. -/
theorem element_ends {values : List α} {index : ℕ} (h : index<values.length) :
    Ends (element values index) fails (fun value => values[index]?=some value) := by
  rw [(element_ok _ _ _).mpr (List.getElem?_eq_getElem h)]
  exact List.getElem?_eq_getElem h

/-- An assignment inside the bounds. -/
theorem assign_ends {values : List α} {index : ℕ} (h : index<values.length) (value : α) :
    Ends (assign values index value) fails (fun after => after=values.set index value) := by
  rw [assign,if_pos h]
  rfl

end Rules

end Leann.Exceptions
