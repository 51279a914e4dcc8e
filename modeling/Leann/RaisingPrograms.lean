import Leann.Effects

/-!
# Programs that raise

A program whose operations answer with a result or an exception. `Attempts`
says of its runs that every step meets a guarantee, that a return meets a
postcondition and that an exception is an allowed one. The rules follow the
shape of the program.
-/

namespace Leann.RaisingPrograms

open Effects

/-- A program over operations that may raise. -/
abbrev Attempt (Op : Type) (Result : Op → Type) (ε α : Type) :=
  ExceptT ε (Program Op (fun op => Except ε (Result op))) α

variable {Op : Type} {Result : Op → Type} {ε α β σ : Type}

/-- Issue one operation, and raise what it raises. -/
def ask (op : Op) : Attempt Op Result ε (Result op) := ExceptT.mk (Program.perform op)

/-- Raise an exception when a condition holds. -/
def raiseIf (condition : Prop) [Decidable condition] (failure : ε) : Attempt Op Result ε Unit :=
  if condition then throw failure else pure ()

/-- Raise what a computation raises. -/
def computed (result : Except ε α) : Attempt Op Result ε α := ExceptT.mk (.done result)

/-- Run an attempt, and when it raises, a program before the exception goes on. -/
def cleaning (program : Attempt Op Result ε α) (clean : Attempt Op Result ε Unit) : Attempt Op Result ε α :=
  ExceptT.mk (program.run.bind (fun result => match result with
    | .ok value => .done (.ok value)
    | .error failure => clean.run.bind (fun _ => .done (.error failure))))

/-- What is to hold of a result. -/
def Outcome (raised : ε → σ → Prop) (post : α → σ → Prop) (result : Except ε α) (after : σ) : Prop :=
  match result with
  | .ok value => post value after
  | .error failure => raised failure after

section Rules

variable (environment : Environment Op (fun op => Except ε (Result op)) σ)
variable (guarantee : Promise Op (fun op => Except ε (Result op)) σ)

/-- Every step meets the guarantee, a return the postcondition, and an
exception is an allowed one. -/
def Attempts (raised : ε → σ → Prop) (program : Attempt Op Result ε α) (post : α → σ → Prop) (state : σ) :
    Prop :=
  Keeps environment Eq guarantee program.run (Outcome raised post) state

variable {environment guarantee} {raised : ε → σ → Prop} {post : α → σ → Prop} {state : σ}

/-- Returning. -/
theorem Attempts.pure {value : α} (here : post value state) :
    Attempts environment guarantee raised (pure value) post state := by
  intro seen same
  rw [←same]
  exact here

/-- Raising. -/
theorem Attempts.throw {failure : ε} (here : raised failure state) :
    Attempts environment guarantee raised (throw failure : Attempt Op Result ε α) post state := by
  intro seen same
  rw [←same]
  exact here

/-- Sequencing. -/
theorem Attempts.bind {program : Attempt Op Result ε α} {rest : α → Attempt Op Result ε β}
    {last : β → σ → Prop} (first : Attempts environment guarantee raised program post state)
    (second : ∀ value after,post value after →
      Attempts environment guarantee raised (rest value) last after) :
    Attempts environment guarantee raised (program>>=rest) last state := by
  refine Keeps.bind (Outcome raised post) (fun _ => rfl) first (fun result after h => ?_)
  cases result with
  | ok value => exact second value after h
  | error failure =>
    intro seen same
    rw [←same]
    exact h

/-- One operation. -/
theorem Attempts.ask {op : Op} {last : Result op → σ → Prop}
    (step : ∀ answer after,environment op state answer after →
      guarantee op state answer after ∧ Outcome raised last answer after) :
    Attempts environment guarantee raised (ask op) last state := by
  intro seen same answer after effect
  rw [←same] at effect ⊢
  obtain ⟨promised,outcome⟩ := step answer after effect
  refine ⟨promised,fun later same' => ?_⟩
  rw [←same']
  exact outcome

/-- A check. -/
theorem Attempts.raiseIf {condition : Prop} [Decidable condition] {failure : ε} {last : Unit → σ → Prop}
    (fails : condition → raised failure state) (passes : ¬condition → last () state) :
    Attempts environment guarantee raised (raiseIf condition failure) last state := by
  unfold RaisingPrograms.raiseIf
  split
  · rename_i h
    exact .throw (fails h)
  · rename_i h
    exact .pure (passes h)

/-- A computation. -/
theorem Attempts.computed {result : Except ε α} (here : Outcome raised post result state) :
    Attempts environment guarantee raised (computed result) post state := by
  intro seen same
  rw [←same]
  exact here

/-- Weaker postconditions and exceptions follow, and a weaker guarantee. -/
theorem Attempts.mono {program : Attempt Op Result ε α} {guarantee' : Promise Op (fun op => Except ε (Result op)) σ}
    {raised' : ε → σ → Prop} {post' : α → σ → Prop}
    (h : Attempts environment guarantee raised program post state)
    (steps : ∀ op before answer after,guarantee op before answer after → guarantee' op before answer after)
    (raises : ∀ failure after,raised failure after → raised' failure after)
    (returns : ∀ value after,post value after → post' value after) :
    Attempts environment guarantee' raised' program post' state := by
  refine Keeps.mono h steps (fun result after outcome => ?_)
  cases result with
  | ok value => exact returns value after outcome
  | error failure => exact raises failure after outcome

/-- What cleans up keeps what is said of an exception. -/
theorem Attempts.cleaning {program : Attempt Op Result ε α} {clean : Attempt Op Result ε Unit}
    (h : Attempts environment guarantee raised program post state)
    (cleans : ∀ failure after,raised failure after →
      Attempts environment guarantee (fun _ => raised failure) clean (fun _ => raised failure) after) :
    Attempts environment guarantee raised (cleaning program clean) post state := by
  refine Keeps.bind (Outcome raised post) (fun _ => rfl) h (fun result after outcome => ?_)
  cases result with
  | ok value =>
    intro seen same
    rw [←same]
    exact outcome
  | error failure =>
    refine Keeps.bind _ (fun _ => rfl) (cleans failure after outcome) (fun result' after' outcome' => ?_)
    intro seen same
    rw [←same]
    cases result' with
    | ok value => exact outcome'
    | error other => exact outcome'

/-- A loop keeps an invariant of what is done and what is left. -/
theorem Attempts.foldlM {γ : Type} {body : γ → β → Attempt Op Result ε γ}
    (invariant : List β → γ → σ → Prop)
    (round : ∀ item items value after,invariant (item::items) value after →
      Attempts environment guarantee raised (body value item) (fun value' => invariant items value') after)
    {items : List β} {start : γ} (here : invariant items start state) :
    Attempts environment guarantee raised (items.foldlM body start) (fun value => invariant [] value) state := by
  induction items generalizing start state with
  | nil => exact .pure here
  | cons item items ih =>
    rw [List.foldlM_cons]
    exact (round item items start state here).bind (fun value after h => ih h)

end Rules

/-- Where every operation has an answer, every program comes to an end. -/
theorem exists_finished {Answer : Op → Type} {environment : Environment Op Answer σ}
    (total : ∀ op state,∃ answer after,environment op state answer after) (program : Program Op Answer α)
    (state : σ) : ∃ after result,Run environment (state,program) (after,.done result) := by
  induction program generalizing state with
  | done value => exact ⟨state,value,.refl⟩
  | call op next ih =>
    obtain ⟨answer,after,effect⟩ := total op state
    obtain ⟨last,result,path⟩ := ih answer after
    exact ⟨last,result,.head (.call effect) path⟩

end Leann.RaisingPrograms
