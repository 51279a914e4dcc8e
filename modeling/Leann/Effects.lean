import Mathlib.Logic.Relation

/-!
# Programs over an environment, and what their steps guarantee

A program is the finite tree of the operations it may issue, branching on
the answers. Its environment is a relation, so every pattern of success
and failure is one run. `Keeps` reads a rely, a guarantee of every step and
a postcondition off the tree. Its rules compose such facts along the
program, and two programs that respect each other interleave freely.
-/

namespace Leann.Effects

/-- The operations a computation may issue, in order, as a tree that
branches on every possible answer. -/
inductive Program (Op : Type) (Answer : Op → Type) (α : Type) where
  /-- The computation has returned. -/
  | done (value : α)
  /-- One operation is issued and the rest depends on its answer. -/
  | call (op : Op) (next : Answer op → Program Op Answer α)

namespace Program

variable {Op Op' : Type} {Answer : Op → Type} {Answer' : Op' → Type} {α β γ σ : Type}

/-- Run one program and then another that depends on its result. -/
def bind : Program Op Answer α → (α → Program Op Answer β) → Program Op Answer β
  | .done value,rest => rest value
  | .call op next,rest => .call op (fun answer => (next answer).bind rest)

instance : Monad (Program Op Answer) where
  pure := .done
  bind := bind

/-- Issue one operation and return its answer. -/
def perform (op : Op) : Program Op Answer (Answer op) := .call op .done

/-- Read every operation as one of a larger interface. -/
def lift (embed : Op → Op') (back : ∀ op, Answer' (embed op) → Answer op) :
    Program Op Answer α → Program Op' Answer' α
  | .done value => .done value
  | .call op next => .call (embed op) (fun answer => (next (back op answer)).lift embed back)

/-- The operation issued next, absent once the program has returned. -/
def head : Program Op Answer α → Option Op
  | .done _ => none
  | .call op _ => some op

/-- Sequencing is associative, so a program's shape may be regrouped. -/
theorem bind_assoc (program : Program Op Answer α) (first : α → Program Op Answer β)
    (second : β → Program Op Answer γ) :
    (program.bind first).bind second=program.bind (fun value => (first value).bind second) := by
  induction program with
  | done value => rfl
  | call op next ih =>
    simp only [bind]
    congr 1
    funext answer
    exact ih answer

/-- Programs form a monad. -/
instance : LawfulMonad (Program Op Answer) := by
  refine LawfulMonad.mk' _ (fun program => ?_) (fun _ _ => rfl) (fun program first second =>
    bind_assoc program first second)
  change program.bind Program.done=program
  induction program with
  | done value => rfl
  | call op next ih =>
    simp only [bind]
    congr 1
    funext answer
    exact ih answer

/-- Reading operations in a larger interface goes through sequencing. -/
theorem lift_bind (embed : Op → Op') (back : ∀ op, Answer' (embed op) → Answer op)
    (program : Program Op Answer α) (rest : α → Program Op Answer β) :
    (program.bind rest).lift embed back=
      (program.lift embed back).bind (fun value => (rest value).lift embed back) := by
  induction program with
  | done value => rfl
  | call op next ih =>
    simp only [bind,lift]
    congr 1
    funext answer
    exact ih (back op answer)

end Program

/-- The answers and successor states an environment allows for an operation. -/
abbrev Environment (Op : Type) (Answer : Op → Type) (σ : Type) :=
  (op : Op) → σ → Answer op → σ → Prop

section

variable {Op : Type} {Answer : Op → Type} {α β σ : Type}
variable (environment : Environment Op Answer σ)

/-- One operation is answered by the environment. -/
inductive Step : σ×Program Op Answer α → σ×Program Op Answer α → Prop where
  /-- The issued operation takes effect and the program sees its answer. -/
  | call {op : Op} {next : Answer op → Program Op Answer α} {state after : σ} {answer : Answer op}
      (effect : environment op state answer after) : Step (state,.call op next) (after,next answer)

/-- Zero or more answered operations, stopping anywhere. -/
abbrev Run : σ×Program Op Answer α → σ×Program Op Answer α → Prop :=
  Relation.ReflTransGen (Step environment)

/-- A promise about one operation, its answer and both surrounding states. -/
abbrev Promise (Op : Type) (Answer : Op → Type) (σ : Type) :=
  (op : Op) → σ → Answer op → σ → Prop

/-- From a state, and whatever the rely lets others do before every step,
all steps meet the guarantee and a return meets the postcondition. -/
def Keeps (rely : σ → σ → Prop) (guarantee : Promise Op Answer σ) :
    Program Op Answer α → (α → σ → Prop) → σ → Prop
  | .done value,post,state => ∀ seen, rely state seen → post value seen
  | .call op next,post,state => ∀ seen, rely state seen → ∀ answer after,
      environment op seen answer after →
        guarantee op seen answer after ∧ Keeps rely guarantee (next answer) post after

variable {environment}
variable {rely : σ → σ → Prop} {guarantee : Promise Op Answer σ}

/-- Whatever others did in the meantime was already allowed for. -/
theorem Keeps.later (trans : ∀ a b c, rely a b → rely b c → rely a c)
    {program : Program Op Answer α} {post : α → σ → Prop} {state seen : σ}
    (kept : Keeps environment rely guarantee program post state) (moved : rely state seen) :
    Keeps environment rely guarantee program post seen := by
  cases program with
  | done value => exact fun later step => kept later (trans _ _ _ moved step)
  | call op next => exact fun later step => kept later (trans _ _ _ moved step)

/-- A weaker postcondition and a weaker guarantee follow. -/
theorem Keeps.mono {weaker : Promise Op Answer σ} {program : Program Op Answer α}
    {post post' : α → σ → Prop} {state : σ}
    (kept : Keeps environment rely guarantee program post state)
    (steps : ∀ op before answer after,
      guarantee op before answer after → weaker op before answer after)
    (final : ∀ value after, post value after → post' value after) :
    Keeps environment rely weaker program post' state := by
  induction program generalizing state with
  | done value => exact fun seen moved => final _ _ (kept seen moved)
  | call op next ih =>
    intro seen moved answer after effect
    obtain ⟨promised,rest⟩ := kept seen moved answer after effect
    exact ⟨steps _ _ _ _ promised,ih answer rest⟩

/-- The sequencing rule. The second program starts wherever the first may
return, whatever others do before its first operation. -/
theorem Keeps.bind (mid : α → σ → Prop) (refl : ∀ a, rely a a)
    {program : Program Op Answer α} {rest : α → Program Op Answer β}
    {post : β → σ → Prop} {state : σ}
    (first : Keeps environment rely guarantee program mid state)
    (second : ∀ value after, mid value after →
      Keeps environment rely guarantee (rest value) post after) :
    Keeps environment rely guarantee (program.bind rest) post state := by
  induction program generalizing state with
  | done value => exact second value state (first state (refl state))
  | call op next ih =>
    intro seen moved answer after effect
    obtain ⟨promised,kept⟩ := first seen moved answer after effect
    exact ⟨promised,ih answer kept⟩

/-- One step of a program that keeps its promises meets the guarantee and
leaves a program that keeps them. -/
theorem Keeps.step (refl : ∀ a, rely a a) {op : Op} {next : Answer op → Program Op Answer α}
    {post : α → σ → Prop} {state after : σ} {answer : Answer op}
    (kept : Keeps environment rely guarantee (.call op next) post state)
    (effect : environment op state answer after) :
    guarantee op state answer after ∧ Keeps environment rely guarantee (next answer) post after :=
  kept state (refl state) answer after effect

end

section Rules

variable {Op : Type} {Answer : Op → Type} {α σ : Type} {environment : Environment Op Answer σ}
variable {rely : σ → σ → Prop} {guarantee : Promise Op Answer σ}

/-- What others do cannot spoil an assertion. -/
def Stable (rely : σ → σ → Prop) (assertion : σ → Prop) : Prop :=
  ∀ before after, assertion before → rely before after → assertion after

/-- The rule of one operation. -/
theorem Keeps.perform {before : σ → Prop} {op : Op} {after : Answer op → σ → Prop} {state : σ}
    (here : before state) (stable : Stable rely before) (stable' : ∀ answer,Stable rely (after answer))
    (step : ∀ seen answer there,before seen → environment op seen answer there →
      guarantee op seen answer there ∧ after answer there) :
    Keeps environment rely guarantee (Program.perform op) after state := by
  intro seen moved answer there effect
  obtain ⟨promised,holds⟩ := step seen answer there (stable _ _ here moved) effect
  exact ⟨promised,fun _ later => stable' answer _ _ holds later⟩

/-- The rule of returning. -/
theorem Keeps.returned {value : α} {post : α → σ → Prop} {state : σ} (here : post value state)
    (stable : Stable rely (post value)) :
    Keeps environment rely guarantee (.done value) post state :=
  fun _ moved => stable _ _ here moved

/-- A program of a part of an interface keeps its promises in the whole. -/
theorem Keeps.lift {Op' : Type} {Answer' : Op' → Type} {environment' : Environment Op' Answer' σ}
    {guarantee' : Promise Op' Answer' σ} (embed : Op → Op') (back : ∀ op,Answer' (embed op) → Answer op)
    {program : Program Op Answer α} {post : α → σ → Prop} {state : σ}
    (kept : Keeps (fun op before answer after =>
        ∃ answer',back op answer'=answer ∧ environment' (embed op) before answer' after) rely
      (fun op before answer after => ∀ answer',back op answer'=answer →
        environment' (embed op) before answer' after → guarantee' (embed op) before answer' after)
      program post state) :
    Keeps environment' rely guarantee' (program.lift embed back) post state := by
  induction program generalizing state with
  | done value => exact kept
  | call op next ih =>
    intro seen moved answer' after effect
    obtain ⟨promised,rest⟩ := kept seen moved (back op answer') after ⟨answer',rfl,effect⟩
    exact ⟨promised answer' rfl effect,ih (back op answer') rest⟩

end Rules

section Issued

variable {Op : Type} {Answer : Op → Type} {α β σ : Type} {environment : Environment Op Answer σ}
variable {rely : σ → σ → Prop} {guarantee other : Promise Op Answer σ}

/-- Whatever the answers, every operation and every result is of a kind. -/
def Program.All (issues : Op → Prop) (returns : α → Prop) : Program Op Answer α → Prop
  | .done value => returns value
  | .call op next => issues op ∧ ∀ answer,(next answer).All issues returns

/-- Sequencing issues the operations of both. -/
theorem Program.All.bind {issues : Op → Prop} {returns : α → Prop} {returns' : β → Prop}
    {program : Program Op Answer α} {rest : α → Program Op Answer β}
    (all : program.All issues returns) (all' : ∀ value,returns value → (rest value).All issues returns') :
    (program.bind rest).All issues returns' := by
  induction program with
  | done value => exact all' value all
  | call op next ih => exact ⟨all.1,fun answer => ih answer (all.2 answer)⟩

/-- Weaker descriptions follow. -/
theorem Program.All.mono {issues issues' : Op → Prop} {returns returns' : α → Prop}
    {program : Program Op Answer α} (all : program.All issues returns)
    (ops : ∀ op,issues op → issues' op) (results : ∀ value,returns value → returns' value) :
    program.All issues' returns' := by
  induction program with
  | done value => exact results value all
  | call op next ih => exact ⟨ops op all.1,fun answer => ih answer (all.2 answer)⟩

/-- A loop issues the operations of its rounds. -/
theorem Program.All.mapM {issues : Op → Prop} {item : α → Program Op Answer β} {returns : α → β → Prop}
    {items : List α} (all : ∀ value∈items,(item value).All issues (returns value)) :
    (items.mapM item).All issues (fun results => ∀ result∈results,∃ value∈items,returns value result) := by
  induction items with
  | nil => exact fun result h => nomatch h
  | cons value items ih =>
    rw [List.mapM_cons]
    refine (all value List.mem_cons_self).bind (fun result hr => ?_)
    refine (ih (fun other ho => all other (List.mem_cons_of_mem _ ho))).bind (fun results hrest => ?_)
    intro other ho
    rcases List.mem_cons.mp ho with rfl|ho
    · exact ⟨value,List.mem_cons_self,hr⟩
    · obtain ⟨source,hs,hreturns⟩ := hrest other ho
      exact ⟨source,List.mem_cons_of_mem _ hs,hreturns⟩

/-- One operation. -/
theorem Program.all_perform {issues : Op → Prop} {op : Op} (h : issues op) :
    (Program.perform op : Program Op Answer (Answer op)).All issues (fun _ => True) :=
  ⟨h,fun _ => trivial⟩

/-- A program that issues operations of a kind keeps what these keep. -/
theorem Program.All.keeps {issues : Op → Prop} {returns : α → Prop} {program : Program Op Answer α}
    (all : program.All issues returns) {assertion : σ → Prop} {state : σ} (here : assertion state)
    (stable : Stable rely assertion) (step : ∀ op before answer after,issues op → assertion before →
      environment op before answer after → guarantee op before answer after ∧ assertion after) :
    Keeps environment rely guarantee program (fun value after => returns value ∧ assertion after)
      state := by
  induction program generalizing state with
  | done value => exact fun seen moved => ⟨all,stable _ _ here moved⟩
  | call op next ih =>
    intro seen moved answer after effect
    obtain ⟨promised,there⟩ := step op seen answer after all.1 (stable _ _ here moved) effect
    exact ⟨promised,ih answer (all.2 answer) there⟩

/-- Two descriptions of one program hold together. -/
theorem Keeps.both {program : Program Op Answer α} {post post' : α → σ → Prop} {state : σ}
    (kept : Keeps environment rely guarantee program post state)
    (kept' : Keeps environment rely other program post' state) :
    Keeps environment rely (fun op before answer after =>
      guarantee op before answer after ∧ other op before answer after) program
      (fun value after => post value after ∧ post' value after) state := by
  induction program generalizing state with
  | done value => exact fun seen moved => ⟨kept seen moved,kept' seen moved⟩
  | call op next ih =>
    intro seen moved answer after effect
    obtain ⟨promised,rest⟩ := kept seen moved answer after effect
    obtain ⟨promised',rest'⟩ := kept' seen moved answer after effect
    exact ⟨⟨promised,promised'⟩,ih answer rest rest'⟩

/-- What every step keeps holds before and after each of them. -/
theorem Keeps.invariant (invariant : σ → Prop) {program : Program Op Answer α} {post : α → σ → Prop}
    {state : σ} (kept : Keeps environment Eq guarantee program post state) (here : invariant state)
    (step : ∀ op before answer after,environment op before answer after →
      guarantee op before answer after → invariant before → invariant after) :
    Keeps environment Eq (fun op before answer after => guarantee op before answer after ∧
      invariant before ∧ invariant after) program (fun value after => post value after ∧ invariant after)
      state := by
  induction program generalizing state with
  | done value =>
    intro seen moved
    subst moved
    exact ⟨kept state rfl,here⟩
  | call op next ih =>
    intro seen moved answer after effect
    subst moved
    obtain ⟨promised,rest⟩ := kept state rfl answer after effect
    have there := step op state answer after effect promised here
    exact ⟨⟨promised,here,there⟩,ih answer rest there⟩

/-- What every step brings about holds at the end of a program that takes one. -/
theorem Keeps.acted {flag : σ → Prop} {op : Op} {next : Answer op → Program Op Answer α}
    {post : α → σ → Prop} {state : σ} (kept : Keeps environment Eq guarantee (.call op next) post state)
    (step : ∀ op before answer after,environment op before answer after → flag after) :
    Keeps environment Eq guarantee (.call op next) (fun value after => post value after ∧ flag after)
      state := by
  intro seen moved answer after effect
  obtain ⟨promised,rest⟩ := kept seen moved answer after effect
  exact ⟨promised,(rest.invariant flag (step op seen answer after effect)
    (fun op before answer after effect _ _ => step op before answer after effect)).mono
      (fun _ _ _ _ h => h.1) (fun _ _ h => h)⟩

end Issued

section Sequential

variable {Op : Type} {Answer : Op → Type} {α β σ : Type} {environment : Environment Op Answer σ}

/-- Nobody else acts: every step of the program preserves an invariant. -/
abbrev Preserves (environment : Environment Op Answer σ) (invariant : σ → Prop)
    (program : Program Op Answer α) (post : α → σ → Prop) (state : σ) : Prop :=
  Keeps environment Eq (fun _ _ _ after => invariant after) program post state

/-- Every state of a run of a preserving program satisfies the invariant. -/
theorem Preserves.run {invariant : σ → Prop} {program : Program Op Answer α}
    {post : α → σ → Prop} {state : σ} (kept : Preserves environment invariant program post state)
    (start : invariant state) {here : σ×Program Op Answer α}
    (path : Run environment (state,program) here) :
    invariant here.1 ∧ Preserves environment invariant here.2 post here.1 := by
  induction path with
  | refl => exact ⟨start,kept⟩
  | tail _ step ih =>
    cases step with
    | call effect => exact Keeps.step (fun _ => rfl) ih.2 effect

/-- A finished run of a preserving program meets its postcondition. -/
theorem Preserves.returned {invariant : σ → Prop} {program : Program Op Answer α}
    {post : α → σ → Prop} {state after : σ} {value : α}
    (kept : Preserves environment invariant program post state) (start : invariant state)
    (path : Run environment (state,program) (after,.done value)) : post value after :=
  (kept.run start path).2 after rfl

/-- Sequencing without interference. -/
theorem Preserves.bind (mid : α → σ → Prop) {invariant : σ → Prop}
    {program : Program Op Answer α} {rest : α → Program Op Answer β} {post : β → σ → Prop} {state : σ}
    (first : Preserves environment invariant program mid state)
    (second : ∀ value after, mid value after →
      Preserves environment invariant (rest value) post after) :
    Preserves environment invariant (program.bind rest) post state :=
  Keeps.bind mid (fun _ => rfl) first second

end Sequential

section Halting

variable {Op : Type} {Answer : Op → Type} {α β σ : Type} {environment : Environment Op Answer σ}

/-- After an answer of a kind, every operation and every result is of a kind. -/
def Program.Halts (stops : (op : Op) → Answer op → Prop) (issues : Op → Prop) (returns : α → Prop) :
    Program Op Answer α → Prop
  | .done _ => True
  | .call op next => ∀ answer,(stops op answer → (next answer).All issues returns) ∧
      (next answer).Halts stops issues returns

variable {stops : (op : Op) → Answer op → Prop} {issues : Op → Prop}

/-- Sequencing keeps that, when the rest respects what was returned. -/
theorem Program.Halts.bind {returns : α → Prop} {returns' : β → Prop} {program : Program Op Answer α}
    {rest : α → Program Op Answer β} (halts : program.Halts stops issues returns)
    (stopped : ∀ value,returns value → (rest value).All issues returns')
    (halts' : ∀ value,(rest value).Halts stops issues returns') :
    (program.bind rest).Halts stops issues returns' := by
  induction program with
  | done value => exact halts' value
  | call op next ih =>
    intro answer
    exact ⟨fun h => ((halts answer).1 h).bind stopped,ih answer (halts answer).2⟩

/-- Operations whose answers are never of the kind need no such care. -/
theorem Program.All.halts {returns returns' : α → Prop} {program : Program Op Answer α}
    (all : program.All (fun op => ∀ answer,¬stops op answer) returns') :
    program.Halts stops issues returns := by
  induction program with
  | done value => trivial
  | call op next ih =>
    intro answer
    exact ⟨fun h => absurd h (all.1 answer),ih answer (all.2 answer)⟩

/-- What is left of a program after some answers. -/
theorem Program.Halts.reached {returns : α → Prop} {here there : σ×Program Op Answer α}
    (halts : here.2.Halts stops issues returns) (path : Run environment here there) :
    there.2.Halts stops issues returns := by
  induction path with
  | refl => exact halts
  | tail _ step ih =>
    cases step with
    | call effect => exact (ih _).2

/-- So with a description of all operations. -/
theorem Program.All.reached {returns : α → Prop} {here there : σ×Program Op Answer α}
    (all : here.2.All issues returns) (path : Run environment here there) :
    there.2.All issues returns := by
  induction path with
  | refl => exact all
  | tail _ step ih =>
    cases step with
    | call effect => exact ih.2 _

/-- What operations of a kind keep holds wherever the program is. -/
theorem Program.All.invariant {returns : α → Prop} {here there : σ×Program Op Answer α}
    (all : here.2.All issues returns) (assertion : σ → Prop) (start : assertion here.1)
    (step : ∀ op before answer after,issues op → assertion before →
      environment op before answer after → assertion after) (path : Run environment here there) :
    assertion there.1 := by
  induction path with
  | refl => exact start
  | tail path' last ih =>
    have hall := all.reached path'
    cases last with
    | call effect => exact step _ _ _ _ hall.1 ih effect

/-- Promises are kept by what is left of a program. -/
theorem Keeps.reached {guarantee : Promise Op Answer σ} {post : α → σ → Prop}
    {here there : σ×Program Op Answer α} (kept : Keeps environment Eq guarantee here.2 post here.1)
    (path : Run environment here there) : Keeps environment Eq guarantee there.2 post there.1 := by
  induction path with
  | refl => exact kept
  | tail _ step ih =>
    cases step with
    | call effect => exact (Keeps.step (fun _ => rfl) ih effect).2

end Halting

section Determined

variable {Op : Type} {Answer : Op → Type} {α β σ : Type}
variable (respond : (op : Op) → σ → Answer op×σ)

/-- The result of a program and the state behind it when every operation has one outcome. -/
def Program.eval : Program Op Answer α → σ → α×σ
  | .done value,state => (value,state)
  | .call op next,state => (next (respond op state).1).eval (respond op state).2

/-- Sequencing evaluates one program and then the other. -/
theorem Program.eval_bind (program : Program Op Answer α) (rest : α → Program Op Answer β) (state : σ) :
    (program.bind rest).eval respond state=
      (rest (program.eval respond state).1).eval respond (program.eval respond state).2 := by
  induction program generalizing state with
  | done value => rfl
  | call op next ih => exact ih _ _

/-- The evaluation is a run of an environment that allows for the outcomes of
the operations of a kind in the states that these operations lead to. -/
theorem Program.eval_run {environment : Environment Op Answer σ} {issues : Op → Prop}
    {returns : α → Prop} (invariant : σ → Prop)
    (step : ∀ op state,issues op → invariant state →
      environment op state (respond op state).1 (respond op state).2 ∧ invariant (respond op state).2)
    {program : Program Op Answer α} (all : program.All issues returns) {state : σ}
    (here : invariant state) :
    Run environment (state,program)
      ((program.eval respond state).2,.done (program.eval respond state).1) := by
  induction program generalizing state with
  | done value => exact .refl
  | call op next ih =>
    have hstep := step op state all.1 here
    exact .head (.call hstep.1) (ih _ (all.2 _) hstep.2)

/-- A loop whose rounds keep the state evaluates each of them there. -/
theorem Program.eval_mapM {item : α → Program Op Answer β} {result : α → β} {items : List α} {state : σ}
    (round : ∀ value∈items,(item value).eval respond state=(result value,state)) :
    (items.mapM item).eval respond state=(items.map result,state) := by
  induction items with
  | nil => rfl
  | cons value items ih =>
    rw [List.mapM_cons]
    change ((item value).bind (fun first => (items.mapM item).bind (fun rest =>
      .done (first::rest)))).eval respond state=_
    rw [eval_bind,round value List.mem_cons_self,eval_bind,
      ih (fun other ho => round other (List.mem_cons_of_mem _ ho))]
    rfl

end Determined

section Logged

variable {Op : Type} {Answer : Op → Type} {α σ : Type}

/-- One operation together with the answer it got. -/
structure Event (Op : Type) (Answer : Op → Type) where
  /-- The operation issued. -/
  op : Op
  /-- The answer it got. -/
  answer : Answer op

/-- The same environment, writing every answered operation to a log. -/
def logged (environment : Environment Op Answer σ) :
    Environment Op Answer (σ×List (Event Op Answer)) := fun op before answer after =>
  environment op before.1 answer after.1 ∧ after.2=before.2++[⟨op,answer⟩]

/-- Execute one scheduled choice for every operation issued, stopping when
the schedule or the program ends. -/
def replay {Choice : Type} (respond : (op : Op) → σ → Choice → Answer op×σ) :
    List Choice → σ×Program Op Answer α → σ×Program Op Answer α
  | [],here => here
  | _::_,(state,.done value) => (state,.done value)
  | choice::rest,(state,.call op next) =>
    replay respond rest ((respond op state choice).2,next (respond op state choice).1)

/-- A replay whose responses the environment allows is one of its runs. -/
theorem replay_run {environment : Environment Op Answer σ} {Choice : Type}
    {respond : (op : Op) → σ → Choice → Answer op×σ}
    (allowed : ∀ op state choice,
      environment op state (respond op state choice).1 (respond op state choice).2)
    (choices : List Choice) (here : σ×Program Op Answer α) :
    Run environment here (replay respond choices here) := by
  induction choices generalizing here with
  | nil => exact .refl
  | cons choice rest ih =>
    obtain ⟨state,_|⟨op,next⟩⟩ := here
    · exact .refl
    · exact .head (.call (allowed op state choice)) (ih _)

end Logged

end Leann.Effects
