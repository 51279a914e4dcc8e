import Leann.Effects
import Mathlib.Algebra.BigOperators.Fin

/-!
# Programs that run side by side

Several parties share a state, and any of them may act next. Parties whose
promises are what the others rely on keep them along every interleaving,
and parties of bounded length cannot go on for ever.
-/

namespace Leann.Effects

section Parallel

variable {ι : Type} [DecidableEq ι] {Op : Type} {Answer : Op → Type} {α σ : Type}
variable (environment : ι → Environment Op Answer σ)

/-- One of several parties has its next operation answered. -/
inductive ParallelStep : σ×(ι → Program Op Answer α) → σ×(ι → Program Op Answer α) → Prop where
  /-- The issued operation takes effect and its party sees the answer. -/
  | act {party : ι} {programs : ι → Program Op Answer α} {op : Op}
      {next : Answer op → Program Op Answer α} {state after : σ} {answer : Answer op}
      (issued : programs party=.call op next) (effect : environment party op state answer after) :
      ParallelStep (state,programs) (after,Function.update programs party (next answer))

/-- Any interleaving of the parties, stopping anywhere. -/
abbrev ParallelRun : σ×(ι → Program Op Answer α) → σ×(ι → Program Op Answer α) → Prop :=
  Relation.ReflTransGen (ParallelStep environment)

/-- Every party keeps its promises, relying on those of the others, and an
invariant that follows from all of them holds. -/
structure Composed (rely : ι → σ → σ → Prop) (guarantee : ι → Promise Op Answer σ)
    (post : ι → α → σ → Prop) (invariant : σ → Prop) (here : σ×(ι → Program Op Answer α)) : Prop where
  /-- The invariant. -/
  holds : invariant here.1
  /-- What each party still keeps. -/
  kept : ∀ party,Keeps (environment party) (rely party) (guarantee party) (here.2 party) (post party)
    here.1

variable {environment} {rely : ι → σ → σ → Prop} {guarantee : ι → Promise Op Answer σ}
variable {post : ι → α → σ → Prop} {invariant : σ → Prop}

/-- Parties whose promises are what the others rely on interleave freely. -/
theorem Composed.step (refl : ∀ party state,rely party state state)
    (trans : ∀ party a b c,rely party a b → rely party b c → rely party a c)
    (respect : ∀ party other op before answer after,party≠other → invariant before →
      environment party op before answer after → guarantee party op before answer after →
      rely other before after)
    (preserve : ∀ party op before answer after,invariant before →
      environment party op before answer after → guarantee party op before answer after → invariant after)
    {here there : σ×(ι → Program Op Answer α)}
    (composed : Composed environment rely guarantee post invariant here)
    (step : ParallelStep environment here there) :
    Composed environment rely guarantee post invariant there := by
  cases step with
  | @act party programs op next state after answer issued effect =>
    have own := composed.kept party
    rw [show (state,programs).2 party=.call op next from issued] at own
    obtain ⟨promised,rest⟩ := Keeps.step (refl party) own effect
    refine ⟨preserve party op state answer after composed.holds effect promised,fun other => ?_⟩
    dsimp only
    by_cases same : other=party
    · rwa [same,Function.update_self]
    · rw [Function.update_of_ne same]
      exact (composed.kept other).later (trans other) (respect party other op state answer after
        (Ne.symm same) composed.holds effect promised)

/-- So they do along every interleaving. -/
theorem Composed.run (refl : ∀ party state,rely party state state)
    (trans : ∀ party a b c,rely party a b → rely party b c → rely party a c)
    (respect : ∀ party other op before answer after,party≠other → invariant before →
      environment party op before answer after → guarantee party op before answer after →
      rely other before after)
    (preserve : ∀ party op before answer after,invariant before →
      environment party op before answer after → guarantee party op before answer after → invariant after)
    {here there : σ×(ι → Program Op Answer α)}
    (composed : Composed environment rely guarantee post invariant here)
    (path : ParallelRun environment here there) :
    Composed environment rely guarantee post invariant there := by
  induction path with
  | refl => exact composed
  | tail _ step ih => exact ih.step refl trans respect preserve step

omit [DecidableEq ι] in
/-- A party that has returned meets its postcondition. -/
theorem Composed.returned (refl : ∀ party state,rely party state state)
    {here : σ×(ι → Program Op Answer α)}
    (composed : Composed environment rely guarantee post invariant here) {party : ι} {value : α}
    (ended : here.2 party=.done value) : post party value here.1 := by
  have kept := composed.kept party
  rw [ended] at kept
  exact kept here.1 (refl party here.1)

/-- At most so many operations are issued, whatever the answers, before a
result of this kind is returned. -/
def Program.Within : ℕ → (α → Prop) → Program Op Answer α → Prop
  | _,returns,.done value => returns value
  | 0,_,.call _ _ => False
  | bound+1,returns,.call _ next => ∀ answer,(next answer).Within bound returns

variable {returns : α → Prop}

/-- Returning takes no operation. -/
@[simp] theorem Program.within_done (bound : ℕ) (value : α) :
    (Program.done value : Program Op Answer α).Within bound returns ↔ returns value := by
  cases bound <;> rfl

/-- More room does no harm. -/
theorem Program.Within.mono {program : Program Op Answer α} {bound bound' : ℕ}
    (within : program.Within bound returns) (le : bound≤bound') : program.Within bound' returns := by
  induction program generalizing bound bound' with
  | done value => exact (Program.within_done _ _).mpr ((Program.within_done _ _).mp within)
  | call op next ih =>
    match bound,bound',within,le with
    | bound+1,bound'+1,within,le =>
      exact fun answer => ih answer (within answer) (Nat.le_of_succ_le_succ le)

/-- So does a weaker description of the results. -/
theorem Program.Within.returning {program : Program Op Answer α} {returns' : α → Prop} {bound : ℕ}
    (within : program.Within bound returns) (weaker : ∀ value,returns value → returns' value) :
    program.Within bound returns' := by
  induction program generalizing bound with
  | done value =>
    exact (Program.within_done _ _).mpr (weaker value ((Program.within_done _ _).mp within))
  | call op next ih =>
    match bound,within with
    | bound+1,within => exact fun answer => ih answer (within answer)

/-- Sequencing adds the bounds. -/
theorem Program.Within.bind {β : Type} {program : Program Op Answer α}
    {rest : α → Program Op Answer β} {returns' : β → Prop} {first second : ℕ}
    (within : program.Within first returns)
    (within' : ∀ value,returns value → (rest value).Within second returns') :
    (program.bind rest).Within (first+second) returns' := by
  induction program generalizing first with
  | done value =>
    exact (within' value ((Program.within_done _ _).mp within)).mono (Nat.le_add_left ..)
  | call op next ih =>
    match first,within with
    | first+1,within =>
      rw [Nat.succ_add]
      exact fun answer => ih answer (within answer)

/-- One operation. -/
theorem Program.within_perform (op : Op) :
    (Program.perform op : Program Op Answer (Answer op)).Within 1 (fun _ => True) :=
  fun _ => trivial

/-- Reading operations in a larger interface does not add any. -/
theorem Program.Within.lift {Op' : Type} {Answer' : Op' → Type} {embed : Op → Op'}
    {back : ∀ op,Answer' (embed op) → Answer op} {program : Program Op Answer α} {bound : ℕ}
    (within : program.Within bound returns) : (program.lift embed back).Within bound returns := by
  induction program generalizing bound with
  | done value => exact (Program.within_done _ _).mpr ((Program.within_done _ _).mp within)
  | call op next ih =>
    match bound,within with
    | bound+1,within => exact fun answer => ih (back op answer) (within (back op answer))

/-- What the parties may issue together. -/
def Total [Fintype ι] (programs : ι → Program Op Answer α) (total : ℕ) : Prop :=
  ∃ bounds : ι → ℕ,(∀ party,(programs party).Within (bounds party) (fun _ => True)) ∧ ∑ party,bounds party=total

/-- Every step takes one operation away. -/
theorem ParallelStep.total [Fintype ι] {here there : σ×(ι → Program Op Answer α)}
    (step : ParallelStep environment here there) {total : ℕ} (enough : Total here.2 total) :
    ∃ rest,rest+1=total ∧ Total there.2 rest := by
  cases step with
  | @act party programs op next state after answer issued effect =>
    obtain ⟨bounds,within,sum⟩ := enough
    have own : (Program.call op next).Within (bounds party) (fun _ => True) := by
      rw [←issued]
      exact within party
    obtain ⟨bound,hbound⟩ : ∃ bound,bounds party=bound+1 := by
      cases hb : bounds party with
      | zero => rw [hb] at own; exact own.elim
      | succ bound => exact ⟨bound,rfl⟩
    rw [hbound] at own
    refine ⟨∑ other,Function.update bounds party bound other,?_,Function.update bounds party bound,
      fun other => ?_,rfl⟩
    · rw [←sum,Finset.sum_update_of_mem (Finset.mem_univ party),
        Finset.sum_eq_add_sum_sdiff_singleton_of_mem (Finset.mem_univ party) bounds,hbound]
      omega
    · dsimp only
      by_cases same : other=party
      · rw [same,Function.update_self,Function.update_self]
        exact own answer
      · rw [Function.update_of_ne same,Function.update_of_ne same]
        exact within other

/-- So there is no endless interleaving. -/
theorem parallel_terminates [Fintype ι] {programs : ι → Program Op Answer α} {total : ℕ}
    (enough : Total programs total) (history : ℕ → σ×(ι → Program Op Answer α))
    (start : (history 0).2=programs) :
    ∃ time,¬ParallelStep environment (history time) (history (time+1)) := by
  by_contra endless
  have forever : ∀ time,ParallelStep environment (history time) (history (time+1)) := fun time =>
    not_not.mp (fun stops => endless ⟨time,stops⟩)
  have shrink : ∀ time,∃ rest,rest+time=total ∧ Total (history time).2 rest := by
    intro time
    induction time with
    | zero => exact ⟨total,rfl,start ▸ enough⟩
    | succ time ih =>
      obtain ⟨rest,hrest,room⟩ := ih
      obtain ⟨less,hless,room⟩ := (forever time).total room
      exact ⟨less,by omega,room⟩
  obtain ⟨rest,hrest,-⟩ := shrink (total+1)
  omega

end Parallel

end Leann.Effects
