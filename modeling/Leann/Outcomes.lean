import Mathlib.Data.List.Basic

/-!
# Outcomes of computations that may fail

`Ends` says of a computation that its result satisfies a postcondition and
that it only fails in an allowed way; `Meets` says the same of a computation
that updates a state. The rules follow the shape of a program: sequencing,
loops over lists with an invariant, and loops that count through a range.
-/

namespace Leann.Outcomes

/-- What holds of all items of a list is decided along the list. -/
instance (priority := 2000) decidableAll {α : Type} (property : α → Prop) [DecidablePred property]
    (items : List α) : Decidable (∀ item∈items,property item) := List.decidableBAll property items

/-- So is what holds of one of them. -/
instance (priority := 2000) decidableSome {α : Type} (property : α → Prop) [DecidablePred property]
    (items : List α) : Decidable (∃ item∈items,property item) := List.decidableBEx property items

section Results

variable {ε α β : Type}

/-- The result satisfies the postcondition and a failure is an allowed one. -/
def Ends (x : Except ε α) (fails : ε → Prop) (post : α → Prop) : Prop :=
  match x with
  | .ok value => post value
  | .error failure => fails failure

@[simp] theorem ends_ok (value : α) (fails : ε → Prop) (post : α → Prop) :
    Ends (.ok value) fails post ↔ post value := Iff.rfl

@[simp] theorem ends_pure (value : α) (fails : ε → Prop) (post : α → Prop) :
    Ends (pure value) fails post ↔ post value := Iff.rfl

@[simp] theorem ends_error (failure : ε) (fails : ε → Prop) (post : α → Prop) :
    Ends (.error failure) fails post ↔ fails failure := Iff.rfl

namespace Ends

variable {fails fails' : ε → Prop} {post post' : α → Prop}

/-- A result that was reached satisfies the postcondition. -/
theorem of_ok {x : Except ε α} (h : Ends x fails post) {value : α} (hx : x=.ok value) :
    post value := by
  rw [hx] at h
  exact h

/-- A failure that was reached is an allowed one. -/
theorem of_error {x : Except ε α} (h : Ends x fails post) {failure : ε} (hx : x=.error failure) :
    fails failure := by
  rw [hx] at h
  exact h

/-- Postconditions and allowed failures may be weakened. -/
theorem mono {x : Except ε α} (h : Ends x fails post) (hf : ∀ failure,fails failure → fails' failure)
    (hp : ∀ value,post value → post' value) : Ends x fails' post' := by
  cases x with
  | ok value => exact hp value h
  | error failure => exact hf failure h

/-- What is known of a result besides. -/
theorem and {x : Except ε α} (h : Ends x fails post) (h' : Ends x fails' post') :
    Ends x fails (fun value => post value ∧ post' value) := by
  cases x with
  | ok value => exact ⟨h,h'⟩
  | error failure => exact h

/-- A computation that cannot fail returns. -/
theorem returns {x : Except ε α} (h : Ends x (fun _ => False) post) :
    ∃ value,x=.ok value ∧ post value := by
  cases x with
  | ok value => exact ⟨value,rfl,h⟩
  | error failure => exact h.elim

/-- The second computation starts from what the first one established. -/
theorem bind {x : Except ε α} {next : α → Except ε β} {last : β → Prop}
    (h : Ends x fails post) (hn : ∀ value,post value → Ends (next value) fails last) :
    Ends (x>>=next) fails last := by
  cases x with
  | ok value => exact hn value h
  | error failure => exact h

/-- The second computation starts from a result that is known. -/
theorem after {x : Except ε α} {value : α} {next : α → Except ε β} {last : β → Prop}
    (hx : x=.ok value) (hn : Ends (next value) fails last) : Ends (x>>=next) fails last := by
  rw [hx]
  exact hn

/-- A loop over a list keeps an invariant of the elements already taken. -/
theorem foldlM {step : β → α → Except ε β} {start : β} (items : List α)
    (invariant : List α → β → Prop) (h0 : invariant [] start)
    (hs : ∀ done item rest state,items=done++item::rest → invariant done state →
      Ends (step state item) fails (invariant (done++[item]))) :
    Ends (items.foldlM step start) fails (invariant items) := by
  have hloop : ∀ rest done state,items=done++rest → invariant done state →
      Ends (rest.foldlM step state) fails (invariant items) := by
    intro rest
    induction rest with
    | nil =>
      intro done state hi hinv
      rw [List.append_nil] at hi
      rw [List.foldlM_nil,hi]
      exact hinv
    | cons item rest ih =>
      intro done state hi hinv
      rw [List.foldlM_cons]
      refine (hs done item rest state hi hinv).bind (fun next hnext => ?_)
      exact ih (done++[item]) next (by rw [hi,List.append_assoc]; rfl) hnext
  exact hloop items [] start rfl h0

/-- A loop that counts keeps an invariant of the count. -/
theorem foldlM_range' {step : β → ℕ → Except ε β} (first count : ℕ) {start : β}
    (invariant : ℕ → β → Prop) (h0 : invariant first start)
    (hs : ∀ i state,first≤ i → i<first+count → invariant i state →
      Ends (step state i) fails (invariant (i+1))) :
    Ends ((List.range' first count).foldlM step start) fails (invariant (first+count)) := by
  induction count generalizing first start with
  | zero => exact h0
  | succ count ih =>
    rw [List.range'_succ,List.foldlM_cons]
    refine (hs first start (Nat.le_refl _) (by omega) h0).bind (fun next hnext => ?_)
    have hloop := ih (first+1) hnext (fun i state hl hu => hs i state (by omega) (by omega))
    rw [show first+1+count=first+(count+1) by omega] at hloop
    exact hloop

/-- A loop that counts from zero keeps an invariant of the count. -/
theorem foldlM_range {step : β → ℕ → Except ε β} (count : ℕ) {start : β}
    (invariant : ℕ → β → Prop) (h0 : invariant 0 start)
    (hs : ∀ i state,i<count → invariant i state → Ends (step state i) fails (invariant (i+1))) :
    Ends ((List.range count).foldlM step start) fails (invariant count) := by
  have h := foldlM_range' 0 count invariant h0
    (fun i state _ hu => hs i state (by omega))
  rwa [←List.range_eq_range',Nat.zero_add] at h

/-- A transformed list has the length of the original, and every element
satisfies what the transformation establishes. -/
theorem mapM {f : α → Except ε β} {each : β → Prop} (items : List α)
    (h : ∀ item∈items,Ends (f item) fails each) :
    Ends (items.mapM f) fails (fun values => values.length=items.length ∧ ∀ value∈values,each value) := by
  induction items with
  | nil => simp
  | cons item items ih =>
    rw [List.forall_mem_cons] at h
    rw [List.mapM_cons]
    refine h.1.bind (fun value hv => (ih h.2).bind (fun values hvs => ?_))
    simp only [ends_pure,List.length_cons,List.forall_mem_cons]
    exact ⟨by rw [hvs.1],hv,hvs.2⟩

/-- A loop without a result establishes something for each element. -/
theorem forM {f : α → Except ε PUnit} {each : α → Prop} (items : List α)
    (h : ∀ item∈items,Ends (f item) fails (fun _ => each item)) :
    Ends (items.forM f) fails (fun _ => ∀ item∈items,each item) := by
  induction items with
  | nil => simp
  | cons item items ih =>
    rw [List.forall_mem_cons] at h
    change Ends (f item>>=fun _ => items.forM f) _ _
    refine h.1.bind (fun _ hi => (ih h.2).mono (fun _ hf => hf) (fun _ his => ?_))
    exact List.forall_mem_cons.mpr ⟨hi,his⟩

/-- Each element of a transformed list satisfies what the transformation
establishes for the original of it. -/
theorem mapM_forall₂ {f : α → Except ε β} {each : α → β → Prop} (items : List α)
    (h : ∀ item∈items,Ends (f item) fails (each item)) :
    Ends (items.mapM f) fails (List.Forall₂ each items) := by
  induction items with
  | nil => exact List.Forall₂.nil
  | cons item items ih =>
    rw [List.forall_mem_cons] at h
    rw [List.mapM_cons]
    exact h.1.bind (fun value hv => (ih h.2).bind (fun values hvs => List.Forall₂.cons hv hvs))

end Ends

end Results

section States

variable {σ ε α β : Type}

/-- From a given state, the result and the new state satisfy the
postcondition and a failure is an allowed one. -/
def Meets (x : StateT σ (Except ε) α) (start : σ) (fails : ε → Prop) (post : α → σ → Prop) : Prop :=
  Ends (x start) fails (fun result => post result.1 result.2)

/-- A computation without state in front of another one. -/
theorem lift_bind_run (x : Except ε α) (next : α → StateT σ (Except ε) β) (start : σ) :
    (StateT.lift x>>=next) start=x>>=fun value => next value start := by
  cases x <;> rfl

@[simp] theorem meets_pure (value : α) (start : σ) (fails : ε → Prop) (post : α → σ → Prop) :
    Meets (pure value) start fails post ↔ post value start := Iff.rfl

namespace Meets

variable {fails fails' : ε → Prop} {post post' : α → σ → Prop} {start : σ}

/-- Postconditions and allowed failures may be weakened. -/
theorem mono {x : StateT σ (Except ε) α} (h : Meets x start fails post)
    (hf : ∀ failure,fails failure → fails' failure)
    (hp : ∀ value state,post value state → post' value state) : Meets x start fails' post' :=
  Ends.mono h hf (fun result => hp result.1 result.2)

/-- The second computation starts from what the first one established. -/
theorem bind {x : StateT σ (Except ε) α} {next : α → StateT σ (Except ε) β}
    {last : β → σ → Prop} (h : Meets x start fails post)
    (hn : ∀ value state,post value state → Meets (next value) state fails last) :
    Meets (x>>=next) start fails last :=
  Ends.bind h (fun result hr => hn result.1 result.2 hr)

/-- A computation without state leaves the state alone. -/
theorem lift {x : Except ε α} {each : α → Prop} (h : Ends x fails each) :
    Meets (StateT.lift x) start fails (fun value state => each value ∧ state=start) := by
  cases x with
  | ok value => exact ⟨h,rfl⟩
  | error failure => exact h

/-- An update of the state. -/
theorem updated (update : σ → σ) :
    Meets (modify update : StateT σ (Except ε) PUnit) start fails
      (fun _ state => state=update start) := rfl

/-- A loop over a list keeps an invariant of the elements already taken. -/
theorem foldlM {step : β → α → StateT σ (Except ε) β} {first : β} (items : List α)
    (invariant : List α → β → σ → Prop) (h0 : invariant [] first start)
    (hs : ∀ done item rest value state,items=done++item::rest → invariant done value state →
      Meets (step value item) state fails (invariant (done++[item]))) :
    Meets (items.foldlM step first) start fails (invariant items) := by
  have hloop : ∀ rest done value state,items=done++rest → invariant done value state →
      Meets (rest.foldlM step value) state fails (invariant items) := by
    intro rest
    induction rest with
    | nil =>
      intro done value state hi hinv
      rw [List.append_nil] at hi
      rw [List.foldlM_nil,hi]
      exact hinv
    | cons item rest ih =>
      intro done value state hi hinv
      rw [List.foldlM_cons]
      refine (hs done item rest value state hi hinv).bind (fun next after hnext => ?_)
      exact ih (done++[item]) next after (by rw [hi,List.append_assoc]; rfl) hnext
  exact hloop items [] first start rfl h0

end Meets

/-- From every state the result satisfies the postcondition and a failure is
an allowed one. -/
def Yields (x : StateT σ (Except ε) α) (fails : ε → Prop) (post : α → Prop) : Prop :=
  ∀ start,Meets x start fails (fun value _ => post value)

namespace Yields

variable {fails fails' : ε → Prop} {post post' : α → Prop}

/-- Returning. -/
theorem returned {value : α} (h : post value) : Yields (pure value : StateT σ (Except ε) α) fails post :=
  fun _ => h

/-- Postconditions and allowed failures may be weakened. -/
theorem mono {x : StateT σ (Except ε) α} (h : Yields x fails post)
    (hf : ∀ failure,fails failure → fails' failure)
    (hp : ∀ value,post value → post' value) : Yields x fails' post' :=
  fun start => (h start).mono hf (fun value _ => hp value)

/-- The second computation starts from what the first one established. -/
theorem bind {x : StateT σ (Except ε) α} {next : α → StateT σ (Except ε) β} {last : β → Prop}
    (h : Yields x fails post) (hn : ∀ value,post value → Yields (next value) fails last) :
    Yields (x>>=next) fails last :=
  fun start => (h start).bind (fun value state hv => hn value hv state)

/-- A computation without state. -/
theorem lift {x : Except ε α} (h : Ends x fails post) :
    Yields (StateT.lift x : StateT σ (Except ε) α) fails post :=
  fun _ => (Meets.lift h).mono (fun _ hf => hf) (fun _ _ hv => hv.1)

/-- An update of the state. -/
theorem updated (update : σ → σ) :
    Yields (modify update : StateT σ (Except ε) PUnit) fails (fun _ => True) :=
  fun _ => trivial

/-- A result comes from a run. -/
theorem reached {x : StateT σ (Except ε) α} (h : Yields x fails post) :
    Yields x fails (fun value => post value ∧ ∃ start state,x start=.ok (value,state)) := by
  intro start
  have hs := h start
  unfold Meets at hs ⊢
  cases hx : x start with
  | ok result =>
    rw [hx] at hs
    exact ⟨hs,start,result.2,hx⟩
  | error failure =>
    rw [hx] at hs
    exact hs

/-- A loop over a list keeps an invariant of the elements already taken. -/
theorem foldlM {step : β → α → StateT σ (Except ε) β} {first : β} (items : List α)
    (invariant : List α → β → Prop) (h0 : invariant [] first)
    (hs : ∀ done item rest value,items=done++item::rest → invariant done value →
      Yields (step value item) fails (invariant (done++[item]))) :
    Yields (items.foldlM step first) fails (invariant items) :=
  fun _ => Meets.foldlM items (fun done value _ => invariant done value) h0
    (fun done item rest value state hi hv => hs done item rest value hi hv state)

/-- A loop that counts from zero keeps an invariant of the count. -/
theorem foldlM_range {step : β → ℕ → StateT σ (Except ε) β} (count : ℕ) {first : β}
    (invariant : ℕ → β → Prop) (h0 : invariant 0 first)
    (hs : ∀ i value,i<count → invariant i value → Yields (step value i) fails (invariant (i+1))) :
    Yields ((List.range count).foldlM step first) fails (invariant count) := by
  have hloop := show Yields ((List.range count).foldlM step first) fails
      (fun value => invariant (List.range count).length value) from Yields.foldlM (List.range count)
    (fun done => invariant done.length) h0 (fun done item rest value hsplit hv => by
      have hitem : (List.range count)[done.length]?=some item := by
        rw [hsplit,List.getElem?_append_right (Nat.le_refl _),Nat.sub_self]
        rfl
      obtain ⟨hlt,he⟩ := List.getElem?_eq_some_iff.mp hitem
      rw [List.length_range] at hlt
      rw [List.getElem_range] at he
      rw [List.length_append,List.length_singleton,←he]
      exact hs done.length value hlt hv)
  rwa [List.length_range] at hloop

end Yields

/-- Two computations have the same result from any states. -/
def Agree (x x' : StateT σ (Except ε) α) : Prop :=
  ∀ start start',(x start).map Prod.fst=(x' start').map Prod.fst

/-- Sequences agree when their parts do. The second parts are only compared
at results that the first one reaches. -/
theorem Agree.bind {x x' : StateT σ (Except ε) α} {next next' : α → StateT σ (Except ε) β}
    (h : Agree x x')
    (hn : ∀ value,(∃ start state,x start=.ok (value,state)) → Agree (next value) (next' value)) :
    Agree (x>>=next) (x'>>=next') := by
  intro start start'
  have hx := h start start'
  change (x start>>=fun result => next result.1 result.2).map Prod.fst=
    (x' start'>>=fun result => next' result.1 result.2).map Prod.fst
  cases h1 : x start with
  | error failure =>
    cases h2 : x' start' with
    | error failure' =>
      rw [h1,h2] at hx
      injection hx with he
      rw [he]
      rfl
    | ok result =>
      rw [h1,h2] at hx
      injection hx
  | ok result =>
    cases h2 : x' start' with
    | error failure' =>
      rw [h1,h2] at hx
      injection hx
    | ok result' =>
      rw [h1,h2] at hx
      injection hx with he
      have hr := hn result.1 ⟨start,result.2,h1⟩ result.2 result'.2
      change (next result.1 result.2).map Prod.fst=(next' result'.1 result'.2).map Prod.fst
      rw [hr,show result.1=result'.1 from he]

/-- The result is the same whatever the state is. -/
def Oblivious (x : StateT σ (Except ε) α) : Prop := Agree x x

namespace Oblivious

/-- Returning. -/
theorem returned (value : α) : Oblivious (pure value : StateT σ (Except ε) α) := fun _ _ => rfl

/-- A computation without state. -/
theorem lift (x : Except ε α) : Oblivious (StateT.lift x : StateT σ (Except ε) α) := fun _ _ => by
  cases x <;> rfl

/-- An update of the state. -/
theorem updated (update : σ → σ) :
    Oblivious (modify update : StateT σ (Except ε) PUnit) := fun _ _ => rfl

/-- The result of a sequence only depends on the result of the first part. -/
theorem bind {x : StateT σ (Except ε) α} {next : α → StateT σ (Except ε) β} (h : Oblivious x)
    (hn : ∀ value,Oblivious (next value)) : Oblivious (x>>=next) :=
  Agree.bind h (fun value _ => hn value)

/-- A loop of such steps. -/
theorem foldlM {step : β → α → StateT σ (Except ε) β} (items : List α)
    (hs : ∀ value item,Oblivious (step value item)) (first : β) :
    Oblivious (items.foldlM step first) := by
  induction items generalizing first with
  | nil => exact .returned first
  | cons item items ih =>
    rw [List.foldlM_cons]
    exact (hs first item).bind ih

end Oblivious

end States

end Leann.Outcomes
