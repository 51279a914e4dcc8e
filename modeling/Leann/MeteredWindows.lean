import Mathlib.Data.List.Nodup
import Mathlib.Data.List.Perm.Basic
import Mathlib.Logic.Function.Basic
import Mathlib.Logic.Relation

/-!
# Windows of metered requests

A server handles every request in a thread of its own, which counts events in
shared counters and writes a response. A client resets the counters, issues
requests and reads the counters when all responses have arrived. The counters
are those of its own requests when no thread has something left to count
behind a response that was written.
-/

namespace Leann.MeteredWindows

section Definitions

variable {ι A M : Type}

/-- What a handler does at one time. -/
inductive Act (A : Type) where
  /-- An event is counted. -/
  | count (event : A)
  /-- The response is written. -/
  | write
  deriving DecidableEq

/-- What is counted by some acts. -/
def counted : List (Act A) → List A
  | [] => []
  | .count event::acts => event::counted acts
  | .write::acts => counted acts

/-- Counters, in which the order of events does not matter. -/
structure Meter (A M : Type) where
  /-- The counters after a reset. -/
  zero : M
  /-- One event more. -/
  add : M → A → M
  /-- Events may be exchanged. -/
  comm : ∀ metrics first second,add (add metrics first) second=add (add metrics second) first

/-- The counters of some events. -/
def Meter.total (meter : Meter A M) (events : List A) : M := events.foldl meter.add meter.zero

/-- A server together with its client. -/
structure State (ι A M : Type) where
  /-- The counters. -/
  metrics : M
  /-- The requests that were issued before the last reset. -/
  earlier : List ι
  /-- The requests that were issued since. -/
  issued : List ι
  /-- What the handler of a request has still to do. -/
  left : ι → List (Act A)
  /-- The requests whose response was written. -/
  answered : List ι

/-- Before the first request. -/
def start (meter : Meter A M) : State ι A M := ⟨meter.zero,[],[],fun _ => [],[]⟩

/-- All responses since the last reset have arrived. -/
def State.Received (state : State ι A M) : Prop := ∀ request∈state.issued,request∈state.answered

/-- Nothing is left to count behind a response that was written. -/
def State.Settled (state : State ι A M) : Prop :=
  ∀ request∈state.answered,counted (state.left request)=[]

instance decidableReceived [DecidableEq ι] (state : State ι A M) : Decidable state.Received :=
  inferInstanceAs (Decidable (∀ request∈state.issued,request∈state.answered))

instance decidableSettled [DecidableEq A] (state : State ι A M) : Decidable state.Settled :=
  inferInstanceAs (Decidable (∀ request∈state.answered,counted (state.left request)=[]))

/-- The counters are those of the requests since the last reset. -/
def State.Exact (meter : Meter A M) (server : ι → List (Act A)) (state : State ι A M) : Prop :=
  state.metrics=meter.total (state.issued.flatMap (fun request => counted (server request)))

instance decidableExact [DecidableEq M] (meter : Meter A M) (server : ι → List (Act A))
    (state : State ι A M) : Decidable (state.Exact meter server) :=
  inferInstanceAs (Decidable (_=_))

variable [DecidableEq ι]

/-- One step of a handler or of the client, which may reset the counters in
some states in which all responses have arrived. -/
inductive Step (meter : Meter A M) (server : ι → List (Act A)) (mayReset : State ι A M → Prop) :
    State ι A M → State ι A M → Prop where
  /-- A new request is issued. -/
  | issue {state : State ι A M} {request : ι} (fresh : request∉state.earlier++state.issued) :
    Step meter server mayReset state {state with
      issued := state.issued++[request],
      left := Function.update state.left request (server request)}
  /-- A handler counts an event. -/
  | count {state : State ι A M} {request : ι} {event : A} {rest : List (Act A)}
      (next : state.left request=.count event::rest) :
    Step meter server mayReset state {state with
      metrics := meter.add state.metrics event,left := Function.update state.left request rest}
  /-- A handler writes its response. -/
  | write {state : State ι A M} {request : ι} {rest : List (Act A)}
      (next : state.left request=.write::rest) :
    Step meter server mayReset state {state with
      left := Function.update state.left request rest,answered := request::state.answered}
  /-- The counters are reset. -/
  | reset {state : State ι A M} (received : ∀ request∈state.earlier++state.issued,request∈state.answered)
      (may : mayReset state) :
    Step meter server mayReset state {state with
      metrics := meter.zero,earlier := state.earlier++state.issued,issued := []}

/-- A state that some steps lead to. -/
def Reached (meter : Meter A M) (server : ι → List (Act A)) (mayReset : State ι A M → Prop)
    (state : State ι A M) : Prop :=
  Relation.ReflTransGen (Step meter server mayReset) (start meter) state

/-- The next act of the handler of a request, if it has one. -/
def State.act (meter : Meter A M) (state : State ι A M) (request : ι) : State ι A M :=
  match state.left request with
  | [] => state
  | .count event::rest =>
    {state with metrics := meter.add state.metrics event,left := Function.update state.left request rest}
  | .write::rest =>
    {state with left := Function.update state.left request rest,answered := request::state.answered}

/-- A request is issued. -/
def State.issue (server : ι → List (Act A)) (state : State ι A M) (request : ι) : State ι A M :=
  {state with
    issued := state.issued++[request],left := Function.update state.left request (server request)}

/-- The next act of a handler is a step. -/
theorem Reached.act {meter : Meter A M} {server : ι → List (Act A)} {mayReset : State ι A M → Prop}
    {state : State ι A M} (reached : Reached meter server mayReset state) (request : ι) :
    Reached meter server mayReset (state.act meter request) := by
  unfold State.act
  split
  · exact reached
  · rename_i event rest next
    exact reached.tail (.count next)
  · rename_i rest next
    exact reached.tail (.write next)

/-- So are several acts. -/
theorem Reached.acts {meter : Meter A M} {server : ι → List (Act A)} {mayReset : State ι A M → Prop}
    {state : State ι A M} (reached : Reached meter server mayReset state) (requests : List ι) :
    Reached meter server mayReset (requests.foldl (State.act meter) state) := by
  induction requests generalizing state with
  | nil => exact reached
  | cons request requests ih => exact ih (reached.act request)

end Definitions

section Invariant

variable {ι A M : Type} [DecidableEq ι] {meter : Meter A M} {server : ι → List (Act A)}
variable {state after : State ι A M}

/-- What was counted since the last reset. -/
structure Metered (meter : Meter A M) (server : ι → List (Act A)) (state : State ι A M)
    (performed : ι → List A) (log : List A) : Prop where
  /-- Every request was counted as far as its handler has come. -/
  performed_eq : ∀ request∈state.issued,
    performed request++counted (state.left request)=counted (server request)
  /-- The events counted are those of the requests, in some order. -/
  log_perm : log.Perm (state.issued.flatMap performed)
  /-- The counters are theirs. -/
  metrics_eq : state.metrics=meter.total log
  /-- Nothing is left to count of earlier requests. -/
  earlier_eq : ∀ request∈state.earlier,counted (state.left request)=[]
  /-- Every request is issued once. -/
  nodup : state.issued.Nodup
  /-- Nothing is left to do of others. -/
  others_eq : ∀ request,request∉state.earlier++state.issued → state.left request=[]

/-- What is known of another request does not matter. -/
theorem flatMap_update_other {requests : List ι} {request : ι} (h : request∉requests)
    (performed : ι → List A) (events : List A) :
    requests.flatMap (Function.update performed request events)=requests.flatMap performed := by
  apply List.flatMap_congr
  intro other ho
  have hne : other≠request := fun he => h (he ▸ ho)
  exact Function.update_of_ne hne _ _

/-- One event more of one request. -/
theorem flatMap_update {requests : List ι} {request : ι} (h : requests.Nodup) (hm : request∈requests)
    (performed : ι → List A) (event : A) :
    (requests.flatMap (Function.update performed request (performed request++[event]))).Perm
      (requests.flatMap performed++[event]) := by
  induction requests with
  | nil => cases hm
  | cons first requests ih =>
    rw [List.nodup_cons] at h
    rw [List.flatMap_cons,List.flatMap_cons]
    by_cases hf : first=request
    · rw [hf] at h ⊢
      rw [Function.update_self,flatMap_update_other h.1,List.append_assoc,List.append_assoc]
      exact List.perm_append_comm.append_left _
    · have hrest : request∈requests := (List.mem_cons.mp hm).resolve_left (Ne.symm hf)
      rw [Function.update_of_ne hf,List.append_assoc]
      exact (ih h.2 hrest).append_left _

/-- Every step keeps the count, when the counters are reset in settled states. -/
theorem Metered.step {performed : ι → List A} {log : List A} (h : Metered meter server state performed log)
    (step : Step meter server State.Settled state after) :
    ∃ performed' log',Metered meter server after performed' log' := by
  cases step with
  | @issue request fresh =>
    rw [List.mem_append,not_or] at fresh
    have hlast : [request].flatMap (Function.update performed request [])=[] := by
      rw [List.flatMap_singleton,Function.update_self]
    refine ⟨Function.update performed request [],log,fun other ho => ?_,?_,h.metrics_eq,fun other ho => ?_,?_,
      fun other ho => ?_⟩
    · rcases List.mem_append.mp ho with ho|ho
      · have hne : other≠request := fun he => fresh.2 (he ▸ ho)
        dsimp only
        rw [Function.update_of_ne hne,Function.update_of_ne hne]
        exact h.performed_eq other ho
      · dsimp only
        rw [List.mem_singleton.mp ho,Function.update_self,Function.update_self]
        rfl
    · rw [List.flatMap_append,flatMap_update_other fresh.2,hlast,List.append_nil]
      exact h.log_perm
    · have hne : other≠request := fun he => fresh.1 (he ▸ ho)
      dsimp only
      rw [Function.update_of_ne hne]
      exact h.earlier_eq other ho
    · exact List.nodup_append.mpr ⟨h.nodup,List.nodup_singleton _,fun first hf second hs he =>
        fresh.2 (List.mem_singleton.mp hs ▸ he ▸ hf)⟩
    · dsimp only at ho ⊢
      rw [←List.append_assoc,List.mem_append,not_or] at ho
      have hne : other≠request := fun he => ho.2 (List.mem_singleton.mpr he)
      rw [Function.update_of_ne hne]
      exact h.others_eq other ho.1
  | @count request event rest next =>
    -- only a request of this window has something to count
    have hissued : request∈state.issued := by
      by_contra hno
      by_cases he : request∈state.earlier
      · have hnone := h.earlier_eq request he
        rw [next] at hnone
        cases hnone
      · have hnone := h.others_eq request (fun hm => (List.mem_append.mp hm).elim he hno)
        rw [next] at hnone
        cases hnone
    refine ⟨Function.update performed request (performed request++[event]),log++[event],fun other ho => ?_,?_,
      ?_,fun other ho => ?_,h.nodup,fun other ho => ?_⟩
    · by_cases he : other=request
      · have hold := h.performed_eq request hissued
        rw [next] at hold
        dsimp only
        rw [he,Function.update_self,Function.update_self,←hold,List.append_assoc]
        rfl
      · dsimp only
        rw [Function.update_of_ne he,Function.update_of_ne he]
        exact h.performed_eq other ho
    · exact (h.log_perm.append_right _).trans (flatMap_update h.nodup hissued performed event).symm
    · change meter.add state.metrics event=_
      rw [h.metrics_eq,Meter.total,Meter.total,List.foldl_append]
      rfl
    · by_cases he : other=request
      · have hold := h.earlier_eq request (he ▸ ho)
        rw [next] at hold
        cases hold
      · dsimp only
        rw [Function.update_of_ne he]
        exact h.earlier_eq other ho
    · have hne : other≠request := fun he => ho (List.mem_append_right _ (he ▸ hissued))
      dsimp only
      rw [Function.update_of_ne hne]
      exact h.others_eq other ho
  | @write request rest next =>
    have hsame : ∀ other,counted (Function.update state.left request rest other)=counted (state.left other) := by
      intro other
      by_cases he : other=request
      · rw [he,Function.update_self,next]
        rfl
      · rw [Function.update_of_ne he]
    refine ⟨performed,log,fun other ho => ?_,h.log_perm,h.metrics_eq,fun other ho => ?_,h.nodup,
      fun other ho => ?_⟩
    · exact (congrArg (performed other++·) (hsame other)).trans (h.performed_eq other ho)
    · rw [hsame]
      exact h.earlier_eq other ho
    · have hne : other≠request := by
        intro he
        have hnone := h.others_eq request (he ▸ ho)
        rw [next] at hnone
        cases hnone
      dsimp only
      rw [Function.update_of_ne hne]
      exact h.others_eq other ho
  | reset received settled =>
    refine ⟨fun _ => [],[],fun _ ho => absurd ho List.not_mem_nil,List.Perm.refl _,rfl,fun other ho => ?_,
      List.nodup_nil,fun other ho => ?_⟩
    · exact settled other (received other ho)
    · rw [List.append_nil] at ho
      exact h.others_eq other ho

/-- So does every run. -/
theorem metered_of_reached (reached : Reached meter server State.Settled state) :
    ∃ performed log,Metered meter server state performed log := by
  induction reached with
  | refl => exact ⟨fun _ => [],[],fun _ ho => absurd ho List.not_mem_nil,List.Perm.refl _,rfl,
      fun _ ho => absurd ho List.not_mem_nil,List.nodup_nil,fun _ _ => rfl⟩
  | tail _ step ih =>
    obtain ⟨performed,log,h⟩ := ih
    exact h.step step

/-- The counters are exact when they are reset and read in settled states. -/
theorem exact_of_settled (reached : Reached meter server State.Settled state) (received : state.Received)
    (settled : state.Settled) : state.Exact meter server := by
  obtain ⟨performed,log,h⟩ := metered_of_reached reached
  have hall : state.issued.flatMap performed=
      state.issued.flatMap (fun request => counted (server request)) := by
    apply List.flatMap_congr
    intro request hr
    rw [←h.performed_eq request hr,settled request (received request hr),List.append_nil]
  rw [State.Exact,h.metrics_eq,←hall,Meter.total,Meter.total]
  exact h.log_perm.foldl_eq' (fun first _ second _ metrics => meter.comm metrics first second) _

end Invariant

section Order

variable {ι A M : Type} [DecidableEq ι] {meter : Meter A M} {server : ι → List (Act A)}
variable {state : State ι A M}

/-- A handler that counts everything before it writes. -/
def CountsFirst : List (Act A) → Prop
  | [] => True
  | .count _::acts => CountsFirst acts
  | .write::acts => counted acts=[]

/-- What is done next leaves such a handler. -/
theorem CountsFirst.tail {act : Act A} {acts : List (Act A)} (h : CountsFirst (act::acts)) :
    CountsFirst acts := by
  have hnone : ∀ acts : List (Act A),counted acts=[] → CountsFirst acts := by
    intro acts
    induction acts with
    | nil => exact fun _ => trivial
    | cons act acts ih =>
      intro hc
      cases act with
      | count event => cases hc
      | write => exact hc
  cases act with
  | count event => exact h
  | write => exact hnone acts h

/-- What holds of a changed handler and of all others. -/
theorem forall_update {property : List (Act A) → Prop} {left : ι → List (Act A)} {request : ι}
    {acts : List (Act A)} (h : ∀ other,property (left other)) (hacts : property acts) (other : ι) :
    property (Function.update left request acts other) := by
  by_cases he : other=request
  · rw [he,Function.update_self]
    exact hacts
  · rw [Function.update_of_ne he]
    exact h other

/-- Handlers that count everything before they write leave nothing behind a
response. -/
theorem settled_of_countsFirst (h : ∀ request,CountsFirst (server request))
    (reached : Reached meter server (fun _ => True) state) :
    Reached meter server State.Settled state ∧ state.Settled ∧
      (∀ request,CountsFirst (state.left request)) ∧
      ∀ request∈state.answered,request∈state.earlier++state.issued := by
  induction reached with
  | refl => exact ⟨.refl,fun _ hm => absurd hm List.not_mem_nil,fun _ => trivial,
      fun _ hm => absurd hm List.not_mem_nil⟩
  | @tail middle last _ step ih =>
    obtain ⟨reached,settled,first,known⟩ := ih
    cases step with
    | @issue request fresh =>
      refine ⟨reached.tail (.issue fresh),fun other ho => ?_,forall_update first (h request),
        fun other ho => ?_⟩
      · have hne : other≠request := fun he => fresh (he ▸ known other ho)
        dsimp only
        rw [Function.update_of_ne hne]
        exact settled other ho
      · dsimp only
        rw [←List.append_assoc]
        exact List.mem_append_left _ (known other ho)
    | @count request event rest next =>
      have hfirst := first request
      rw [next] at hfirst
      refine ⟨reached.tail (.count next),fun other ho => ?_,forall_update first hfirst.tail,known⟩
      · have hne : other≠request := by
          intro he
          have hnone := settled other ho
          rw [he,next] at hnone
          cases hnone
        dsimp only
        rw [Function.update_of_ne hne]
        exact settled other ho
    | @write request rest next =>
      have hfirst := first request
      rw [next] at hfirst
      have hknown : request∈middle.earlier++middle.issued := by
        by_contra hno
        obtain ⟨performed,log,hmetered⟩ := metered_of_reached reached
        have hnone := hmetered.others_eq request hno
        rw [next] at hnone
        cases hnone
      refine ⟨reached.tail (.write next),fun other ho => ?_,forall_update first hfirst.tail,
        fun other ho => ?_⟩
      · dsimp only at ho ⊢
        by_cases he : other=request
        · rw [he,Function.update_self]
          exact hfirst
        · rw [Function.update_of_ne he]
          exact settled other ((List.mem_cons.mp ho).resolve_left he)
      · rcases List.mem_cons.mp ho with he|ho
        · rw [he]
          exact hknown
        · exact known other ho
    | reset received may =>
      refine ⟨reached.tail (.reset received settled),settled,first,fun other ho => ?_⟩
      dsimp only
      rw [List.append_nil]
      exact known other ho

end Order

end Leann.MeteredWindows
