import Leann.Effects
import Leann.Exceptions
import Leann.PythonValues

/-!
# Stages that are resumed

`run_repeated_stage` runs a command some times to warm up and some times to
measure it, and writes what it has observed to a file after every run. A call
that was killed or whose command failed is resumed by the next one. The file
is written as JSON, and the inputs that it holds are compared with the given
ones when it is read.
-/

namespace Leann.RepeatedStage

open Effects PythonValues
open Exceptions (bind_eq_ok)

section Source

/-- Whether a run is for warming up or for measuring. -/
inductive Kind where
  /-- `warmups`. -/
  | warmups
  /-- `measurements`. -/
  | measurements
  deriving DecidableEq

/-- The `status` of a stage. -/
inductive Status where
  /-- `running`. -/
  | running
  /-- `failed`. -/
  | failed
  /-- `complete`. -/
  | complete
  /-- Anything else. -/
  | other (text : String)
  deriving DecidableEq

/-- An item of `snapshot_files`. -/
structure FileSnapshot where
  /-- `path`. -/
  path : String
  /-- `size_bytes`. -/
  sizeBytes : ℕ
  /-- `sha256`. -/
  sha256 : String
  deriving DecidableEq

/-- What was observed of one run. -/
structure Observation where
  /-- `kind`. -/
  kind : Kind
  /-- `ordinal`. -/
  ordinal : ℕ
  /-- `exit_code`. -/
  exitCode : ℤ
  /-- `artifacts`. -/
  artifacts : List FileSnapshot
  /-- The command with its output, its times and its result file. -/
  details : Value

/-- The state of a stage. -/
structure StageState where
  /-- `schema`. -/
  schema : String
  /-- `name`. -/
  name : String
  /-- `input_hash`. -/
  inputHash : String
  /-- `inputs`. -/
  inputs : Value
  /-- `status`. -/
  status : Status
  /-- `warmups`. -/
  warmups : List Observation
  /-- `measurements`. -/
  measurements : List Observation
  /-- `failed_attempts`. -/
  failedAttempts : List Observation
  /-- `created_at`. -/
  createdAt : String
  /-- `updated_at`. -/
  updatedAt : Option String
  /-- `completed_at`. -/
  completedAt : Option String

/-- `state[kind]`. -/
def StageState.observations (state : StageState) : Kind → List Observation
  | .warmups => state.warmups
  | .measurements => state.measurements

/-- `state[kind].append`. -/
def StageState.append (state : StageState) (kind : Kind) (observation : Observation) : StageState :=
  match kind with
  | .warmups => {state with warmups := state.warmups++[observation]}
  | .measurements => {state with measurements := state.measurements++[observation]}

/-- What is read back of an observation. -/
def Observation.reload (observation : Observation) : Observation :=
  {observation with details := observation.details.reload}

/-- What is read back of a state. -/
def StageState.reload (state : StageState) : StageState :=
  {state with
    inputs := state.inputs.reload,warmups := state.warmups.map Observation.reload,
    measurements := state.measurements.map Observation.reload,
    failedAttempts := state.failedAttempts.map Observation.reload}

/-- The arguments of a call. -/
structure Stage where
  /-- `name`. -/
  name : String
  /-- `input_payload`. -/
  inputPayload : List (Scalar×Value)
  /-- `warmups`. -/
  warmups : ℤ
  /-- `repetitions`. -/
  repetitions : ℤ
  /-- No key of a dictionary stands twice. -/
  distinct : (Value.dict inputPayload).distinct=true

/-- A key that is a string. -/
def key (name : String) : Scalar := .text name.toList

/-- `execution_protocol`. -/
def Stage.executionProtocol (stage : Stage) : Value :=
  .dict [(key "warmups",.scalar (.int stage.warmups)),(key "repetitions",.scalar (.int stage.repetitions))]

/-- `stage_inputs`. -/
def Stage.inputs (stage : Stage) : Value :=
  .dict (stage.inputPayload.filter (fun entry => !entry.1.same (key "execution_protocol"))++
    [(key "execution_protocol",stage.executionProtocol)])

/-- How often a command is to be run. -/
def Stage.wanted (stage : Stage) : Kind → ℤ
  | .warmups => stage.warmups
  | .measurements => stage.repetitions

/-- The exceptions that end a call. -/
inductive StageError where
  /-- `warmups` or `repetitions` is too small. -/
  | badCounts
  /-- The inputs name other counts. -/
  | protocolDisagrees
  /-- The inputs cannot be written as JSON. -/
  | typeError
  /-- The file belongs to another stage. -/
  | identityMismatch
  /-- The file has another hash of the inputs. -/
  | differentInputs
  /-- The file has no known status. -/
  | invalidStatus
  /-- The file has too many observations. -/
  | tooMany (kind : Kind)
  /-- An observation is out of place. -/
  | observationMismatch (kind : Kind) (ordinal : ℕ)
  /-- A completed stage lacks observations. -/
  | incompleteCounts
  /-- The artifacts of a completed stage are others now. -/
  | artifactsChanged
  /-- The command failed. -/
  | commandFailed (exitCode : ℤ)
  deriving DecidableEq

/-- The name of a kind. -/
def Kind.text : Kind → String
  | .warmups => "warmups"
  | .measurements => "measurements"

/-- The text of an exception that a call raises itself, for the name of a stage
and the path of its file. -/
def StageError.message (name statePath : String) : StageError → Option String
  | .badCounts => some "warmups must be non-negative and repetitions positive"
  | .protocolDisagrees => some (name++": input execution protocol disagrees with requested counts")
  | .typeError => none
  | .identityMismatch => some (name++": existing stage state identity mismatch")
  | .differentInputs => some (name++": existing stage state belongs to different inputs")
  | .invalidStatus => some (name++": existing stage status is invalid")
  | .tooMany kind => some (name++": checkpoint contains more "++kind.text++" than requested")
  | .observationMismatch kind ordinal =>
    some (name++": "++kind.text++" observation "++toString ordinal++" identity mismatch")
  | .incompleteCounts => some (name++": completed stage has incomplete observation counts")
  | .artifactsChanged => some (name++": completed-stage artifacts changed; refuse stale reuse")
  | .commandFailed exitCode => some (name++" failed with exit "++toString exitCode++"; see "++statePath)

/-- An exception that refuses the file of the state itself. -/
def StageError.rejects : StageError → Bool
  | .identityMismatch => true
  | .differentInputs => true
  | .invalidStatus => true
  | .tooMany _ => true
  | .observationMismatch _ _ => true
  | .incompleteCounts => true
  | _ => false

/-- What a call asks of its surroundings. -/
inductive StageOp where
  /-- Whether there is a file of the state, and what is read from it. -/
  | readState
  /-- Replace the file of the state. -/
  | writeState (state : StageState)
  /-- `command_factory` and `run_observation`: the exit code and what else was
  observed of a run. -/
  | observe (kind : Kind) (ordinal : ℕ)
  /-- `snapshot_files(artifact_factory())`. -/
  | snapshotArtifacts
  /-- `utc_now`. -/
  | utcNow

/-- The answers. -/
def StageOp.Answer : StageOp → Type
  | .readState => Option StageState
  | .writeState _ => Unit
  | .observe _ _ => ℤ×Value
  | .snapshotArtifacts => List FileSnapshot
  | .utcNow => String

/-- A part of a call. -/
abbrev StageProgram := Program StageOp StageOp.Answer

/-- Ask for something. -/
abbrev ask (op : StageOp) : StageProgram op.Answer := Program.perform op

/-- The loop over the observations of one kind that was read. -/
def checkObservations (stage : Stage) (state : StageState) (kind : Kind) : Except StageError Unit := do
  raiseWhen (((state.observations kind).length : ℤ)>stage.wanted kind) (.tooMany kind)
  match (state.observations kind).zipIdx.find? (fun entry => entry.1.kind≠kind ∨ entry.1.ordinal≠entry.2) with
  | some entry => .error (.observationMismatch kind entry.2)
  | none => .ok ()

variable (canonicalHash : Value → String)

/-- The checks of a state that was read. -/
def checkState (stage : Stage) (state : StageState) : Except StageError Unit := do
  raiseWhen (state.schema≠"leann-command-stage-v1" ∨ state.name≠stage.name ∨
    state.inputs.same stage.inputs=false) .identityMismatch
  raiseWhen (state.inputHash≠canonicalHash stage.inputs) .differentInputs
  raiseWhen (state.status≠.running ∧ state.status≠.failed ∧ state.status≠.complete) .invalidStatus
  checkObservations stage state .warmups
  checkObservations stage state .measurements

/-- The state before the first observation. -/
def freshState (stage : Stage) (createdAt : String) : StageState where
  schema := "leann-command-stage-v1"
  name := stage.name
  inputHash := canonicalHash stage.inputs
  inputs := stage.inputs
  status := .running
  warmups := []
  measurements := []
  failedAttempts := []
  createdAt := createdAt
  updatedAt := none
  completedAt := none

/-- The loop that observes what is left of one kind, so many times. -/
def observeAll (kind : Kind) : ℕ → StageState → StageProgram (Except StageError StageState)
  | 0,state => return .ok state
  | left+1,state => do
    let ordinal := (state.observations kind).length
    let (exitCode,details) ← ask (.observe kind ordinal)
    let artifacts ← ask .snapshotArtifacts
    let observation : Observation := ⟨kind,ordinal,exitCode,artifacts,details⟩
    let updatedAt ← ask .utcNow
    if exitCode≠0 then
      ask (.writeState {state with
        failedAttempts := state.failedAttempts++[observation],status := .failed,
        updatedAt := some updatedAt})
      return .error (.commandFailed exitCode)
    else
      let state := {state.append kind observation with status := .running,updatedAt := some updatedAt}
      ask (.writeState state)
      observeAll kind left state

/-- The observations that are left of one kind. -/
def observeRest (stage : Stage) (kind : Kind) (state : StageState) :
    StageProgram (Except StageError StageState) :=
  observeAll kind ((stage.wanted kind).toNat-(state.observations kind).length) state

/-- All observations that are left, and the end of the stage. -/
def runStage (stage : Stage) (state : StageState) : StageProgram (Except StageError StageState) := do
  match ← observeRest stage .warmups state with
  | .error failure => return .error failure
  | .ok state =>
    match ← observeRest stage .measurements state with
    | .error failure => return .error failure
    | .ok state =>
      let completedAt ← ask .utcNow
      let state := {state with status := .complete,completedAt := some completedAt}
      ask (.writeState state)
      return .ok state

/-- The `artifacts` of the last measurement. -/
def recordedArtifacts (state : StageState) : List FileSnapshot :=
  ((state.measurements.getLast?).map Observation.artifacts).getD []

/-- A state that was read goes on, or it is returned when it is complete. -/
def resumeStage (stage : Stage) (state : StageState) : StageProgram (Except StageError StageState) :=
  match checkState canonicalHash stage state with
  | .error failure => return .error failure
  | .ok () =>
    if state.status=.complete then
      if (state.warmups.length : ℤ)≠stage.warmups ∨ (state.measurements.length : ℤ)≠stage.repetitions then
        return .error .incompleteCounts
      else do
        let current : List FileSnapshot ← ask .snapshotArtifacts
        if current≠recordedArtifacts state then return .error .artifactsChanged
        else return .ok state
    else runStage stage state

/-- The checks of the arguments, in front of everything else. -/
def checkArguments (stage : Stage) : Except StageError Unit := do
  raiseWhen (stage.warmups<0 ∨ stage.repetitions≤0) .badCounts
  raiseWhen (∃ entry∈stage.inputPayload,entry.1.same (key "execution_protocol")=true ∧
    entry.2.same stage.executionProtocol=false) .protocolDisagrees
  raiseWhen (stage.inputs.serialisable=false) .typeError

/-- `run_repeated_stage`. -/
def runRepeatedStage (stage : Stage) : StageProgram (Except StageError StageState) :=
  match checkArguments stage with
  | .error failure => return .error failure
  | .ok () => do
    match ← ask .readState with
    | some state => resumeStage canonicalHash stage state
    | none => do
      let createdAt ← ask .utcNow
      runStage stage (freshState canonicalHash stage createdAt)

end Source

section Surroundings

/-- How calls are answered. The file is replaced at once, and what is written
is read back as JSON. Only some snapshots are taken. -/
def surroundings (allowed : List FileSnapshot → Prop) :
    Environment StageOp StageOp.Answer (Option StageState)
  | .readState,before,answer,after => answer=before ∧ after=before
  | .writeState state,_,_,after => after=some state.reload
  | .observe _ _,before,_,after => after=before
  | .snapshotArtifacts,before,answer,after => allowed answer ∧ after=before
  | .utcNow,before,_,after => after=before

variable (canonicalHash : Value → String)

/-- What there is at the path of the file when calls with the same arguments
take place one after the other, each killed anywhere or not at all. -/
inductive Reachable (stage : Stage) : Option StageState → Prop where
  /-- Before the first call. -/
  | first : Reachable stage none
  /-- During a call or behind it. -/
  | call {before after : Option StageState} {rest : StageProgram (Except StageError StageState)}
      (reached : Reachable stage before)
      (path : Run (surroundings (fun _ => True)) (before,runRepeatedStage canonicalHash stage)
        (after,rest)) : Reachable stage after

/-- The observations of one kind stand in a row, and all succeeded. -/
structure InOrder (kind : Kind) (observations : List Observation) : Prop where
  /-- Their ordinals count from zero. -/
  ordinals_eq : observations.map Observation.ordinal=List.range observations.length
  /-- They are of the kind. -/
  kind_eq : ∀ observation∈observations,observation.kind=kind
  /-- They succeeded. -/
  exitCode_eq : ∀ observation∈observations,observation.exitCode=0

/-- What a state of a stage records. -/
structure Recorded (stage : Stage) (state : StageState) : Prop where
  /-- The schema. -/
  schema_eq : state.schema="leann-command-stage-v1"
  /-- The name of the stage. -/
  name_eq : state.name=stage.name
  /-- The hash of its inputs. -/
  inputHash_eq : state.inputHash=canonicalHash stage.inputs
  /-- Its inputs, once they are read back. -/
  inputs_eq : state.inputs.reload=stage.inputs.reload
  /-- One of the three statuses. -/
  status_eq : state.status=.running ∨ state.status=.failed ∨ state.status=.complete
  /-- The observations of each kind are the first ones. -/
  inOrder : ∀ kind,InOrder kind (state.observations kind)
  /-- There are no more than wanted. -/
  bounded : ∀ kind,((state.observations kind).length : ℤ)≤ stage.wanted kind
  /-- There is no measurement before all warmups. -/
  warmupsFirst : state.measurements≠[] → (state.warmups.length : ℤ)=stage.warmups
  /-- There are all of them in the end. -/
  complete : state.status=.complete → ∀ kind,((state.observations kind).length : ℤ)=stage.wanted kind
  /-- Failed attempts are those of commands that failed. -/
  failed : ∀ observation∈state.failedAttempts,observation.exitCode≠0

/-- What a later state keeps of an earlier one. -/
structure Extends (before after : StageState) : Prop where
  /-- Recorded observations stay. -/
  observations_prefix : ∀ kind,before.observations kind<+:after.observations kind
  /-- So do failed attempts. -/
  failedAttempts_prefix : before.failedAttempts<+:after.failedAttempts
  /-- So does what the state is about. -/
  same : after.schema=before.schema ∧ after.name=before.name ∧ after.inputHash=before.inputHash ∧
    after.inputs=before.inputs ∧ after.createdAt=before.createdAt

end Surroundings

section Records

variable {canonicalHash : Value → String} {stage : Stage} {state : StageState}

/-- An observation is read back in one way only. -/
theorem Observation.reload_reload (observation : Observation) :
    observation.reload.reload=observation.reload := by
  rw [Observation.reload,Observation.reload,Value.reload_reload]

/-- So are some of them. -/
theorem map_reload_reload (observations : List Observation) :
    (observations.map Observation.reload).map Observation.reload=observations.map Observation.reload := by
  rw [List.map_map]
  exact List.map_congr_left (fun observation _ => observation.reload_reload)

/-- A state is read back in one way only. -/
theorem StageState.reload_reload (state : StageState) : state.reload.reload=state.reload := by
  simp only [StageState.reload,Value.reload_reload,map_reload_reload]

/-- The observations that are read back. -/
theorem StageState.reload_observations (state : StageState) (kind : Kind) :
    state.reload.observations kind=(state.observations kind).map Observation.reload := by
  cases kind <;> rfl

/-- An observation more of a kind. -/
theorem StageState.append_observations (state : StageState) (kind : Kind) (observation : Observation) :
    (state.append kind observation).observations kind=state.observations kind++[observation] := by
  cases kind <;> rfl

/-- None more of the other kind. -/
theorem StageState.append_other (state : StageState) {kind other : Kind} (h : other≠kind)
    (observation : Observation) :
    (state.append kind observation).observations other=state.observations other := by
  cases kind <;> cases other <;> first | rfl | exact absurd rfl h

/-- The status says nothing about the observations. -/
theorem StageState.updated_observations (state : StageState) (kind : Kind) (status : Status)
    (updatedAt : Option String) :
    ({state with status := status,updatedAt := updatedAt} : StageState).observations kind=
      state.observations kind := by
  cases kind <;> rfl

/-- No observations are in order. -/
theorem inOrder_nil (kind : Kind) : InOrder kind [] :=
  ⟨rfl,fun _ hm => absurd hm List.not_mem_nil,fun _ hm => absurd hm List.not_mem_nil⟩

/-- The next one that succeeds. -/
theorem InOrder.append {kind : Kind} {observations : List Observation} (h : InOrder kind observations)
    {observation : Observation} (hk : observation.kind=kind)
    (ho : observation.ordinal=observations.length) (he : observation.exitCode=0) :
    InOrder kind (observations++[observation]) := by
  refine ⟨?_,fun other hm => ?_,fun other hm => ?_⟩
  · rw [List.map_append,List.length_append,List.length_singleton,List.range_succ,h.ordinals_eq,
      List.map_singleton,ho]
  · rcases List.mem_append.mp hm with hm|hm
    · exact h.kind_eq other hm
    · rw [List.mem_singleton.mp hm]
      exact hk
  · rcases List.mem_append.mp hm with hm|hm
    · exact h.exitCode_eq other hm
    · rw [List.mem_singleton.mp hm]
      exact he

/-- Reading back keeps the order. -/
theorem InOrder.reload {kind : Kind} {observations : List Observation} (h : InOrder kind observations) :
    InOrder kind (observations.map Observation.reload) := by
  refine ⟨?_,fun other hm => ?_,fun other hm => ?_⟩
  · rw [List.map_map,List.length_map,←h.ordinals_eq]
    rfl
  · obtain ⟨observation,ho,hother⟩ := List.mem_map.mp hm
    rw [←hother]
    exact h.kind_eq observation ho
  · obtain ⟨observation,ho,hother⟩ := List.mem_map.mp hm
    rw [←hother]
    exact h.exitCode_eq observation ho

/-- An observation stands where its ordinal says. -/
theorem InOrder.ordinal_eq {kind : Kind} {observations : List Observation} (h : InOrder kind observations)
    {entry : Observation×ℕ} (hm : entry∈observations.zipIdx) : entry.1.ordinal=entry.2 := by
  have hget := List.mem_zipIdx_iff_getElem?.mp hm
  have hlt := (List.getElem?_eq_some_iff.mp hget).1
  have hordinal : (observations.map Observation.ordinal)[entry.2]?=some entry.1.ordinal := by
    rw [List.getElem?_map,hget]
    rfl
  rw [h.ordinals_eq,List.getElem?_range hlt] at hordinal
  exact (Option.some.inj hordinal).symm

/-- Reading back keeps what is recorded. -/
theorem Recorded.reload (h : Recorded canonicalHash stage state) : Recorded canonicalHash stage state.reload := by
  refine ⟨h.schema_eq,h.name_eq,h.inputHash_eq,?_,h.status_eq,fun kind => ?_,fun kind => ?_,fun hne => ?_,
    fun hc kind => ?_,fun observation hm => ?_⟩
  · change state.inputs.reload.reload=_
    rw [Value.reload_reload,h.inputs_eq]
  · rw [StageState.reload_observations]
    exact (h.inOrder kind).reload
  · rw [StageState.reload_observations,List.length_map]
    exact h.bounded kind
  · change ((state.warmups.map Observation.reload).length : ℤ)=_
    rw [List.length_map]
    exact h.warmupsFirst (fun hnil => hne (congrArg (List.map Observation.reload) hnil))
  · rw [StageState.reload_observations,List.length_map]
    exact h.complete hc kind
  · obtain ⟨other,ho,hother⟩ := List.mem_map.mp hm
    rw [←hother]
    exact h.failed other ho

/-- A state before the first observation. -/
theorem recorded_fresh (hw : 0≤ stage.warmups) (hr : 0<stage.repetitions) (createdAt : String) :
    Recorded canonicalHash stage (freshState canonicalHash stage createdAt) := by
  have hnone : ∀ kind,(freshState canonicalHash stage createdAt).observations kind=[] := by
    intro kind
    cases kind <;> rfl
  refine ⟨rfl,rfl,rfl,rfl,.inl rfl,fun kind => ?_,fun kind => ?_,fun hne => absurd rfl hne,
    fun hc => Status.noConfusion hc,fun _ hm => absurd hm List.not_mem_nil⟩
  · rw [hnone]
    exact inOrder_nil kind
  · rw [hnone]
    cases kind with
    | warmups => exact hw
    | measurements => exact hr.le

/-- A failed attempt. -/
theorem Recorded.fail (h : Recorded canonicalHash stage state) (observation : Observation)
    (he : observation.exitCode≠0) (updatedAt : Option String) :
    Recorded canonicalHash stage {state with
      failedAttempts := state.failedAttempts++[observation],status := .failed,
      updatedAt := updatedAt} := by
  have hsame : ∀ kind,({state with
      failedAttempts := state.failedAttempts++[observation],status := .failed,
      updatedAt := updatedAt} : StageState).observations kind=state.observations kind := by
    intro kind
    cases kind <;> rfl
  refine ⟨h.schema_eq,h.name_eq,h.inputHash_eq,h.inputs_eq,.inr (.inl rfl),fun kind => ?_,fun kind => ?_,
    h.warmupsFirst,fun hc => Status.noConfusion hc,fun other hm => ?_⟩
  · rw [hsame]
    exact h.inOrder kind
  · rw [hsame]
    exact h.bounded kind
  · rcases List.mem_append.mp hm with hm|hm
    · exact h.failed other hm
    · rw [List.mem_singleton.mp hm]
      exact he

/-- The next observation. -/
theorem Recorded.observe (h : Recorded canonicalHash stage state) (observation : Observation)
    (ho : observation.ordinal=(state.observations observation.kind).length)
    (he : observation.exitCode=0)
    (hroom : ((state.observations observation.kind).length : ℤ)<stage.wanted observation.kind)
    (hfirst : observation.kind=.measurements → (state.warmups.length : ℤ)=stage.warmups)
    (updatedAt : Option String) :
    Recorded canonicalHash stage {state.append observation.kind observation with
      status := .running,updatedAt := updatedAt} := by
  have hsame := fun kind => (state.append observation.kind observation).updated_observations kind .running
    updatedAt
  have hkept : (state.append observation.kind observation).schema=state.schema ∧
      (state.append observation.kind observation).name=state.name ∧
      (state.append observation.kind observation).inputHash=state.inputHash ∧
      (state.append observation.kind observation).inputs=state.inputs ∧
      (state.append observation.kind observation).failedAttempts=state.failedAttempts := by
    cases observation.kind <;> exact ⟨rfl,rfl,rfl,rfl,rfl⟩
  refine ⟨hkept.1.trans h.schema_eq,hkept.2.1.trans h.name_eq,hkept.2.2.1.trans h.inputHash_eq,
    (congrArg Value.reload hkept.2.2.2.1).trans h.inputs_eq,.inl rfl,fun kind => ?_,fun kind => ?_,
    fun hne => ?_,fun hc => Status.noConfusion hc,fun other hm => ?_⟩
  · rw [hsame]
    by_cases hk : kind=observation.kind
    · rw [hk,StageState.append_observations]
      exact (h.inOrder _).append rfl ho he
    · rw [StageState.append_other _ hk]
      exact h.inOrder kind
  · rw [hsame]
    by_cases hk : kind=observation.kind
    · rw [hk,StageState.append_observations,List.length_append,List.length_singleton]
      omega
    · rw [StageState.append_other _ hk]
      exact h.bounded kind
  · change ((state.append observation.kind observation).warmups.length : ℤ)=_
    cases hk : observation.kind with
    | warmups =>
      rw [hk] at hne hroom
      have hall := h.warmupsFirst hne
      have hlt : (state.warmups.length : ℤ)<stage.warmups := hroom
      omega
    | measurements => exact hfirst hk
  · rw [hkept.2.2.2.2] at hm
    exact h.failed other hm

/-- The end of a stage. -/
theorem Recorded.finish (h : Recorded canonicalHash stage state)
    (hall : ∀ kind,((state.observations kind).length : ℤ)=stage.wanted kind) (completedAt : Option String) :
    Recorded canonicalHash stage {state with status := .complete,completedAt := completedAt} := by
  have hsame : ∀ kind,({state with status := .complete,completedAt := completedAt} :
      StageState).observations kind=state.observations kind := by
    intro kind
    cases kind <;> rfl
  refine ⟨h.schema_eq,h.name_eq,h.inputHash_eq,h.inputs_eq,.inr (.inr rfl),fun kind => ?_,fun kind => ?_,
    h.warmupsFirst,fun _ kind => ?_,h.failed⟩
  · rw [hsame]
    exact h.inOrder kind
  · rw [hsame]
    exact h.bounded kind
  · rw [hsame]
    exact hall kind

end Records

section Inputs

/-- The entries of two dictionaries. -/
theorem distinctEntries_append (first second : List (Scalar×Value)) :
    distinctEntries (first++second)=(distinctEntries first && distinctEntries second) := by
  induction first with
  | nil => rfl
  | cons entry first ih =>
    rw [List.cons_append,distinctEntries,distinctEntries,ih,Bool.and_assoc]

/-- Some of the entries of a dictionary. -/
theorem distinctEntries_filter {entries : List (Scalar×Value)} (h : distinctEntries entries=true)
    (keep : Scalar×Value → Bool) : distinctEntries (entries.filter keep)=true := by
  induction entries with
  | nil => rfl
  | cons entry entries ih =>
    rw [distinctEntries,Bool.and_eq_true] at h
    rw [List.filter_cons]
    split
    · rw [distinctEntries,h.1,ih h.2]
      rfl
    · exact ih h.2

/-- A string is equal to itself. -/
theorem same_key (name : String) : (key name).same (key name)=true := decide_eq_true rfl

/-- The inputs of a stage are a dictionary. -/
theorem Stage.inputs_distinct (stage : Stage) : stage.inputs.distinct=true := by
  have hpayload := stage.distinct
  rw [Value.distinct,Bool.and_eq_true] at hpayload
  have hkeys : ((stage.inputPayload.filter (fun entry => !entry.1.same (key "execution_protocol"))++
      [(key "execution_protocol",stage.executionProtocol)]).map Prod.fst).Nodup := by
    rw [List.map_append,List.nodup_append]
    refine ⟨(of_decide_eq_true hpayload.1).sublist (List.filter_sublist.map _),List.nodup_singleton _,?_⟩
    intro first hf second hs heq
    obtain ⟨entry,hentry,hfirst⟩ := List.mem_map.mp hf
    have hkeep := (List.mem_filter.mp hentry).2
    rw [List.mem_singleton.mp hs] at heq
    rw [hfirst,heq,same_key] at hkeep
    cases hkeep
  rw [Stage.inputs,Value.distinct,decide_eq_true hkeys,distinctEntries_append,
    distinctEntries_filter hpayload.2]
  rfl

end Inputs

section Checks

variable {canonicalHash : Value → String} {stage : Stage} {state : StageState}

/-- The observations of a recorded state pass their checks. -/
theorem checkObservations_ok (h : Recorded canonicalHash stage state) (kind : Kind) :
    checkObservations stage state kind=.ok () := by
  have hbound : ¬((state.observations kind).length : ℤ)>stage.wanted kind := not_lt.mpr (h.bounded kind)
  have hfind : (state.observations kind).zipIdx.find?
      (fun entry => entry.1.kind≠kind ∨ entry.1.ordinal≠entry.2)=none := by
    rw [List.find?_eq_none]
    intro entry hm
    have hk := (h.inOrder kind).kind_eq entry.1 (List.fst_mem_of_mem_zipIdx hm)
    have ho := (h.inOrder kind).ordinal_eq hm
    simp [hk,ho]
  rw [checkObservations,(raiseWhen_ok _ _ ()).mpr hbound,hfind]
  rfl

/-- The inputs of a recorded state that was read are those that were given, read
back. -/
theorem Recorded.inputs_loaded (h : Recorded canonicalHash stage state) (hl : state.reload=state) :
    state.inputs=stage.inputs.reload := by
  rw [←h.inputs_eq]
  exact (congrArg StageState.inputs hl).symm

/-- A recorded state that was read passes all checks when the inputs survive. -/
theorem checkState_ok (h : Recorded canonicalHash stage state) (hl : state.reload=state)
    (hs : stage.inputs.survives=true) : checkState canonicalHash stage state=.ok () := by
  have hidentity : ¬(state.schema≠"leann-command-stage-v1" ∨ state.name≠stage.name ∨
      state.inputs.same stage.inputs=false) := by
    rw [h.schema_eq,h.name_eq,h.inputs_loaded hl,Value.same_of_survives _ hs]
    simp
  have hstatus : ¬(state.status≠.running ∧ state.status≠.failed ∧ state.status≠.complete) := by
    rcases h.status_eq with hs|hs|hs <;> rw [hs] <;> decide
  rw [checkState,(raiseWhen_ok _ _ ()).mpr hidentity,(raiseWhen_ok _ _ ()).mpr (not_not.mpr h.inputHash_eq),
    (raiseWhen_ok _ _ ()).mpr hstatus,checkObservations_ok h,checkObservations_ok h]
  rfl

/-- A state whose inputs are not equal to those that were given is refused. -/
theorem checkState_refused (hi : state.inputs=stage.inputs.reload)
    (hs : stage.inputs.reload.same stage.inputs=false) :
    checkState canonicalHash stage state=.error .identityMismatch := by
  rw [checkState,(raiseWhen_error _ _ _).mpr ⟨.inr (.inr (hi ▸ hs)),rfl⟩]
  rfl

end Checks

section Growth

variable {before middle after : StageState}

/-- A state keeps what it has. -/
theorem extends_refl (state : StageState) : Extends state state :=
  ⟨fun _ => List.prefix_refl _,List.prefix_refl _,rfl,rfl,rfl,rfl,rfl⟩

/-- What is kept twice is kept. -/
theorem Extends.trans (h : Extends before middle) (h' : Extends middle after) : Extends before after := by
  obtain ⟨h1,h2,h3,h4,h5⟩ := h.same
  obtain ⟨h1',h2',h3',h4',h5'⟩ := h'.same
  exact ⟨fun kind => (h.observations_prefix kind).trans (h'.observations_prefix kind),
    h.failedAttempts_prefix.trans h'.failedAttempts_prefix,h1'.trans h1,h2'.trans h2,h3'.trans h3,
    h4'.trans h4,h5'.trans h5⟩

/-- Reading back keeps it. -/
theorem Extends.reload (h : Extends before after) : Extends before.reload after.reload := by
  refine ⟨fun kind => ?_,h.failedAttempts_prefix.map _,h.same.1,h.same.2.1,h.same.2.2.1,
    congrArg Value.reload h.same.2.2.2.1,h.same.2.2.2.2⟩
  rw [StageState.reload_observations,StageState.reload_observations]
  exact (h.observations_prefix kind).map _

/-- A failed attempt is added. -/
theorem extends_fail (state : StageState) (observation : Observation) (updatedAt : Option String) :
    Extends state {state with
      failedAttempts := state.failedAttempts++[observation],status := .failed,
      updatedAt := updatedAt} := by
  refine ⟨fun kind => ?_,List.prefix_append _ _,rfl,rfl,rfl,rfl,rfl⟩
  cases kind <;> exact List.prefix_refl _

/-- An observation is added. -/
theorem extends_append (state : StageState) (kind : Kind) (observation : Observation)
    (updatedAt : Option String) :
    Extends state {state.append kind observation with status := .running,updatedAt := updatedAt} := by
  cases kind with
  | warmups =>
    refine ⟨fun other => ?_,List.prefix_refl _,rfl,rfl,rfl,rfl,rfl⟩
    cases other with
    | warmups => exact List.prefix_append _ _
    | measurements => exact List.prefix_refl _
  | measurements =>
    refine ⟨fun other => ?_,List.prefix_refl _,rfl,rfl,rfl,rfl,rfl⟩
    cases other with
    | warmups => exact List.prefix_refl _
    | measurements => exact List.prefix_append _ _

/-- The stage ends. -/
theorem extends_finish (state : StageState) (completedAt : Option String) :
    Extends state {state with status := .complete,completedAt := completedAt} := by
  refine ⟨fun kind => ?_,List.prefix_refl _,rfl,rfl,rfl,rfl,rfl⟩
  cases kind <;> exact List.prefix_refl _

end Growth

section Calls

variable (canonicalHash : Value → String) (stage : Stage) (start : Option StageState)

/-- How many observations of a kind the file records. -/
def recordedCount (file : Option StageState) (kind : Kind) : ℕ :=
  (file.map (fun state => (state.observations kind).length)).getD 0

/-- What a call keeps of the file that it found. -/
structure Kept (file : Option StageState) : Prop where
  /-- The file records a state, as it is read back. -/
  recorded : ∀ state,file=some state → Recorded canonicalHash stage state ∧ state.reload=state
  /-- It has everything that was there. -/
  grown : ∀ earlier,start=some earlier → ∃ state,file=some state ∧ Extends earlier state

/-- What holds of every step of a call. A command is run only for the first
observation that is not recorded, and after all warmups if it is measured. -/
def Promised : Promise StageOp StageOp.Answer (Option StageState) := fun op before _ after =>
  Kept canonicalHash stage start after ∧ ∀ kind ordinal,op=.observe kind ordinal →
    ordinal=recordedCount before kind ∧
      (kind=.measurements → (recordedCount before .warmups : ℤ)=stage.warmups)

/-- The file holds the state of a call, unless nothing was observed yet. -/
def Shadow (file : Option StageState) (state : StageState) : Prop :=
  file=some state.reload ∨ file=none ∧ state.warmups=[] ∧ state.measurements=[]

variable {canonicalHash stage start} {file : Option StageState} {state : StageState}

/-- The file counts the observations of the state. -/
theorem Shadow.count_eq (h : Shadow file state) (kind : Kind) :
    recordedCount file kind=(state.observations kind).length := by
  rcases h with hf|⟨hf,hw,hm⟩
  · rw [hf,recordedCount,Option.map_some,Option.getD_some,StageState.reload_observations,List.length_map]
  · rw [hf]
    cases kind with
    | warmups =>
      rw [StageState.observations,hw]
      rfl
    | measurements =>
      rw [StageState.observations,hm]
      rfl

/-- A later state is written. -/
theorem Kept.write (h : Kept canonicalHash stage start file) (hs : Shadow file state) {last : StageState}
    (hr : Recorded canonicalHash stage last) (he : Extends state last) :
    Kept canonicalHash stage start (some last.reload) := by
  refine ⟨fun read hread => ?_,fun earlier hearlier => ?_⟩
  · rw [←Option.some.inj hread]
    exact ⟨hr.reload,last.reload_reload⟩
  · obtain ⟨found,hfound,hgrown⟩ := h.grown earlier hearlier
    refine ⟨last.reload,rfl,hgrown.trans ?_⟩
    rcases hs with hf|⟨hf,-,-⟩
    · rw [hf] at hfound
      rw [←Option.some.inj hfound]
      exact he.reload
    · rw [hf] at hfound
      cases hfound

section Steps

variable {allowed : List FileSnapshot → Prop} {α β : Type} {post : β → Option StageState → Prop}

/-- A question that leaves the file alone. -/
theorem keeps_ask {op : StageOp} {next : op.Answer → StageProgram β}
    (quiet : ∀ answer after,surroundings allowed op file answer after → after=file)
    (hk : Kept canonicalHash stage start file)
    (issued : ∀ kind ordinal,op=.observe kind ordinal → ordinal=recordedCount file kind ∧
      (kind=.measurements → (recordedCount file .warmups : ℤ)=stage.warmups))
    (rest : ∀ answer,Keeps (surroundings allowed) Eq (Promised canonicalHash stage start) (next answer) post
      file) :
    Keeps (surroundings allowed) Eq (Promised canonicalHash stage start) (ask op>>=next) post file := by
  intro seen same answer after effect
  rw [←same] at effect ⊢
  rw [quiet answer after effect]
  exact ⟨⟨hk,issued⟩,rest answer⟩

/-- The file is replaced. -/
theorem keeps_write {last : StageState} {next : Unit → StageProgram β}
    (hk : Kept canonicalHash stage start (some last.reload))
    (rest : Keeps (surroundings allowed) Eq (Promised canonicalHash stage start) (next ()) post
      (some last.reload)) :
    Keeps (surroundings allowed) Eq (Promised canonicalHash stage start) (ask (.writeState last)>>=next) post
      file := by
  intro seen _ answer after effect
  have hafter : after=some last.reload := effect
  rw [hafter]
  exact ⟨⟨hk,fun _ _ hop => StageOp.noConfusion hop⟩,rest⟩

/-- A call returns. -/
theorem keeps_return {value : β} (h : post value file) :
    Keeps (surroundings allowed) Eq (Promised canonicalHash stage start) (pure value) post file := by
  intro seen same
  rw [←same]
  exact h

end Steps

/-- What the loop over one kind leaves behind. -/
def Observed (canonicalHash : Value → String) (stage : Stage) (start : Option StageState) (kind : Kind)
    (warmups : List Observation) (result : Except StageError StageState) (file : Option StageState) :
    Prop :=
  Kept canonicalHash stage start file ∧ match result with
  | .error failure => failure.rejects=false ∧ failure≠.artifactsChanged
  | .ok last => Shadow file last ∧ Recorded canonicalHash stage last ∧
    ((last.observations kind).length : ℤ)=stage.wanted kind ∧
    (kind=.measurements → last.warmups=warmups)

/-- The loop over one kind. -/
theorem observeAll_keeps {kind : Kind} {left : ℕ} (hk : Kept canonicalHash stage start file)
    (hs : Shadow file state) (hr : Recorded canonicalHash stage state)
    (hleft : ((state.observations kind).length : ℤ)+left=stage.wanted kind)
    (hfirst : kind=.measurements → (state.warmups.length : ℤ)=stage.warmups) :
    Keeps (surroundings (fun _ => True)) Eq (Promised canonicalHash stage start)
      (observeAll kind left state) (Observed canonicalHash stage start kind state.warmups) file := by
  induction left generalizing state file with
  | zero =>
    refine keeps_return ⟨hk,hs,hr,?_,fun _ => rfl⟩
    rw [←hleft]
    exact (add_zero _).symm
  | succ left ih =>
    rw [observeAll]
    -- the command is run for the first observation that is not recorded
    refine keeps_ask (fun _ _ effect => effect) hk (fun other ordinal hop => ?_) (fun observed => ?_)
    · have heq := StageOp.observe.inj hop
      rw [←heq.1,←heq.2,hs.count_eq,hs.count_eq]
      exact ⟨rfl,hfirst⟩
    refine keeps_ask (fun _ _ effect => effect.2) hk (fun _ _ hop => StageOp.noConfusion hop)
      (fun artifacts => ?_)
    refine keeps_ask (fun _ _ effect => effect) hk (fun _ _ hop => StageOp.noConfusion hop)
      (fun updatedAt => ?_)
    obtain ⟨exitCode,details⟩ := observed
    dsimp only
    by_cases he : exitCode≠0
    · -- the failed attempt is written, and the call ends
      rw [if_pos he]
      have hwritten := hk.write hs (hr.fail ⟨kind,(state.observations kind).length,exitCode,artifacts,details⟩
        he (some updatedAt)) (extends_fail _ _ _)
      exact keeps_write hwritten (keeps_return ⟨hwritten,rfl,fun h => StageError.noConfusion h⟩)
    · -- the observation is written, and the loop goes on
      rw [if_neg he]
      have hroom : ((state.observations kind).length : ℤ)<stage.wanted kind := by omega
      have hnext := hr.observe ⟨kind,(state.observations kind).length,exitCode,artifacts,details⟩ rfl
        (not_not.mp he) hroom hfirst (some updatedAt)
      have hwritten := hk.write hs hnext (extends_append _ _ _ _)
      have hwarmups : kind=.measurements →
          (state.append kind ⟨kind,(state.observations kind).length,exitCode,artifacts,details⟩).warmups=
            state.warmups := by
        intro hkind
        rw [hkind]
        rfl
      refine keeps_write hwritten ((ih hwritten (.inl rfl) hnext ?_ ?_).mono (fun _ _ _ _ h => h) ?_)
      · rw [StageState.updated_observations,StageState.append_observations,List.length_append,
          List.length_singleton]
        dsimp only
        omega
      · intro hkind
        change ((state.append kind _).warmups.length : ℤ)=_
        rw [hwarmups hkind]
        exact hfirst hkind
      · intro result after hobserved
        refine ⟨hobserved.1,?_⟩
        cases result with
        | error failure => exact hobserved.2
        | ok last =>
          obtain ⟨hshadow,hrecorded,hcount,hsame⟩ := hobserved.2
          exact ⟨hshadow,hrecorded,hcount,fun hkind => (hsame hkind).trans (hwarmups hkind)⟩

/-- Whether the wanted observations are there tells how many are left. -/
theorem left_eq (hr : Recorded canonicalHash stage state) (kind : Kind) :
    ((state.observations kind).length : ℤ)+
      ((stage.wanted kind).toNat-(state.observations kind).length : ℕ)=stage.wanted kind := by
  have hbound := hr.bounded kind
  omega

/-- What a call leaves behind. -/
def Ended (canonicalHash : Value → String) (stage : Stage) (start : Option StageState)
    (result : Except StageError StageState) (file : Option StageState) : Prop :=
  Kept canonicalHash stage start file ∧ match result with
  | .error failure => failure.rejects=false
  | .ok last => file=some last.reload ∧ Recorded canonicalHash stage last ∧ last.status=.complete

/-- All observations that are left, and the end of the stage. -/
theorem runStage_keeps (hk : Kept canonicalHash stage start file) (hs : Shadow file state)
    (hr : Recorded canonicalHash stage state) :
    Keeps (surroundings (fun _ => True)) Eq (Promised canonicalHash stage start) (runStage stage state)
      (Ended canonicalHash stage start) file := by
  rw [runStage]
  refine Keeps.bind _ (fun _ => rfl) (observeAll_keeps hk hs hr (left_eq hr .warmups)
    (fun h => Kind.noConfusion h)) (fun result middle hobserved => ?_)
  obtain ⟨hk,hobserved⟩ := hobserved
  cases result with
  | error failure => exact keeps_return ⟨hk,hobserved.1⟩
  | ok warmed =>
    obtain ⟨hs,hr,hwarmups,-⟩ := hobserved
    refine Keeps.bind _ (fun _ => rfl) (observeAll_keeps hk hs hr (left_eq hr .measurements)
      (fun _ => hwarmups)) (fun result last hobserved => ?_)
    obtain ⟨hk,hobserved⟩ := hobserved
    cases result with
    | error failure => exact keeps_return ⟨hk,hobserved.1⟩
    | ok measured =>
      obtain ⟨hs,hr,hmeasurements,hsame⟩ := hobserved
      have hall : ∀ kind,((measured.observations kind).length : ℤ)=stage.wanted kind := by
        intro kind
        cases kind with
        | warmups =>
          change (measured.warmups.length : ℤ)=_
          rw [hsame rfl]
          exact hwarmups
        | measurements => exact hmeasurements
      refine keeps_ask (fun _ _ effect => effect) hk (fun _ _ hop => StageOp.noConfusion hop)
        (fun completedAt => ?_)
      have hdone := hr.finish hall (some completedAt)
      have hwritten := hk.write hs hdone (extends_finish _ _)
      exact keeps_write hwritten (keeps_return ⟨hwritten,rfl,hdone,rfl⟩)

/-- The arguments that pass their checks. -/
theorem checkArguments_ok (h : checkArguments stage=.ok ()) :
    0≤ stage.warmups ∧ 0<stage.repetitions ∧ stage.inputs.serialisable=true := by
  rw [checkArguments,bind_eq_ok] at h
  obtain ⟨_,hcounts,h⟩ := h
  rw [bind_eq_ok] at h
  obtain ⟨_,-,h⟩ := h
  rw [raiseWhen_ok] at hcounts h
  push Not at hcounts
  exact ⟨hcounts.1,hcounts.2,Bool.eq_true_of_not_eq_false h⟩

/-- The checks of the arguments refuse no file. -/
theorem checkArguments_error {failure : StageError} (h : checkArguments stage=.error failure) :
    failure.rejects=false := by
  rw [checkArguments] at h
  by_cases hcounts : stage.warmups<0 ∨ stage.repetitions≤0
  · rw [(raiseWhen_error _ _ _).mpr ⟨hcounts,rfl⟩] at h
    rw [←Except.error.inj h]
    rfl
  · rw [(raiseWhen_ok _ _ ()).mpr hcounts] at h
    by_cases hprotocol : ∃ entry∈stage.inputPayload,entry.1.same (key "execution_protocol")=true ∧
        entry.2.same stage.executionProtocol=false
    · rw [(raiseWhen_error _ _ _).mpr ⟨hprotocol,rfl⟩] at h
      rw [←Except.error.inj h]
      rfl
    · rw [(raiseWhen_ok _ _ ()).mpr hprotocol] at h
      have hlast := (raiseWhen_error _ _ _).mp h
      rw [←hlast.2]
      rfl

/-- A call on a file that records a state of the stage, when the inputs survive. -/
theorem runRepeatedStage_keeps (hsurvive : stage.inputs.survives=true)
    (hk : Kept canonicalHash stage start file) :
    Keeps (surroundings (fun _ => True)) Eq (Promised canonicalHash stage start)
      (runRepeatedStage canonicalHash stage) (Ended canonicalHash stage start) file := by
  rw [runRepeatedStage]
  cases harguments : checkArguments stage with
  | error failure => exact keeps_return ⟨hk,checkArguments_error harguments⟩
  | ok value =>
    obtain ⟨hw,hr,-⟩ := checkArguments_ok harguments
    intro seen same found after effect
    have hfound : found=seen := effect.1
    have hafter : after=seen := effect.2
    rw [hfound,hafter,←same]
    refine ⟨⟨hk,fun _ _ hop => StageOp.noConfusion hop⟩,?_⟩
    cases file with
    | none =>
      refine keeps_ask (fun _ _ effect => effect) hk (fun _ _ hop => StageOp.noConfusion hop)
        (fun createdAt => ?_)
      exact runStage_keeps hk (.inr ⟨rfl,rfl,rfl⟩) (recorded_fresh hw hr createdAt)
    | some state =>
      obtain ⟨hrecorded,hloaded⟩ := hk.recorded state rfl
      change Keeps _ _ _ (resumeStage canonicalHash stage state) _ _
      rw [resumeStage,checkState_ok hrecorded hloaded hsurvive]
      dsimp only
      by_cases hcomplete : state.status=.complete
      · have hcounts : ¬((state.warmups.length : ℤ)≠stage.warmups ∨
            (state.measurements.length : ℤ)≠stage.repetitions) := by
          rw [not_or,not_not,not_not]
          exact ⟨hrecorded.complete hcomplete .warmups,hrecorded.complete hcomplete .measurements⟩
        rw [if_pos hcomplete,if_neg hcounts]
        refine keeps_ask (fun _ _ effect => effect.2) hk (fun _ _ hop => StageOp.noConfusion hop)
          (fun current => ?_)
        split
        · exact keeps_return ⟨hk,rfl⟩
        · refine keeps_return ⟨hk,?_,hrecorded,hcomplete⟩
          rw [hloaded]
      · rw [if_neg hcomplete]
        refine runStage_keeps hk (.inl ?_) hrecorded
        rw [hloaded]

end Calls

section Histories

variable (canonicalHash : Value → String) (stage : Stage)

/-- A stage is resumed whatever happened to the calls before: its file records
the first observations of each kind, no call refuses it or drops anything of
it, every command is run for an observation that is missing, and a complete
stage whose artifacts are still the same is returned without running any. -/
structure Resumable : Prop where
  /-- What there is between the calls and during them. -/
  recorded : ∀ file,Reachable canonicalHash stage file →
    ∀ state,file=some state → Recorded canonicalHash stage state
  /-- What a call does. -/
  resumes : ∀ before after rest,Reachable canonicalHash stage before →
    Run (surroundings (fun _ => True)) (before,runRepeatedStage canonicalHash stage) (after,rest) →
    (∀ earlier,before=some earlier → ∃ state,after=some state ∧ Extends earlier state) ∧
    (∀ kind ordinal,rest.head=some (.observe kind ordinal) → ordinal=recordedCount after kind ∧
      (kind=.measurements → (recordedCount after .warmups : ℤ)=stage.warmups)) ∧
    (∀ failure,rest=.done (.error failure) → failure.rejects=false) ∧
    ∀ last,rest=.done (.ok last) → after=some last.reload ∧ last.status=.complete
  /-- What a call does once the stage is complete. -/
  returns : ∀ state after rest,Reachable canonicalHash stage (some state) → state.status=.complete →
    Run (surroundings (fun artifacts => artifacts=recordedArtifacts state))
      (some state,runRepeatedStage canonicalHash stage) (after,rest) →
    after=some state ∧ (∀ kind ordinal,rest.head≠some (.observe kind ordinal)) ∧
      ∀ result,rest=.done result → result=.ok state

variable {canonicalHash stage} {file : Option StageState}

/-- A call that begins keeps what it finds. -/
theorem kept_start (h : ∀ state,file=some state → Recorded canonicalHash stage state ∧ state.reload=state) :
    Kept canonicalHash stage file file :=
  ⟨h,fun earlier hearlier => ⟨earlier,hearlier,extends_refl earlier⟩⟩

/-- So it does as far as it comes. -/
theorem kept_of_run (hsurvive : stage.inputs.survives=true) {before after : Option StageState}
    {rest : StageProgram (Except StageError StageState)} (hk : Kept canonicalHash stage before before)
    (path : Run (surroundings (fun _ => True)) (before,runRepeatedStage canonicalHash stage) (after,rest)) :
    Kept canonicalHash stage before after := by
  have kept : Preserves (surroundings (fun _ => True)) (Kept canonicalHash stage before)
      (runRepeatedStage canonicalHash stage) (Ended canonicalHash stage before) before :=
    (runRepeatedStage_keeps hsurvive hk).mono (fun _ _ _ _ h => h.1) (fun _ _ h => h)
  exact (kept.run hk path).1

/-- What holds of the file wherever the calls have come. -/
theorem reachable_recorded (hsurvive : stage.inputs.survives=true)
    (reached : Reachable canonicalHash stage file) :
    ∀ state,file=some state → Recorded canonicalHash stage state ∧ state.reload=state := by
  induction reached with
  | first =>
    intro state h
    cases h
  | call reached path ih =>
    have hk := kept_start ih
    exact (kept_of_run hsurvive hk path).recorded

/-- A call whose arguments are refused does nothing. -/
theorem run_refused {allowed : List FileSnapshot → Prop} {before after : Option StageState}
    {rest : StageProgram (Except StageError StageState)} {failure : StageError}
    (h : checkArguments stage=.error failure)
    (path : Run (surroundings allowed) (before,runRepeatedStage canonicalHash stage) (after,rest)) :
    after=before := by
  rw [runRepeatedStage,h] at path
  rcases Relation.ReflTransGen.cases_head path with heq|⟨middle,hstep,-⟩
  · exact (Prod.mk.inj heq).1.symm
  · cases hstep

/-- A file is there only if the arguments passed their checks. -/
theorem arguments_of_reachable {state : StageState} (reached : Reachable canonicalHash stage (some state)) :
    checkArguments stage=.ok () := by
  cases h : checkArguments stage with
  | ok value => rfl
  | error failure =>
    have hnone : ∀ file,Reachable canonicalHash stage file → file=none := by
      intro file reached
      induction reached with
      | first => rfl
      | call reached path ih => rw [run_refused h path,ih]
    exact absurd (hnone _ reached) (Option.some_ne_none state)

/-- A complete stage is returned, and no command is run. -/
theorem complete_keeps (hsurvive : stage.inputs.survives=true) {state : StageState}
    (harguments : checkArguments stage=.ok ()) (hr : Recorded canonicalHash stage state)
    (hl : state.reload=state) (hc : state.status=.complete) :
    Keeps (surroundings (fun artifacts => artifacts=recordedArtifacts state)) Eq
      (fun op _ _ after => after=some state ∧ ∀ kind ordinal,op≠.observe kind ordinal)
      (runRepeatedStage canonicalHash stage) (fun result after => result=.ok state ∧ after=some state)
      (some state) := by
  have hcounts : ¬((state.warmups.length : ℤ)≠stage.warmups ∨
      (state.measurements.length : ℤ)≠stage.repetitions) := by
    rw [not_or,not_not,not_not]
    exact ⟨hr.complete hc .warmups,hr.complete hc .measurements⟩
  rw [runRepeatedStage,harguments]
  intro seen same found after effect
  have hfound : found=seen := effect.1
  have hafter : after=seen := effect.2
  rw [hfound,hafter,←same]
  refine ⟨⟨rfl,fun _ _ hop => StageOp.noConfusion hop⟩,?_⟩
  change Keeps _ _ _ (resumeStage canonicalHash stage state) _ _
  rw [resumeStage,checkState_ok hr hl hsurvive]
  dsimp only
  rw [if_pos hc,if_neg hcounts]
  intro seen same current after effect
  have hcurrent : current=recordedArtifacts state := effect.1
  have hafter : after=seen := effect.2
  rw [hcurrent,hafter,←same]
  refine ⟨⟨rfl,fun _ _ hop => StageOp.noConfusion hop⟩,?_⟩
  change Keeps _ _ _ (if recordedArtifacts state≠recordedArtifacts state then _ else _) _ _
  rw [if_neg (not_not.mpr rfl)]
  intro seen same
  exact ⟨rfl,same.symm⟩

/-- Any command can be answered. -/
theorem issued_of_keeps {allowed : List FileSnapshot → Prop} {guarantee : Promise StageOp StageOp.Answer
    (Option StageState)} {post : Except StageError StageState → Option StageState → Prop}
    {rest : StageProgram (Except StageError StageState)} {kind : Kind} {ordinal : ℕ}
    (kept : Keeps (surroundings allowed) Eq guarantee rest post file)
    (h : rest.head=some (.observe kind ordinal)) :
    ∃ answer,guarantee (.observe kind ordinal) file answer file := by
  cases rest with
  | done value => cases h
  | call op next =>
    have hop : op=.observe kind ordinal := Option.some.inj h
    subst hop
    exact ⟨(0,.scalar .none),(kept file rfl (0,.scalar .none) file rfl).1⟩

/-- A stage is resumed when its inputs survive. -/
theorem resumable_of_survives (hsurvive : stage.inputs.survives=true) : Resumable canonicalHash stage := by
  refine ⟨fun file reached state hs => (reachable_recorded hsurvive reached state hs).1,?_,?_⟩
  · intro before after rest reached path
    have hk := kept_start (reachable_recorded hsurvive reached)
    have kept := runRepeatedStage_keeps hsurvive hk
    have hafter := kept_of_run hsurvive hk path
    have hrest := kept.reached path
    refine ⟨hafter.grown,fun kind ordinal hhead => ?_,fun failure hfailure => ?_,fun last hlast => ?_⟩
    · obtain ⟨_,-,hissued⟩ := issued_of_keeps hrest hhead
      exact hissued kind ordinal rfl
    · rw [hfailure] at hrest
      exact (hrest after rfl).2
    · rw [hlast] at hrest
      obtain ⟨-,hfile,-,hstatus⟩ := hrest after rfl
      exact ⟨hfile,hstatus⟩
  · intro state after rest reached hc path
    obtain ⟨hr,hl⟩ := reachable_recorded hsurvive reached state rfl
    have kept := complete_keeps hsurvive (arguments_of_reachable reached) hr hl hc
    have same : Preserves (surroundings (fun artifacts => artifacts=recordedArtifacts state))
        (fun after => after=some state) (runRepeatedStage canonicalHash stage)
        (fun result after => result=.ok state ∧ after=some state) (some state) :=
      kept.mono (fun _ _ _ _ h => h.1) (fun _ _ h => h)
    have hrest := kept.reached path
    refine ⟨(same.run rfl path).1,fun kind ordinal hhead => ?_,fun result hresult => ?_⟩
    · obtain ⟨_,-,hnever⟩ := issued_of_keeps hrest hhead
      exact hnever kind ordinal rfl
    · rw [hresult] at hrest
      exact (hrest after rfl).1

/-- A stage whose arguments are refused never has a file. -/
theorem resumable_of_refused {failure : StageError} (h : checkArguments stage=.error failure) :
    Resumable canonicalHash stage := by
  have hnone : ∀ {state : StageState},¬Reachable canonicalHash stage (some state) := by
    intro state reached
    have hok := arguments_of_reachable reached
    rw [h] at hok
    cases hok
  refine ⟨fun file reached state hs => absurd (hs ▸ reached) hnone,?_,fun state _ _ reached => absurd reached
    hnone⟩
  intro before after rest reached path
  cases before with
  | some state => exact absurd reached hnone
  | none =>
    have hafter := run_refused h path
    rw [runRepeatedStage,h] at path
    rcases Relation.ReflTransGen.cases_head path with heq|⟨middle,hstep,-⟩
    · have hrest : rest=.done (.error failure) := (Prod.mk.inj heq).2.symm
      rw [hrest]
      refine ⟨fun _ he => absurd he (Option.some_ne_none _).symm,fun _ _ hhead => (by cases hhead),?_,?_⟩
      · intro other hother
        rw [←Except.error.inj (Program.done.inj hother)]
        exact checkArguments_error h
      · intro last hlast
        cases hlast
    · cases hstep

section Refusals

/-- Surroundings in which every command ends in the same way. -/
def answering (exitCode : ℤ) : (op : StageOp) → Option StageState → op.Answer×Option StageState
  | .readState,file => (file,file)
  | .writeState state,_ => ((),some state.reload)
  | .observe _ _,file => ((exitCode,.scalar .none),file)
  | .snapshotArtifacts,file => ([],file)
  | .utcNow,file => ("",file)

/-- Nothing is asked of a program. -/
theorem all_true {α : Type} (program : StageProgram α) : program.All (fun _ => True) (fun _ => True) := by
  induction program with
  | done value => trivial
  | call op next ih => exact ⟨trivial,ih⟩

/-- A call in these surroundings. -/
theorem answering_run {α : Type} (exitCode : ℤ) (program : StageProgram α) (file : Option StageState) :
    Run (surroundings (fun _ => True)) (file,program)
      ((program.eval (answering exitCode) file).2,.done (program.eval (answering exitCode) file).1) := by
  refine Program.eval_run (answering exitCode) (fun _ => True) (fun op state _ _ => ⟨?_,trivial⟩)
    (all_true program) trivial
  cases op with
  | readState => exact ⟨rfl,rfl⟩
  | writeState state => rfl
  | observe kind ordinal => rfl
  | snapshotArtifacts => exact ⟨trivial,rfl⟩
  | utcNow => rfl

/-- The first command that fails ends a call. -/
theorem eval_observeAll_fails (kind : Kind) (left : ℕ) (state : StageState) (file : Option StageState) :
    ∃ written,(observeAll kind (left+1) state).eval (answering 1) file=
      (.error (.commandFailed 1),some written) ∧ written.inputs=state.inputs.reload :=
  ⟨_,rfl,rfl⟩

/-- A first call whose command fails leaves a file with its inputs. -/
theorem eval_first_fails (harguments : checkArguments stage=.ok ()) :
    ∃ written,(runRepeatedStage canonicalHash stage).eval (answering 1) none=
      (.error (.commandFailed 1),some written) ∧ written.inputs=stage.inputs.reload := by
  obtain ⟨-,hr,-⟩ := checkArguments_ok harguments
  have hstage : (runRepeatedStage canonicalHash stage).eval (answering 1) none=
      (runStage stage (freshState canonicalHash stage "")).eval (answering 1) none := by
    rw [runRepeatedStage,harguments]
    rfl
  have hwarm : observeRest stage .warmups (freshState canonicalHash stage "")=
      observeAll .warmups stage.warmups.toNat (freshState canonicalHash stage "") := rfl
  have hmeasure : observeRest stage .measurements (freshState canonicalHash stage "")=
      observeAll .measurements stage.repetitions.toNat (freshState canonicalHash stage "") := rfl
  rw [hstage,runStage,hwarm]
  change ∃ written,(Program.bind _ _).eval (answering 1) none=_ ∧ _
  rw [Program.eval_bind]
  cases hleft : stage.warmups.toNat with
  | succ left =>
    obtain ⟨written,hwritten,hinputs⟩ := eval_observeAll_fails .warmups left
      (freshState canonicalHash stage "") none
    rw [hwritten]
    exact ⟨written,rfl,hinputs⟩
  | zero =>
    obtain ⟨left,hleft⟩ : ∃ left,stage.repetitions.toNat=left+1 := ⟨stage.repetitions.toNat-1,by omega⟩
    obtain ⟨written,hwritten,hinputs⟩ := eval_observeAll_fails .measurements left
      (freshState canonicalHash stage "") none
    rw [observeAll]
    change ∃ written,(Program.bind (observeRest stage .measurements (freshState canonicalHash stage "")) _).eval
      (answering 1) none=_ ∧ _
    rw [Program.eval_bind,hmeasure,hleft,hwritten]
    exact ⟨written,rfl,hinputs⟩

/-- A stage is resumed only when its inputs survive. -/
theorem survives_of_resumable (harguments : checkArguments stage=.ok ())
    (h : Resumable canonicalHash stage) : stage.inputs.survives=true := by
  by_contra hsurvive
  obtain ⟨hw,hr,hser⟩ := checkArguments_ok harguments
  have hsame : stage.inputs.reload.same stage.inputs=false := by
    by_contra hsame
    exact hsurvive (Value.survives_of_same _ hser stage.inputs_distinct (Bool.eq_true_of_not_eq_false hsame))
  obtain ⟨written,hfirst,hinputs⟩ := @eval_first_fails canonicalHash stage harguments
  have hreached : Reachable canonicalHash stage (some written) := by
    have path := answering_run 1 (runRepeatedStage canonicalHash stage) none
    rw [hfirst] at path
    exact .call .first path
  have hsecond : (runRepeatedStage canonicalHash stage).eval (answering 1) (some written)=
      (.error .identityMismatch,some written) := by
    rw [runRepeatedStage,harguments]
    change (resumeStage canonicalHash stage written).eval (answering 1) (some written)=_
    rw [resumeStage,checkState_refused hinputs hsame]
    rfl
  have path := answering_run 1 (runRepeatedStage canonicalHash stage) (some written)
  rw [hsecond] at path
  exact Bool.noConfusion ((h.resumes _ _ _ hreached path).2.2.1 .identityMismatch rfl)

end Refusals

/-- A stage is resumed whatever happened to the calls before exactly when its
inputs are equal to what is read back of them: no tuple, no key but strings,
and no number that is none but that of the reader. -/
theorem repeated_stage (canonicalHash : Value → String) (stage : Stage) :
    Resumable canonicalHash stage ↔
      (checkArguments stage=.ok () → stage.inputs.survives=true) := by
  constructor
  · intro h harguments
    exact survives_of_resumable harguments h
  · intro h
    cases harguments : checkArguments stage with
    | ok value => exact resumable_of_survives (h harguments)
    | error failure => exact resumable_of_refused harguments

/-- A stage with a pair of widths among its inputs. -/
def widthStage : Stage where
  name := "native-search-ef32"
  inputPayload := [(key "ef_search",.tuple [.scalar (.int 16),.scalar (.int 32)])]
  warmups := 0
  repetitions := 1
  distinct := by decide

/-- The first call completes the stage, and the second one refuses its file. -/
theorem repeated_stage_tuple :
    (∃ state,Reachable (fun _ => "") widthStage (some state) ∧ state.status=.complete ∧
      Run (surroundings (fun _ => True)) (some state,runRepeatedStage (fun _ => "") widthStage)
        (some state,.done (.error .identityMismatch))) ∧ ¬Resumable (fun _ => "") widthStage := by
  have harguments : checkArguments widthStage=.ok () := by rfl
  have hreached : Reachable (fun _ => "") widthStage
      ((runRepeatedStage (fun _ => "") widthStage).eval (answering 0) none).2 :=
    .call .first (answering_run 0 _ none)
  refine ⟨⟨_,hreached,rfl,?_⟩,fun h => ?_⟩
  · exact answering_run 0 (runRepeatedStage (fun _ => "") widthStage) (some _)
  · have hsurvive := survives_of_resumable harguments h
    exact absurd hsurvive (by decide)

end Histories

end Leann.RepeatedStage
