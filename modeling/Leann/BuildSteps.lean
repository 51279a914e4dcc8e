import Leann.BuildProgram

/-!
# The calls of a build that change nothing

Between the two artifacts a build only reads, asks and computes. What it
computes there is the index of `buildIndex`, for the graph that the library
returned and for normalised vectors of the embedder.
-/

namespace Leann.BuildSteps

open BinaryFloat Effects Exceptions Outcomes Documents IndexFile Search Training IndexBuilder
  ArtifactPublisher BuildLocks Host BuildProgram
open Embeddings hiding Unit

/-- A call that changes neither a file nor a lock. -/
def Quiet : HostOp → Prop
  | .artifact _ => False
  | .lock _ => False
  | .remove _ => False
  | .openFile .. => False
  | .write .. => False
  | _ => True

/-- A quiet call changes nothing on the machine. -/
theorem quiet_machine {tokens : Set Text} {created : Artifact} {op : HostOp} (h : Quiet op)
    {machine after : Machine} {answer : op.Answer}
    (effect : op.Effect tokens created machine answer after) : after=machine := by
  cases op with
  | artifact op => exact h.elim
  | lock op => exact h.elim
  | remove path => exact h.elim
  | openFile path truncate => exact h.elim
  | write path bytes => exact h.elim
  | lockPresent path => exact effect.1
  | pathExists path => exact effect.1
  | isRegularFile path => exact effect.1
  | readFile path => exact effect.1
  | uniqueToken => exact effect.1
  | listDirectory directory => exact effect.1
  | readOwner path => exact effect.1
  | fileSize path => exact effect.1
  | _ => exact effect

/-- Nor is anything noted about it. -/
theorem quiet_step {tokens : Set Text} {op : HostOp} (h : Quiet op) {before after : World}
    {answer : op.Answer} (effect : building tokens op before answer after) : after=before := by
  obtain ⟨hm,hn,hc⟩ := effect
  obtain ⟨machine,notes,committed⟩ := before
  obtain ⟨machine',notes',committed'⟩ := after
  have hmachine : machine'=machine := quiet_machine h hm
  cases hmachine
  cases op with
  | artifact op => exact h.elim
  | lock op => exact h.elim
  | remove path => exact h.elim
  | openFile path truncate => exact h.elim
  | write path bytes => exact h.elim
  | _ =>
    cases hn
    cases hc
    rfl

section Issued

/-- Every call is of a kind, and so is what is returned unless something is
thrown. -/
def Issues {α : Type} (issues : HostOp → Prop) (returns : α → Prop) (program : Throwing α) : Prop :=
  Program.All issues (fun result : Except Fault α => ∀ value,result=.ok value → returns value) program

variable {α β σ : Type} {issues : HostOp → Prop} {returns : α → Prop} {returns' : β → Prop}

/-- Returning makes no call. -/
theorem Issues.pure {value : α} (h : returns value) : Issues issues returns (pure value) := by
  intro result hr
  rw [←Except.ok.inj hr]
  exact h

/-- Throwing returns nothing. -/
theorem Issues.throw (fault : Fault) : Issues issues returns (throw fault) := by
  intro result hr
  cases hr

/-- One behind the other. -/
theorem Issues.bind {program : Throwing α} {rest : α → Throwing β}
    (h : Issues issues returns program) (h' : ∀ value,returns value → Issues issues returns' (rest value)) :
    Issues issues returns' (program>>=rest) := by
  refine Program.All.bind h (fun result hr => ?_)
  cases result with
  | error fault =>
    intro value hv
    cases hv
  | ok value => exact h' value (hr value rfl)

/-- A weaker description of the result. -/
theorem Issues.mono {returns' : α → Prop} {program : Throwing α} (h : Issues issues returns program)
    (h' : ∀ value,returns value → returns' value) : Issues issues returns' program :=
  Program.All.mono h (fun _ ho => ho) (fun _ hr value hv => h' value (hr value hv))

/-- A computation makes no call. -/
theorem Issues.computed {result : Except Fault α} (h : ∀ value,result=.ok value → returns value) :
    Issues issues returns (computed result) := h

/-- One call. -/
theorem Issues.perform {op : HostOp} (h : issues op) :
    Issues issues (fun _ => True) (Host.perform op : HostProgram op.Answer) :=
  ⟨h,fun _ _ _ => trivial⟩

/-- One call that may throw. -/
theorem Issues.rethrow {program : HostProgram (Except Exception α)}
    (h : program.All issues (fun _ => True)) : Issues issues (fun _ => True) (rethrow program) :=
  h.bind (fun _ _ _ _ => trivial)

/-- A loop keeps what its rounds keep. -/
theorem Issues.foldlM {body : σ → β → Throwing σ} (invariant : List β → σ → Prop)
    (h' : ∀ done state item,invariant done state →
      Issues issues (invariant (done++[item])) (body state item)) (items : List β)
    (done : List β) {start : σ} (h : invariant done start) :
    Issues issues (invariant (done++items)) (items.foldlM body start) := by
  induction items generalizing done start with
  | nil =>
    rw [List.append_nil]
    exact .pure h
  | cons item items ih =>
    rw [List.foldlM_cons,List.append_cons]
    exact (h' done start item h).bind (fun state hs => ih _ hs)

end Issued

section Observer

/-- A report is quiet. -/
theorem report_quiet (observer : BuildObserver) :
    Issues Quiet (fun _ => True) observer.report := by
  unfold BuildObserver.report
  split
  · exact (Issues.rethrow (Program.all_perform trivial)).bind (fun _ _ => .pure trivial)
  · exact Issues.pure trivial

/-- So is an advance. -/
theorem advance_quiet (observer : BuildObserver) (completed : ℕ) :
    Issues Quiet (fun _ => True) (observer.advance completed) := by
  unfold BuildObserver.advance
  dsimp only
  split
  · exact report_quiet _
  · exact .pure trivial

/-- So is the beginning of a phase. -/
theorem start_quiet (observer : BuildObserver) (stage : Text) (total : ℕ) :
    Issues Quiet (fun _ => True) (observer.start stage total) := report_quiet _

/-- So is a checkpoint. -/
theorem checkpoint_quiet (observer : BuildObserver) :
    Issues Quiet (fun _ => True) observer.checkpoint := by
  unfold BuildObserver.checkpoint
  split
  · refine (Issues.rethrow (Program.all_perform trivial)).bind (fun stops _ => ?_)
    split
    · exact .throw _
    · exact .pure trivial
  · exact .pure trivial

/-- So is a step. -/
theorem step_quiet (observer : BuildObserver) (completed : ℕ) :
    Issues Quiet (fun _ => True) (observer.step completed) :=
  (checkpoint_quiet observer).bind (fun _ _ => advance_quiet observer completed)

/-- A loop that computes, with the observer taken away. -/
theorem stepped_computed {α σ : Type} {position : σ → α → ℕ} {body : σ → α → Throwing σ}
    (computes : σ → α → Except Fault σ) (observer : BuildObserver) (start : σ) (items : List α)
    (h : ∀ state item,Issues Quiet (fun next => computes state item=.ok next) (body state item)) :
    Issues Quiet (fun result => items.foldlM computes start=.ok result.2)
      (stepped position body observer start items) := by
  have hround : ∀ (done : List α) (here : BuildObserver×σ) (item : α),
      done.foldlM computes start=.ok here.2 → Issues Quiet
        (fun next : BuildObserver×σ => (done++[item]).foldlM computes start=.ok next.2) (do
          let observer ← here.1.step (position here.2 item)
          let state ← body here.2 item
          return (observer,state)) := by
    intro done here item hd
    refine (step_quiet _ _).bind (fun observer _ => (h here.2 item).bind (fun state hs => .pure ?_))
    rw [List.foldlM_append,hd]
    change (List.foldlM computes here.2 [item] : Except Fault σ)=_
    rw [List.foldlM_cons,hs]
    rfl
  have hstart : ([] : List α).foldlM computes start=.ok (observer,start).2 := rfl
  have hloop := Issues.foldlM (fun done (here : BuildObserver×σ) =>
    done.foldlM computes start=.ok here.2) hround items [] hstart
  exact hloop

end Observer

section Computation

variable (request : BuildRequest)

/-- What `normalize` returned for a vector that was accepted. -/
def Normalized (dimension : ℕ) (embedding : Embedding) : Prop :=
  ∃ raw,validateEmbedding raw dimension=.ok () ∧ normalize raw=.ok embedding

/-- A batch adds normalised vectors. -/
theorem takeEmbedding_normalized {dimension : ℕ} {batch : List Embedding}
    {embeddings after : List Embedding} (h : ∀ embedding∈embeddings,Normalized dimension embedding)
    (hok : batch.foldlM (takeEmbedding dimension) embeddings=.ok after) :
    ∀ embedding∈after,Normalized dimension embedding := by
  induction batch generalizing embeddings with
  | nil =>
    rw [←Except.ok.inj hok]
    exact h
  | cons raw batch ih =>
    rw [List.foldlM_cons,bind_eq_ok] at hok
    obtain ⟨next,hnext,hrest⟩ := hok
    simp only [takeEmbedding,bind_eq_ok,pure_eq_ok] at hnext
    obtain ⟨_,hv,normalized,hn,rfl⟩ := hnext
    refine ih (fun embedding he => ?_) hrest
    rcases List.mem_append.mp he with he|he
    · exact h embedding he
    · rw [List.mem_singleton.mp he]
      exact ⟨raw,hv,hn⟩

/-- The embedding loop. -/
theorem embedDocuments_quiet (observer : BuildObserver) :
    Issues Quiet (fun result => ∀ embedding∈result.2,Normalized request.dimension embedding)
      (embedDocuments request observer) := by
  unfold embedDocuments
  refine (start_quiet _ _ _).bind (fun observer _ => ?_)
  have hround : ∀ (done : List ℕ) (here : BuildObserver×List Embedding) (round : ℕ),
      (∀ embedding∈here.2,Normalized request.dimension embedding) →
      Issues Quiet (fun next : BuildObserver×List Embedding =>
        ∀ embedding∈next.2,Normalized request.dimension embedding) (embedBatch request here round) := by
    intro done here round hd
    unfold embedBatch
    refine (checkpoint_quiet _).bind (fun _ _ => ?_)
    refine (Issues.rethrow (Program.all_perform trivial)).bind (fun batch _ => ?_)
    have hlast : Issues Quiet (fun next : BuildObserver×List Embedding =>
        ∀ embedding∈next.2,Normalized request.dimension embedding) (do
          let embeddings ← computed (batch.foldlM (takeEmbedding request.dimension) here.2)
          let observer ← here.1.advance embeddings.length
          return (observer,embeddings)) :=
      (Issues.computed (fun after ha => takeEmbedding_normalized hd ha)).bind
        (fun embeddings he => (advance_quiet _ _).bind (fun _ _ => .pure he))
    split
    · have hthrow : Issues Quiet (fun _ : PUnit => False) (throw (.thrown (runtimeError
          "embedder returned the wrong batch size"))) := .throw _
      exact hthrow.bind (fun _ h => h.elim)
    · exact hlast
  have hstart : ∀ embedding∈((observer,[]) : BuildObserver×List Embedding).2,
      Normalized request.dimension embedding := fun _ he => absurd he List.not_mem_nil
  exact Issues.foldlM (fun _ (here : BuildObserver×List Embedding) =>
    ∀ embedding∈here.2,Normalized request.dimension embedding) hround _ [] hstart

/-- The loop that fills the graph. -/
theorem insertVectors_quiet (observer : BuildObserver) (embeddings : List Embedding) :
    Issues Quiet (fun _ => checkVectors request.dimension embeddings.length=.ok ())
      (insertVectors request observer embeddings) := by
  unfold insertVectors
  refine (Issues.computed (fun _ h => h)).bind (fun _ hc => ?_)
  refine (start_quiet _ _ _).bind (fun observer _ => ?_)
  refine (Issues.rethrow (Program.all_perform trivial)).bind (fun _ _ => ?_)
  refine (stepped_computed (fun _ _ => Except.ok ()) observer () embeddings.zipIdx
    (fun _ _ => (Issues.rethrow (Program.all_perform trivial)).mono (fun _ _ => rfl))).bind
    (fun _ _ => ?_)
  refine (advance_quiet _ _).bind (fun observer _ => ?_)
  exact (Issues.perform trivial).bind (fun _ _ => .pure hc)

/-- Appending one result after the other collects them all. -/
theorem foldlM_collect {α β : Type} (f : α → Except Fault β) (items : List α) (collected : List β) :
    items.foldlM (fun results item => do
      let result ← f item
      return results++[result]) collected=(items.mapM f).map (collected++·) := by
  induction items generalizing collected with
  | nil =>
    rw [List.mapM_nil]
    exact congrArg Except.ok (List.append_nil _).symm
  | cons item items ih =>
    rw [List.foldlM_cons,List.mapM_cons]
    cases f item with
    | error fault => rfl
    | ok result =>
      change items.foldlM _ (collected++[result])=_
      rw [ih]
      cases items.mapM f with
      | error fault => rfl
      | ok results => exact congrArg Except.ok (List.append_assoc _ _ _)

/-- The loops between the graph library and the rows. -/
theorem extractGraph_quiet (observer : BuildObserver) (hnsw : HnswGraph)
    (embeddings : List Embedding) :
    Issues Quiet (fun result => buildGraph request.config hnsw embeddings=.ok result.2)
      (extractGraph request observer hnsw embeddings) := by
  unfold extractGraph
  refine (start_quiet _ _ _).bind (fun observer _ => ?_)
  refine (Issues.computed (fun _ h => h)).bind (fun externals he => ?_)
  refine (stepped_computed (extractRow hnsw embeddings.length externals) _ _ _
    (fun _ _ => Issues.computed (fun _ h => h))).bind (fun here ho => ?_)
  obtain ⟨observer,original⟩ := here
  refine (advance_quiet _ _).bind (fun observer _ => (start_quiet _ _ _).bind (fun observer _ => ?_))
  refine (stepped_computed (fun layers above => do
    let layer ← extractLayer hnsw embeddings.length externals (above+1)
    return layers++[layer]) _ _ _ (fun layers above => ?_)).bind (fun here hl => ?_)
  · refine (Issues.computed (fun _ h => h)).bind (fun layer hlayer => .pure ?_)
    rw [hlayer]
    rfl
  obtain ⟨observer,upperLayers⟩ := here
  refine (Issues.computed (fun _ h => h)).bind (fun isHub hh => ?_)
  refine (start_quiet _ _ _).bind (fun observer _ => ?_)
  refine (stepped_computed (pruneNode request.config embeddings original isHub) _ _ _
    (fun _ _ => Issues.computed (fun _ h => h))).bind (fun here hg => ?_)
  obtain ⟨observer,graph⟩ := here
  refine (start_quiet _ _ _).bind (fun observer _ => ?_)
  refine (stepped_computed (compactNode request.config embeddings graph) _ _ _
    (fun _ _ => Issues.computed (fun _ h => h))).bind (fun here hr => .pure ?_)
  obtain ⟨observer,rows⟩ := here
  have hlayers : extractLayers hnsw embeddings.length externals=.ok upperLayers := by
    rw [foldlM_collect] at hl
    unfold extractLayers
    cases hm : (List.range (maximumLevel hnsw)).mapM
        (fun above => extractLayer hnsw embeddings.length externals (above+1)) with
    | error fault =>
      rw [hm] at hl
      cases hl
    | ok layers =>
      rw [hm] at hl
      exact hl
  simp only [buildGraph,bind_eq_ok,pure_eq_ok]
  exact ⟨externals,he,original,ho,upperLayers,hlayers,isHub,hh,graph,hg,rows,hr,rfl⟩

/-- The codes. -/
theorem quantizeVectors_quiet (observer : BuildObserver) (embeddings : List Embedding) :
    Issues Quiet (fun result =>
      quantize request.config request.choices embeddings=.ok result.2)
      (quantizeVectors request observer embeddings) := by
  unfold quantizeVectors
  refine (start_quiet _ _ _).bind (fun observer _ => ?_)
  unfold quantize
  cases request.config.approximation with
  | simHash =>
    refine (stepped_computed (sketchNode request.config) _ _ _
      (fun _ _ => Issues.computed (fun _ h => h))).bind (fun here hs => ?_)
    obtain ⟨observer,sketches⟩ := here
    refine (advance_quiet _ _).bind (fun observer _ => .pure ?_)
    change embeddings.foldlM (sketchNode request.config) []=.ok sketches at hs
    rw [hs]
    rfl
  | productQuantization =>
    refine (checkpoint_quiet _).bind (fun _ _ => ?_)
    refine (Issues.computed (fun _ h => h)).bind (fun pq hpq => ?_)
    refine (advance_quiet _ _).bind (fun observer _ => .pure ?_)
    rw [hpq]
    rfl

/-- What is computed is the index of `buildIndex`, for the graph that was
read from the library. -/
theorem computeIndex_quiet (observer : BuildObserver) (path : Text) (identity : PairIdentity) :
    Issues Quiet (fun result => ∃ hnsw embeddings,
      (∀ embedding∈embeddings,Normalized request.dimension embedding) ∧
      buildIndex request.config request.choices (fun _ => hnsw) path identity request.fingerprint
        request.dimension embeddings=.ok result.2.1 ∧ result.2.2=embeddings.length)
      (computeIndex request observer path identity) := by
  unfold computeIndex
  refine (embedDocuments_quiet _ _).bind (fun here he => ?_)
  obtain ⟨observer,embeddings⟩ := here
  refine (insertVectors_quiet _ _ _).bind (fun here hc => ?_)
  obtain ⟨observer,hnsw⟩ := here
  refine (extractGraph_quiet _ _ _ _).bind (fun here hg => ?_)
  obtain ⟨observer,graph⟩ := here
  refine (quantizeVectors_quiet _ _ _).bind (fun here hq => ?_)
  obtain ⟨observer,codes⟩ := here
  refine (Issues.computed (fun _ h => h)).bind (fun _ hf => .pure ?_)
  refine ⟨hnsw,embeddings,he,?_,rfl⟩
  simp only [buildIndex,bind_eq_ok,pure_eq_ok]
  exact ⟨(),hc,graph,hg,codes,hq,(),hf,rfl⟩

end Computation

end Leann.BuildSteps
