import Leann.BuildSteps

/-!
# What stops a build

A callback that asks to stop or throws, an embedder that throws or returns a
batch of the wrong shape, and a read or a write that fails: each of them
leaves nothing to do but to remove temporaries and locks, and an error to
return.
-/

namespace Leann.BuildStops

open BinaryFloat Effects Exceptions Outcomes Documents IndexFile Search Training IndexBuilder
  ArtifactPublisher Host BuildProgram BuildSteps
open BuildLocks hiding World building ofLocks
open Embeddings hiding Unit

/-- A batch that the build refuses. -/
def Malformed (dimension : ℕ) (texts : List Text) (batch : List Embedding) : Prop :=
  batch.length≠texts.length ∨ ∃ embedding∈batch,
    validateEmbedding embedding dimension≠.ok () ∨ ∀ normalized,normalize embedding≠.ok normalized

/-- The answers that stop a build for vectors of a dimension. -/
def Stops (dimension : ℕ) : (op : HostOp) → op.Answer → Prop
  | .shouldCancel,answer => answer≠.ok false
  | .reportProgress ..,answer => answer≠.ok ()
  | .embed texts,answer => ∀ batch,answer=.ok batch → Malformed dimension texts batch
  | .createGraph ..,answer => answer≠.ok ()
  | .addPoint ..,answer => answer≠.ok ()
  | .openFile ..,answer => answer=false
  | .write ..,answer => answer≠.ok ()
  | .readFile _,answer => ∀ bytes,answer≠.ok bytes
  | .pathExists _,answer => ∀ present,answer≠.ok present
  | .isRegularFile _,answer => answer≠.ok true
  | .lock (.createDirectory _),answer => answer.1=false
  | _,_ => False

/-- What is left to do then. -/
def Cleans : HostOp → Prop
  | .remove _ => True
  | .lock (.removeOwner _) => True
  | .lock (.removeDirectory _) => True
  | _ => False

/-- Something was thrown. -/
def Failed {α : Type} (result : Except Fault α) : Prop := ∃ fault,result=.error fault

section Rules

variable {dimension : ℕ} {α β σ : Type}

/-- A program that stops when it is stopped. -/
def Obeys (dimension : ℕ) {α : Type} (program : Throwing α) : Prop :=
  program.run.Halts (Stops dimension) Cleans Failed

/-- What has failed stays so. -/
theorem failed_rest {rest : α → Throwing β} (result : Except Fault α) (h : Failed result) :
    Program.All Cleans Failed (ExceptT.bindCont rest result) := by
  obtain ⟨fault,rfl⟩ := h
  exact ⟨fault,rfl⟩

/-- Returning. -/
theorem Obeys.pure (value : α) : Obeys dimension (pure value) := trivial

/-- Throwing. -/
theorem Obeys.throw (fault : Fault) : Obeys dimension (throw fault : Throwing α) := trivial

/-- Computing. -/
theorem Obeys.computed (result : Except Fault α) : Obeys dimension (computed result) := trivial

/-- One behind the other. -/
theorem Obeys.bind {program : Throwing α} {rest : α → Throwing β} (h : Obeys dimension program)
    (h' : ∀ value,Obeys dimension (rest value)) : Obeys dimension (program>>=rest) := by
  refine Program.Halts.bind h failed_rest (fun result => ?_)
  cases result with
  | error fault => trivial
  | ok value => exact h' value

/-- One call. -/
theorem Obeys.ask {op : HostOp} {rest : op.Answer → Throwing β}
    (stopped : ∀ answer,Stops dimension op answer → (rest answer).run.All Cleans Failed)
    (h : ∀ answer,Obeys dimension (rest answer)) :
    Obeys dimension ((monadLift (perform op : HostProgram op.Answer) : Throwing op.Answer)>>=rest) :=
  fun answer => ⟨stopped answer,h answer⟩

/-- One call that may throw, when what stops is what throws. -/
theorem Obeys.rethrow {op : HostOp} {f : op.Answer → Except Exception α}
    (stopped : ∀ answer,Stops dimension op answer → ∀ value,f answer≠.ok value) :
    Obeys dimension (rethrow ((perform op).bind (fun answer => .done (f answer)))) := by
  intro answer
  refine ⟨fun h => ?_,trivial⟩
  have hne := stopped answer h
  change Failed ((f answer).mapError Fault.thrown)
  cases hf : f answer with
  | error e => exact ⟨_,rfl⟩
  | ok value => exact absurd hf (hne value)

/-- One call that may throw, when an answer that does not throw may stop too. -/
theorem Obeys.demand {op : HostOp} {f : op.Answer → Except Exception α} {rest : α → Throwing β}
    (stopped : ∀ answer value,f answer=.ok value → Stops dimension op answer →
      (rest value).run.All Cleans Failed) (h : ∀ value,Obeys dimension (rest value)) :
    Obeys dimension (Host.rethrow ((perform op).bind (fun answer => .done (f answer)))>>=rest) := by
  intro answer
  change (_ → Program.All Cleans Failed (ExceptT.bindCont rest ((f answer).mapError Fault.thrown))) ∧
    Program.Halts _ _ _ (ExceptT.bindCont rest ((f answer).mapError Fault.thrown))
  cases hf : f answer with
  | error e => exact ⟨fun _ => ⟨_,rfl⟩,trivial⟩
  | ok value => exact ⟨stopped answer value hf,h value⟩

/-- A loop. -/
theorem Obeys.foldlM {body : σ → β → Throwing σ} (h : ∀ state item,Obeys dimension (body state item))
    (items : List β) (start : σ) : Obeys dimension (items.foldlM body start) := by
  induction items generalizing start with
  | nil => exact .pure start
  | cons item items ih =>
    rw [List.foldlM_cons]
    exact (h start item).bind ih

end Rules

section Observer

variable {dimension : ℕ}

/-- A report. -/
theorem report_obeys (observer : BuildObserver) : Obeys dimension observer.report := by
  unfold BuildObserver.report
  split
  · refine Obeys.bind (Obeys.rethrow (fun answer h value hv => h ?_)) (fun _ => .pure _)
    exact hv
  · exact .pure _

/-- An advance. -/
theorem advance_obeys (observer : BuildObserver) (completed : ℕ) :
    Obeys dimension (observer.advance completed) := by
  unfold BuildObserver.advance
  dsimp only
  split
  · exact report_obeys _
  · exact .pure _

/-- The beginning of a phase. -/
theorem start_obeys (observer : BuildObserver) (stage : Text) (total : ℕ) :
    Obeys dimension (observer.start stage total) := report_obeys _

/-- A checkpoint. -/
theorem checkpoint_obeys (observer : BuildObserver) : Obeys dimension observer.checkpoint := by
  unfold BuildObserver.checkpoint
  split
  · intro answer
    cases answer with
    | error e => exact ⟨fun _ => ⟨_,rfl⟩,trivial⟩
    | ok stops =>
      cases stops with
      | true => exact ⟨fun _ => ⟨_,rfl⟩,trivial⟩
      | false => exact ⟨fun h => absurd rfl h,trivial⟩
  · exact .pure ()

/-- A loop whose rounds begin with a step. -/
theorem stepped_obeys {α σ : Type} {position : σ → α → ℕ} {body : σ → α → Throwing σ}
    (h : ∀ state item,Obeys dimension (body state item)) (observer : BuildObserver) (start : σ)
    (items : List α) : Obeys dimension (stepped position body observer start items) := by
  refine Obeys.foldlM (fun here item => ?_) items (observer,start)
  have hstep : Obeys dimension (here.1.step (position here.2 item)) :=
    (checkpoint_obeys _).bind (fun _ => advance_obeys _ _)
  exact hstep.bind (fun _ => (h _ _).bind (fun _ => .pure _))

end Observer

section Files

variable {dimension : ℕ}

/-- A file that is read. -/
theorem readFile_obeys (path : Text) : Obeys dimension (rethrow (perform (.readFile path))) := by
  refine Obeys.rethrow (fun answer h value hv => h value ?_)
  exact hv

/-- A stream that is opened. -/
theorem openStream_obeys (path : Text) (truncate : Bool) (message : Text) :
    Obeys dimension (openStream path truncate message) := by
  intro answer
  cases answer with
  | false => exact ⟨fun _ => ⟨_,rfl⟩,trivial⟩
  | true => exact ⟨fun h => (nomatch h),trivial⟩

/-- A writer that is run. -/
theorem extend_obeys (path file : Text) (writer : Format.Output Unit) :
    Obeys dimension (extend path file writer) := by
  refine (Obeys.computed _).bind (fun _ => Obeys.rethrow (fun answer h value hv => h ?_))
  exact hv

/-- A later part of a file. -/
theorem appendStage_obeys (path message : Text) (writer : Format.Output Unit) :
    Obeys dimension (appendStage path message writer) :=
  (readFile_obeys path).bind (fun _ => (openStream_obeys _ _ _).bind (fun _ => extend_obeys _ _ _))

/-- The document store. -/
theorem writeDocumentStore_obeys (path : Text) (documents : List Text) :
    Obeys dimension (writeDocumentStore path documents) :=
  (Obeys.computed _).bind (fun _ => (Obeys.computed _).bind (fun _ =>
    (openStream_obeys _ _ _).bind (fun _ => (extend_obeys _ _ _).bind (fun _ =>
      (appendStage_obeys _ _ _).bind (fun _ => appendStage_obeys _ _ _)))))

/-- The index. -/
theorem writeIndexFile_obeys (path : Text) (index : Index) (count : ℕ) :
    Obeys dimension (writeIndexFile path index count) :=
  (openStream_obeys _ _ _).bind (fun _ => (extend_obeys _ _ _).bind (fun _ =>
    appendStage_obeys _ _ _))

/-- A store that is opened. -/
theorem openDocumentStore_obeys (path : Text) : Obeys dimension (openDocumentStore path) :=
  (readFile_obeys path).bind (fun _ => .computed _)

/-- An index that is loaded. -/
theorem loadIndex_obeys (path : Text) : Obeys dimension (loadIndex path) :=
  (readFile_obeys path).bind (fun _ => .computed _)

/-- A target that is inspected. -/
theorem requireRegularOrMissing_obeys (path : Text) :
    Obeys dimension (requireRegularOrMissing path) := by
  refine Obeys.ask (fun answer h => ?_) (fun answer => ?_)
  · cases answer with
    | error reason => exact ⟨_,rfl⟩
    | ok present => exact absurd rfl (h present)
  · match answer with
    | .error reason => trivial
    | .ok false => trivial
    | .ok true =>
      refine Obeys.ask (fun regular h => ?_) (fun regular => ?_)
      · match regular with
        | .error reason => exact ⟨_,rfl⟩
        | .ok false => exact ⟨_,rfl⟩
        | .ok true => exact absurd rfl h
      · match regular with
        | .error reason => trivial
        | .ok false => trivial
        | .ok true => trivial

/-- A name that is chosen. -/
theorem uniqueAdjacentPath_obeys (target marker : Text) (attempts : ℕ) :
    Obeys dimension (uniqueAdjacentPath target marker attempts) := by
  induction attempts with
  | zero => exact .throw _
  | succ attempts ih =>
    refine Obeys.ask (fun _ h => h.elim) (fun token => ?_)
    refine Obeys.ask (fun answer h => ?_) (fun answer => ?_)
    · cases answer with
      | error reason => exact ⟨_,rfl⟩
      | ok present => exact absurd rfl (h present)
    · match answer with
      | .error reason => trivial
      | .ok false => trivial
      | .ok true => exact ih

/-- The names. -/
theorem chooseNames_obeys (index documents : Text) : Obeys dimension (chooseNames index documents) :=
  (requireRegularOrMissing_obeys _).bind (fun _ => (requireRegularOrMissing_obeys _).bind (fun _ =>
    (uniqueAdjacentPath_obeys _ _ _).bind (fun _ => (uniqueAdjacentPath_obeys _ _ _).bind (fun _ =>
      (uniqueAdjacentPath_obeys _ _ _).bind (fun _ => (uniqueAdjacentPath_obeys _ _ _).bind (fun _ =>
        .pure _))))))

end Files

section Phases

variable (request : BuildRequest)

/-- A malformed vector is not taken. -/
theorem takeEmbedding_malformed {dimension : ℕ} {embedding : Embedding}
    (h : validateEmbedding embedding dimension≠.ok () ∨ ∀ normalized,normalize embedding≠.ok normalized)
    (embeddings after : List Embedding) : takeEmbedding dimension embeddings embedding≠.ok after := by
  intro hok
  simp only [takeEmbedding,bind_eq_ok] at hok
  obtain ⟨_,hv,normalized,hn,-⟩ := hok
  exact h.elim (fun h => h hv) (fun h => h normalized hn)

/-- A batch that holds one is refused. -/
theorem batch_malformed {dimension : ℕ} {batch : List Embedding}
    (h : ∃ embedding∈batch,validateEmbedding embedding dimension≠.ok () ∨
      ∀ normalized,normalize embedding≠.ok normalized) (embeddings : List Embedding) :
    Failed (batch.foldlM (takeEmbedding dimension) embeddings) := by
  induction batch generalizing embeddings with
  | nil =>
    obtain ⟨embedding,hmem,-⟩ := h
    cases hmem
  | cons raw batch ih =>
    rw [List.foldlM_cons]
    cases hr : takeEmbedding dimension embeddings raw with
    | error fault => exact ⟨fault,rfl⟩
    | ok next =>
      obtain ⟨embedding,hmem,hbad⟩ := h
      rcases List.mem_cons.mp hmem with same|hmem
      · rw [same] at hbad
        exact absurd hr (takeEmbedding_malformed hbad embeddings next)
      · exact ih ⟨embedding,hmem,hbad⟩ next

/-- One round of the embedding loop. -/
theorem embedBatch_obeys (here : BuildObserver×List Embedding) (round : ℕ) :
    Obeys request.dimension (embedBatch request here round) := by
  unfold embedBatch
  dsimp only
  refine (checkpoint_obeys _).bind (fun _ => ?_)
  have hsize : ((request.documents.drop (round*request.config.embeddingBatchSize.toNat)).take
      (min request.documents.length (round*request.config.embeddingBatchSize.toNat+
        request.config.embeddingBatchSize.toNat)-round*request.config.embeddingBatchSize.toNat)).length=
      min request.documents.length (round*request.config.embeddingBatchSize.toNat+
        request.config.embeddingBatchSize.toNat)-round*request.config.embeddingBatchSize.toNat := by
    rw [List.length_take,List.length_drop]
    omega
  have hrest : ∀ batch : List Embedding,Obeys request.dimension (do
      let embeddings ← computed (batch.foldlM (takeEmbedding request.dimension) here.2)
      let observer ← here.1.advance embeddings.length
      return (observer,embeddings)) := fun batch =>
    (Obeys.computed _).bind (fun _ => (advance_obeys _ _).bind (fun _ => .pure _))
  refine Obeys.demand (fun answer batch ha stops => ?_) (fun batch => ?_)
  · rcases stops batch ha with h|h
    · rw [hsize] at h
      rw [if_pos h]
      exact ⟨_,rfl⟩
    · split
      · exact ⟨_,rfl⟩
      · obtain ⟨fault,hf⟩ := batch_malformed h here.2
        rw [hf]
        exact ⟨_,rfl⟩
  · split
    · exact .throw _
    · exact hrest batch

/-- The embedding loop. -/
theorem embedDocuments_obeys (observer : BuildObserver) :
    Obeys request.dimension (embedDocuments request observer) :=
  (start_obeys _ _ _).bind (fun _ => Obeys.foldlM (embedBatch_obeys request) _ _)

/-- The graph library is given all vectors. -/
theorem insertVectors_obeys (observer : BuildObserver) (embeddings : List Embedding) :
    Obeys request.dimension (insertVectors request observer embeddings) := by
  unfold insertVectors
  have hcreate : Obeys request.dimension (rethrow (perform (.createGraph
      (hnswDimension request.dimension) embeddings.length))) := by
    refine Obeys.rethrow (fun answer h value hv => h ?_)
    exact hv
  have hadd : ∀ item : Embedding×ℕ,Obeys request.dimension
      (rethrow (perform (.addPoint (padded request.dimension item.1) item.2))) := by
    intro item
    refine Obeys.rethrow (fun answer h value hv => h ?_)
    exact hv
  refine (Obeys.computed _).bind (fun _ => (start_obeys _ _ _).bind (fun _ => hcreate.bind (fun _ =>
    (stepped_obeys (fun _ item => hadd item) _ _ _).bind (fun _ => (advance_obeys _ _).bind
      (fun _ => ?_)))))
  exact Obeys.ask (fun _ h => h.elim) (fun _ => .pure _)

/-- The loops between the graph library and the rows. -/
theorem extractGraph_obeys (observer : BuildObserver) (hnsw : HnswGraph)
    (embeddings : List Embedding) :
    Obeys request.dimension (extractGraph request observer hnsw embeddings) := by
  unfold extractGraph
  have hlayer : ∀ (externals : List UInt32) (layers : List UpperLayer) (above : ℕ),
      Obeys request.dimension (do
        let layer ← computed (extractLayer hnsw embeddings.length externals (above+1))
        return layers++[layer]) := fun externals layers above =>
    (Obeys.computed _).bind (fun _ => .pure _)
  refine (start_obeys _ _ _).bind (fun _ => (Obeys.computed _).bind (fun externals => ?_))
  refine (stepped_obeys (fun _ _ => .computed _) _ _ _).bind (fun _ => ?_)
  refine (advance_obeys _ _).bind (fun _ => (start_obeys _ _ _).bind (fun _ => ?_))
  refine (stepped_obeys (hlayer externals) _ _ _).bind (fun _ => ?_)
  refine (Obeys.computed _).bind (fun _ => (start_obeys _ _ _).bind (fun _ => ?_))
  refine (stepped_obeys (fun _ _ => .computed _) _ _ _).bind (fun _ => ?_)
  refine (start_obeys _ _ _).bind (fun _ => ?_)
  exact (stepped_obeys (fun _ _ => .computed _) _ _ _).bind (fun _ => .pure _)

/-- The codes. -/
theorem quantizeVectors_obeys (observer : BuildObserver) (embeddings : List Embedding) :
    Obeys request.dimension (quantizeVectors request observer embeddings) := by
  refine (start_obeys _ _ _).bind (fun observer => ?_)
  split
  · exact (stepped_obeys (fun _ _ => .computed _) _ _ _).bind (fun _ =>
      (advance_obeys _ _).bind (fun _ => .pure _))
  · exact (checkpoint_obeys _).bind (fun _ => (Obeys.computed _).bind (fun _ =>
      (advance_obeys _ _).bind (fun _ => .pure _)))

/-- From the embeddings to the fields of the index. -/
theorem computeIndex_obeys (observer : BuildObserver) (path : Text) (identity : PairIdentity) :
    Obeys request.dimension (computeIndex request observer path identity) :=
  (embedDocuments_obeys request _).bind (fun _ => (insertVectors_obeys request _ _).bind (fun _ =>
    (extractGraph_obeys request _ _ _).bind (fun _ => (quantizeVectors_obeys request _ _).bind
      (fun _ => (Obeys.computed _).bind (fun _ => .pure _)))))

/-- The preparation. -/
theorem prepare_obeys (paths : ArtifactPaths) : Obeys request.dimension (prepare request paths) :=
  (start_obeys _ _ _).bind (fun _ => (checkpoint_obeys _).bind (fun _ =>
    (writeDocumentStore_obeys _ _).bind (fun _ => (openDocumentStore_obeys _).bind (fun _ =>
      (computeIndex_obeys request _ _ _).bind (fun _ => (start_obeys _ _ _).bind (fun _ =>
        (checkpoint_obeys _).bind (fun _ => (writeIndexFile_obeys _ _ _).bind (fun _ =>
          (start_obeys _ _ _).bind (fun _ => (checkpoint_obeys _).bind (fun _ =>
            (loadIndex_obeys _).bind (fun _ => (openDocumentStore_obeys _).bind (fun _ =>
              (Obeys.computed _).bind (fun _ => (checkpoint_obeys _).bind (fun _ =>
                (start_obeys _ _ _).bind (fun _ => .pure _)))))))))))))))

end Phases

section Build

variable {dimension : ℕ}

/-- Locks are released by calls that clean, and nothing stops that. -/
theorem releaseEach_cleans (locks : List Text) :
    (ofLocks (releaseEach locks)).All Cleans (fun _ => True) := by
  induction locks with
  | nil => trivial
  | cons lock rest ih => exact ⟨trivial,fun _ => ⟨trivial,fun _ => ih⟩⟩

/-- Nothing that cleans stops a build. -/
theorem cleans_goes_on {op : HostOp} (h : Cleans op) (answer : op.Answer) : ¬Stops dimension op answer := by
  cases op with
  | lock op =>
    cases op with
    | createDirectory lock => exact h.elim
    | writeOwner lock => exact id
    | removeOwner lock => exact id
    | removeDirectory lock => exact id
  | remove path => exact id
  | _ => exact h.elim

/-- A program that only cleans. -/
theorem cleans_halts {α : Type} {returns returns' : α → Prop} {program : HostProgram α}
    (h : program.All Cleans returns') : program.Halts (Stops dimension) Cleans returns :=
  Program.All.halts (h.mono (fun _ hc => cleans_goes_on hc) (fun _ h => h))

/-- The constructor of the locks. -/
theorem acquireEach_halts (locks targets : List Text) :
    (ofLocks (acquireEach locks targets)).Halts (Stops dimension) Cleans
      (fun result => ∃ message,result=.error message) := by
  induction targets generalizing locks with
  | nil => trivial
  | cons target targets ih =>
    rw [acquireEach]
    split
    · exact ih locks
    · intro answer
      obtain ⟨did,error⟩ := answer
      cases did with
      | false =>
        have hrelease : (ofLocks ((releaseNoexcept locks).bind (fun _ => Program.done
            (Except.error (refusal (lockPathFor target) error) : Except Text (List Text))))).All Cleans
              (fun result => ∃ message,result=.error message) := by
          unfold ofLocks
          rw [Program.lift_bind]
          exact (releaseEach_cleans _).bind (fun _ _ => ⟨_,rfl⟩)
        exact ⟨fun _ => hrelease,cleans_halts hrelease⟩
      | true => exact ⟨fun h => Bool.noConfusion h,fun _ => ⟨fun h => h.elim,ih _⟩⟩

/-- What a program over locks or files returns is handed on. -/
theorem releaseChecked_cleans (locks : List Text) :
    (ofLocks (releaseChecked locks)).All Cleans (fun _ => True) := by
  have hnoting : ∀ (pending : List Text) (failures : Text),
      (ofLocks (releaseNoting failures pending)).All Cleans (fun _ => True) := by
    intro pending
    induction pending with
    | nil => exact fun _ => trivial
    | cons lock rest ih =>
      intro failures
      refine ⟨trivial,fun _ => ⟨trivial,fun error => ?_⟩⟩
      cases error with
      | none => exact ih _
      | some reason => exact ih _
  unfold ofLocks releaseChecked
  exact (Program.lift_bind _ _ _ _) ▸ (hnoting _ _).bind (fun _ _ => trivial)

/-- No call of a publication stops the build. -/
theorem ofFiles_goes_on {α : Type} (program : FileProgram α) :
    (ofFiles program).All (fun op => ∀ answer,¬Stops dimension op answer) (fun _ => True) := by
  induction program with
  | done value => trivial
  | call op next ih => exact ⟨fun _ h => h,ih⟩

variable (request : BuildRequest)

/-- What is returned with the locks is an error. -/
abbrev FailedWith (result : Except Fault Unit×List Text) : Prop := Failed result.1

/-- The pair is prepared and published. -/
theorem publish_halts (paths : ArtifactPaths) (locks : List Text) :
    (publish request paths locks).Halts (Stops request.dimension) Cleans FailedWith := by
  refine Program.Halts.bind (prepare_obeys request paths) (fun result h => ?_) (fun result => ?_)
  · obtain ⟨fault,rfl⟩ := h
    exact ⟨fault,rfl⟩
  · cases result with
    | error fault => trivial
    | ok _ =>
      have hfiles : (ofFiles (publishArtifactPair paths)).Halts (Stops request.dimension) Cleans
          (fun _ => False) := (ofFiles_goes_on _).halts
      refine Program.Halts.bind hfiles (fun _ h => h.elim) (fun result => ?_)
      cases result with
      | error failure => trivial
      | ok _ =>
        have hlocks : (ofLocks (releaseChecked locks)).Halts (Stops request.dimension) Cleans
            (fun _ => False) := cleans_halts (releaseChecked_cleans locks)
        refine Program.Halts.bind hlocks (fun _ h => h.elim) (fun result => ?_)
        cases result with
        | error message => trivial
        | ok _ => trivial

/-- The destructor of `TemporaryCleanup`. -/
theorem cleanup_cleans (paths : ArtifactPaths) : (cleanup paths).All Cleans (fun _ => True) :=
  ⟨trivial,fun _ => ⟨trivial,fun _ => trivial⟩⟩

/-- The scope of the locks. -/
theorem locked_halts (index documents : Text) (locks : List Text) :
    (locked request index documents locks).Halts (Stops request.dimension) Cleans FailedWith := by
  refine Program.Halts.bind (chooseNames_obeys index documents) (fun result h => ?_) (fun result => ?_)
  · obtain ⟨fault,rfl⟩ := h
    exact ⟨fault,rfl⟩
  · cases result with
    | error fault => trivial
    | ok paths =>
      refine Program.Halts.bind (publish_halts request paths locks) (fun result h => ?_)
        (fun result => ?_)
      · exact (cleanup_cleans paths).bind (fun _ _ => h)
      · have hrest : ((cleanup paths).bind (fun _ => Program.done result)).All Cleans
            (fun _ => True) := (cleanup_cleans paths).bind (fun _ _ => trivial)
        exact cleans_halts hrest

/-- Whatever stops a build, it only cleans up from then on, and it fails. -/
theorem build_halts (index documents : Text) :
    (build request index documents).Halts (Stops request.dimension) Cleans Failed := by
  unfold build
  split
  · trivial
  · refine Program.Halts.bind (acquireEach_halts _ _) (fun result h => ?_) (fun result => ?_)
    · obtain ⟨message,rfl⟩ := h
      exact ⟨_,rfl⟩
    · cases result with
      | error message => trivial
      | ok locks =>
        refine Program.Halts.bind (locked_halts request index documents locks) (fun result h => ?_)
          (fun result => ?_)
        · exact (releaseEach_cleans _).bind (fun _ _ => h)
        · have hrest : ((ofLocks (releaseNoexcept result.2)).bind (fun _ => Program.done result.1)).All
              Cleans (fun _ => True) := (releaseEach_cleans _).bind (fun _ _ => trivial)
          exact cleans_halts hrest

end Build

end Leann.BuildStops
