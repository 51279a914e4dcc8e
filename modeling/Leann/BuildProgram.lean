import Leann.Host

/-!
# `Index::build` call by call

The locks are taken, four names beside the targets are chosen, the two new
artifacts are written under temporary names and verified, and then the pair
is published. Every phase reports its progress and asks whether to stop.
However a build ends, it removes its temporaries before it releases its locks.
-/

namespace Leann.BuildProgram

open BinaryFloat Effects Exceptions Documents IndexFile Search Training IndexBuilder
  ArtifactPublisher BuildLocks Host
open Embeddings hiding Unit

section Observer

/-- `BuildObserver`. -/
structure BuildObserver where
  /-- Whether `report_progress` is set. -/
  reports : Bool
  /-- Whether `should_cancel` is set. -/
  cancels : Bool
  /-- `stage_`. -/
  stage : Text := []
  /-- `total_`. -/
  total : ℕ := 0
  /-- `completed_`. -/
  completed : ℕ := 0
  /-- `reported_`. -/
  reported : ℕ := 0

/-- `stride`. -/
def stride : ℕ := 4096

/-- `report`. -/
def BuildObserver.report (observer : BuildObserver) : Throwing BuildObserver := do
  if observer.reports then
    rethrow (perform (.reportProgress observer.stage observer.completed observer.total))
  return {observer with reported := observer.completed}

/-- `begin`. -/
def BuildObserver.start (observer : BuildObserver) (stage : Text) (total : ℕ) :
    Throwing BuildObserver :=
  {observer with stage := stage,total := total,completed := 0}.report

/-- `advance`. -/
def BuildObserver.advance (observer : BuildObserver) (completed : ℕ) : Throwing BuildObserver :=
  let observer := {observer with completed := completed}
  if completed=observer.total ∨ completed< observer.reported ∨
      completed-observer.reported≥stride then observer.report
  else pure observer

/-- `checkpoint`. -/
def BuildObserver.checkpoint (observer : BuildObserver) : Throwing Unit := do
  if observer.cancels then
    let stops ← rethrow (perform .shouldCancel)
    if stops then throw (.thrown ⟨.buildCancelled,"build cancelled during "++observer.stage⟩)

/-- `step`. -/
def BuildObserver.step (observer : BuildObserver) (completed : ℕ) : Throwing BuildObserver := do
  observer.checkpoint
  observer.advance completed

/-- A loop whose rounds begin with a step. -/
def stepped {α σ : Type} (position : σ → α → ℕ) (body : σ → α → Throwing σ)
    (observer : BuildObserver) (start : σ) (items : List α) : Throwing (BuildObserver×σ) :=
  items.foldlM (fun here item => do
    let observer ← here.1.step (position here.2 item)
    let state ← body here.2 item
    return (observer,state)) (observer,start)

end Observer

section Files

/-- Write what a writer appends to a file. -/
def extend (path file : Text) (writer : Format.Output Unit) : Throwing Unit := do
  let written ← computed (writer file)
  rethrow (perform (.write path (written.2.drop file.length)))

/-- Open a stream for writing. -/
def openStream (path : Text) (truncate : Bool) (message : Text) : Throwing Unit := do
  let opened ← (perform (.openFile path truncate) : HostProgram Bool)
  if ¬opened then throw (.thrown (runtimeError (message++path)))

/-- Take the digest of a file, open it again and write behind its end. -/
def appendStage (path message : Text) (writer : Format.Output Unit) : Throwing Unit := do
  let file ← rethrow (perform (.readFile path))
  openStream path false message
  extend path file writer

/-- `DocumentStore::write`. -/
def writeDocumentStore (path : Text) (documents : List Text) : Throwing Unit := do
  let identity ← computed (makePairIdentity documents)
  computed (throwIf (isZeroIdentity identity)
    (invalidArgument "document pair identity must not be zero"))
  let checksums := documents.map Checksum.crc32c
  openStream path true "cannot create document store: "
  extend path [] (writeHeader identity documents.length)
  appendStage path "cannot append document metadata: " (writeMetadata path documents checksums)
  appendStage path "cannot append document payload: " (writePayload path documents)

/-- The part of `Index::build` that writes the index. -/
def writeIndexFile (path : Text) (index : Index) (count : ℕ) : Throwing Unit := do
  openStream path true "cannot create index: "
  extend path [] (writeIndex index count)
  appendStage path "cannot append SHA-256 footer: " (Checksum.appendSha256Footer path)

/-- `DocumentStore::open`. -/
def openDocumentStore (path : Text) : Throwing DocumentStore := do
  let file ← rethrow (perform (.readFile path))
  computed (openStore path file)

/-- `Index::load`. -/
def loadIndex (path : Text) : Throwing Index := do
  let file ← rethrow (perform (.readFile path))
  computed (load path file)

/-- `require_regular_or_missing`. -/
def requireRegularOrMissing (path : Text) : Throwing Unit := do
  match ← (perform (.pathExists path) : HostProgram (Except Text Bool)) with
  | .error reason => throw (.thrown (runtimeError ("cannot inspect artifact '"++path++"': "++reason)))
  | .ok false => return ()
  | .ok true =>
    match ← (perform (.isRegularFile path) : HostProgram (Except Text Bool)) with
    | .ok true => return ()
    | _ => throw (.thrown (runtimeError ("artifact target is not a regular file: "++path)))

/-- `unique_adjacent_path`, with a number of attempts left. -/
def uniqueAdjacentPath (target marker : Text) : ℕ → Throwing Text
  | 0 => throw (.thrown (runtimeError ("cannot allocate a unique artifact path for "++target)))
  | attempts+1 => do
    let token ← (perform .uniqueToken : HostProgram Text)
    let candidate := target++marker++token
    match ← (perform (.pathExists candidate) : HostProgram (Except Text Bool)) with
    | .error reason =>
      throw (.thrown (runtimeError ("cannot inspect temporary path '"++candidate++"': "++reason)))
    | .ok false => return candidate
    | .ok true => uniqueAdjacentPath target marker attempts

/-- The names a build chooses. -/
def chooseNames (index documents : Text) : Throwing ArtifactPaths := do
  requireRegularOrMissing index
  requireRegularOrMissing documents
  let temporaryIndex ← uniqueAdjacentPath index ".tmp." 32
  let temporaryDocuments ← uniqueAdjacentPath documents ".tmp." 32
  let indexBackup ← uniqueAdjacentPath index ".bak." 32
  let documentsBackup ← uniqueAdjacentPath documents ".bak." 32
  return ⟨temporaryIndex,temporaryDocuments,index,documents,indexBackup,documentsBackup⟩

end Files

section Phases

/-- What a caller of `Index::build` gives. -/
structure BuildRequest where
  /-- `config` without its observers. -/
  config : BuildConfig
  /-- Whether `report_progress` is set. -/
  reports : Bool
  /-- Whether `should_cancel` is set. -/
  cancels : Bool
  /-- `documents`. -/
  documents : List Text
  /-- `embedder.dimension()`. -/
  dimension : ℕ
  /-- `embedder.fingerprint()`. -/
  fingerprint : Text
  /-- The outcomes of the random choices. -/
  choices : Choices Double

/-- One vector of a batch. -/
def takeEmbedding (dimension : ℕ) (embeddings : List Embedding) (embedding : Embedding) :
    Except Fault (List Embedding) := do
  validateEmbedding embedding dimension
  let normalized ← normalize embedding
  return embeddings++[normalized]

/-- One round of the embedding loop. -/
def embedBatch (request : BuildRequest) (here : BuildObserver×List Embedding) (round : ℕ) :
    Throwing (BuildObserver×List Embedding) := do
  let size := request.config.embeddingBatchSize.toNat
  here.1.checkpoint
  let first := round*size
  let last := min request.documents.length (first+size)
  let batch ← rethrow (perform (.embed ((request.documents.drop first).take (last-first))))
  if batch.length≠last-first then
    throw (.thrown (runtimeError "embedder returned the wrong batch size"))
  let embeddings ← computed (batch.foldlM (takeEmbedding request.dimension) here.2)
  let observer ← here.1.advance embeddings.length
  return (observer,embeddings)

/-- The embedding loop. -/
def embedDocuments (request : BuildRequest) (observer : BuildObserver) :
    Throwing (BuildObserver×List Embedding) := do
  let size := request.config.embeddingBatchSize.toNat
  let observer ← observer.start "embedding" request.documents.length
  (List.range ((request.documents.length+size-1)/size)).foldlM (embedBatch request) (observer,[])

/-- A row of `hnsw_vectors`. -/
def padded (dimension : ℕ) (embedding : Embedding) : Embedding :=
  embedding++List.replicate (hnswDimension dimension-dimension) 0

/-- The graph library is given all vectors. -/
def insertVectors (request : BuildRequest) (observer : BuildObserver) (embeddings : List Embedding) :
    Throwing (BuildObserver×HnswGraph) := do
  computed (checkVectors request.dimension embeddings.length)
  let observer ← observer.start "building graph" embeddings.length
  rethrow (perform (.createGraph (hnswDimension request.dimension) embeddings.length))
  let (observer,_) ← stepped (fun _ item => item.2) (fun _ item =>
    rethrow (perform (.addPoint (padded request.dimension item.1) item.2))) observer () embeddings.zipIdx
  let observer ← observer.advance embeddings.length
  let hnsw ← (perform .readGraph : HostProgram HnswGraph)
  return (observer,hnsw)

/-- The loops between the graph library and the rows of the index. -/
def extractGraph (request : BuildRequest) (observer : BuildObserver) (hnsw : HnswGraph)
    (embeddings : List Embedding) : Throwing (BuildObserver×Graph) := do
  let count := embeddings.length
  let observer ← observer.start "extracting adjacency" count
  let externals ← computed (internalToExternal hnsw count)
  let (observer,original) ← stepped (fun _ internal => internal) (fun original internal =>
    computed (extractRow hnsw count externals original internal)) observer (List.replicate count [])
    (List.range count)
  let observer ← observer.advance count
  let observer ← observer.start "extracting upper layers" (maximumLevel hnsw)
  let (observer,upperLayers) ← stepped (fun _ above => above) (fun layers above => do
    let layer ← computed (extractLayer hnsw count externals (above+1))
    return layers++[layer]) observer [] (List.range (maximumLevel hnsw))
  let isHub ← computed (hubs request.config original)
  let observer ← observer.start "pruning" count
  let (observer,graph) ← stepped (fun _ source => source) (fun graph source =>
    computed (pruneNode request.config embeddings original isHub graph source)) observer
    (List.replicate original.length []) (List.range original.length)
  let observer ← observer.start "compacting adjacency" count
  let (observer,rows) ← stepped (fun _ source => source) (fun rows source =>
    computed (compactNode request.config embeddings graph rows source)) observer []
    (List.range graph.length)
  return (observer,⟨upperLayers,rows,maximumLevel hnsw,hnsw.label hnsw.enterpoint⟩)

/-- The codes. -/
def quantizeVectors (request : BuildRequest) (observer : BuildObserver) (embeddings : List Embedding) :
    Throwing (BuildObserver×Codes) := do
  let observer ← observer.start "quantizing" embeddings.length
  match request.config.approximation with
  | .simHash =>
    let (observer,sketches) ← stepped (fun sketches _ =>
        sketches.length/max 1 (request.config.sketchBits.toNat/64)) (fun sketches embedding =>
      computed (sketchNode request.config sketches embedding)) observer [] embeddings
    let observer ← observer.advance embeddings.length
    return (observer,⟨sketchSeed request.config,sketches,noQuantizer⟩)
  | .productQuantization =>
    observer.checkpoint
    let pq ← computed (trainCodes request.config request.choices embeddings)
    let observer ← observer.advance embeddings.length
    return (observer,⟨0,[],pq⟩)

/-- From the embeddings to the fields of the index. -/
def computeIndex (request : BuildRequest) (observer : BuildObserver) (path : Text)
    (identity : PairIdentity) : Throwing (BuildObserver×Index×ℕ) := do
  let (observer,embeddings) ← embedDocuments request observer
  let (observer,hnsw) ← insertVectors request observer embeddings
  let (observer,graph) ← extractGraph request observer hnsw embeddings
  let (observer,codes) ← quantizeVectors request observer embeddings
  computed (checkFingerprint request.fingerprint)
  return (observer,assemble request.config path identity request.fingerprint request.dimension graph
    codes,embeddings.length)

/-- The artifacts are written under their temporary names and verified. -/
def prepare (request : BuildRequest) (paths : ArtifactPaths) : Throwing Unit := do
  let observer : BuildObserver := {reports := request.reports,cancels := request.cancels}
  let observer ← observer.start "writing documents" 0
  observer.checkpoint
  writeDocumentStore paths.temporaryDocuments request.documents
  let store ← openDocumentStore paths.temporaryDocuments
  let (observer,index,count) ← computeIndex request observer paths.temporaryIndex store.pairIdentity
  let observer ← observer.start "writing index" 0
  observer.checkpoint
  writeIndexFile paths.temporaryIndex index count
  let observer ← observer.start "verifying" 0
  observer.checkpoint
  let candidateIndex ← loadIndex paths.temporaryIndex
  let candidateDocuments ← openDocumentStore paths.temporaryDocuments
  computed (validateDocumentStore candidateIndex candidateDocuments)
  observer.checkpoint
  let _ ← observer.start "publishing" 0
  return ()

end Phases

section Build

/-- Read a program over locks as one of a build. -/
def ofLocks {α : Type} (program : LockProgram α) : HostProgram α :=
  program.lift HostOp.lock (fun _ answer => answer)

/-- Read a publication as part of a build. -/
def ofFiles {α : Type} (program : FileProgram α) : HostProgram α :=
  program.lift HostOp.artifact (fun _ answer => answer)

/-- The checks in front of the locks, on normalised targets. -/
def checkRequest (request : BuildRequest) (index documents : Text) : Except Fault Unit := do
  validateBuildConfig request.config
  throwIf (request.documents=[]) (invalidArgument "cannot build an empty index")
  throwIf (request.documents.length>2^32-1)
    (invalidArgument "this index format supports at most 2^32-1 nodes")
  throwIf (request.dimension=0 ∨ request.dimension>2^32-1) (invalidArgument "invalid embedder dimension")
  throwIf (index=documents) (invalidArgument "index and document store paths must be different")

/-- The pair is prepared and published, and the locks are released unless
something was thrown. What is returned with the result is the locks the
build still holds. -/
def publish (request : BuildRequest) (paths : ArtifactPaths) (locks : List Text) :
    HostProgram (Except Fault Unit×List Text) := do
  match ← (prepare request paths).run with
  | .error fault => return (.error fault,locks)
  | .ok () =>
    match ← ofFiles (publishArtifactPair paths) with
    | .error failure => return (.error (.thrown (runtimeError failure.what)),locks)
    | .ok () =>
      match ← ofLocks (releaseChecked locks) with
      | .error message => return (.error (.thrown (runtimeError message)),[])
      | .ok () => return (.ok (),[])

/-- The destructor of `TemporaryCleanup`. -/
def cleanup (paths : ArtifactPaths) : HostProgram Unit := do
  let _ ← perform (.remove paths.temporaryIndex)
  let _ ← perform (.remove paths.temporaryDocuments)
  return ()

/-- The scope of the locks. -/
def locked (request : BuildRequest) (index documents : Text) (locks : List Text) :
    HostProgram (Except Fault Unit×List Text) := do
  match ← (chooseNames index documents).run with
  | .error fault => return (.error fault,locks)
  | .ok paths =>
    let result ← publish request paths locks
    cleanup paths
    return result

/-- `Index::build` on normalised targets. -/
def build (request : BuildRequest) (index documents : Text) : HostProgram (Except Fault Unit) :=
  match checkRequest request index documents with
  | .error fault => return .error fault
  | .ok () => do
    match ← ofLocks (acquire index documents) with
    | .error message => return .error (.thrown (runtimeError message))
    | .ok locks =>
      let (result,remaining) ← locked request index documents locks
      ofLocks (releaseNoexcept remaining)
      return result

end Build

end Leann.BuildProgram
