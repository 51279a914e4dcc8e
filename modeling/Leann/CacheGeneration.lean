import Leann.CacheFiles
import Leann.StagedFiles

/-!
# Generating an embedding cache

`generate_cache` embeds the lines of a source in batches and appends the rows
to a partial file. A checkpoint is replaced behind every batch. A call that was
killed or failed is resumed by the next one, and a complete partial file is
renamed to the cache. The rows may begin with those of a smaller cache. With a
known dimension several requests are under way at a time.
-/

namespace Leann.CacheGeneration

open Effects RaisingPrograms StagedFiles CacheFiles EmbeddingCache Lines PythonValues BinaryFloat
open Exceptions (Text bind_eq_ok)
open Embeddings (Embedding)
open Checksum (digest)

section Source

/-- `sha256_file`. -/
def sha256File (bytes : Text) : List Char := hexDigits (digest bytes).toList

/-- The `status` of a checkpoint. -/
inductive Status where
  /-- `running`. -/
  | running
  /-- `ready-to-publish`. -/
  | readyToPublish
  deriving DecidableEq

/-- `prefix_seed`. -/
structure PrefixSeed where
  /-- `cache_sha256`. -/
  cacheSha256 : List Char
  /-- `rows`. -/
  rows : ℕ
  /-- `source_prefix_size_bytes`. -/
  sourcePrefixSizeBytes : ℕ
  /-- `source_prefix_sha256`. -/
  sourcePrefixSha256 : List Char
  deriving DecidableEq

/-- The entries of a checkpoint that are read. -/
structure Checkpoint where
  /-- `input_hash`. -/
  inputHash : List Char
  /-- `created_at`. -/
  createdAt : List Char
  /-- `status`. -/
  status : Status
  /-- `dimension`. -/
  dimension : ℕ
  /-- `header_size`. -/
  headerSize : ℕ
  /-- `completed_rows`. -/
  completedRows : ℕ
  /-- `payload_sha256`. -/
  payloadSha256 : List Char
  /-- `prefix_seed`. -/
  prefixSeed : Option PrefixSeed
  /-- `cache_sha256`. -/
  cacheSha256 : Option (List Char)
  deriving DecidableEq

/-- The entries of `generation` of a sidecar. -/
structure Generation where
  /-- `started_at`. -/
  startedAt : List Char
  /-- `payload_sha256`. -/
  payloadSha256 : List Char
  /-- `prefix_seed`. -/
  prefixSeed : Option PrefixSeed
  deriving DecidableEq

/-- The entries of a sidecar. -/
structure Sidecar where
  /-- `schema`. -/
  schema : String
  /-- `role`. -/
  role : String
  /-- `cache`. -/
  cache : CacheMetadata
  /-- The `sha256` of `cache`. -/
  cacheSha256 : List Char
  /-- The `sha256` of `source`. -/
  sourceSha256 : List Char
  /-- The `sha256` of `model`. -/
  modelSha256 : List Char
  /-- `bindings`. -/
  bindings : List (String×String)
  /-- `generation`, which a recovered sidecar lacks. -/
  generation : Option Generation
  deriving DecidableEq

/-- `CACHE_META_SCHEMA`. -/
def cacheMetaSchema : String := "leann-shared-embedding-cache-v1"

/-- A smaller cache to begin with, and what its sidecar holds if it has one. -/
structure PrefixFiles where
  /-- The bytes of the cache. -/
  bytes : Text
  /-- The sidecar. -/
  sidecar : Option Sidecar

/-- The arguments of a call but for `concurrency`. -/
structure Job where
  /-- The characters of the source. -/
  source : List Char
  /-- `fingerprint`. -/
  fingerprint : List Char
  /-- The `sha256` of `model`. -/
  modelSha256 : List Char
  /-- `role`. -/
  role : String
  /-- `bindings`. -/
  bindings : List (String×String)
  /-- `batch_size`. -/
  batchSize : ℤ
  /-- `dimension`. -/
  dimension : Option ℤ
  /-- `prefix_cache`. -/
  prefixCache : Option PrefixFiles
  /-- The hash of all of these, `input_hash`. -/
  inputHash : List Char

/-- The lines to embed. -/
def Job.lines (job : Job) : List (List Char) := iterNonemptyLines job.source

/-- The header of the cache. -/
def Job.header (job : Job) (dimension : ℤ) : Except CacheError Text :=
  match cacheV2Header dimension (sourceIdentity job.source).nonemptyLines job.fingerprint
    (sourceIdentity job.source).sizeBytes (sourceIdentity job.source).sha256 with
  | .ok header => .ok header
  | .error failure => .error (.header failure)

/-- A request that is under way, and the dimension it expects. -/
structure Future where
  /-- The texts. -/
  texts : List (List Char)
  /-- `expected_dimension`. -/
  expectedDimension : Option ℕ

/-- What a call asks of the client and of the clock. -/
inductive ClientOp where
  /-- `client.embed`. -/
  | embed (future : Future)
  /-- `pool.submit` of it. -/
  | submit (future : Future)
  /-- `result`. -/
  | result (future : Future)
  /-- `cancel`. -/
  | cancel (future : Future)
  /-- `utc_now`. -/
  | utcNow

/-- What the answers hold. -/
def ClientOp.Reply : ClientOp → Type
  | .embed _ => List Embedding
  | .result _ => List Embedding
  | .utcNow => List Char
  | _ => Unit

/-- What a call asks for. The partial file is opened with `xb`, `ab` or `r+b`,
checkpoint and sidecar are replaced by `atomic_write_json`, and the partial file
becomes the cache by `os.replace`. -/
abbrev CacheOp := StagedOp UInt8 Checkpoint Sidecar ClientOp

/-- A part of a call. -/
abbrev CacheProgram := StagedProgram UInt8 Checkpoint Sidecar ClientOp.Reply CacheError

/-- Call the client or the clock. -/
abbrev consult (op : ClientOp) : CacheProgram op.Reply := request (.other op)

/-- Where the rows are in the partial file. -/
structure Layout where
  /-- `dimension`. -/
  dimension : ℕ
  /-- `header_size`. -/
  headerSize : ℕ
  deriving DecidableEq

/-- The variables of a call. -/
structure Progress where
  /-- `dimension` and `header_size`, once they are known. -/
  layout : Option Layout
  /-- `completed`. -/
  completed : ℕ
  /-- The bytes that `payload_digest` was fed. -/
  payloadDigest : Text
  /-- `prefix_seed_info`. -/
  prefixSeed : Option PrefixSeed
  /-- `generation_started_at`. -/
  generationStartedAt : List Char

/-- The checkpoint behind some rows. -/
def runningCheckpoint (job : Job) (progress : Progress) (layout : Layout) (completed : ℕ) : Checkpoint where
  inputHash := job.inputHash
  createdAt := progress.generationStartedAt
  status := .running
  dimension := layout.dimension
  headerSize := layout.headerSize
  completedRows := completed
  payloadSha256 := sha256File progress.payloadDigest
  prefixSeed := progress.prefixSeed
  cacheSha256 := none

/-- The checkpoint behind all rows. -/
def readyCheckpoint (job : Job) (progress : Progress) (layout : Layout) (cacheSha256 : List Char) : Checkpoint :=
  {runningCheckpoint job progress layout progress.completed with
    status := .readyToPublish,cacheSha256 := some cacheSha256}

/-- The header is written, and the first checkpoint. -/
def beginPartial (job : Job) (progress : Progress) (dimension : ℤ) : CacheProgram Progress := do
  let header ← computed (job.header dimension)
  let layout : Layout := ⟨dimension.toNat,header.length⟩
  request (.createPartial header)
  request (.writeCheckpoint (runningCheckpoint job progress layout 0))
  return {progress with layout := some layout}

/-- The header is written before the first rows. -/
def ensurePartial (job : Job) (progress : Progress) (dimension : ℕ) : CacheProgram Progress :=
  match progress.layout with
  | none => beginPartial job progress dimension
  | some _ => pure progress

/-- The body of the loop over the batches. -/
def appendBatch (job : Job) (progress : Progress) (texts : List (List Char)) (matrix : List Embedding) :
    CacheProgram Progress := do
  let progress ← ensurePartial job progress (matrix.headD []).length
  match progress.layout with
  | none => throw .endedEarly
  | some layout => do
    request (.appendPartial (payload matrix))
    let progress := {progress with
      payloadDigest := progress.payloadDigest++payload matrix,completed := progress.completed+texts.length}
    request (.writeCheckpoint (runningCheckpoint job progress layout progress.completed))
    return progress

/-- `_iter_batches` behind the lines that are skipped. -/
def iterBatches (batchSize : ℤ) (batch : List (List Char)) : List (List Char) → List (List (List Char))
  | [] => if batch=[] then [] else [batch]
  | line::lines =>
    if ((batch++[line]).length : ℤ)=batchSize then (batch++[line])::iterBatches batchSize [] lines
    else iterBatches batchSize (batch++[line]) lines

/-- `_iter_embedded_batches` with one request at a time. -/
def embedSequentially (job : Job) : List (List (List Char)) → Progress → CacheProgram Progress
  | [],progress => return progress
  | texts::batches,progress => do
    let matrix : List Embedding ← consult (.embed ⟨texts,progress.layout.map Layout.dimension⟩)
    let progress ← appendBatch job progress texts matrix
    embedSequentially job batches progress

/-- `cancel` of all requests that are under way. -/
def cancelAll : List Future → CacheProgram Unit
  | [] => return ()
  | future::pending => do
    consult (.cancel future)
    cancelAll pending

/-- The oldest request is awaited, and its rows are appended. -/
def consumeFirst (job : Job) (progress : Progress) (future : Future) (pending : List Future) :
    CacheProgram Progress :=
  cleaning (do
    let matrix : List Embedding ← consult (.result future)
    appendBatch job progress future.texts matrix) (cancelAll pending)

/-- The requests that are under way in the end. -/
def drainPending (job : Job) : List Future → Progress → CacheProgram Progress
  | [],progress => return progress
  | future::pending,progress => do
    let progress ← consumeFirst job progress future pending
    drainPending job pending progress

/-- `_iter_embedded_batches` with several requests at a time. -/
def embedAhead (job : Job) (concurrency : ℤ) :
    List (List (List Char)) → List Future → Progress → CacheProgram Progress
  | [],pending,progress => drainPending job pending progress
  | texts::batches,pending,progress => do
    let future : Future := ⟨texts,progress.layout.map Layout.dimension⟩
    cleaning (consult (.submit future)) (cancelAll pending)
    match pending++[future] with
    | [] => embedAhead job concurrency batches [] progress
    | first::rest =>
      if ((first::rest).length : ℤ)≥concurrency then do
        let progress ← consumeFirst job progress first rest
        embedAhead job concurrency batches rest progress
      else embedAhead job concurrency batches (first::rest) progress

/-- The loop over the batches that are left. -/
def embedRest (job : Job) (concurrency : ℤ) (progress : Progress) : CacheProgram Progress :=
  let batches := iterBatches job.batchSize [] (job.lines.drop progress.completed)
  if (if progress.layout=none then 1 else concurrency)≤1 then embedSequentially job batches progress
  else embedAhead job concurrency batches [] progress

variable (norm : Embedding → Single)

/-- The sidecar of a cache. -/
def declaredSidecar (job : Job) (cache : CacheMetadata) (cacheSha256 : List Char)
    (generation : Option Generation) : Sidecar where
  schema := cacheMetaSchema
  role := job.role
  cache := cache
  cacheSha256 := cacheSha256
  sourceSha256 := (sourceIdentity job.source).sha256
  modelSha256 := job.modelSha256
  bindings := job.bindings
  generation := generation

/-- Read and check a file against the source. -/
def checkedCache (job : Job) (bytes : Text) : CacheProgram CacheMetadata := do
  let (_,metadata) ← computed (readCache norm bytes)
  computed (validateCacheSource metadata job.source)
  return metadata

/-- The partial file is checked and becomes the cache. -/
def publishCache (job : Job) (progress : Progress) : CacheProgram Sidecar :=
  match progress.layout with
  | none => throw .endedEarly
  | some layout => do
    raiseIf (progress.completed≠(sourceIdentity job.source).nonemptyLines) .endedEarly
    let bytes : Option Text ← request .readPartial
    let bytes ← present .callFailed bytes
    let _ ← checkedCache norm job bytes
    let cacheSha256 := sha256File bytes
    request (.writeCheckpoint (readyCheckpoint job progress layout cacheSha256))
    request .replaceOutput
    let bytes : Option Text ← request .readOutput
    let bytes ← present .callFailed bytes
    let cache ← checkedCache norm job bytes
    let declared := declaredSidecar job cache cacheSha256
      (some ⟨progress.generationStartedAt,sha256File progress.payloadDigest,progress.prefixSeed⟩)
    declare declared

/-- The checks of `_validate_existing_cache` with a sidecar. -/
def checkSidecar (job : Job) (metadata : CacheMetadata) (bytes : Text) (declared : Sidecar) :
    Except CacheError Unit := do
  raiseWhen (declared.schema≠cacheMetaSchema) .unknownSidecar
  raiseWhen (declared.role≠job.role) .roleMismatch
  raiseWhen (declared.modelSha256≠job.modelSha256) .modelMismatch
  raiseWhen (declared.bindings≠job.bindings) .bindingsMismatch
  raiseWhen (declared.cacheSha256≠sha256File bytes) .sidecarShaMismatch
  raiseWhen (some declared.sourceSha256≠metadata.source.map Prod.snd) .sidecarSourceMismatch

/-- The checks of `_validate_existing_cache` with a checkpoint. -/
def checkPublication (job : Job) (bytes : Text) (state : Checkpoint) : Except CacheError Unit := do
  raiseWhen (state.status≠.readyToPublish) .incompleteProvenance
  raiseWhen (state.inputHash≠job.inputHash) .publicationInputMismatch
  raiseWhen (state.cacheSha256≠some (sha256File bytes)) .publicationShaMismatch

/-- `_validate_existing_cache`. -/
def validateExistingCache (job : Job) (bytes : Text) : CacheProgram Sidecar := do
  let metadata ← checkedCache norm job bytes
  raiseIf (metadata.fingerprint≠job.fingerprint) .fingerprintMismatch
  let sidecar : Option Sidecar ← request .readSidecar
  match sidecar with
  | some declared => do
    computed (checkSidecar job metadata bytes declared)
    return declared
  | none => do
    let checkpoint : Option Checkpoint ← request .readCheckpoint
    match checkpoint with
    | none => throw .noSidecar
    | some state => do
      computed (checkPublication job bytes state)
      let declared := declaredSidecar job metadata (sha256File bytes) none
      declare declared

/-- The checks of the cache to begin with. -/
def checkPrefix (job : Job) (files : PrefixFiles) : Except CacheError CacheMetadata := do
  let (_,metadata) ← readCache norm files.bytes
  raiseWhen (metadata.version≠2) .prefixVersion
  raiseWhen (metadata.count≥(sourceIdentity job.source).nonemptyLines) .prefixTooLarge
  raiseWhen (metadata.fingerprint≠job.fingerprint) .prefixFingerprint
  raiseWhen (∃ dimension∈job.dimension,(metadata.dimensions : ℤ)≠dimension) .prefixDimension
  match files.sidecar with
  | none => .error .callFailed
  | some declared => do
    raiseWhen (declared.schema≠cacheMetaSchema ∨ declared.role≠"corpus" ∨
      declared.modelSha256≠job.modelSha256 ∨ declared.cacheSha256≠sha256File files.bytes) .prefixProvenance
    match metadata.source with
    | none => .error .prefixSource
    | some (prefixSize,sourceSha256) => do
      raiseWhen ((sourceIdentity job.source).sizeBytes≤prefixSize ∨
        sha256File ((encodeText job.source).take prefixSize)≠sourceSha256) .prefixSource
      return metadata

/-- The rows of the cache to begin with. -/
def prefixRows (files : PrefixFiles) (metadata : CacheMetadata) : Text :=
  (files.bytes.drop metadata.vectorOffset).take metadata.vectorBytes

/-- The partial file begins with the rows of a smaller cache. -/
def seedPartial (job : Job) (files : PrefixFiles) (generationStartedAt : List Char) : CacheProgram Progress := do
  let metadata ← computed (checkPrefix norm job files)
  let header ← computed (job.header metadata.dimensions)
  let layout : Layout := ⟨metadata.dimensions,header.length⟩
  request (.createPartial (header++prefixRows files metadata))
  let progress : Progress := {
    layout := some layout
    completed := metadata.count
    payloadDigest := prefixRows files metadata
    prefixSeed := metadata.source.map (fun source =>
      ⟨sha256File files.bytes,metadata.count,source.1,source.2⟩)
    generationStartedAt := generationStartedAt }
  request (.writeCheckpoint (runningCheckpoint job progress layout metadata.count))
  return progress

/-- A call that finds neither a partial file nor a checkpoint. -/
def beginFresh (job : Job) (generationStartedAt : List Char) : CacheProgram Progress :=
  match job.prefixCache with
  | some files => seedPartial norm job files generationStartedAt
  | none =>
    let progress : Progress := ⟨none,0,[],none,generationStartedAt⟩
    match job.dimension with
    | some dimension => beginPartial job progress dimension
    | none => pure progress

/-- `checkpoint_created_at`. -/
def checkpointCreatedAt (state : Checkpoint) : Except CacheError (List Char) := do
  raiseWhen (state.createdAt.all GroundTruth.isSpace=true) .noStartTime
  return state.createdAt

/-- A call that finds a partial file and a checkpoint. -/
def resume (job : Job) (state : Checkpoint) (bytes : Text) : CacheProgram Progress := do
  raiseIf (state.inputHash≠job.inputHash) .differentInputs
  let generationStartedAt ← computed (checkpointCreatedAt state)
  let payloadBytes := state.completedRows*state.dimension*4
  let expectedPrefix := state.headerSize+payloadBytes
  raiseIf (bytes.length<expectedPrefix) .shorterThanCheckpoint
  raiseIf (sha256File ((bytes.drop state.headerSize).take payloadBytes)≠state.payloadSha256) .payloadMismatch
  truncateTo bytes.length expectedPrefix
  let found : Option Text ← request .readPartial
  let found ← present .callFailed found
  return {
    layout := some ⟨state.dimension,state.headerSize⟩
    completed := state.completedRows
    payloadDigest := found.drop state.headerSize
    prefixSeed := state.prefixSeed
    generationStartedAt := generationStartedAt }

/-- Where a call begins. -/
def beginProgress (job : Job) (generationStartedAt : List Char) :
    Option Checkpoint → Option Text → CacheProgram Progress
  | some state,some bytes => resume job state bytes
  | none,none => beginFresh norm job generationStartedAt
  | _,_ => throw .notTogether

/-- `generate_cache`. -/
def generateCache (job : Job) (concurrency : ℤ) : CacheProgram Sidecar := do
  raiseIf ((sourceIdentity job.source).nonemptyLines≤0) .noLines
  let cache : Option Text ← request .readOutput
  match cache with
  | some bytes => validateExistingCache norm job bytes
  | none => do
    let startedAt : List Char ← consult .utcNow
    let checkpoint : Option Checkpoint ← request .readCheckpoint
    let partialFile : Option Text ← request .readPartial
    let progress ← beginProgress norm job startedAt checkpoint partialFile
    let progress ← embedRest job concurrency progress
    publishCache norm job progress

end Source

end Leann.CacheGeneration
