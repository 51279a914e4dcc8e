import Leann.BlockwiseTopK
import Leann.CacheGeneration

/-!
# Generating the ground truth

`generate_ground_truth` finds the nearest documents of one block of queries
after another and appends their ids to a partial file. Like the generation of a
cache it vouches for every block in a checkpoint, resumes behind the last one
and renames the whole file to its place once it can be read.
-/

namespace Leann.TruthGeneration

open Effects RaisingPrograms StagedFiles CacheFiles CacheGeneration EmbeddingCache Lines BinaryFloat
open BlockwiseTopK PythonValues
open Exceptions (Text bind_eq_ok)
open Embeddings (Embedding)
open GroundTruth hiding raiseIf

section Source

/-- What `generate_ground_truth` raises. -/
inductive TruthError where
  /-- What `read_cache` and `validate_cache_source` raise. -/
  | cache (failure : CacheError)
  /-- What `exact_topk_block` and `read_ground_truth` raise. -/
  | script (failure : ScriptError)
  /-- A call of the operating system, or of `json`. -/
  | callFailed
  /-- corpus/query vector dimensions differ -/
  | dimensionsDiffer
  /-- corpus/query native fingerprints differ -/
  | fingerprintsDiffer
  /-- top-k must be in [1, corpus count] -/
  | badTopK
  /-- corpus/query model identity hashes differ -/
  | modelsDiffer
  /-- query vectors are not bound to this corpus cache -/
  | unbound
  /-- existing ground truth belongs to different inputs -/
  | existingInputs
  /-- existing ground-truth SHA-256 mismatch -/
  | existingSha
  /-- existing ground truth has no provenance sidecar/checkpoint -/
  | noProvenance
  /-- ground-truth publication checkpoint mismatch -/
  | publicationMismatch
  /-- ground-truth checkpoint and partial must coexist -/
  | notTogether
  /-- ground-truth checkpoint belongs to different inputs -/
  | differentInputs
  /-- checkpoint predates durable start-time recording -/
  | noStartTime
  /-- ground-truth partial is shorter than its committed checkpoint -/
  | shorterThanCheckpoint
  /-- ground-truth committed-prefix checksum mismatch -/
  | checksumMismatch
  /-- ground-truth partial row count/header mismatch -/
  | rowMismatch

/-- The entries of a checkpoint. -/
structure TruthCheckpoint where
  /-- `input_hash`. -/
  inputHash : List Char
  /-- `created_at`. -/
  createdAt : List Char
  /-- `status`. -/
  status : Status
  /-- `completed_queries`. -/
  completedQueries : ℕ
  /-- `committed_length_bytes`, which older checkpoints lack. -/
  committedLengthBytes : Option ℕ
  /-- `committed_prefix_sha256`, which older checkpoints lack. -/
  committedPrefixSha256 : Option (List Char)
  /-- `partial_sha256`, which only older checkpoints have. -/
  partialSha256 : Option (List Char)
  /-- `ground_truth_sha256`. -/
  groundTruthSha256 : Option (List Char)
  deriving DecidableEq

/-- The entries of a sidecar. -/
structure TruthSidecar where
  /-- `input_hash`. -/
  inputHash : List Char
  /-- `generation_started_at`. -/
  generationStartedAt : List Char
  /-- The `query_count` of `ground_truth`. -/
  queryCount : ℤ
  /-- The `top_k` of `ground_truth`. -/
  topK : ℤ
  /-- The `corpus_count` of `ground_truth`. -/
  corpusCount : ℤ
  /-- The `size_bytes` of `ground_truth`. -/
  sizeBytes : ℕ
  /-- The `sha256` of `ground_truth`. -/
  sha256 : List Char
  deriving DecidableEq

/-- The arguments of a call, with what is in the files they name. -/
structure TruthJob where
  /-- `corpus_cache`. -/
  corpusCache : Text
  /-- Its sidecar. -/
  corpusSidecar : Option Sidecar
  /-- `query_cache`. -/
  queryCache : Text
  /-- Its sidecar. -/
  querySidecar : Option Sidecar
  /-- The characters of `documents`. -/
  documents : List Char
  /-- The characters of `queries`. -/
  queries : List Char
  /-- `output`. -/
  output : String
  /-- `top_k`. -/
  topK : ℤ
  /-- `query_block_rows`. -/
  queryBlockRows : ℤ
  /-- `corpus_block_rows`. -/
  corpusBlockRows : ℤ
  /-- The hash of all of these, `input_hash`. -/
  inputHash : List Char

/-- The vectors of the corpus and of the queries. -/
structure TruthVectors where
  /-- `corpus`. -/
  corpus : List Embedding
  /-- `query_vectors`. -/
  queries : List Embedding

/-- What a cache function raises. -/
def ofCache {α : Type} : Except CacheError α → Except TruthError α
  | .ok value => .ok value
  | .error failure => .error (.cache failure)

/-- What another function of the scripts raises. -/
def ofScript {α : Type} : Except ScriptError α → Except TruthError α
  | .ok value => .ok value
  | .error failure => .error (.script failure)

/-- The clock is the only other call. -/
inductive ClockOp where
  /-- `utc_now`. -/
  | utcNow

/-- It answers with a time. -/
def ClockOp.Reply : ClockOp → Type
  | .utcNow => List Char

/-- A part of a call. -/
abbrev TruthProgram := StagedProgram UInt8 TruthCheckpoint TruthSidecar ClockOp.Reply TruthError

/-- A sidecar that has to be there. -/
def loadSidecar : Option Sidecar → Except TruthError Sidecar
  | some declared => .ok declared
  | none => .error .callFailed

/-- The checks of the arguments. -/
def checkArguments (norm : Embedding → Single) (job : TruthJob) : Except TruthError TruthVectors := do
  let (corpus,corpusMeta) ← ofCache (readCache norm job.corpusCache)
  let (queries,queryMeta) ← ofCache (readCache norm job.queryCache)
  ofCache (validateCacheSource corpusMeta job.documents)
  ofCache (validateCacheSource queryMeta job.queries)
  raiseWhen (corpusMeta.dimensions≠queryMeta.dimensions) .dimensionsDiffer
  raiseWhen (corpusMeta.fingerprint≠queryMeta.fingerprint) .fingerprintsDiffer
  raiseWhen (job.topK≤0 ∨ job.topK>corpus.length) .badTopK
  let corpusSidecar ← loadSidecar job.corpusSidecar
  let querySidecar ← loadSidecar job.querySidecar
  raiseWhen (corpusSidecar.modelSha256≠querySidecar.modelSha256) .modelsDiffer
  raiseWhen ((querySidecar.bindings.lookup "corpus_cache_sha256").map String.toList≠
    some (sha256File job.corpusCache)) .unbound
  return ⟨corpus,queries⟩

/-- The header without its line break. -/
def TruthJob.header (job : TruthJob) (vectors : TruthVectors) : List Char :=
  headerLine vectors.queries.length job.topK.toNat vectors.corpus.length

/-- `partial_path`. -/
def partialPath (path : String) : String := path++".partial"

/-- The read of a finished file. -/
def readTruth (job : TruthJob) (vectors : TruthVectors) (path : String) (bytes : Text) : Except TruthError Truth :=
  ofScript (readGroundTruth path bytes (some vectors.queries.length) (some job.topK)
    (some vectors.corpus.length))

/-- `checkpoint_created_at`. -/
def truthCreatedAt (state : TruthCheckpoint) : Except TruthError (List Char) := do
  raiseWhen (state.createdAt.all isSpace=true) .noStartTime
  return state.createdAt

/-- The sidecar of a file. -/
def truthSidecar (job : TruthJob) (generationStartedAt : List Char) (truth : Truth) : TruthSidecar where
  inputHash := job.inputHash
  generationStartedAt := generationStartedAt
  queryCount := truth.queryCount
  topK := truth.topK
  corpusCount := truth.corpusCount
  sizeBytes := truth.sizeBytes
  sha256 := hexDigits truth.sha256.toList

/-- The checks of an existing file with its sidecar. -/
def checkDeclared (job : TruthJob) (bytes : Text) (declared : TruthSidecar) : Except TruthError Unit := do
  raiseWhen (declared.inputHash≠job.inputHash) .existingInputs
  raiseWhen (declared.sha256≠sha256File bytes) .existingSha

/-- An existing file is not generated again. -/
def existingTruth (job : TruthJob) (vectors : TruthVectors) (bytes : Text) : TruthProgram TruthSidecar := do
  let sidecar : Option TruthSidecar ← request .readSidecar
  match sidecar with
  | some declared => do
    let _ ← computed (readTruth job vectors job.output bytes)
    computed (checkDeclared job bytes declared)
    return declared
  | none => do
    let checkpoint : Option TruthCheckpoint ← request .readCheckpoint
    match checkpoint with
    | none => throw .noProvenance
    | some state => do
      raiseIf (state.status≠.readyToPublish ∨ state.inputHash≠job.inputHash ∨
        state.groundTruthSha256≠some (sha256File bytes)) .publicationMismatch
      let truth ← computed (readTruth job vectors job.output bytes)
      let startedAt ← computed (truthCreatedAt state)
      declare (truthSidecar job startedAt truth)

/-- The checkpoint behind some queries. -/
def runningTruth (job : TruthJob) (generationStartedAt : List Char) (completed committedLength : ℕ)
    (committedSha : List Char) : TruthCheckpoint where
  inputHash := job.inputHash
  createdAt := generationStartedAt
  status := .running
  completedQueries := completed
  committedLengthBytes := some committedLength
  committedPrefixSha256 := some committedSha
  partialSha256 := none
  groundTruthSha256 := none

/-- The checkpoint behind all queries. -/
def readyTruth (job : TruthJob) (generationStartedAt : List Char) (completed committedLength : ℕ)
    (groundTruthSha : List Char) : TruthCheckpoint :=
  {runningTruth job generationStartedAt completed committedLength groundTruthSha with
    status := .readyToPublish,groundTruthSha256 := some groundTruthSha}

/-- The variables of a call. -/
structure TruthProgress where
  /-- `completed`. -/
  completed : ℕ
  /-- `generation_started_at`. -/
  generationStartedAt : List Char

/-- The checks of the lines that are kept. -/
def checkKept (job : TruthJob) (vectors : TruthVectors) (completed : ℕ) (bytes : Text) :
    Except TruthError Unit := do
  let characters ← ofScript (decodeUtf8 bytes)
  let lines := iterNonemptyLines characters
  raiseWhen (lines.length≠completed+1 ∨ lines.head?≠some (job.header vectors)) .rowMismatch

/-- A call that finds a partial file and a checkpoint. -/
def resumeTruth (job : TruthJob) (vectors : TruthVectors) (state : TruthCheckpoint) (bytes : Text) :
    TruthProgram TruthProgress := do
  raiseIf (state.inputHash≠job.inputHash) .differentInputs
  let startedAt ← computed (truthCreatedAt state)
  let committedLength := state.committedLengthBytes.getD bytes.length
  let committedSha := state.committedPrefixSha256.or state.partialSha256
  raiseIf (bytes.length<committedLength) .shorterThanCheckpoint
  raiseIf (some (sha256File (bytes.take committedLength))≠committedSha) .checksumMismatch
  truncateTo bytes.length committedLength
  let found : Option Text ← request .readPartial
  let found ← present .callFailed found
  computed (checkKept job vectors state.completedQueries found)
  return ⟨state.completedQueries,startedAt⟩

/-- A call that finds neither. -/
def beginTruth (job : TruthJob) (vectors : TruthVectors) (startedAt : List Char) :
    TruthProgram TruthProgress := do
  let header := encodeText (job.header vectors++['\n'])
  request (.createPartial header)
  let found : Option Text ← request .readPartial
  let found ← present .callFailed found
  request (.writeCheckpoint (runningTruth job startedAt 0 header.length (sha256File found)))
  return ⟨0,startedAt⟩

/-- Where a call begins. -/
def startTruth (job : TruthJob) (vectors : TruthVectors) (startedAt : List Char) :
    Option TruthCheckpoint → Option Text → TruthProgram TruthProgress
  | some state,some bytes => resumeTruth job vectors state bytes
  | none,none => beginTruth job vectors startedAt
  | _,_ => throw .notTogether

variable {σ : Type} [LinearOrder σ] (argpartition : List σ → ℕ → List ℕ) (score : Embedding → Embedding → σ)

/-- `exact_topk_block`. A range that counts down is empty. -/
def exactTopK (job : TruthJob) (vectors : TruthVectors) (queries : List Embedding) :
    Except ScriptError (List (List UInt32)) :=
  if job.corpusBlockRows<0 then .ok (queries.map (fun _ => []))
  else exactTopKBlock argpartition score queries vectors.corpus job.topK.toNat job.corpusBlockRows.toNat

/-- The body of the loop over the blocks. -/
def appendTruth (job : TruthJob) (vectors : TruthVectors) (startedAt : List Char) (first stop : ℕ) :
    TruthProgram Unit := do
  let identifiers ← computed (ofScript (exactTopK argpartition score job vectors
    ((vectors.queries.drop first).take (stop-first))))
  request (.appendPartial (encodeText (payload identifiers)))
  let found : Option Text ← request .readPartial
  let found ← present .callFailed found
  request (.writeCheckpoint (runningTruth job startedAt stop found.length (sha256File found)))

/-- The loop over the blocks from one query on. -/
def truthBlocks (job : TruthJob) (vectors : TruthVectors) (startedAt : List Char) (queryBlockRows : ℕ)
    (hrows : 0<queryBlockRows) (completed first : ℕ) : TruthProgram ℕ :=
  if _ : first<vectors.queries.length then do
    let stop := min vectors.queries.length (first+queryBlockRows)
    appendTruth argpartition score job vectors startedAt first stop
    truthBlocks job vectors startedAt queryBlockRows hrows stop (first+queryBlockRows)
  else return completed
termination_by vectors.queries.length-first
decreasing_by omega

/-- All blocks that are left. A range that counts down is empty. -/
def truthRest (job : TruthJob) (vectors : TruthVectors) (progress : TruthProgress) : TruthProgram ℕ :=
  if hrows : 0<job.queryBlockRows.toNat then
    truthBlocks argpartition score job vectors progress.generationStartedAt job.queryBlockRows.toNat hrows
      progress.completed progress.completed
  else if job.queryBlockRows=0 then throw (.script (.valueError "range() arg 3 must not be zero"))
  else return progress.completed

/-- The partial file is read and becomes the ground truth. -/
def publishTruth (job : TruthJob) (vectors : TruthVectors) (startedAt : List Char) (completed : ℕ) :
    TruthProgram TruthSidecar := do
  let found : Option Text ← request .readPartial
  let bytes ← present .callFailed found
  let truth ← computed (readTruth job vectors (partialPath job.output) bytes)
  request (.writeCheckpoint (readyTruth job startedAt completed bytes.length (sha256File bytes)))
  request .replaceOutput
  declare (truthSidecar job startedAt truth)

/-- `generate_ground_truth`. -/
def generateTruth (norm : Embedding → Single) (job : TruthJob) : TruthProgram TruthSidecar := do
  let vectors ← computed (checkArguments norm job)
  let output : Option Text ← request .readOutput
  match output with
  | some bytes => existingTruth job vectors bytes
  | none => do
    let startedAt : List Char ← request (.other .utcNow)
    let checkpoint : Option TruthCheckpoint ← request .readCheckpoint
    let partialFile : Option Text ← request .readPartial
    let progress ← startTruth job vectors startedAt checkpoint partialFile
    let completed ← truthRest argpartition score job vectors progress
    publishTruth job vectors progress.generationStartedAt completed

end Source

end Leann.TruthGeneration
