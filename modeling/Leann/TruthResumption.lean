import Leann.TruthFiles

/-!
# Ground truth that is killed and resumed

The calls of `generate_ground_truth` for one file take place one after the other,
and each may be killed or fail in any of its steps. What is on disk between them
is always a beginning of one and the same file: its header and the nearest
documents of every query, in order. A later call completes it unless a call was
killed between the partial file and its first checkpoint.
-/

namespace Leann.TruthResumption

open Effects RaisingPrograms StagedFiles CacheFiles CacheGeneration BlockwiseTopK TruthGeneration TruthFiles
open BinaryFloat Lines
open PythonValues (raiseWhen raiseWhen_ok)
open Exceptions (Text bind_eq_ok pure_eq_ok)
open Embeddings (Embedding)
open GroundTruth (headerLine payload readGroundTruth Truth isSpace ScriptError decodeUtf8 decodeUtf8_ok)

section Surroundings

/-- What the clock answers. -/
def ClockAnswers : (op : ClockOp) → op.Reply → Prop
  | .utcNow,now => List.all now isSpace=false

/-- It always answers. -/
theorem exists_clockAnswer (op : ClockOp) (_ : True) : ∃ value,ClockAnswers op value := by
  cases op with
  | utcNow =>
    have hnow : List.all ['1'] isSpace=false := by decide
    exact ⟨['1'],hnow⟩

/-- The clock. -/
def clock : Client ClockOp.Reply where
  answers := ClockAnswers
  willing _ := True
  willing_answers := exists_clockAnswer

/-- What is on disk of a file. -/
abbrev TruthDisk := Files UInt8 TruthCheckpoint TruthSidecar

end Surroundings

section Plans

variable {σ : Type} [LinearOrder σ] (norm : Embedding → Single) (score : Embedding → Embedding → σ)
variable (job : TruthJob) (vectors : TruthVectors)

/-- The nearest documents of all queries. -/
def truthRows : List (List UInt32) := vectors.queries.map (nearest score job vectors)

/-- The whole file. -/
def truthTarget : Text := truthBytes (job.header vectors) (truthRows score job vectors)

/-- The file as far as some queries. -/
def truthFront (completed : ℕ) : Text :=
  truthBytes (job.header vectors) ((truthRows score job vectors).take completed)

/-- How much a checkpoint vouches for. -/
def truthCovers (state : TruthCheckpoint) : ℕ := state.committedLengthBytes.getD 0

/-- What a checkpoint records. -/
structure TruthRecorded (state : TruthCheckpoint) : Prop where
  /-- It belongs to the job. -/
  inputHash_eq : state.inputHash=job.inputHash
  /-- It says when the generation was begun. -/
  createdAt_eq : state.createdAt.all isSpace=false
  /-- There are no more rows than queries. -/
  completed_le : state.completedQueries≤vectors.queries.length
  /-- The length of the rows. -/
  length_eq : state.committedLengthBytes=some (truthFront score job vectors state.completedQueries).length
  /-- Their digest. -/
  sha_eq : state.committedPrefixSha256=some (sha256File (truthFront score job vectors state.completedQueries))
  /-- Before it is published, the whole file was read. -/
  ready : state.status=.readyToPublish → state.completedQueries=vectors.queries.length ∧
    state.groundTruthSha256=some (sha256File (truthTarget score job vectors))

/-- What a sidecar declares. -/
structure TruthDeclares (declared : TruthSidecar) : Prop where
  /-- The arguments. -/
  inputHash_eq : declared.inputHash=job.inputHash
  /-- The file. -/
  sha256_eq : declared.sha256=sha256File (truthTarget score job vectors)

/-- What a job makes of the files. -/
def truthScheme : Scheme UInt8 TruthCheckpoint TruthSidecar where
  target := truthTarget score job vectors
  covers := truthCovers
  records := TruthRecorded score job vectors
  ready state := state.status=.readyToPublish
  declares := TruthDeclares score job vectors
  checked := ∃ truth,readTruth job vectors job.output (truthTarget score job vectors)=.ok truth

/-- The file of a job, unless its arguments are refused. -/
def truthSchemes (candidate : Scheme UInt8 TruthCheckpoint TruthSidecar) : Prop :=
  ∃ vectors,checkArguments norm job=.ok vectors ∧ candidate=truthScheme score job vectors

/-- A part of a call keeps what is on disk, and raises with an excuse. -/
abbrev TruthHolds {α : Type} (failing excuse : Prop) (program : TruthProgram α) (post : α → TruthDisk → Prop)
    (files : TruthDisk) : Prop :=
  Holds clock TruthError.callFailed (Kept (truthSchemes norm score job)) failing excuse program post files

/-- What the arguments are that are not refused. -/
structure Admitted : Prop where
  /-- There is a query. -/
  queries_ne : vectors.queries≠[]
  /-- The queries can be counted. -/
  queries_lt : vectors.queries.length<2^64
  /-- The documents can be counted. -/
  corpus_lt : vectors.corpus.length<2^64
  /-- There are rows to be found. -/
  topK_pos : 0<job.topK
  /-- There are enough documents. -/
  topK_le : job.topK≤vectors.corpus.length

/-- Such arguments and blocks that are not empty. -/
structure TruthSane : Prop where
  /-- The arguments are accepted. -/
  arguments_eq : checkArguments norm job=.ok vectors
  /-- A block has queries. -/
  queryBlockRows_pos : 0<job.queryBlockRows
  /-- A block has documents. -/
  corpusBlockRows_pos : 0<job.corpusBlockRows

end Plans

section Rows

variable {σ : Type} [LinearOrder σ] {norm : Embedding → Single} {score : Embedding → Embedding → σ}
variable {job : TruthJob} {vectors : TruthVectors}

/-- What a cache function returns. -/
theorem ofCache_ok {α : Type} {result : Except CacheError α} {value : α} :
    ofCache result=.ok value ↔ result=.ok value := by
  cases result with
  | ok found => simp only [ofCache,Except.ok.injEq]
  | error failure => simp only [ofCache,reduceCtorEq]

/-- What another function returns. -/
theorem ofScript_ok {α : Type} {result : Except ScriptError α} {value : α} :
    ofScript result=.ok value ↔ result=.ok value := by
  cases result with
  | ok found => simp only [ofScript,Except.ok.injEq]
  | error failure => simp only [ofScript,reduceCtorEq]

/-- Arguments that are not refused. -/
theorem checkArguments_admitted (h : checkArguments norm job=.ok vectors) : Admitted job vectors := by
  simp only [checkArguments,bind_eq_ok,ofCache_ok,raiseWhen_ok,pure_eq_ok,Prod.exists] at h
  obtain ⟨corpus,corpusMeta,hcorpus,queries,queryMeta,hqueries,_,-,_,-,_,-,_,-,_,htop,-,-,-,-,_,-,_,-,rfl⟩ := h
  obtain ⟨contents,-,rfl,-⟩ := (readCache_iff _ _ _ _).mp hcorpus
  obtain ⟨contents',-,rfl,-⟩ := (readCache_iff _ _ _ _).mp hqueries
  have hd := contents.rows_range
  have hq := contents'.rows_range
  exact ⟨List.length_pos_iff.mp hq.1,by dsimp only; omega,by dsimp only; omega,by omega,by dsimp only; omega⟩

/-- There is a row for every query. -/
theorem truthRows_length : (truthRows score job vectors).length=vectors.queries.length := List.length_map _

/-- The file as far as all queries. -/
theorem truthFront_whole : truthFront score job vectors vectors.queries.length=truthTarget score job vectors := by
  rw [truthFront,List.take_of_length_le (Nat.le_of_eq truthRows_length)]
  rfl

/-- A beginning of the file. -/
theorem truthFront_begins (completed : ℕ) :
    truthFront score job vectors completed<+:truthTarget score job vectors := by
  refine ⟨encodeText (payload ((truthRows score job vectors).drop completed)),?_⟩
  rw [truthFront,←truthBytes_append,List.take_append_drop]
  rfl

/-- The rows of a block come behind those before it. -/
theorem truthFront_more {first stop : ℕ} (h : first≤ stop) :
    truthFront score job vectors stop=truthFront score job vectors first++encodeText (payload
      (((vectors.queries.drop first).take (stop-first)).map (nearest score job vectors))) := by
  have hsplit : (truthRows score job vectors).take stop=(truthRows score job vectors).take first++
      ((vectors.queries.drop first).take (stop-first)).map (nearest score job vectors) := by
    rw [List.map_take,List.map_drop,←truthRows,←List.take_add,Nat.add_sub_cancel' h]
  rw [truthFront,hsplit,truthBytes_append]
  rfl

/-- The header comes first. -/
theorem truthFront_zero : truthFront score job vectors 0=encodeText (job.header vectors++['\n']) := by
  rw [truthFront,List.take_zero,truthBytes]
  exact List.append_nil _

/-- A file that is read has all rows. -/
theorem front_complete {path : String} {completed : ℕ} {truth : Truth} (hle : completed≤vectors.queries.length)
    (h : readTruth job vectors path (truthFront score job vectors completed)=.ok truth) :
    completed=vectors.queries.length := by
  have hrows := accepted_rows (ofScript_ok.mp h)
  have hfilter := List.length_filter_le (fun row => !row.isEmpty) ((truthRows score job vectors).take completed)
  rw [hrows,List.length_take] at hfilter
  omega

/-- No row is empty when blocks have documents. -/
theorem truthRows_distinct (hadmitted : Admitted job vectors) (hfits : vectors.corpus.length≤2^32)
    (hup : 0≤job.corpusBlockRows) :
    ∀ row∈truthRows score job vectors,Distinct job.topK.toNat vectors.corpus.length row := by
  intro row hrow
  obtain ⟨query,-,rfl⟩ := List.mem_map.mp hrow
  have hle := hadmitted.topK_le
  exact nearest_distinct score hup hfits (by omega) query

/-- Then the whole file is read. -/
theorem target_accepted (hadmitted : Admitted job vectors) (hfits : vectors.corpus.length≤2^32)
    (hup : 0≤job.corpusBlockRows) (path : String) :
    ∃ truth,readTruth job vectors path (truthTarget score job vectors)=.ok truth := by
  have hpos := hadmitted.topK_pos
  have hle := hadmitted.topK_le
  have hlength : (truthRows score job vectors).length=vectors.queries.length := truthRows_length
  have hne : truthRows score job vectors≠[] := fun he => hadmitted.queries_ne (List.map_eq_nil_iff.mp he)
  have hlt := hadmitted.queries_lt
  obtain ⟨truth,htruth⟩ := written_accepted path hne (by omega) (by omega) (by omega) hadmitted.corpus_lt
    (truthRows_distinct hadmitted hfits hup)
  refine ⟨truth,ofScript_ok.mpr ?_⟩
  rw [hlength,Int.toNat_of_nonneg hpos.le] at htruth
  exact htruth

/-- And every beginning of it has its lines. -/
theorem front_kept (hadmitted : Admitted job vectors) (hfits : vectors.corpus.length≤2^32)
    (hup : 0≤job.corpusBlockRows) {completed : ℕ} (hle : completed≤vectors.queries.length) :
    checkKept job vectors completed (truthFront score job vectors completed)=.ok () := by
  have hkeep : ((truthRows score job vectors).take completed).filter (fun row => !row.isEmpty)=
      (truthRows score job vectors).take completed := by
    refine List.filter_eq_self.mpr (fun row hrow => ?_)
    have hlength := (truthRows_distinct hadmitted hfits hup row (List.mem_of_mem_take hrow)).length_eq
    have hpos := hadmitted.topK_pos
    cases row with
    | nil =>
      rw [List.length_nil] at hlength
      omega
    | cons identifier row => rfl
  have hlines := truthBytes_lines vectors.queries.length job.topK.toNat vectors.corpus.length
    ((truthRows score job vectors).take completed)
  rw [hkeep] at hlines
  simp only [checkKept,bind_eq_ok,ofScript_ok,decodeUtf8_ok,raiseWhen_ok,not_or,ne_eq,not_not]
  refine ⟨_,truthBytes_eq _ _,?_,?_⟩
  · rw [TruthJob.header,hlines,List.length_cons,List.length_map,List.length_take,truthRows_length,min_eq_left hle]
  · rw [TruthJob.header,hlines]
    rfl

/-- The sidecar of a file that was read declares it. -/
theorem truthSidecar_declares {path : String} {startedAt : List Char} {truth : Truth}
    (h : readTruth job vectors path (truthTarget score job vectors)=.ok truth) :
    TruthDeclares score job vectors (truthSidecar job startedAt truth) := by
  obtain ⟨-,-,-,-,-,-,hsha⟩ := readGroundTruth_iff.mp (ofScript_ok.mp h)
  refine ⟨rfl,?_⟩
  rw [truthSidecar,hsha]
  rfl

end Rows

section Steps

variable {σ : Type} [LinearOrder σ] {argpartition : List σ → ℕ → List ℕ} {norm : Embedding → Single}
variable {score : Embedding → Embedding → σ} {job : TruthJob} {vectors : TruthVectors} {files : TruthDisk}
variable {failing excuse : Prop}

/-- The rows of some queries are on disk, and a checkpoint vouches for them. -/
structure TruthReached (score : Embedding → Embedding → σ) (job : TruthJob) (vectors : TruthVectors)
    (startedAt : List Char) (completed : ℕ) (files : TruthDisk) : Prop where
  /-- There are no more of them than queries. -/
  completed_le : completed≤vectors.queries.length
  /-- The generation has a start. -/
  started_eq : startedAt.all isSpace=false
  /-- What is on disk. -/
  files_eq : ∃ state,files=⟨some (truthFront score job vectors completed),some state,none,none⟩ ∧
    TruthRecorded score job vectors state ∧
    truthCovers state≤(truthFront score job vectors completed).length

/-- What is on disk then. -/
theorem TruthReached.kept {startedAt : List Char} {completed : ℕ}
    (h : TruthReached score job vectors startedAt completed files) (harguments : checkArguments norm job=.ok vectors) :
    Kept (truthSchemes norm score job) files := by
  obtain ⟨state,hfiles,hrecorded,hcovered⟩ := h.files_eq
  refine .inr ⟨_,⟨vectors,harguments,rfl⟩,?_⟩
  rw [hfiles]
  refine keptBy_written (truthFront_begins completed) (fun state' hstate => ?_)
  rw [←Option.some.inj hstate]
  exact ⟨hrecorded,hcovered⟩

/-- The checkpoint behind some queries records them. -/
theorem runningTruth_recorded {startedAt : List Char} {completed : ℕ} (hle : completed≤vectors.queries.length)
    (hstarted : startedAt.all isSpace=false) :
    TruthRecorded score job vectors (runningTruth job startedAt completed
      (truthFront score job vectors completed).length (sha256File (truthFront score job vectors completed))) where
  inputHash_eq := rfl
  createdAt_eq := hstarted
  completed_le := hle
  length_eq := rfl
  sha_eq := rfl
  ready h := Status.noConfusion h

/-- The checkpoint behind all queries records the whole file. -/
theorem readyTruth_recorded {startedAt : List Char} (hstarted : startedAt.all isSpace=false) :
    TruthRecorded score job vectors (readyTruth job startedAt vectors.queries.length
      (truthTarget score job vectors).length (sha256File (truthTarget score job vectors))) where
  inputHash_eq := rfl
  createdAt_eq := hstarted
  completed_le := Nat.le_refl _
  length_eq := congrArg (fun bytes : Text => some bytes.length) truthFront_whole.symm
  sha_eq := congrArg (fun bytes => some (sha256File bytes)) truthFront_whole.symm
  ready _ := ⟨rfl,rfl⟩

/-- A checkpoint vouches for the rows of its queries. -/
theorem TruthRecorded.covers_eq {state : TruthCheckpoint} (h : TruthRecorded score job vectors state) :
    truthCovers state=(truthFront score job vectors state.completedQueries).length := by
  rw [truthCovers,h.length_eq]
  rfl

/-- Behind all queries it vouches for the whole file. -/
theorem TruthRecorded.covers_whole {state : TruthCheckpoint} (h : TruthRecorded score job vectors state)
    (hall : state.completedQueries=vectors.queries.length) :
    truthCovers state=(truthTarget score job vectors).length := by
  rw [h.covers_eq,hall,truthFront_whole]

/-- It says when the generation was begun. -/
theorem TruthRecorded.createdAt_ok {state : TruthCheckpoint} (h : TruthRecorded score job vectors state) :
    truthCreatedAt state=.ok state.createdAt := by
  simp only [truthCreatedAt,bind_eq_ok,raiseWhen_ok,pure_eq_ok]
  exact ⟨(),by rw [h.createdAt_eq]; exact Bool.false_ne_true,trivial⟩

/-- Such rows are on disk. -/
theorem committed_front {bytes : Text} {state : TruthCheckpoint} (hby : KeptBy (truthScheme score job vectors) files)
    (hwritten : files.partialFile=some bytes) (hstate : files.checkpoint=some state) :
    bytes.take (truthCovers state)=truthFront score job vectors state.completedQueries := by
  have hrecorded : TruthRecorded score job vectors state := hby.recorded state hstate
  have hlog : (files.log truthCovers).committed=some (truthCovers state) := by
    rw [Files.log,hstate]
    rfl
  have hcommitted : bytes.take (truthCovers state)=(truthTarget score job vectors).take (truthCovers state) :=
    hby.sound.committed_eq hwritten hlog
  obtain ⟨behind,hbehind⟩ := @truthFront_begins σ _ score job vectors state.completedQueries
  rw [hcommitted,hrecorded.covers_eq,←hbehind,List.take_left]

/-- The rows of some queries are there, and a checkpoint is written. -/
theorem runningTruth_holds {startedAt : List Char} {completed : ℕ} {checkpoint : Option TruthCheckpoint}
    (harguments : checkArguments norm job=.ok vectors) (hle : completed≤vectors.queries.length)
    (hstarted : startedAt.all isSpace=false)
    (recorded : ∀ state,checkpoint=some state → TruthRecorded score job vectors state ∧
      truthCovers state≤(truthFront score job vectors completed).length) :
    TruthHolds norm score job failing excuse (request (.writeCheckpoint (runningTruth job startedAt completed
        (truthFront score job vectors completed).length (sha256File (truthFront score job vectors completed)))))
      (fun _ after => TruthReached score job vectors startedAt completed after)
      ⟨some (truthFront score job vectors completed),checkpoint,none,none⟩ := by
  have hscheme : truthSchemes norm score job (truthScheme score job vectors) := ⟨vectors,harguments,rfl⟩
  have hrecorded : TruthRecorded score job vectors (runningTruth job startedAt completed
      (truthFront score job vectors completed).length (sha256File (truthFront score job vectors completed))) :=
    runningTruth_recorded hle hstarted
  refine (commit_holds hscheme (truthFront_begins completed) recorded hrecorded (Nat.le_refl _)).mono
    (fun _ _ _ _ h => h) (fun _ _ h => h) (fun _ after h => ?_)
  exact ⟨hle,hstarted,_,h,hrecorded,Nat.le_refl _⟩

/-- A call that finds nothing. -/
theorem beginTruth_holds {startedAt : List Char} (harguments : checkArguments norm job=.ok vectors)
    (hstarted : startedAt.all isSpace=false) :
    TruthHolds norm score job failing excuse (beginTruth job vectors startedAt) (fun progress after =>
      TruthReached score job vectors progress.generationStartedAt progress.completed after) Files.empty := by
  have hscheme : truthSchemes norm score job (truthScheme score job vectors) := ⟨vectors,harguments,rfl⟩
  have hnone : ∀ state : TruthCheckpoint,none=some state → TruthRecorded score job vectors state ∧
      truthCovers state≤(truthFront score job vectors 0).length := fun _ h => absurd h (Option.some_ne_none _).symm
  unfold beginTruth
  rw [←@truthFront_zero σ _ score job vectors]
  refine Attempts.bind (create_holds hscheme (truthFront_begins 0)) (fun _ after h => ?_)
  rw [h]
  refine readBack_holds (.inr ⟨_,hscheme,keptBy_written (truthFront_begins 0) hnone⟩) rfl ?_
  exact (runningTruth_holds harguments (Nat.zero_le _) hstarted hnone).bind (fun _ after h => .pure h)

/-- A call that finds a partial file and its checkpoint goes on behind the
queries that the checkpoint vouches for. -/
theorem resumeTruth_holds {state : TruthCheckpoint} {bytes : Text}
    (harguments : checkArguments norm job=.ok vectors) (hfits : vectors.corpus.length≤2^32)
    (hsane : ¬excuse → TruthSane norm job vectors) (hby : KeptBy (truthScheme score job vectors) files)
    (hfiles : files=⟨some bytes,some state,none,none⟩) :
    TruthHolds norm score job failing excuse (resumeTruth job vectors state bytes) (fun progress after =>
      TruthReached score job vectors progress.generationStartedAt progress.completed after) files := by
  have hscheme : truthSchemes norm score job (truthScheme score job vectors) := ⟨vectors,harguments,rfl⟩
  have hkept : Kept (truthSchemes norm score job) files := .inr ⟨_,hscheme,hby⟩
  rw [hfiles] at hby
  have hrecorded : TruthRecorded score job vectors state := hby.recorded state rfl
  have hcovered : truthCovers state≤bytes.length := hby.sound.covered bytes _ rfl rfl
  have hfront : bytes.take (truthCovers state)=truthFront score job vectors state.completedQueries :=
    committed_front hby rfl rfl
  have hlength : state.committedLengthBytes.getD bytes.length=truthCovers state := by
    rw [truthCovers,hrecorded.length_eq]
    rfl
  have hsha : state.committedPrefixSha256.or state.partialSha256=
      some (sha256File (truthFront score job vectors state.completedQueries)) := by
    rw [hrecorded.sha_eq]
    rfl
  unfold resumeTruth
  dsimp only
  rw [hlength,hsha,hfront]
  refine (raiseIf_holds hkept (fun h => absurd hrecorded.inputHash_eq h)).bind (fun _ after h => ?_)
  rw [h.2]
  refine (computed_holds hkept (fun _ => ⟨_,hrecorded.createdAt_ok⟩)).bind (fun startedAt after h => ?_)
  rw [h.2,←Except.ok.inj (hrecorded.createdAt_ok.symm.trans h.1)]
  refine (raiseIf_holds hkept (fun h => absurd hcovered (Nat.not_le_of_gt h))).bind (fun _ after h => ?_)
  rw [h.2]
  refine (raiseIf_holds hkept (fun h => absurd rfl h)).bind (fun _ after h => ?_)
  rw [h.2]
  have htruncate : TruthHolds norm score job failing excuse (truncateTo bytes.length (truthCovers state))
      (fun _ after => after=⟨some (truthFront score job vectors state.completedQueries),some state,none,none⟩)
      files := by
    rw [hfiles,←hfront]
    exact truncateTo_holds hscheme (hby.sound.begins bytes rfl) hrecorded hcovered
  have hreached : TruthReached score job vectors state.createdAt state.completedQueries
      ⟨some (truthFront score job vectors state.completedQueries),some state,none,none⟩ :=
    ⟨hrecorded.completed_le,hrecorded.createdAt_eq,state,rfl,hrecorded,hrecorded.covers_eq.le⟩
  refine htruncate.bind (fun _ after h => ?_)
  rw [h]
  have hcheck : ¬excuse → ∃ value,checkKept job vectors state.completedQueries
      (truthFront score job vectors state.completedQueries)=.ok value := fun hexcuse =>
    ⟨(),front_kept (checkArguments_admitted harguments) hfits (hsane hexcuse).corpusBlockRows_pos.le
      hrecorded.completed_le⟩
  refine readBack_holds (hreached.kept harguments) rfl ?_
  generalize checkKept job vectors state.completedQueries
    (truthFront score job vectors state.completedQueries)=checked at hcheck ⊢
  refine (computed_holds (hreached.kept harguments) hcheck).bind (fun _ after h => ?_)
  rw [h.2]
  exact .pure hreached

/-- Where a call begins. -/
theorem startTruth_holds {startedAt : List Char} (harguments : checkArguments norm job=.ok vectors)
    (hfits : vectors.corpus.length≤2^32) (hsane : ¬excuse → TruthSane norm job vectors)
    (hkept : Kept (truthSchemes norm score job) files) (houtput : files.output=none)
    (hstarted : startedAt.all isSpace=false) (hstuck : Stuck files → excuse) :
    TruthHolds norm score job failing excuse (startTruth job vectors startedAt files.checkpoint files.partialFile)
      (fun progress after => TruthReached score job vectors progress.generationStartedAt progress.completed after)
      files := by
  rcases hkept.unpublished houtput with hempty|⟨_,bytes,state,⟨vectors',hvectors,rfl⟩,hfiles,hby⟩|hunvouched
  · rw [hempty]
    exact beginTruth_holds harguments hstarted
  · rw [Except.ok.inj (hvectors.symm.trans harguments)] at hby
    rw [hfiles] at hby ⊢
    exact resumeTruth_holds harguments hfits hsane hby rfl
  · obtain ⟨bytes,hbytes⟩ := Option.ne_none_iff_exists'.mp hunvouched.1
    rw [hbytes,hunvouched.2]
    exact throw_holds hkept (hstuck hunvouched)

end Steps

section Blocks

variable {σ : Type} [LinearOrder σ] {argpartition : List σ → ℕ → List ℕ} {norm : Embedding → Single}
variable {score : Embedding → Embedding → σ} {job : TruthJob} {vectors : TruthVectors} {files : TruthDisk}
variable {failing excuse : Prop}

/-- The body of the loop. -/
theorem appendTruth_holds {startedAt : List Char} {first stop : ℕ} (hpartition : Partitions argpartition)
    (harguments : checkArguments norm job=.ok vectors) (hfits : vectors.corpus.length≤2^32)
    (hsane : ¬excuse → TruthSane norm job vectors) (hreached : TruthReached score job vectors startedAt first files)
    (hle : first≤ stop) (hstop : stop≤vectors.queries.length) :
    TruthHolds norm score job failing excuse (appendTruth argpartition score job vectors startedAt first stop)
      (fun _ after => TruthReached score job vectors startedAt stop after) files := by
  have hscheme : truthSchemes norm score job (truthScheme score job vectors) := ⟨vectors,harguments,rfl⟩
  have hkept := hreached.kept harguments
  have hpos := (checkArguments_admitted harguments).topK_pos
  obtain ⟨state,hfiles,hrecorded,hcovered⟩ := hreached.files_eq
  unfold appendTruth
  refine (computed_holds hkept (fun hexcuse => ?_)).bind (fun identifiers after h => ?_)
  · have hrows : job.corpusBlockRows≠0 := (hsane hexcuse).corpusBlockRows_pos.ne'
    exact ⟨_,ofScript_ok.mpr (exactTopK_eq score hpartition hfits hpos hrows _)⟩
  obtain ⟨hidentifiers,hafter⟩ := h
  have hmore := @truthFront_more σ _ score job vectors first stop hle
  rw [←exactTopK_ok score hpartition hfits hpos (ofScript_ok.mp hidentifiers)] at hmore
  rw [hafter,hfiles]
  have happend : TruthHolds norm score job failing excuse (request (.appendPartial (encodeText (payload identifiers))))
      (fun _ after => after=⟨some (truthFront score job vectors stop),some state,none,none⟩)
      ⟨some (truthFront score job vectors first),some state,none,none⟩ := by
    rw [hmore]
    refine append_holds hscheme ?_ hrecorded hcovered
    rw [←hmore]
    exact truthFront_begins stop
  refine happend.bind (fun _ after h => ?_)
  rw [h]
  have hlevel : ∀ state',some state=some state' → TruthRecorded score job vectors state' ∧
      truthCovers state'≤(truthFront score job vectors stop).length := by
    intro state' hstate
    rw [←Option.some.inj hstate,hmore,List.length_append]
    exact ⟨hrecorded,Nat.le_trans hcovered (Nat.le_add_right _ _)⟩
  refine readBack_holds (.inr ⟨_,hscheme,keptBy_written (truthFront_begins stop) hlevel⟩) rfl ?_
  exact runningTruth_holds harguments hstop hreached.started_eq hlevel

/-- The loop over the blocks. -/
theorem truthBlocks_holds {startedAt : List Char} {queryBlockRows completed first : ℕ} (hrows : 0<queryBlockRows)
    (hpartition : Partitions argpartition) (harguments : checkArguments norm job=.ok vectors)
    (hfits : vectors.corpus.length≤2^32) (hsane : ¬excuse → TruthSane norm job vectors)
    (hreached : TruthReached score job vectors startedAt completed files)
    (hcompleted : completed=min vectors.queries.length first) :
    TruthHolds norm score job failing excuse
      (truthBlocks argpartition score job vectors startedAt queryBlockRows hrows completed first)
      (fun all after => all=vectors.queries.length ∧ TruthReached score job vectors startedAt all after) files := by
  induction hleft : vectors.queries.length-first using Nat.strong_induction_on
    generalizing completed first files with
  | h left ih =>
    rw [truthBlocks]
    by_cases hmore : first<vectors.queries.length
    · have hfirst : completed=first := by omega
      rw [hfirst] at hreached
      rw [dif_pos hmore]
      exact (appendTruth_holds hpartition harguments hfits hsane hreached (by omega) (by omega)).bind
        (fun _ after h => ih _ (by omega) h rfl rfl)
    · have hall : completed=vectors.queries.length := by omega
      rw [dif_neg hmore]
      exact .pure ⟨hall,hreached⟩

/-- All blocks that are left. -/
theorem truthRest_holds {progress : TruthProgress} (hpartition : Partitions argpartition)
    (harguments : checkArguments norm job=.ok vectors) (hfits : vectors.corpus.length≤2^32)
    (hsane : ¬excuse → TruthSane norm job vectors)
    (hreached : TruthReached score job vectors progress.generationStartedAt progress.completed files) :
    TruthHolds norm score job failing excuse (truthRest argpartition score job vectors progress)
      (fun completed after => (¬excuse → completed=vectors.queries.length) ∧
        TruthReached score job vectors progress.generationStartedAt completed after) files := by
  unfold truthRest
  by_cases hrows : 0<job.queryBlockRows.toNat
  · rw [dif_pos hrows]
    exact (truthBlocks_holds hrows hpartition harguments hfits hsane hreached
      (min_eq_right hreached.completed_le).symm).mono (fun _ _ _ _ h => h) (fun _ _ h => h)
        (fun _ _ h => ⟨fun _ => h.1,h.2⟩)
  · rw [dif_neg hrows]
    have hexcuse : excuse := by
      by_contra hnot
      have hpos := (hsane hnot).queryBlockRows_pos
      omega
    by_cases hzero : job.queryBlockRows=0
    · rw [if_pos hzero]
      exact throw_holds (hreached.kept harguments) hexcuse
    · rw [if_neg hzero]
      exact .pure ⟨fun h => absurd hexcuse h,hreached⟩

/-- The whole of a partial file becomes the ground truth. It is only read when
there is a row for every query. -/
theorem publishTruth_holds {startedAt : List Char} {completed : ℕ} (harguments : checkArguments norm job=.ok vectors)
    (hfits : vectors.corpus.length≤2^32) (hsane : ¬excuse → TruthSane norm job vectors)
    (hreached : TruthReached score job vectors startedAt completed files)
    (hall : ¬excuse → completed=vectors.queries.length) :
    TruthHolds norm score job failing excuse (publishTruth job vectors startedAt completed)
      (Published (truthSchemes norm score job)) files := by
  have hscheme : truthSchemes norm score job (truthScheme score job vectors) := ⟨vectors,harguments,rfl⟩
  have hkept := hreached.kept harguments
  have hstarted := hreached.started_eq
  obtain ⟨state,hfiles,hrecorded,hcovered⟩ := hreached.files_eq
  have hfile : files.partialFile=some (truthFront score job vectors completed) := by rw [hfiles]
  unfold publishTruth
  have hread : ¬excuse → ∃ truth,readTruth job vectors (partialPath job.output)
      (truthFront score job vectors completed)=.ok truth := by
    intro hexcuse
    rw [hall hexcuse,truthFront_whole]
    exact target_accepted (checkArguments_admitted harguments) hfits (hsane hexcuse).corpusBlockRows_pos.le _
  refine readBack_holds hkept hfile ?_
  generalize hresult : readTruth job vectors (partialPath job.output)
    (truthFront score job vectors completed)=result at hread ⊢
  refine (computed_holds hkept hread).bind (fun truth after h => ?_)
  obtain ⟨htruth,hafter⟩ := h
  rw [←hresult] at htruth
  have hend := front_complete hreached.completed_le htruth
  rw [hafter,hfiles]
  rw [hend,truthFront_whole] at htruth hcovered ⊢
  have hchecked : (truthScheme score job vectors).checked :=
    ⟨truth,ofScript_ok.mpr (readGroundTruth_path job.output (ofScript_ok.mp htruth))⟩
  have hdeclares : TruthDeclares score job vectors (truthSidecar job startedAt truth) := truthSidecar_declares htruth
  have hready : TruthRecorded score job vectors (readyTruth job startedAt vectors.queries.length
      (truthTarget score job vectors).length (sha256File (truthTarget score job vectors))) :=
    readyTruth_recorded hstarted
  have hwhole := hready.covers_whole rfl
  have hstatus : (readyTruth job startedAt vectors.queries.length (truthTarget score job vectors).length
      (sha256File (truthTarget score job vectors))).status=.readyToPublish := rfl
  generalize readyTruth job startedAt vectors.queries.length (truthTarget score job vectors).length
    (sha256File (truthTarget score job vectors))=ready at hready hwhole hstatus ⊢
  have hcommit : TruthHolds norm score job failing excuse (request (.writeCheckpoint ready)) (fun _ after =>
      after=⟨some (truthTarget score job vectors),some ready,none,none⟩)
      ⟨some (truthTarget score job vectors),some state,none,none⟩ := by
    refine commit_holds hscheme (List.prefix_refl _) (fun before hbefore => ?_) hready hwhole.le
    rw [←Option.some.inj hbefore]
    exact ⟨hrecorded,hcovered⟩
  have hreplace : TruthHolds norm score job failing excuse (request .replaceOutput) (fun _ after =>
      after=⟨none,some ready,some (truthTarget score job vectors),none⟩)
      ⟨some (truthTarget score job vectors),some ready,none,none⟩ :=
    replace_holds hscheme hready hwhole hstatus hchecked
  refine hcommit.bind (fun _ after h => ?_)
  rw [h]
  refine hreplace.bind (fun _ after h => ?_)
  rw [h]
  exact declare_holds hscheme hready hwhole hstatus hchecked hdeclares

end Blocks

section Calls

variable {σ : Type} [LinearOrder σ] {argpartition : List σ → ℕ → List ℕ} {norm : Embedding → Single}
variable {score : Embedding → Embedding → σ} {job : TruthJob} {vectors : TruthVectors} {files : TruthDisk}
variable {failing excuse : Prop}

/-- A file that is there is found to be complete. -/
theorem existingTruth_holds {bytes : Text} (harguments : checkArguments norm job=.ok vectors)
    (hkept : Kept (truthSchemes norm score job) files) (houtput : files.output=some bytes) :
    TruthHolds norm score job failing excuse (existingTruth job vectors bytes)
      (Published (truthSchemes norm score job)) files := by
  have hthere : files.output≠none := by rw [houtput]; exact Option.some_ne_none _
  have hscheme : truthSchemes norm score job (truthScheme score job vectors) := ⟨vectors,harguments,rfl⟩
  have hby : KeptBy (truthScheme score job vectors) files := by
    rcases hkept with hempty|⟨_,⟨vectors',hvectors,rfl⟩,hby⟩
    · rw [hempty] at hthere
      exact absurd rfl hthere
    · rw [←Except.ok.inj (hvectors.symm.trans harguments)]
      exact hby
  have hbytes : bytes=truthTarget score job vectors := hby.sound.output_eq bytes houtput
  have hchecked : (truthScheme score job vectors).checked := hby.checked hthere
  have hread : ¬excuse → ∃ truth,readTruth job vectors job.output (truthTarget score job vectors)=.ok truth :=
    fun _ => hchecked
  have hsidecar : TruthHolds norm score job failing excuse (request .readSidecar) (fun sidecar after =>
      sidecar=files.sidecar ∧ after=files) files := quiet_holds trivial (fun _ => trivial) hkept (fun _ h => ⟨h,rfl⟩)
  rw [hbytes]
  unfold existingTruth
  generalize hresult : readTruth job vectors job.output (truthTarget score job vectors)=result at hread ⊢
  refine hsidecar.bind (fun sidecar after h => ?_)
  rw [h.1,h.2]
  cases hdeclared : files.sidecar with
  | some declared =>
    have hdeclares : TruthDeclares score job vectors declared := (hby.declares declared hdeclared).2
    have hpasses : checkDeclared job (truthTarget score job vectors) declared=.ok () := by
      simp only [checkDeclared,bind_eq_ok,raiseWhen_ok,ne_eq,not_not]
      exact ⟨(),hdeclares.inputHash_eq,hdeclares.sha256_eq⟩
    refine (computed_holds hkept hread).bind (fun _ after h => ?_)
    rw [h.2]
    refine (computed_holds hkept (fun _ => ⟨(),hpasses⟩)).bind (fun _ after h => ?_)
    rw [h.2]
    exact .pure ⟨hkept,_,hscheme,by rw [houtput,hbytes]; rfl,hby.sound.alone hthere,hdeclared,hdeclares⟩
  | none =>
    obtain ⟨state,hstate,hstatus⟩ : ∃ state,files.checkpoint=some state ∧ state.status=.readyToPublish :=
      hby.undeclared hthere hdeclared
    have hrecorded : TruthRecorded score job vectors state := hby.recorded state hstate
    obtain ⟨hall,hpublishes⟩ := hrecorded.ready hstatus
    have hcheckpoint : TruthHolds norm score job failing excuse (request .readCheckpoint) (fun checkpoint after =>
        checkpoint=some state ∧ after=files) files :=
      quiet_holds trivial (fun _ => trivial) hkept (fun _ h => ⟨h.trans hstate,rfl⟩)
    have hfiles : files=⟨none,some state,some (truthTarget score job vectors),none⟩ := by
      rw [←hby.sound.alone hthere,←hstate,←hbytes,←houtput,←hdeclared]
      rfl
    refine hcheckpoint.bind (fun checkpoint after h => ?_)
    rw [h.1,h.2]
    refine (raiseIf_holds hkept (fun h => ?_)).bind (fun _ after h => ?_)
    · rcases h with h|h|h
      · exact absurd hstatus h
      · exact absurd hrecorded.inputHash_eq h
      · exact absurd hpublishes h
    rw [h.2]
    refine (computed_holds hkept hread).bind (fun truth after h => ?_)
    obtain ⟨htruth,hafter⟩ := h
    rw [←hresult] at htruth
    rw [hafter]
    refine (computed_holds hkept (fun _ => ⟨_,hrecorded.createdAt_ok⟩)).bind (fun startedAt after h => ?_)
    rw [h.2,hfiles]
    exact declare_holds hscheme hrecorded (hrecorded.covers_whole hall) hstatus hchecked
      (truthSidecar_declares htruth)

/-- What a call keeps, and how it ends. -/
theorem generateTruth_holds (hpartition : Partitions argpartition)
    (hfits : ∀ vectors,checkArguments norm job=.ok vectors → vectors.corpus.length≤2^32)
    (hkept : Kept (truthSchemes norm score job) files) (hsane : ¬excuse → ∃ vectors,TruthSane norm job vectors)
    (hstuck : Stuck files → excuse) :
    TruthHolds norm score job failing excuse (generateTruth argpartition score norm job)
      (Published (truthSchemes norm score job)) files := by
  unfold generateTruth
  refine (computed_holds hkept (fun hexcuse => ?_)).bind (fun vectors after h => ?_)
  · obtain ⟨vectors,sane⟩ := hsane hexcuse
    exact ⟨vectors,sane.arguments_eq⟩
  obtain ⟨harguments,hafter⟩ := h
  rw [hafter]
  have hblocks : ¬excuse → TruthSane norm job vectors := by
    intro hexcuse
    obtain ⟨vectors',sane⟩ := hsane hexcuse
    rw [Except.ok.inj (harguments.symm.trans sane.arguments_eq)]
    exact sane
  have houtput : TruthHolds norm score job failing excuse (request .readOutput) (fun output after =>
      output=files.output ∧ after=files) files := quiet_holds trivial (fun _ => trivial) hkept (fun _ h => ⟨h,rfl⟩)
  refine houtput.bind (fun output after h => ?_)
  rw [h.1,h.2]
  cases hfound : files.output with
  | some bytes => exact existingTruth_holds harguments hkept hfound
  | none =>
    have hnow : TruthHolds norm score job failing excuse (request (.other .utcNow)) (fun now after =>
        List.all now isSpace=false ∧ after=files) files :=
      quiet_holds trivial (fun _ => trivial) hkept (fun _ h => ⟨h,rfl⟩)
    have hcheckpoint : TruthHolds norm score job failing excuse (request .readCheckpoint) (fun checkpoint after =>
        checkpoint=files.checkpoint ∧ after=files) files :=
      quiet_holds trivial (fun _ => trivial) hkept (fun _ h => ⟨h,rfl⟩)
    have hbegun : TruthHolds norm score job failing excuse (request .readPartial) (fun found after =>
        found=files.partialFile ∧ after=files) files :=
      quiet_holds trivial (fun _ => trivial) hkept (fun _ h => ⟨h,rfl⟩)
    refine hnow.bind (fun startedAt after h => ?_)
    obtain ⟨hstarted,hafter⟩ := h
    rw [hafter]
    refine hcheckpoint.bind (fun checkpoint after h => ?_)
    rw [h.1,h.2]
    refine hbegun.bind (fun partialFile after h => ?_)
    rw [h.1,h.2]
    exact (startTruth_holds harguments (hfits vectors harguments) hblocks hkept hfound hstarted hstuck).bind
      (fun progress after hreached =>
        (truthRest_holds hpartition harguments (hfits vectors harguments) hblocks hreached).bind
          (fun completed after h => publishTruth_holds harguments (hfits vectors harguments) hblocks h.2 h.1))

end Calls

end Leann.TruthResumption
