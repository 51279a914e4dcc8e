import Leann.CacheGeneration

/-!
# Cache generation that is killed and resumed

The calls of `generate_cache` for one cache take place one after the other, and
each may be killed or fail in any of its steps. What is on disk between them is
always a beginning of one and the same cache: its header, and one row for every
line in order.
-/

namespace Leann.CacheResumption

open Effects RaisingPrograms StagedFiles CacheFiles CacheGeneration EmbeddingCache CacheServing Lines
open PythonValues BinaryFloat
open Exceptions (Text bind_eq_ok pure_eq_ok)
open Embeddings (Embedding)

section Surroundings

variable (norm : Embedding → Single) (embedding : List Char → Embedding)

/-- What a client that maps every text to a row answers. -/
structure Embedded (future : Future) (matrix : List Embedding) : Prop where
  /-- There is a row for every text. -/
  matrix_eq : matrix=future.texts.map embedding
  /-- The rows have the expected size, and they have passed their validation. -/
  rows_valid : ∃ width,0<width ∧ (∀ row∈matrix,row.length=width ∧ RowValid norm true row) ∧
    ∀ dimension∈future.expectedDimension,dimension=width

/-- What it answers, and what the clock does. -/
def ClientAnswers : (op : ClientOp) → op.Reply → Prop
  | .embed future,matrix => Embedded norm embedding future matrix
  | .result future,matrix => Embedded norm embedding future matrix
  | .utcNow,now => List.all now GroundTruth.isSpace=false
  | .submit _,_ => True
  | .cancel _,_ => True

/-- It answers when the rows of the texts pass their validation. -/
def ClientWilling : ClientOp → Prop
  | .embed future => Embedded norm embedding future (future.texts.map embedding)
  | .result future => Embedded norm embedding future (future.texts.map embedding)
  | _ => True

/-- Then there is an answer. -/
theorem exists_clientAnswer (op : ClientOp) (h : ClientWilling norm embedding op) :
    ∃ value,ClientAnswers norm embedding op value := by
  cases op with
  | embed future => exact ⟨_,h⟩
  | result future => exact ⟨_,h⟩
  | submit future => exact ⟨(),trivial⟩
  | cancel future => exact ⟨(),trivial⟩
  | utcNow =>
    have hnow : List.all ['1'] GroundTruth.isSpace=false := by decide
    exact ⟨['1'],hnow⟩

/-- Such a client, and a clock. -/
def embedder : Client ClientOp.Reply where
  answers := ClientAnswers norm embedding
  willing := ClientWilling norm embedding
  willing_answers := exists_clientAnswer norm embedding

/-- What is on disk of a cache. -/
abbrev Disk := Files UInt8 Checkpoint Sidecar

/-- The calls of `generate_cache` for one cache, each with as many requests at a
time as it likes. -/
abbrev calls (job : Job) (concurrency : ℤ) : CacheProgram Sidecar := generateCache norm job concurrency

end Surroundings

section Plans

variable (norm : Embedding → Single) (embedding : List Char → Embedding) (job : Job)

/-- What the cache of a job is going to be. -/
structure Plan where
  /-- The size of a row. -/
  dimension : ℕ
  /-- The header. -/
  header : Text
  /-- The rows to begin with. -/
  seed : List Embedding

/-- The rows of the cache: those to begin with, and one for every other line. -/
def Plan.rows (plan : Plan) : List Embedding :=
  plan.seed++(job.lines.drop plan.seed.length).map embedding

/-- The whole cache. -/
def Plan.target (plan : Plan) : Text := plan.header++payload (plan.rows embedding job)

/-- The rows of a smaller cache. -/
def prefixMatrix (files : PrefixFiles) (metadata : CacheMetadata) : List Embedding :=
  matrixRows metadata.dimensions metadata.count (files.bytes.drop metadata.vectorOffset)

/-- The cache of a job, unless its arguments are refused. -/
def makePlan : Except CacheError Plan :=
  match job.prefixCache with
  | some files => do
    let metadata ← checkPrefix norm job files
    let header ← job.header metadata.dimensions
    return ⟨metadata.dimensions,header,prefixMatrix files metadata⟩
  | none => do
    let dimension : ℤ := job.dimension.getD ((job.lines.map embedding).headD []).length
    let header ← job.header dimension
    return ⟨dimension.toNat,header,[]⟩

variable {norm embedding job} {plan : Plan}

/-- A header is laid out by the function of the caches. -/
theorem header_ok (dimension : ℤ) (header : Text) : job.header dimension=.ok header ↔
    cacheV2Header dimension (sourceIdentity job.source).nonemptyLines job.fingerprint
      (sourceIdentity job.source).sizeBytes (sourceIdentity job.source).sha256=.ok header := by
  unfold Job.header
  cases cacheV2Header dimension (sourceIdentity job.source).nonemptyLines job.fingerprint
    (sourceIdentity job.source).sizeBytes (sourceIdentity job.source).sha256 with
  | ok found => simp only [Except.ok.injEq]
  | error failure => simp only [reduceCtorEq]

/-- What a smaller cache that passes its checks is. -/
structure Accepted (norm : Embedding → Single) (job : Job) (files : PrefixFiles) (metadata : CacheMetadata) :
    Prop where
  /-- It can be read. -/
  readable : ∃ rows,readCache norm files.bytes=.ok (rows,metadata)
  /-- It is bound to a source. -/
  version_eq : metadata.version=2
  /-- There are fewer rows than lines. -/
  count_lt : metadata.count<job.lines.length
  /-- It has the same embedder. -/
  fingerprint_eq : metadata.fingerprint=job.fingerprint
  /-- Its rows have the size that was asked for. -/
  dimensions_eq : ∀ dimension∈job.dimension,(metadata.dimensions : ℤ)=dimension
  /-- The source begins with its source. -/
  source_eq : ∃ size sha256,metadata.source=some (size,sha256) ∧ size<(encodeText job.source).length ∧
    sha256File ((encodeText job.source).take size)=sha256

/-- A smaller cache that passes its checks. -/
theorem checkPrefix_accepted {files : PrefixFiles} {metadata : CacheMetadata}
    (h : checkPrefix norm job files=.ok metadata) : Accepted norm job files metadata := by
  obtain ⟨⟨rows,found⟩,hread,hrest⟩ := (bind_eq_ok _ _ _).mp h
  simp only [bind_eq_ok,raiseWhen_ok] at hrest
  obtain ⟨_,hversion,_,hcount,_,hfingerprint,_,hdimension,hrest⟩ := hrest
  cases hsidecar : files.sidecar with
  | none =>
    rw [hsidecar] at hrest
    cases hrest
  | some declared =>
    simp only [hsidecar,bind_eq_ok,raiseWhen_ok] at hrest
    obtain ⟨_,-,hrest⟩ := hrest
    cases hsource : found.source with
    | none =>
      rw [hsource] at hrest
      cases hrest
    | some source =>
      simp only [hsource,bind_eq_ok,raiseWhen_ok,pure_eq_ok,not_or,not_not,ne_eq] at hrest
      obtain ⟨_,⟨hsize,hsha⟩,rfl⟩ := hrest
      exact ⟨⟨rows,hread⟩,not_not.mp hversion,Nat.lt_of_not_le hcount,not_not.mp hfingerprint,
        fun dimension hd => not_not.mp (fun hne => hdimension ⟨dimension,hd,hne⟩),source.1,source.2,hsource,
        Nat.lt_of_not_le hsize,hsha⟩

/-- Its rows are copied, and they are valid. -/
theorem Accepted.rows {files : PrefixFiles} {metadata : CacheMetadata} (h : Accepted norm job files metadata) :
    prefixRows files metadata=payload (prefixMatrix files metadata) ∧
      (prefixMatrix files metadata).length=metadata.count ∧ 0< metadata.count ∧ 0< metadata.dimensions ∧
      ∀ row∈prefixMatrix files metadata,row.length=metadata.dimensions ∧ RowValid norm true row := by
  obtain ⟨rows,hread⟩ := h.readable
  obtain ⟨contents,hbytes,-,hmetadata⟩ := (readCache_iff _ _ _ _).mp hread
  have hbehind : files.bytes.drop metadata.vectorOffset=payload contents.rows := by
    rw [hmetadata,hbytes]
    exact List.drop_left
  have hmatrix : prefixMatrix files metadata=contents.rows := by
    rw [prefixMatrix,hbehind,hmetadata]
    exact matrixRows_payload contents.rows_length
  have hbound : contents.source≠none := by
    intro hnone
    have hfixed : contents.fixed.source=none := hnone
    have hversion := h.version_eq
    rw [hmetadata] at hversion
    change contents.fixed.version=2 at hversion
    rw [FixedPart.version,if_pos hfixed] at hversion
    exact absurd hversion (by decide)
  rw [hmatrix,prefixRows,hbehind]
  refine ⟨?_,by rw [hmetadata]; rfl,?_,?_,fun row hrow => ⟨?_,?_⟩⟩
  · rw [hmetadata]
    refine List.take_of_length_le (le_of_eq ?_)
    rw [payload_length contents.rows_length]
    rfl
  · rw [hmetadata]
    exact contents.rows_range.1
  · rw [hmetadata]
    exact contents.dimension_range.1
  · rw [hmetadata]
    exact contents.rows_length row hrow
  · have hvalid := contents.rows_valid row hrow
    rw [decide_eq_true hbound] at hvalid
    exact hvalid

/-- A plan has a header for its dimension, and its first rows are valid. -/
structure Planned (norm : Embedding → Single) (job : Job) (plan : Plan) : Prop where
  /-- The header is that of the job. -/
  header_eq : job.header plan.dimension=.ok plan.header
  /-- A row has values. -/
  dimension_pos : 0<plan.dimension
  /-- There are no more first rows than lines. -/
  seed_le : plan.seed.length≤job.lines.length
  /-- The first rows are valid. -/
  seed_valid : ∀ row∈plan.seed,row.length=plan.dimension ∧ RowValid norm true row

/-- A header is laid out for rows with values only. -/
theorem dimension_pos_of_header {dimension : ℤ} {header : Text} (h : job.header dimension=.ok header) :
    0<dimension := ((cacheV2Header_ok _ _ _ _ _ _).mp ((header_ok _ _).mp h)).1.dimension_range.1

/-- A plan that was made is one. -/
theorem makePlan_planned (h : makePlan norm embedding job=.ok plan) : Planned norm job plan := by
  unfold makePlan at h
  cases hgiven : job.prefixCache with
  | some files =>
    simp only [hgiven,bind_eq_ok,pure_eq_ok] at h
    obtain ⟨metadata,hmetadata,header,hheader,rfl⟩ := h
    have haccepted := checkPrefix_accepted hmetadata
    obtain ⟨-,hcount,-,hpos,hvalid⟩ := haccepted.rows
    exact ⟨hheader,hpos,by rw [hcount]; exact haccepted.count_lt.le,hvalid⟩
  | none =>
    simp only [hgiven,bind_eq_ok,pure_eq_ok] at h
    obtain ⟨header,hheader,rfl⟩ := h
    have hpos := dimension_pos_of_header hheader
    refine ⟨?_,by dsimp only; omega,Nat.zero_le _,fun row hrow => absurd hrow List.not_mem_nil⟩
    rw [Int.toNat_of_nonneg hpos.le]
    exact hheader

/-- There is a row for every line. -/
theorem Planned.rows_length (h : Planned norm job plan) : (plan.rows embedding job).length=job.lines.length := by
  have hle := h.seed_le
  rw [Plan.rows,List.length_append,List.length_map,List.length_drop]
  omega

/-- The rows behind the first ones are those of the lines. -/
theorem rows_drop {completed : ℕ} (h : plan.seed.length≤ completed) :
    (plan.rows embedding job).drop completed=(job.lines.drop completed).map embedding := by
  rw [Plan.rows,List.drop_append,List.drop_eq_nil_of_le h,List.nil_append,←List.map_drop,List.drop_drop,
    Nat.add_sub_cancel' h]

/-- The lines of a job are counted. -/
theorem lines_length : (sourceIdentity job.source).nonemptyLines=job.lines.length := rfl

/-- A client that answers with valid rows of the right size. -/
structure Sane (norm : Embedding → Single) (embedding : List Char → Embedding) (job : Job) (plan : Plan) :
    Prop where
  /-- There are lines. -/
  lines_ne : job.lines≠[]
  /-- The arguments are accepted. -/
  plan_eq : makePlan norm embedding job=.ok plan
  /-- The rows are valid. -/
  rows_valid : ∀ line∈job.lines,(embedding line).length=plan.dimension ∧ RowValid norm true (embedding line)

/-- The cache of such a client can be read and belongs to the source. -/
theorem Sane.readable (h : Sane norm embedding job plan) :
    readCache norm (plan.target embedding job)=.ok (plan.rows embedding job,boundMetadata plan.header plan.dimension
      (plan.rows embedding job).length job.fingerprint job.source) := by
  have hplanned := makePlan_planned h.plan_eq
  refine readCache_written ?_ (fun row hrow => ?_)
  · rw [hplanned.rows_length]
    exact (header_ok _ _).mp hplanned.header_eq
  · rcases List.mem_append.mp hrow with hseed|hrest
    · exact hplanned.seed_valid row hseed
    · obtain ⟨line,hline,rfl⟩ := List.mem_map.mp hrest
      exact h.rows_valid line (List.mem_of_mem_drop hline)

end Plans

section Invariant

variable (norm : Embedding → Single) (embedding : List Char → Embedding) (job : Job)

/-- So many rows are in the bytes that were hashed. -/
structure Half (plan : Plan) (completed : ℕ) (done : Text) : Prop where
  /-- The first rows are among them. -/
  seed_le : plan.seed.length≤ completed
  /-- There are no more than lines. -/
  completed_le : completed≤job.lines.length
  /-- They are the first rows of the cache. -/
  done_eq : done=payload ((plan.rows embedding job).take completed)
  /-- They have their size. -/
  length_eq : done.length=completed*plan.dimension*4

/-- What a checkpoint records of a plan. -/
structure Recorded (plan : Plan) (state : Checkpoint) : Prop where
  /-- It belongs to the job. -/
  inputHash_eq : state.inputHash=job.inputHash
  /-- It says when the generation was begun. -/
  createdAt_eq : state.createdAt.all GroundTruth.isSpace=false
  /-- The size of a row. -/
  dimension_eq : state.dimension=plan.dimension
  /-- The size of the header. -/
  headerSize_eq : state.headerSize=plan.header.length
  /-- The rows, and their digest. -/
  half : ∃ done,Half embedding job plan state.completedRows done ∧ state.payloadSha256=sha256File done
  /-- Before it is published, the whole cache was checked. -/
  ready : state.status=.readyToPublish → state.completedRows=job.lines.length ∧
    state.cacheSha256=some (sha256File (plan.target embedding job))

/-- What a sidecar declares of a plan. -/
structure Declares (plan : Plan) (declared : Sidecar) : Prop where
  /-- The schema. -/
  schema_eq : declared.schema=cacheMetaSchema
  /-- The role. -/
  role_eq : declared.role=job.role
  /-- The cache. -/
  cacheSha256_eq : declared.cacheSha256=sha256File (plan.target embedding job)
  /-- The source. -/
  sourceSha256_eq : declared.sourceSha256=(sourceIdentity job.source).sha256
  /-- The model. -/
  modelSha256_eq : declared.modelSha256=job.modelSha256
  /-- The bindings. -/
  bindings_eq : declared.bindings=job.bindings

/-- The length that a checkpoint vouches for. -/
def committedLength (state : Checkpoint) : ℕ := state.headerSize+state.completedRows*state.dimension*4

/-- What a plan makes of the files. -/
def scheme (plan : Plan) : Scheme UInt8 Checkpoint Sidecar where
  target := plan.target embedding job
  covers := committedLength
  records := Recorded embedding job plan
  ready state := state.status=.readyToPublish
  declares := Declares embedding job plan
  checked := ∃ rows metadata,readCache norm (plan.target embedding job)=.ok (rows,metadata) ∧
    validateCacheSource metadata job.source=.ok ()

/-- The plan of a job. -/
def schemes (candidate : Scheme UInt8 Checkpoint Sidecar) : Prop :=
  ∃ plan,makePlan norm embedding job=.ok plan ∧ candidate=scheme norm embedding job plan

/-- What is on disk for a job. -/
abbrev CacheKept : Disk → Prop := Kept (schemes norm embedding job)

/-- A part of a call keeps what is on disk, and raises with an excuse. -/
abbrev CacheHolds {α : Type} (failing excuse : Prop) (program : CacheProgram α) (post : α → Disk → Prop)
    (files : Disk) : Prop :=
  Holds (embedder norm embedding) CacheError.callFailed (CacheKept norm embedding job) failing excuse program post
    files

end Invariant

section Steps

variable {norm : Embedding → Single} {embedding : List Char → Embedding} {job : Job} {plan : Plan} {files after : Disk}
variable {failing excuse : Prop}

/-- The payload of some rows behind others. -/
theorem payload_append (first second : List Embedding) :
    payload (first++second)=payload first++payload second := by
  rw [payload,List.flatten_append,List.flatMap_append]
  rfl

/-- What was hashed is a beginning of the cache. -/
theorem Half.begins {completed : ℕ} {done : Text} (h : Half embedding job plan completed done) :
    plan.header++done<+:plan.target embedding job := by
  refine ⟨payload ((plan.rows embedding job).drop completed),?_⟩
  rw [h.done_eq,Plan.target,List.append_assoc,←payload_append,List.take_append_drop]

/-- At the end it is all of it. -/
theorem Half.whole {completed : ℕ} {done : Text} (h : Half embedding job plan completed done)
    (hplanned : Planned norm job plan) (hall : completed=job.lines.length) :
    plan.header++done=plan.target embedding job := by
  rw [h.done_eq,Plan.target,List.take_of_length_le]
  rw [hplanned.rows_length,hall]

/-- More rows. -/
theorem Half.more {completed : ℕ} {done : Text} (h : Half embedding job plan completed done)
    {texts rest : List (List Char)} (hlines : job.lines.drop completed=texts++rest)
    (hsize : ∀ row∈texts.map embedding,row.length=plan.dimension) :
    Half embedding job plan (completed+texts.length) (done++payload (texts.map embedding)) := by
  have hlength : texts.length+rest.length=job.lines.length-completed := by
    rw [←List.length_drop,hlines,List.length_append]
  have hle := h.completed_le
  refine ⟨h.seed_le.trans (Nat.le_add_right _ _),by omega,?_,?_⟩
  · rw [h.done_eq,←payload_append,List.take_add,rows_drop h.seed_le,hlines,List.map_append,List.take_left']
    exact List.length_map _
  · rw [List.length_append,h.length_eq,payload_length hsize,List.length_map,Nat.add_mul,Nat.add_mul]

/-- The layout is known, and what was hashed is on disk. -/
structure Under (norm : Embedding → Single) (embedding : List Char → Embedding) (job : Job) (plan : Plan)
    (progress : Progress) (files : Disk) : Prop where
  /-- The plan is that of the job. -/
  plan_eq : makePlan norm embedding job=.ok plan
  /-- The layout. -/
  layout_eq : progress.layout=some ⟨plan.dimension,plan.header.length⟩
  /-- The rows that were hashed. -/
  half : Half embedding job plan progress.completed progress.payloadDigest
  /-- The generation has a start. -/
  started_eq : progress.generationStartedAt.all GroundTruth.isSpace=false
  /-- What is on disk. -/
  files_eq : ∃ state,files=⟨some (plan.header++progress.payloadDigest),some state,none,none⟩ ∧
    Recorded embedding job plan state ∧ state.completedRows≤ progress.completed

/-- The layout is not known before the first answer. -/
structure Unknown (job : Job) (progress : Progress) (files : Disk) : Prop where
  /-- Nothing is on disk. -/
  files_eq : files=Files.empty
  /-- There is no layout. -/
  layout_eq : progress.layout=none
  /-- There are no rows. -/
  completed_eq : progress.completed=0
  /-- Nothing was hashed. -/
  payloadDigest_eq : progress.payloadDigest=[]
  /-- The generation has a start. -/
  started_eq : progress.generationStartedAt.all GroundTruth.isSpace=false
  /-- There is no cache to begin with. -/
  prefixCache_eq : job.prefixCache=none
  /-- No dimension was asked for. -/
  dimension_eq : job.dimension=none

/-- A call on its way. -/
def Going (norm : Embedding → Single) (embedding : List Char → Embedding) (job : Job) (progress : Progress)
    (files : Disk) : Prop :=
  (∃ plan,Under norm embedding job plan progress files) ∨ Unknown job progress files

/-- A checkpoint vouches for no more than its rows. -/
theorem Recorded.committed_le {state : Checkpoint} (h : Recorded embedding job plan state) {completed : ℕ}
    {done : Text} (half : Half embedding job plan completed done) (hle : state.completedRows≤ completed) :
    committedLength state≤(plan.header++done).length := by
  rw [committedLength,h.headerSize_eq,h.dimension_eq,List.length_append,half.length_eq]
  have hmul := Nat.mul_le_mul_right plan.dimension hle
  omega

/-- What is on disk then. -/
theorem Under.kept {progress : Progress} (h : Under norm embedding job plan progress files) :
    CacheKept norm embedding job files := by
  obtain ⟨state,hfiles,hrecorded,hle⟩ := h.files_eq
  refine .inr ⟨_,⟨plan,h.plan_eq,rfl⟩,?_⟩
  rw [hfiles]
  refine keptBy_written h.half.begins (fun state' hstate => ?_)
  rw [←Option.some.inj hstate]
  exact ⟨hrecorded,hrecorded.committed_le h.half hle⟩

/-- So it is in any case. -/
theorem Going.kept {progress : Progress} (h : Going norm embedding job progress files) :
    CacheKept norm embedding job files := by
  rcases h with ⟨plan,h⟩|h
  · exact h.kept
  · rw [h.files_eq]
    exact kept_empty

/-- The checkpoint behind some rows records them. -/
theorem running_recorded {progress : Progress} {completed : ℕ}
    (half : Half embedding job plan completed progress.payloadDigest)
    (hstarted : progress.generationStartedAt.all GroundTruth.isSpace=false) :
    Recorded embedding job plan (runningCheckpoint job progress ⟨plan.dimension,plan.header.length⟩ completed) where
  inputHash_eq := rfl
  createdAt_eq := hstarted
  dimension_eq := rfl
  headerSize_eq := rfl
  half := ⟨progress.payloadDigest,half,rfl⟩
  ready h := Status.noConfusion h

/-- A checkpoint behind some rows is written. -/
theorem writeRunning_holds {progress : Progress} {completed : ℕ} {bytes : Text} {checkpoint : Option Checkpoint}
    (hplan : makePlan norm embedding job=.ok plan)
    (half : Half embedding job plan completed progress.payloadDigest)
    (hstarted : progress.generationStartedAt.all GroundTruth.isSpace=false)
    (hbytes : bytes=plan.header++progress.payloadDigest)
    (recorded : ∀ state,checkpoint=some state →
      Recorded embedding job plan state ∧ committedLength state≤bytes.length) :
    CacheHolds norm embedding job failing excuse (request (.writeCheckpoint
      (runningCheckpoint job progress ⟨plan.dimension,plan.header.length⟩ completed)))
      (fun _ after => ∃ state,after=⟨some bytes,some state,none,none⟩ ∧ Recorded embedding job plan state ∧
        state.completedRows=completed) ⟨some bytes,checkpoint,none,none⟩ := by
  have hrecorded := running_recorded half hstarted
  have hbegins : bytes<+:plan.target embedding job := hbytes ▸ half.begins
  have hcovered := hrecorded.committed_le half (Nat.le_refl _)
  rw [←hbytes] at hcovered
  have hcommit : CacheHolds norm embedding job failing excuse (request (.writeCheckpoint
      (runningCheckpoint job progress ⟨plan.dimension,plan.header.length⟩ completed)))
      (fun _ after => after=⟨some bytes,some _,none,none⟩) ⟨some bytes,checkpoint,none,none⟩ :=
    commit_holds ⟨plan,hplan,rfl⟩ hbegins recorded hrecorded hcovered
  exact hcommit.mono (fun _ _ _ _ h => h) (fun _ _ h => h) (fun _ after h => ⟨_,h,hrecorded,rfl⟩)

/-- A partial file is begun when there is none. -/
theorem beginPartial_holds {progress : Progress} {dimension : ℤ}
    (hcompleted : progress.completed=0) (hdigest : progress.payloadDigest=[])
    (hstarted : progress.generationStartedAt.all GroundTruth.isSpace=false)
    (hplan : ∀ header,job.header dimension=.ok header →
      makePlan norm embedding job=.ok ⟨dimension.toNat,header,[]⟩)
    (succeeds : ¬excuse → ∃ header,job.header dimension=.ok header) :
    CacheHolds norm embedding job failing excuse (beginPartial job progress dimension)
      (fun progress' after => ∃ plan,Under norm embedding job plan progress' after ∧
        plan.dimension=dimension.toNat ∧ progress'.completed=0) Files.empty := by
  refine (computed_holds kept_empty succeeds).bind (fun header after h => ?_)
  obtain ⟨hheader,hafter⟩ := h
  have hmade := hplan header hheader
  have hhalf : Half embedding job ⟨dimension.toNat,header,[]⟩ progress.completed progress.payloadDigest := by
    rw [hcompleted,hdigest]
    exact ⟨Nat.le_refl _,Nat.zero_le _,rfl,by rw [Nat.zero_mul,Nat.zero_mul]; rfl⟩
  have hwritten : header=header++progress.payloadDigest := by rw [hdigest,List.append_nil]
  have hbegins : header<+:Plan.target embedding job ⟨dimension.toNat,header,[]⟩ := List.prefix_append _ _
  rw [hafter]
  refine Attempts.bind (create_holds ⟨_,hmade,rfl⟩ hbegins) (fun _ after hcreated => ?_)
  rw [hcreated]
  rw [hcompleted] at hhalf
  refine (writeRunning_holds hmade hhalf hstarted hwritten (fun _ h => absurd h
    (Option.some_ne_none _).symm)).bind (fun _ after h => ?_)
  obtain ⟨state,hfiles,hrecorded,hrows⟩ := h
  refine .pure ⟨_,⟨hmade,rfl,?_,hstarted,state,?_,hrecorded,?_⟩,rfl,hcompleted⟩
  · rw [hcompleted]
    exact hhalf
  · rw [hfiles]
    exact congrArg (fun bytes => (⟨some bytes,some state,none,none⟩ : Disk)) hwritten
  · rw [hrows]
    exact Nat.zero_le _

/-- The partial file is begun in front of the first rows. -/
theorem ensurePartial_holds {progress : Progress} {texts rest : List (List Char)} {matrix : List Embedding}
    (hgoing : Going norm embedding job progress files)
    (hlines : job.lines.drop progress.completed=texts++rest) (htexts : texts≠[])
    (hembedded : Embedded norm embedding ⟨texts,progress.layout.map Layout.dimension⟩ matrix)
    (hsane : ¬excuse → ∃ plan,Sane norm embedding job plan) :
    CacheHolds norm embedding job failing excuse (ensurePartial job progress (matrix.headD []).length)
      (fun progress' after => ∃ plan,Under norm embedding job plan progress' after ∧
        progress'.completed=progress.completed ∧ ∀ row∈matrix,row.length=plan.dimension) files := by
  unfold ensurePartial
  obtain ⟨width,hwidth,hrows,hexpected⟩ := hembedded.rows_valid
  rcases hgoing with ⟨plan,hunder⟩|hunknown
  · have hdimension : plan.dimension=width := hexpected _ (by rw [hunder.layout_eq]; rfl)
    rw [hunder.layout_eq]
    refine .pure ⟨plan,hunder,rfl,fun row hrow => ?_⟩
    rw [hdimension]
    exact (hrows row hrow).1
  · obtain ⟨text,behind,rfl⟩ := List.exists_cons_of_ne_nil htexts
    have hall : job.lines=text::(behind++rest) := by
      rw [hunknown.completed_eq] at hlines
      exact hlines
    have hfirst : (matrix.headD []).length=((job.lines.map embedding).headD []).length := by
      rw [hembedded.matrix_eq,hall]
      rfl
    have hhead : (matrix.headD []).length=width := by
      rw [hembedded.matrix_eq]
      refine (hrows _ ?_).1
      rw [hembedded.matrix_eq]
      exact List.mem_cons_self
    have hmade (header : Text) (hheader : job.header (matrix.headD []).length=.ok header) :
        makePlan norm embedding job=.ok ⟨(((matrix.headD []).length : ℕ) : ℤ).toNat,header,[]⟩ := by
      unfold makePlan
      rw [hunknown.prefixCache_eq]
      simp only [hunknown.dimension_eq,Option.getD_none,←hfirst,bind_eq_ok,pure_eq_ok]
      exact ⟨header,hheader,rfl⟩
    rw [hunknown.layout_eq,hunknown.files_eq]
    refine (beginPartial_holds hunknown.completed_eq hunknown.payloadDigest_eq hunknown.started_eq hmade
      (fun hexcuse => ?_)).mono (fun _ _ _ _ h => h) (fun _ _ h => h) (fun progress' after h => ?_)
    · obtain ⟨plan,hplan⟩ := hsane hexcuse
      have hheader := (makePlan_planned hplan.plan_eq).header_eq
      have hsame : plan.dimension=(matrix.headD []).length := by
        rw [hfirst,hall]
        exact ((hplan.rows_valid text (by rw [hall]; exact List.mem_cons_self)).1).symm
      rw [hsame] at hheader
      exact ⟨plan.header,hheader⟩
    · obtain ⟨plan,hunder,hdimension,hcompleted⟩ := h
      rw [Int.toNat_natCast,hhead] at hdimension
      refine ⟨plan,hunder,hcompleted.trans hunknown.completed_eq.symm,fun row hrow => ?_⟩
      rw [hdimension]
      exact (hrows row hrow).1

/-- The rows of a batch are appended, and a checkpoint vouches for them. -/
theorem appendBatch_holds {progress : Progress} {texts rest : List (List Char)} {matrix : List Embedding}
    (hgoing : Going norm embedding job progress files)
    (hlines : job.lines.drop progress.completed=texts++rest) (htexts : texts≠[])
    (hembedded : Embedded norm embedding ⟨texts,progress.layout.map Layout.dimension⟩ matrix)
    (hsane : ¬excuse → ∃ plan,Sane norm embedding job plan) :
    CacheHolds norm embedding job failing excuse (appendBatch job progress texts matrix)
      (fun progress' after => (∃ plan,Under norm embedding job plan progress' after) ∧
        job.lines.drop progress'.completed=rest) files := by
  refine (ensurePartial_holds hgoing hlines htexts hembedded hsane).bind (fun progress' after h => ?_)
  obtain ⟨plan,hunder,hcompleted,hwidth⟩ := h
  obtain ⟨state,hfiles,hrecorded,hle⟩ := hunder.files_eq
  rw [←hcompleted] at hlines
  have hmatrix := hembedded.matrix_eq
  have hmore := hunder.half.more hlines (hmatrix ▸ hwidth)
  dsimp only at hmatrix
  rw [←hmatrix] at hmore
  have hcovered := hrecorded.committed_le hunder.half hle
  rw [hunder.layout_eq]
  have hbegins : plan.header++progress'.payloadDigest++payload matrix<+:plan.target embedding job := by
    rw [List.append_assoc]
    exact hmore.begins
  have happend : CacheHolds norm embedding job failing excuse (request (.appendPartial (payload matrix)))
      (fun _ after => after=⟨some (plan.header++progress'.payloadDigest++payload matrix),some state,none,none⟩)
      after := by
    rw [hfiles]
    exact append_holds ⟨plan,hunder.plan_eq,rfl⟩ hbegins hrecorded hcovered
  refine happend.bind (fun _ after h => ?_)
  rw [h]
  have hbytes : plan.header++progress'.payloadDigest++payload matrix=
      plan.header++(progress'.payloadDigest++payload matrix) := List.append_assoc _ _ _
  refine Attempts.bind (writeRunning_holds hunder.plan_eq hmore hunder.started_eq hbytes
    (fun state' hstate => ?_)) (fun _ after h => ?_)
  · rw [←Option.some.inj hstate]
    exact ⟨hrecorded,hcovered.trans (List.prefix_append _ _).length_le⟩
  · obtain ⟨state',hfiles',hrecorded',hrows⟩ := h
    refine .pure ⟨⟨plan,hunder.plan_eq,rfl,hmore,hunder.started_eq,state',?_,hrecorded',hrows.le⟩,?_⟩
    · rw [hfiles',hbytes]
    · change job.lines.drop (progress'.completed+texts.length)=rest
      rw [←List.drop_drop,hlines,List.drop_left]

end Steps

section Loops

variable {norm : Embedding → Single} {embedding : List Char → Embedding} {job : Job} {files : Disk}
variable {failing excuse : Prop}

/-- The batches are the lines that are left, and none of them is empty. -/
theorem iterBatches_spec (batchSize : ℤ) (batch lines : List (List Char)) :
    (iterBatches batchSize batch lines).flatten=batch++lines ∧ ∀ texts∈iterBatches batchSize batch lines,texts≠[] := by
  induction lines generalizing batch with
  | nil =>
    rw [iterBatches]
    split
    · rename_i h
      rw [h]
      exact ⟨rfl,fun texts ht => absurd ht List.not_mem_nil⟩
    · rename_i h
      refine ⟨by rw [List.flatten_singleton,List.append_nil],fun texts ht => ?_⟩
      rw [List.mem_singleton.mp ht]
      exact h
  | cons line lines ih =>
    rw [iterBatches]
    split
    · obtain ⟨hflatten,hne⟩ := ih []
      refine ⟨?_,fun texts ht => ?_⟩
      · rw [List.flatten_cons,hflatten,List.nil_append,List.append_assoc]
        rfl
      · rcases List.mem_cons.mp ht with rfl|ht
        · exact List.append_ne_nil_of_right_ne_nil _ (List.cons_ne_nil _ _)
        · exact hne texts ht
    · obtain ⟨hflatten,hne⟩ := ih (batch++[line])
      refine ⟨?_,hne⟩
      rw [hflatten,List.append_assoc]
      rfl

/-- All lines are embedded. -/
def Through (norm : Embedding → Single) (embedding : List Char → Embedding) (job : Job)
    (progress : Progress) (files : Disk) : Prop :=
  Going norm embedding job progress files ∧ job.lines.drop progress.completed=[]

/-- The client answers a request for lines that are left. -/
theorem willing_lines {progress : Progress} {texts rest : List (List Char)}
    (hgoing : Going norm embedding job progress files)
    (hlines : job.lines.drop progress.completed=texts++rest)
    (hsane : ¬excuse → ∃ plan,Sane norm embedding job plan) (hexcuse : ¬excuse) :
    Embedded norm embedding ⟨texts,progress.layout.map Layout.dimension⟩ (texts.map embedding) := by
  obtain ⟨plan,hplan⟩ := hsane hexcuse
  have hpos := (makePlan_planned hplan.plan_eq).dimension_pos
  refine ⟨rfl,plan.dimension,hpos,fun row hrow => ?_,fun dimension hdimension => ?_⟩
  · obtain ⟨line,hline,rfl⟩ := List.mem_map.mp hrow
    refine hplan.rows_valid line (List.mem_of_mem_drop (i := progress.completed) ?_)
    rw [hlines]
    exact List.mem_append_left _ hline
  · rcases hgoing with ⟨plan',hunder⟩|hunknown
    · have hsame : plan'=plan := Except.ok.inj (hunder.plan_eq.symm.trans hplan.plan_eq)
      rw [hunder.layout_eq,hsame] at hdimension
      exact (Option.some.inj hdimension).symm
    · rw [hunknown.layout_eq] at hdimension
      exact absurd hdimension (Option.some_ne_none _).symm

/-- One request at a time. -/
theorem embedSequentially_holds {batches : List (List (List Char))} {progress : Progress}
    (hgoing : Going norm embedding job progress files)
    (hlines : job.lines.drop progress.completed=batches.flatten) (hne : ∀ texts∈batches,texts≠[])
    (hsane : ¬excuse → ∃ plan,Sane norm embedding job plan) :
    CacheHolds norm embedding job failing excuse (embedSequentially job batches progress)
      (Through norm embedding job) files := by
  induction batches generalizing progress files with
  | nil => exact .pure ⟨hgoing,hlines⟩
  | cons texts batches ih =>
    obtain ⟨htexts,hrest⟩ := List.forall_mem_cons.mp hne
    have hnext : job.lines.drop progress.completed=texts++batches.flatten := by
      rw [hlines,List.flatten_cons]
    have hembed : CacheHolds norm embedding job failing excuse
        (consult (.embed ⟨texts,progress.layout.map Layout.dimension⟩)) (fun matrix after => after=files ∧
          Embedded norm embedding ⟨texts,progress.layout.map Layout.dimension⟩ matrix) files :=
      quiet_holds trivial (fun hexcuse => willing_lines hgoing hnext hsane hexcuse) hgoing.kept (fun matrix h => ⟨rfl,h⟩)
    refine hembed.bind (fun matrix after h => ?_)
    rw [h.1]
    refine (appendBatch_holds hgoing hnext htexts h.2 hsane).bind (fun progress' after h => ?_)
    exact ih (.inl h.1) h.2 hrest

/-- Cancelling leaves everything as it is. -/
theorem cancelAll_holds {pending : List Future} {failure : CacheError}
    (h : Raises (CacheKept norm embedding job) failing excuse failure files) :
    Attempts (surroundings (embedder norm embedding) CacheError.callFailed failing) (Keeping ClientOp.Reply CacheError (CacheKept norm embedding job))
      (fun _ => Raises (CacheKept norm embedding job) failing excuse failure) (cancelAll pending)
      (fun _ => Raises (CacheKept norm embedding job) failing excuse failure) files := by
  induction pending with
  | nil => exact .pure h
  | cons future pending ih =>
    have hcancel : CacheHolds norm embedding job failing excuse (consult (.cancel future))
        (fun _ after => after=files) files := quiet_holds trivial (fun _ => trivial) h.1 (fun _ _ => rfl)
    refine Attempts.bind (hcancel.mono (fun _ _ _ _ h => h) (fun _ _ h => h) (fun _ _ h => h))
      (fun _ after hafter => ?_)
    rw [hafter]
    exact ih

/-- The requests under way expect the known dimension, and the other batches follow them. -/
structure Ahead (norm : Embedding → Single) (embedding : List Char → Embedding) (job : Job)
    (batches : List (List (List Char))) (pending : List Future) (progress : Progress) (files : Disk) : Prop where
  /-- The layout is known. -/
  under : ∃ plan,Under norm embedding job plan progress files
  /-- The lines that are left, in order. -/
  lines_eq : job.lines.drop progress.completed=pending.flatMap Future.texts++batches.flatten
  /-- The requests. -/
  pending_valid : ∀ future∈pending,future.texts≠[] ∧
    future.expectedDimension=progress.layout.map Layout.dimension
  /-- The batches. -/
  batches_valid : ∀ texts∈batches,texts≠[]

/-- The oldest request is consumed. -/
theorem consumeFirst_holds {batches : List (List (List Char))} {future : Future} {pending : List Future}
    {progress : Progress} (h : Ahead norm embedding job batches (future::pending) progress files)
    (hsane : ¬excuse → ∃ plan,Sane norm embedding job plan) :
    CacheHolds norm embedding job failing excuse (consumeFirst job progress future pending)
      (Ahead norm embedding job batches pending) files := by
  obtain ⟨plan,hunder⟩ := h.under
  obtain ⟨⟨htexts,hexpected⟩,hpending⟩ := List.forall_mem_cons.mp h.pending_valid
  have hlines := h.lines_eq
  rw [List.flatMap_cons,List.append_assoc] at hlines
  refine Attempts.cleaning ?_ (fun failure after hraised => cancelAll_holds hraised)
  have hfuture : future=⟨future.texts,progress.layout.map Layout.dimension⟩ := by rw [←hexpected]
  have willing : ¬excuse → Willing (embedder norm embedding) (.other (.result future) : CacheOp) := by
    intro hexcuse
    change Embedded norm embedding future (future.texts.map embedding)
    rw [hfuture]
    exact willing_lines (.inl ⟨plan,hunder⟩) hlines hsane hexcuse
  have hresult : CacheHolds norm embedding job failing excuse (consult (.result future)) (fun matrix after =>
      after=files ∧ Embedded norm embedding future matrix) files :=
    quiet_holds trivial willing hunder.kept (fun matrix h => ⟨rfl,h⟩)
  refine hresult.bind (fun matrix after hmatrix => ?_)
  obtain ⟨hafter,hembedded⟩ := hmatrix
  rw [hafter]
  rw [hfuture] at hembedded
  refine (appendBatch_holds (.inl ⟨plan,hunder⟩) hlines htexts hembedded hsane).mono (fun _ _ _ _ h => h)
    (fun _ _ h => h) (fun progress' after h' => ?_)
  obtain ⟨⟨plan',hunder'⟩,hrest⟩ := h'
  have hsame : plan'=plan := Except.ok.inj (hunder'.plan_eq.symm.trans hunder.plan_eq)
  have hlayout : progress'.layout=progress.layout := by
    rw [hunder'.layout_eq,hunder.layout_eq,hsame]
  refine ⟨⟨plan',hunder'⟩,hrest,fun other hother => ?_,h.batches_valid⟩
  rw [hlayout]
  exact hpending other hother

/-- The requests under way in the end are consumed. -/
theorem drainPending_holds {pending : List Future} {progress : Progress}
    (h : Ahead norm embedding job [] pending progress files)
    (hsane : ¬excuse → ∃ plan,Sane norm embedding job plan) :
    CacheHolds norm embedding job failing excuse (drainPending job pending progress)
      (Through norm embedding job) files := by
  induction pending generalizing progress files with
  | nil => exact .pure ⟨.inl h.under,h.lines_eq⟩
  | cons future pending ih =>
    exact (consumeFirst_holds h hsane).bind (fun progress' after h => ih h)

/-- Several requests at a time. -/
theorem embedAhead_holds {concurrency : ℤ} {batches : List (List (List Char))} {pending : List Future}
    {progress : Progress} (h : Ahead norm embedding job batches pending progress files)
    (hsane : ¬excuse → ∃ plan,Sane norm embedding job plan) :
    CacheHolds norm embedding job failing excuse (embedAhead job concurrency batches pending progress)
      (Through norm embedding job) files := by
  induction batches generalizing pending progress files with
  | nil => exact drainPending_holds h hsane
  | cons texts batches ih =>
    obtain ⟨plan,hunder⟩ := h.under
    obtain ⟨htexts,hbatches⟩ := List.forall_mem_cons.mp h.batches_valid
    have hsubmitted : Ahead norm embedding job batches (pending++[⟨texts,progress.layout.map Layout.dimension⟩])
        progress files := by
      refine ⟨⟨plan,hunder⟩,?_,fun future hfuture => ?_,hbatches⟩
      · rw [h.lines_eq,List.flatMap_append,List.append_assoc,List.flatten_cons,List.flatMap_singleton]
      · rcases List.mem_append.mp hfuture with hfuture|hfuture
        · exact h.pending_valid future hfuture
        · rw [List.mem_singleton.mp hfuture]
          exact ⟨htexts,rfl⟩
    have hsubmit : CacheHolds norm embedding job failing excuse (cleaning
        (consult (.submit ⟨texts,progress.layout.map Layout.dimension⟩)) (cancelAll pending))
        (fun _ after => after=files) files :=
      Attempts.cleaning (quiet_holds trivial (fun _ => trivial) hunder.kept (fun _ _ => rfl))
        (fun failure after hraised => cancelAll_holds hraised)
    refine hsubmit.bind (fun _ after hafter => ?_)
    rw [hafter]
    cases hpending : pending++[⟨texts,progress.layout.map Layout.dimension⟩] with
    | nil => exact absurd hpending (List.append_ne_nil_of_right_ne_nil _ (List.cons_ne_nil _ _))
    | cons first rest =>
      rw [hpending] at hsubmitted
      dsimp only
      split
      · exact (consumeFirst_holds hsubmitted hsane).bind (fun progress' after h => ih h)
      · exact ih hsubmitted

/-- All batches that are left. -/
theorem embedRest_holds {concurrency : ℤ} {progress : Progress}
    (hgoing : Going norm embedding job progress files)
    (hsane : ¬excuse → ∃ plan,Sane norm embedding job plan) :
    CacheHolds norm embedding job failing excuse (embedRest job concurrency progress)
      (Through norm embedding job) files := by
  obtain ⟨hflatten,hne⟩ := iterBatches_spec job.batchSize [] (job.lines.drop progress.completed)
  rw [List.nil_append] at hflatten
  unfold embedRest
  by_cases hone : (if progress.layout=none then 1 else concurrency)≤1
  · dsimp only
    rw [if_pos hone]
    exact embedSequentially_holds hgoing hflatten.symm hne hsane
  · dsimp only
    rw [if_neg hone]
    rcases hgoing with hunder|hunknown
    · refine embedAhead_holds ⟨hunder,?_,fun future hf => absurd hf List.not_mem_nil,hne⟩ hsane
      rw [List.flatMap_nil,List.nil_append]
      exact hflatten.symm
    · rw [if_pos hunknown.layout_eq] at hone
      exact absurd (le_refl 1) hone

end Loops

section Calls

variable {norm : Embedding → Single} {embedding : List Char → Embedding} {job : Job} {plan : Plan} {files : Disk}
variable {failing excuse : Prop}

/-- A checkpoint vouches for the header and its rows. -/
theorem Recorded.committed_eq {state : Checkpoint} (h : Recorded embedding job plan state) {done : Text}
    (half : Half embedding job plan state.completedRows done) : committedLength state=(plan.header++done).length := by
  rw [committedLength,h.headerSize_eq,h.dimension_eq,List.length_append,half.length_eq]

/-- Such rows are on disk. -/
theorem committed_half {bytes done : Text} {state : Checkpoint} (hby : KeptBy (scheme norm embedding job plan) files)
    (hwritten : files.partialFile=some bytes) (hstate : files.checkpoint=some state)
    (half : Half embedding job plan state.completedRows done) :
    bytes.take (committedLength state)=plan.header++done := by
  have hrecorded : Recorded embedding job plan state := hby.recorded state hstate
  have hlog : (files.log committedLength).committed=some (committedLength state) := by
    rw [Files.log,hstate]
    rfl
  have hcommitted : bytes.take (committedLength state)=(plan.target embedding job).take (committedLength state) :=
    hby.sound.committed_eq hwritten hlog
  obtain ⟨behind,hbehind⟩ := half.begins
  rw [hcommitted,hrecorded.committed_eq half,←hbehind,List.take_left]

/-- A checkpoint behind all rows vouches for the whole cache. -/
theorem Recorded.committed_whole {state : Checkpoint} (h : Recorded embedding job plan state)
    (hplanned : Planned norm job plan) (hall : state.completedRows=job.lines.length) :
    committedLength state=(plan.target embedding job).length := by
  obtain ⟨done,half,-⟩ := h.half
  rw [←half.whole hplanned hall,h.committed_eq half]

/-- The checkpoint behind all rows records the whole cache. -/
theorem ready_recorded {progress : Progress} (h : Under norm embedding job plan progress files)
    (hall : progress.completed=job.lines.length) :
    Recorded embedding job plan (readyCheckpoint job progress ⟨plan.dimension,plan.header.length⟩
      (sha256File (plan.target embedding job))) where
  inputHash_eq := rfl
  createdAt_eq := h.started_eq
  dimension_eq := rfl
  headerSize_eq := rfl
  half := ⟨progress.payloadDigest,h.half,rfl⟩
  ready _ := ⟨hall,rfl⟩

/-- A cache is read and checked. -/
theorem checkedCache_holds {bytes : Text} (kept : CacheKept norm embedding job files)
    (succeeds : ¬excuse → ∃ rows metadata,readCache norm bytes=.ok (rows,metadata) ∧
      validateCacheSource metadata job.source=.ok ()) :
    CacheHolds norm embedding job failing excuse (checkedCache norm job bytes) (fun metadata after => after=files ∧
      ∃ rows,readCache norm bytes=.ok (rows,metadata) ∧ validateCacheSource metadata job.source=.ok ()) files := by
  unfold checkedCache
  have hread : ¬excuse → ∃ result,readCache norm bytes=.ok result := by
    intro hexcuse
    obtain ⟨rows,metadata,hread,-⟩ := succeeds hexcuse
    exact ⟨_,hread⟩
  refine (computed_holds kept hread).bind (fun result after h => ?_)
  obtain ⟨⟨rows,metadata⟩,hresult⟩ : ∃ found,result=found := ⟨_,rfl⟩
  rw [hresult] at h ⊢
  rw [h.2]
  have hsource : ¬excuse → ∃ value,validateCacheSource metadata job.source=.ok value := by
    intro hexcuse
    obtain ⟨rows',metadata',hread',hvalid⟩ := succeeds hexcuse
    have hsame := Except.ok.inj (h.1.symm.trans hread')
    rw [(Prod.mk.inj hsame).2]
    exact ⟨(),hvalid⟩
  refine (computed_holds kept hsource).bind (fun value after h' => ?_)
  rw [h'.2]
  exact .pure ⟨rfl,rows,h.1,h'.1⟩

/-- The whole of a partial file becomes the cache. -/
theorem publishCache_holds {progress : Progress} (hthrough : Through norm embedding job progress files)
    (hne : job.lines≠[]) (hsane : ¬excuse → ∃ plan,Sane norm embedding job plan) :
    CacheHolds norm embedding job failing excuse (publishCache norm job progress) (Published (schemes norm embedding job))
      files := by
  obtain ⟨hgoing,hend⟩ := hthrough
  rcases hgoing with ⟨plan,hunder⟩|hunknown
  swap
  · rw [hunknown.completed_eq] at hend
    exact absurd hend hne
  have hplanned := makePlan_planned hunder.plan_eq
  have hall : progress.completed=job.lines.length :=
    le_antisymm hunder.half.completed_le (List.drop_eq_nil_iff.mp hend)
  obtain ⟨state,hfiles,hrecorded,hle⟩ := hunder.files_eq
  have htarget := hunder.half.whole hplanned hall
  have hkept := hunder.kept
  rw [htarget] at hfiles
  have hvalid : ¬excuse → ∃ rows metadata,readCache norm (plan.target embedding job)=.ok (rows,metadata) ∧
      validateCacheSource metadata job.source=.ok () := by
    intro hexcuse
    obtain ⟨plan',hplan'⟩ := hsane hexcuse
    have hsame : plan'=plan := Except.ok.inj (hplan'.plan_eq.symm.trans hunder.plan_eq)
    rw [hsame] at hplan'
    exact ⟨_,_,hplan'.readable,(validateCacheSource_ok _ _ _).mpr ⟨hplanned.rows_length,rfl⟩⟩
  unfold publishCache
  rw [hunder.layout_eq]
  refine (raiseIf_holds hkept (fun h => absurd (hall.trans lines_length.symm) h)).bind (fun _ after h => ?_)
  rw [h.2]
  refine readBack_holds hkept (by rw [hfiles]) ?_
  refine (checkedCache_holds hkept hvalid).bind (fun metadata after h => ?_)
  obtain ⟨hafter,rows,hchecked⟩ := h
  rw [hafter]
  have hready := ready_recorded hunder hall
  have hwhole := hready.committed_whole hplanned hall
  have hstatus : (readyCheckpoint job progress ⟨plan.dimension,plan.header.length⟩
      (sha256File (plan.target embedding job))).status=.readyToPublish := rfl
  dsimp only
  generalize readyCheckpoint job progress ⟨plan.dimension,plan.header.length⟩
    (sha256File (plan.target embedding job))=ready at hready hwhole hstatus ⊢
  have hscheme : schemes norm embedding job (scheme norm embedding job plan) := ⟨plan,hunder.plan_eq,rfl⟩
  have hplaced : CacheKept norm embedding job ⟨none,some ready,some (plan.target embedding job),none⟩ :=
    .inr ⟨_,hscheme,keptBy_published (fun state' hstate => Option.some.inj hstate ▸ ⟨hready,hwhole⟩)
      (fun _ h => absurd h (Option.some_ne_none _).symm) ⟨rows,metadata,hchecked⟩ (.inr ⟨_,rfl,hstatus⟩)⟩
  have hcommit : CacheHolds norm embedding job failing excuse (request (.writeCheckpoint ready)) (fun _ after =>
      after=⟨some (plan.target embedding job),some ready,none,none⟩) files := by
    rw [hfiles]
    refine commit_holds hscheme (List.prefix_refl _) (fun before hbefore => ?_) hready hwhole.le
    rw [←Option.some.inj hbefore,←htarget]
    exact ⟨hrecorded,hrecorded.committed_le hunder.half hle⟩
  have hreplace : CacheHolds norm embedding job failing excuse (request .replaceOutput) (fun _ after =>
      after=⟨none,some ready,some (plan.target embedding job),none⟩)
      ⟨some (plan.target embedding job),some ready,none,none⟩ :=
    replace_holds hscheme hready hwhole hstatus ⟨rows,metadata,hchecked⟩
  have hreread : CacheHolds norm embedding job failing excuse (request .readOutput) (fun bytes after =>
      bytes=some (plan.target embedding job) ∧ after=⟨none,some ready,some (plan.target embedding job),none⟩)
      ⟨none,some ready,some (plan.target embedding job),none⟩ :=
    quiet_holds trivial (fun _ => trivial) hplaced (fun bytes h => ⟨h,rfl⟩)
  refine hcommit.bind (fun _ after h => ?_)
  rw [h]
  refine hreplace.bind (fun _ after h => ?_)
  rw [h]
  refine hreread.bind (fun bytes after h => ?_)
  rw [h.2]
  refine Attempts.bind (present_holds h.1) (fun bytes after h => ?_)
  rw [h.1,h.2]
  refine (checkedCache_holds hplaced (fun _ => ⟨rows,metadata,hchecked⟩)).bind (fun cache after h => ?_)
  rw [h.1]
  exact declare_holds hscheme hready hwhole hstatus ⟨rows,metadata,hchecked⟩ ⟨rfl,rfl,rfl,rfl,rfl,rfl⟩

/-- A cache that is there is found to be complete. -/
theorem validateExistingCache_holds {bytes : Text} (kept : CacheKept norm embedding job files)
    (hcache : files.output=some bytes) (hsane : ¬excuse → ∃ plan,Sane norm embedding job plan) :
    CacheHolds norm embedding job failing excuse (validateExistingCache norm job bytes) (Published (schemes norm embedding job))
      files := by
  have hkept := kept
  rcases kept with hempty|⟨_,⟨plan,hplan,rfl⟩,hby⟩
  · rw [hempty] at hcache
    exact absurd hcache (Option.some_ne_none _).symm
  have hthere : files.output≠none := by rw [hcache]; exact Option.some_ne_none _
  have hbytes : bytes=plan.target embedding job := hby.sound.output_eq bytes hcache
  obtain ⟨rows,metadata,hread,hsource⟩ := hby.checked hthere
  have hbegun : files.partialFile=none := hby.sound.alone hthere
  have hnamed : ¬excuse → metadata.fingerprint=job.fingerprint := by
    intro hexcuse
    obtain ⟨plan',hplan'⟩ := hsane hexcuse
    have hsame : plan'=plan := Except.ok.inj (hplan'.plan_eq.symm.trans hplan)
    have hreadable := hplan'.readable
    rw [hsame,hread] at hreadable
    rw [(Prod.mk.inj (Except.ok.inj hreadable)).2]
    rfl
  rw [hbytes]
  unfold validateExistingCache
  refine (checkedCache_holds hkept (fun _ => ⟨rows,metadata,hread,hsource⟩)).bind (fun found after h => ?_)
  obtain ⟨hafter,rows',hread',hsource'⟩ := h
  have hfound : found=metadata := (Prod.mk.inj (Except.ok.inj (hread'.symm.trans hread))).2
  rw [hafter,hfound]
  refine (raiseIf_holds hkept (fun h => by_contra (fun hexcuse => h (hnamed hexcuse)))).bind (fun _ after h => ?_)
  rw [h.2]
  have hsidecar : CacheHolds norm embedding job failing excuse (request .readSidecar) (fun sidecar after =>
      sidecar=files.sidecar ∧ after=files) files := quiet_holds trivial (fun _ => trivial) hkept (fun _ h => ⟨h,rfl⟩)
  refine hsidecar.bind (fun sidecar after h => ?_)
  rw [h.1,h.2]
  have hsha : metadata.source.map Prod.snd=some (sourceIdentity job.source).sha256 := by
    rw [((validateCacheSource_ok _ _ _).mp hsource).2]
    rfl
  cases hdeclared : files.sidecar with
  | some declared =>
    have hdeclares := (hby.declares declared hdeclared).2
    have hpasses : checkSidecar job metadata (plan.target embedding job) declared=.ok () := by
      simp only [checkSidecar,bind_eq_ok,raiseWhen_ok,ne_eq,not_not]
      exact ⟨(),hdeclares.schema_eq,(),hdeclares.role_eq,(),hdeclares.modelSha256_eq,(),hdeclares.bindings_eq,(),
        hdeclares.cacheSha256_eq,by rw [hdeclares.sourceSha256_eq,hsha]⟩
    refine (computed_holds hkept (fun _ => ⟨(),hpasses⟩)).bind (fun _ after h => ?_)
    rw [h.2]
    exact .pure ⟨hkept,_,⟨plan,hplan,rfl⟩,by rw [hcache,hbytes]; rfl,hbegun,hdeclared,hdeclares⟩
  | none =>
    obtain ⟨state,hstate,hstatus⟩ : ∃ state,files.checkpoint=some state ∧ state.status=.readyToPublish :=
      hby.undeclared hthere hdeclared
    have hrecorded := hby.recorded state hstate
    obtain ⟨hall,hpublishes⟩ := hrecorded.ready hstatus
    have hcheckpoint : CacheHolds norm embedding job failing excuse (request .readCheckpoint) (fun checkpoint after =>
        checkpoint=some state ∧ after=files) files := quiet_holds trivial (fun _ => trivial) hkept (fun _ h => ⟨h.trans hstate,rfl⟩)
    have hpasses : checkPublication job (plan.target embedding job) state=.ok () := by
      simp only [checkPublication,bind_eq_ok,raiseWhen_ok,ne_eq,not_not]
      exact ⟨(),hstatus,(),hrecorded.inputHash_eq,hpublishes⟩
    have hfiles : files=⟨none,some state,some (plan.target embedding job),none⟩ := by
      rw [←hbegun,←hstate,←hbytes,←hcache,←hdeclared]
    refine hcheckpoint.bind (fun checkpoint after h => ?_)
    rw [h.1,h.2]
    refine (computed_holds hkept (fun _ => ⟨(),hpasses⟩)).bind (fun _ after h => ?_)
    rw [h.2,hfiles]
    exact declare_holds ⟨plan,hplan,rfl⟩ hrecorded (hrecorded.committed_whole (makePlan_planned hplan) hall) hstatus
      ⟨rows,metadata,hread,hsource⟩ ⟨rfl,rfl,rfl,rfl,rfl,rfl⟩

/-- A call begins with the rows of a smaller cache. -/
theorem seedPartial_holds {prefixFiles : PrefixFiles} {startedAt : List Char}
    (hgiven : job.prefixCache=some prefixFiles) (hstarted : startedAt.all GroundTruth.isSpace=false)
    (hsane : ¬excuse → ∃ plan,Sane norm embedding job plan) :
    CacheHolds norm embedding job failing excuse (seedPartial norm job prefixFiles startedAt)
      (fun progress after => ∃ plan,Under norm embedding job plan progress after) Files.empty := by
  have hmade : makePlan norm embedding job=(do
      let metadata ← checkPrefix norm job prefixFiles
      let header ← job.header metadata.dimensions
      return ⟨metadata.dimensions,header,prefixMatrix prefixFiles metadata⟩) := by
    rw [makePlan,hgiven]
  have hchecks : ¬excuse → ∃ metadata header,checkPrefix norm job prefixFiles=.ok metadata ∧
      job.header metadata.dimensions=.ok header := by
    intro hexcuse
    obtain ⟨plan,hplan⟩ := hsane hexcuse
    have hok := hplan.plan_eq
    rw [hmade] at hok
    simp only [bind_eq_ok] at hok
    obtain ⟨metadata,hmetadata,header,hheader,-⟩ := hok
    exact ⟨metadata,header,hmetadata,hheader⟩
  refine (computed_holds kept_empty (fun hexcuse => ?_)).bind (fun metadata after h => ?_)
  · obtain ⟨metadata,-,hmetadata,-⟩ := hchecks hexcuse
    exact ⟨metadata,hmetadata⟩
  obtain ⟨hmetadata,hafter⟩ := h
  rw [hafter]
  refine (computed_holds kept_empty (fun hexcuse => ?_)).bind (fun header after h => ?_)
  · obtain ⟨metadata',header,hmetadata',hheader⟩ := hchecks hexcuse
    rw [Except.ok.inj (hmetadata.symm.trans hmetadata')]
    exact ⟨header,hheader⟩
  obtain ⟨hheader,hafter⟩ := h
  rw [hafter]
  have hplan : makePlan norm embedding job=
      .ok ⟨metadata.dimensions,header,prefixMatrix prefixFiles metadata⟩ := by
    rw [hmade]
    simp only [bind_eq_ok,pure_eq_ok]
    exact ⟨metadata,hmetadata,header,hheader,rfl⟩
  have haccepted := checkPrefix_accepted hmetadata
  obtain ⟨hcopied,hcount,-,-,hvalid⟩ := haccepted.rows
  have hhalf : Half embedding job ⟨metadata.dimensions,header,prefixMatrix prefixFiles metadata⟩ metadata.count
      (prefixRows prefixFiles metadata) := by
    refine ⟨hcount.le,haccepted.count_lt.le,?_,?_⟩
    · rw [hcopied,Plan.rows,List.take_left' hcount]
    · rw [hcopied,payload_length (fun row hrow => (hvalid row hrow).1),hcount]
  refine Attempts.bind (create_holds ⟨_,hplan,rfl⟩ hhalf.begins) (fun _ after hcreated => ?_)
  rw [hcreated]
  refine Attempts.bind (writeRunning_holds hplan hhalf hstarted rfl (fun _ h => absurd h
    (Option.some_ne_none _).symm)) (fun _ after h => ?_)
  obtain ⟨state,hfiles,hrecorded,hrows⟩ := h
  exact .pure ⟨_,hplan,rfl,hhalf,hstarted,state,hfiles,hrecorded,hrows.le⟩

/-- A call that finds nothing. -/
theorem beginFresh_holds {startedAt : List Char} (hstarted : startedAt.all GroundTruth.isSpace=false)
    (hsane : ¬excuse → ∃ plan,Sane norm embedding job plan) :
    CacheHolds norm embedding job failing excuse (beginFresh norm job startedAt) (Going norm embedding job)
      Files.empty := by
  unfold beginFresh
  cases hgiven : job.prefixCache with
  | some prefixFiles =>
    exact (seedPartial_holds hgiven hstarted hsane).mono (fun _ _ _ _ h => h) (fun _ _ h => h)
      (fun _ _ h => .inl h)
  | none =>
    dsimp only
    cases hdimension : job.dimension with
    | none => exact .pure (.inr ⟨rfl,rfl,rfl,rfl,hstarted,hgiven,hdimension⟩)
    | some dimension =>
      have hmade (header : Text) (hheader : job.header dimension=.ok header) :
          makePlan norm embedding job=.ok ⟨dimension.toNat,header,[]⟩ := by
        unfold makePlan
        rw [hgiven]
        simp only [hdimension,Option.getD_some,bind_eq_ok,pure_eq_ok]
        exact ⟨header,hheader,rfl⟩
      refine (beginPartial_holds rfl rfl hstarted hmade (fun hexcuse => ?_)).mono (fun _ _ _ _ h => h)
        (fun _ _ h => h) (fun _ _ h => ?_)
      · obtain ⟨plan,hplan⟩ := hsane hexcuse
        have hok := hplan.plan_eq
        unfold makePlan at hok
        rw [hgiven] at hok
        simp only [hdimension,Option.getD_some,bind_eq_ok] at hok
        obtain ⟨header,hheader,-⟩ := hok
        exact ⟨header,hheader⟩
      · obtain ⟨plan,hunder,-⟩ := h
        exact .inl ⟨plan,hunder⟩

/-- A call that finds a partial file and its checkpoint goes on behind the rows
that the checkpoint vouches for. -/
theorem resume_holds {state : Checkpoint} {bytes : Text} (hplan : makePlan norm embedding job=.ok plan)
    (hby : KeptBy (scheme norm embedding job plan) files) (hfiles : files=⟨some bytes,some state,none,none⟩) :
    CacheHolds norm embedding job failing excuse (resume job state bytes) (Going norm embedding job) files := by
  have hkept : CacheKept norm embedding job files := .inr ⟨_,⟨plan,hplan,rfl⟩,hby⟩
  rw [hfiles] at hby
  have hrecorded := hby.recorded state rfl
  obtain ⟨done,half,hsha⟩ := hrecorded.half
  have hcovered : committedLength state≤bytes.length := hby.sound.covered bytes _ rfl rfl
  have hfront : bytes.take (committedLength state)=plan.header++done := committed_half hby rfl rfl half
  have hrows : (bytes.drop state.headerSize).take (state.completedRows*state.dimension*4)=done := by
    have hcut : (bytes.take (committedLength state)).drop state.headerSize=done := by
      rw [hfront,hrecorded.headerSize_eq,List.drop_left]
    rw [←hcut,committedLength,List.drop_take,Nat.add_sub_cancel_left]
  have hcreated : ∃ value,checkpointCreatedAt state=.ok value := by
    simp only [checkpointCreatedAt,bind_eq_ok,raiseWhen_ok,pure_eq_ok]
    exact ⟨state.createdAt,(),by rw [hrecorded.createdAt_eq]; exact Bool.false_ne_true,rfl⟩
  unfold resume
  refine (raiseIf_holds hkept (fun h => absurd hrecorded.inputHash_eq h)).bind (fun _ after h => ?_)
  rw [h.2]
  refine (computed_holds hkept (fun _ => hcreated)).bind (fun startedAt after h => ?_)
  obtain ⟨hstarted,hafter⟩ := h
  have hstart : startedAt=state.createdAt := by
    simp only [checkpointCreatedAt,bind_eq_ok,raiseWhen_ok,pure_eq_ok] at hstarted
    obtain ⟨_,-,h⟩ := hstarted
    exact h
  rw [hafter]
  refine (raiseIf_holds hkept (fun h => absurd hcovered (Nat.not_le_of_gt h))).bind (fun _ after h => ?_)
  rw [h.2]
  refine (raiseIf_holds hkept (fun h => absurd (hrows ▸ hsha.symm) h)).bind (fun _ after h => ?_)
  rw [h.2]
  have hlevel : CacheKept norm embedding job ⟨some (plan.header++done),some state,none,none⟩ := by
    refine .inr ⟨_,⟨plan,hplan,rfl⟩,keptBy_written half.begins (fun state' hstate => ?_)⟩
    rw [←Option.some.inj hstate]
    exact ⟨hrecorded,(hrecorded.committed_eq half).le⟩
  have htruncate : CacheHolds norm embedding job failing excuse (truncateTo bytes.length (committedLength state))
      (fun _ after => after=⟨some (plan.header++done),some state,none,none⟩) files := by
    rw [hfiles,←hfront]
    exact truncateTo_holds ⟨plan,hplan,rfl⟩ (hby.sound.begins bytes rfl) hrecorded hcovered
  refine htruncate.bind (fun _ after h => ?_)
  rw [h]
  refine readBack_holds hlevel rfl ?_
  have hdone : (plan.header++done).drop state.headerSize=done := by
    rw [hrecorded.headerSize_eq,List.drop_left]
  refine .pure (.inl ⟨plan,hplan,?_,?_,?_,state,?_,hrecorded,Nat.le_refl _⟩)
  · rw [hrecorded.dimension_eq,hrecorded.headerSize_eq]
  · dsimp only
    rw [hdone]
    exact half
  · rw [hstart]
    exact hrecorded.createdAt_eq
  · dsimp only
    rw [hdone]

/-- Where a call begins. -/
theorem beginProgress_holds {startedAt : List Char} (hkept : CacheKept norm embedding job files)
    (hcache : files.output=none) (hstarted : startedAt.all GroundTruth.isSpace=false)
    (hsane : ¬excuse → ∃ plan,Sane norm embedding job plan) (hstuck : Stuck files → excuse) :
    CacheHolds norm embedding job failing excuse
      (beginProgress norm job startedAt files.checkpoint files.partialFile) (Going norm embedding job) files := by
  rcases hkept.unpublished hcache with hempty|⟨_,bytes,state,⟨plan,hplan,rfl⟩,hfiles,hby⟩|hunvouched
  · rw [hempty]
    exact beginFresh_holds hstarted hsane
  · rw [hfiles] at hby ⊢
    exact resume_holds hplan hby rfl
  · obtain ⟨bytes,hbytes⟩ := Option.ne_none_iff_exists'.mp hunvouched.1
    rw [hbytes,hunvouched.2]
    exact throw_holds hkept (hstuck hunvouched)

/-- What a call keeps, and how it ends. -/
theorem generateCache_holds {concurrency : ℤ} (hkept : CacheKept norm embedding job files)
    (hsane : ¬excuse → ∃ plan,Sane norm embedding job plan) (hstuck : Stuck files → excuse) :
    CacheHolds norm embedding job failing excuse (generateCache norm job concurrency) (Published (schemes norm embedding job))
      files := by
  unfold generateCache
  have hlines : (sourceIdentity job.source).nonemptyLines≤0 → excuse := by
    intro hnone
    by_contra hexcuse
    obtain ⟨plan,hplan⟩ := hsane hexcuse
    exact hplan.lines_ne (List.length_eq_zero_iff.mp (Nat.le_zero.mp hnone))
  refine (raiseIf_holds hkept hlines).bind (fun _ after h => ?_)
  have hne : job.lines≠[] := by
    intro hnil
    refine h.1 ?_
    rw [lines_length,hnil]
    exact Nat.le_refl 0
  rw [h.2]
  have hcache : CacheHolds norm embedding job failing excuse (request .readOutput) (fun cache after =>
      cache=files.output ∧ after=files) files := quiet_holds trivial (fun _ => trivial) hkept (fun _ h => ⟨h,rfl⟩)
  refine hcache.bind (fun cache after h => ?_)
  rw [h.1,h.2]
  cases hfound : files.output with
  | some bytes => exact validateExistingCache_holds hkept hfound hsane
  | none =>
    have hnow : CacheHolds norm embedding job failing excuse (consult .utcNow) (fun now after =>
        List.all now GroundTruth.isSpace=false ∧ after=files) files :=
      quiet_holds trivial (fun _ => trivial) hkept (fun _ h => ⟨h,rfl⟩)
    have hcheckpoint : CacheHolds norm embedding job failing excuse (request .readCheckpoint) (fun checkpoint after =>
        checkpoint=files.checkpoint ∧ after=files) files := quiet_holds trivial (fun _ => trivial) hkept (fun _ h => ⟨h,rfl⟩)
    have hbegun : CacheHolds norm embedding job failing excuse (request .readPartial) (fun found after =>
        found=files.partialFile ∧ after=files) files := quiet_holds trivial (fun _ => trivial) hkept (fun _ h => ⟨h,rfl⟩)
    refine hnow.bind (fun startedAt after h => ?_)
    obtain ⟨hstarted,hafter⟩ := h
    rw [hafter]
    refine hcheckpoint.bind (fun checkpoint after h => ?_)
    rw [h.1,h.2]
    refine hbegun.bind (fun partialFile after h => ?_)
    rw [h.1,h.2]
    exact (beginProgress_holds hkept hfound hstarted hsane hstuck).bind (fun progress after hgoing =>
      (embedRest_holds hgoing hsane).bind (fun progress after hthrough => publishCache_holds hthrough hne hsane))

end Calls

end Leann.CacheResumption
