import Leann.CacheResumption

/-!
# What any history of cache generations comes to

Whatever happened to the calls before, a cache that is there is the whole
cache, and nobody takes it away. A later call completes it unless a call was
killed between the partial file and its first checkpoint, and then none ever
does.
-/

namespace Leann.CacheRestart

open Effects RaisingPrograms StagedFiles CacheFiles CacheGeneration CacheResumption EmbeddingCache
open CacheServing Lines BinaryFloat
open Exceptions (Text)
open Embeddings (Embedding)

/-- What is left of a call. -/
abbrev CacheCall := Remaining UInt8 Checkpoint Sidecar ClientOp.Reply CacheError Sidecar

/-- The calls of a client that may fail, and of programs that may be killed. -/
abbrev CacheRun (norm : Embedding → Single) (embedding : List Char → Embedding) (job : Job) (concurrency : ℤ)
    (files after : Disk) (rest : CacheCall) : Prop :=
  Run (surroundings (embedder norm embedding) CacheError.callFailed True)
    (files,(calls norm job concurrency).run) (after,rest)

/-- What is on disk when calls take place one after the other, each with as many
requests at a time as it likes, and each failing or killed anywhere or not at all. -/
abbrev CacheReachable (norm : Embedding → Single) (embedding : List Char → Embedding) (job : Job) : Disk → Prop :=
  Reachable (embedder norm embedding) CacheError.callFailed (calls norm job)

section Histories

variable {norm : Embedding → Single} {embedding : List Char → Embedding} {job : Job} {files after : Disk}

/-- A call keeps what is on disk, whatever fails. -/
theorem calls_hold {concurrency : ℤ} (hkept : CacheKept norm embedding job files) :
    CacheHolds norm embedding job True True (calls norm job concurrency) (Published (schemes norm embedding job))
      files :=
  generateCache_holds hkept (fun h => absurd trivial h) (fun _ => trivial)

/-- So do many calls. -/
theorem reachable_kept (reached : CacheReachable norm embedding job files) : CacheKept norm embedding job files :=
  kept_of_reachable kept_empty (fun _ _ hkept => calls_hold hkept) reached

/-- Without a cache to begin with there is one row for every line. -/
theorem rows_unseeded {plan : Plan} (hplan : makePlan norm embedding job=.ok plan) (hgiven : job.prefixCache=none) :
    plan.rows embedding job=job.lines.map embedding := by
  simp only [makePlan,hgiven,Exceptions.bind_eq_ok,Exceptions.pure_eq_ok] at hplan
  obtain ⟨header,-,rfl⟩ := hplan
  rfl

/-- Whatever happened to the calls before, a cache consists of its header and of
one row for every line in order, a checkpoint vouches for a beginning of it, no
call takes a cache away, and a call that returns has published all of it. -/
theorem generation_exact (norm : Embedding → Single) (embedding : List Char → Embedding) (job : Job) (files : Disk)
    (reached : CacheReachable norm embedding job files) :
    (∀ bytes,files.output=some bytes → ∃ plan,makePlan norm embedding job=.ok plan ∧
      bytes=plan.header++payload (plan.rows embedding job) ∧
        (job.prefixCache=none → plan.rows embedding job=job.lines.map embedding)) ∧
    (∀ bytes state,files.partialFile=some bytes → files.checkpoint=some state →
      ∃ plan,makePlan norm embedding job=.ok plan ∧ bytes<+:plan.target embedding job ∧
        bytes.take (state.headerSize+state.completedRows*state.dimension*4)=
          plan.header++payload ((plan.rows embedding job).take state.completedRows)) ∧
    ∀ (concurrency : ℤ) (after : Disk) (rest : CacheCall),CacheRun norm embedding job concurrency files after rest →
        (∀ bytes,files.output=some bytes → after.output=some bytes) ∧
        ∀ declared,rest=.done (.ok declared) → ∃ plan,makePlan norm embedding job=.ok plan ∧
          after.output=some (plan.target embedding job) ∧ after.sidecar=some declared ∧
            Declares embedding job plan declared := by
  have hkept := reachable_kept reached
  refine ⟨fun bytes hcache => ?_,fun bytes state hwritten hcheckpoint => ?_,fun concurrency after rest path =>
    ⟨fun bytes hcache => (calls_hold hkept).run_output hkept hcache path,fun declared hdone => ?_⟩⟩
  · rcases hkept with rfl|⟨_,⟨plan,hplan,rfl⟩,hby⟩
    · exact absurd hcache (Option.some_ne_none _).symm
    · exact ⟨plan,hplan,hby.sound.output_eq bytes hcache,rows_unseeded hplan⟩
  · rcases hkept with rfl|⟨_,⟨plan,hplan,rfl⟩,hby⟩
    · exact absurd hwritten (Option.some_ne_none _).symm
    · have hrecorded : Recorded embedding job plan state := hby.recorded state hcheckpoint
      obtain ⟨done,half,-⟩ := hrecorded.half
      refine ⟨plan,hplan,hby.sound.begins bytes hwritten,?_⟩
      rw [←half.done_eq]
      exact committed_half hby hwritten hcheckpoint half
  · have hrest := ((calls_hold hkept).run_kept hkept path).2
    rw [hdone] at hrest
    obtain ⟨-,_,⟨plan,hplan,rfl⟩,hcache,-,hsidecar,hdeclares⟩ := hrest after rfl
    exact ⟨plan,hplan,hcache,hsidecar,hdeclares⟩

end Histories

section Restarts

variable {norm : Embedding → Single} {embedding : List Char → Embedding} {job : Job} {files after : Disk}

/-- How a call leaves everything that nothing disturbs. -/
structure Whole (embedding : List Char → Embedding) (job : Job) (plan : Plan) (declared : Sidecar) (files : Disk) :
    Prop where
  /-- The whole cache is there. -/
  output_eq : files.output=some (plan.target embedding job)
  /-- The partial file is gone. -/
  partialFile_eq : files.partialFile=none
  /-- The cache has its sidecar. -/
  sidecar_eq : files.sidecar=some declared
  /-- It declares the cache. -/
  declares : Declares embedding job plan declared

/-- A call that finds no stuck file completes the cache. -/
theorem completes_of_kept {plan : Plan} (sane : Sane norm embedding job plan)
    (hkept : CacheKept norm embedding job files) (hstuck : ¬Stuck files) (concurrency : ℤ) :
    Completes (embedder norm embedding) CacheError.callFailed (calls norm job concurrency)
      (Whole embedding job plan) files := by
  have hholds : CacheHolds norm embedding job False False (calls norm job concurrency)
      (Published (schemes norm embedding job)) files :=
    generateCache_holds hkept (fun _ => ⟨plan,sane⟩) hstuck
  obtain ⟨finishes,returns⟩ := hholds.completes
  refine ⟨finishes,fun after result path => ?_⟩
  obtain ⟨declared,hresult,-,_,⟨plan',hplan',rfl⟩,hcache,hbegun,hsidecar,hdeclares⟩ := returns after result path
  have hsame : plan'=plan := Except.ok.inj (hplan'.symm.trans sane.plan_eq)
  rw [hsame] at hcache hdeclares
  exact ⟨declared,hresult,hcache,hbegun,hsidecar,hdeclares⟩

/-- A call that finds a stuck file raises, and leaves everything as it is. -/
theorem stuck_refuses {concurrency : ℤ} (hkept : CacheKept norm embedding job files) (hstuck : Stuck files) :
    Refuses (embedder norm embedding) CacheError.callFailed (calls norm job concurrency) files := by
  have hcache : files.output=none := by
    by_contra hthere
    exact hstuck.1 (alone_of_kept hkept hthere)
  obtain ⟨bytes,hbytes⟩ := Option.ne_none_iff_exists'.mp hstuck.1
  unfold calls generateCache
  refine raiseIf_refuses (Quiet.refuses trivial (fun cache h => ?_))
  have hnone : cache=none := h.trans hcache
  rw [hnone]
  refine Quiet.refuses trivial (fun _ _ => Quiet.refuses trivial (fun checkpoint h => ?_))
  have hunvouched : checkpoint=none := h.trans hstuck.2
  rw [hunvouched]
  refine Quiet.refuses trivial (fun found h => ?_)
  have hfound : found=some bytes := h.trans hbytes
  rw [hfound]
  exact .throw rfl

/-- Whatever happened to the calls before, an undisturbed call completes the
cache unless there is a partial file without a checkpoint. Then every call
raises and leaves that as it is. -/
theorem generation_restarts (norm : Embedding → Single) (embedding : List Char → Embedding) (job : Job) (plan : Plan)
    (sane : Sane norm embedding job plan) (files : Disk) (reached : CacheReachable norm embedding job files) :
    (¬Stuck files → ∀ concurrency,Completes (embedder norm embedding) CacheError.callFailed
      (calls norm job concurrency) (Whole embedding job plan) files) ∧
    (Stuck files → ∀ (concurrency : ℤ) (after : Disk) (rest : CacheCall),
      CacheRun norm embedding job concurrency files after rest →
        after=files ∧ ∀ declared,rest≠.done (.ok declared)) := by
  have hkept := reachable_kept reached
  exact ⟨fun hstuck concurrency => completes_of_kept sane hkept hstuck concurrency,
    fun hstuck concurrency after rest path => (stuck_refuses hkept hstuck).run path⟩

/-- One line of a source. -/
def lineJob : Job where
  source := ['a','\n']
  fingerprint := ['m']
  modelSha256 := []
  role := "corpus"
  bindings := []
  batchSize := 16
  dimension := some 1
  prefixCache := none
  inputHash := []

/-- The norm of a row with one value. -/
def lineNorm (row : Embedding) : Single := (row.headD 0).abs

/-- The row of every text. -/
def lineRow (_ : List Char) : Embedding := [1]

/-- The row is valid. -/
theorem lineRow_valid : RowValid lineNorm true (lineRow []) := by
  refine ⟨fun value hvalue => ?_,?_,fun _ => ?_⟩
  · rw [List.mem_singleton.mp hvalue]
    exact single_one.1
  · decide +kernel
  · decide +kernel

/-- There is a header. -/
theorem exists_lineHeader : ∃ header,lineJob.header 1=.ok header := by
  have hlength : (sourceIdentity lineJob.source).nonemptyLines=1 := by decide
  have hsize : (sourceIdentity lineJob.source).sizeBytes=2 := by decide
  have hpacked : Packable 1 1 2 lineJob.fingerprint (Checksum.digest (encodeText lineJob.source)).toList := by
    refine ⟨by decide,by decide,by decide,by decide,?_⟩
    exact Vector.length_toList
  have hheader := (cacheV2Header_ok 1 1 2 lineJob.fingerprint (Checksum.digest (encodeText lineJob.source)).toList
    _).mpr ⟨hpacked,rfl⟩
  have hfound := (@header_ok lineJob 1 _).mpr (by rw [hlength,hsize]; exact hheader)
  exact ⟨_,hfound⟩

/-- The arguments are accepted. -/
theorem exists_linePlan : ∃ plan,Sane lineNorm lineRow lineJob plan := by
  obtain ⟨header,hheader⟩ := exists_lineHeader
  refine ⟨⟨1,header,[]⟩,by decide,?_,fun line _ => ⟨rfl,lineRow_valid⟩⟩
  have hplan : makePlan lineNorm lineRow lineJob=(do
      let header ← lineJob.header 1
      return ⟨1,header,[]⟩) := rfl
  rw [hplan,hheader]
  rfl

/-- A part of a call takes its first step within it. -/
theorem bound_step {failing : Prop} {op : CacheOp} {answer : Except CacheError (op.Result ClientOp.Reply)} {α β : Type}
    {next : Except CacheError (op.Result ClientOp.Reply) →
      Remaining UInt8 Checkpoint Sidecar ClientOp.Reply CacheError α}
    {first : CacheProgram α} (hfirst : first.run=.call op next) (back : α → CacheProgram β)
    (done : surroundings (embedder norm embedding) CacheError.callFailed failing op files answer after) :
    ∃ rest,Step (surroundings (embedder norm embedding) CacheError.callFailed failing)
      (files,(first >>= back).run) (after,rest) := by
  have hbind : (first >>= back).run=first.run.bind (ExceptT.bindCont back) := rfl
  rw [hbind,hfirst]
  exact ⟨_,.call done⟩

/-- A call that is killed behind its header leaves a stuck file. -/
theorem exists_lineStuck : ∃ files,CacheReachable lineNorm lineRow lineJob files ∧ Stuck files := by
  obtain ⟨header,hheader⟩ := exists_lineHeader
  have hnow : List.all ['1'] GroundTruth.isSpace=false := by decide
  have hbegins : ∀ progress,∃ next,(beginPartial lineJob progress 1).run=.call (.createPartial header) next := by
    intro progress
    rw [beginPartial,hheader]
    exact ⟨_,rfl⟩
  let E : Environment CacheOp (fun op => Except CacheError (op.Result ClientOp.Reply)) Disk :=
    surroundings (embedder lineNorm lineRow) CacheError.callFailed True
  have hcreates : E (.createPartial header) .empty (.ok ()) ⟨some header,none,none,none⟩ := ⟨rfl,trivial,rfl⟩
  obtain ⟨next,hnext⟩ := hbegins ⟨none,0,[],none,['1']⟩
  obtain ⟨rest,hlast⟩ := bound_step hnext (fun progress => do
    let progress ← embedRest lineJob 1 progress
    publishCache lineNorm lineJob progress) hcreates
  refine ⟨_,.call .first (.head (@Step.call _ _ _ _ E .readOutput _ .empty _ (.ok none) ⟨trivial,rfl,rfl⟩)
    (.head (@Step.call _ _ _ _ E (.other .utcNow) _ .empty _ (.ok ['1']) ⟨trivial,hnow,rfl⟩)
    (.head (@Step.call _ _ _ _ E .readCheckpoint _ .empty _ (.ok none) ⟨trivial,rfl,rfl⟩)
    (.head (@Step.call _ _ _ _ E .readPartial _ .empty _ (.ok none) ⟨trivial,rfl,rfl⟩)
    (.single hlast))))),Option.some_ne_none _,rfl⟩

/-- A call completes the cache of one line, and one that was killed at the
wrong time does not let any other do so. -/
theorem line_restarts : ∃ plan,Sane lineNorm lineRow lineJob plan ∧
    Completes (embedder lineNorm lineRow) CacheError.callFailed (calls lineNorm lineJob 4)
      (Whole lineRow lineJob plan) .empty ∧
    ∃ files,CacheReachable lineNorm lineRow lineJob files ∧ ∀ (after : Disk) (rest : CacheCall),
      CacheRun lineNorm lineRow lineJob 4 files after rest →
        after=files ∧ ∀ declared,rest≠.done (.ok declared) := by
  obtain ⟨plan,sane⟩ := exists_linePlan
  obtain ⟨files,reached,hstuck⟩ := exists_lineStuck
  exact ⟨plan,sane,(generation_restarts lineNorm lineRow lineJob plan sane .empty .first).1 (fun h => h.1 rfl) 4,
    files,reached,(generation_restarts lineNorm lineRow lineJob plan sane files reached).2 hstuck 4⟩

/-- The cache of one line is there behind a call, and it is its header and one row. -/
theorem line_exact : ∃ files bytes header,CacheReachable lineNorm lineRow lineJob files ∧ files.output=some bytes ∧
    bytes=header++payload [[1]] := by
  obtain ⟨plan,sane⟩ := exists_linePlan
  obtain ⟨finishes,returns⟩ := completes_of_kept sane kept_empty (fun h => h.1 rfl) 4
  obtain ⟨after,result,path⟩ := finishes
  obtain ⟨declared,rfl,hwhole⟩ := returns after result path
  have reached : CacheReachable lineNorm lineRow lineJob after := .call .first (run_undisturbed path)
  obtain ⟨plan',-,hbytes,hrows⟩ := (generation_exact lineNorm lineRow lineJob after reached).1 _ hwhole.output_eq
  refine ⟨after,_,plan'.header,reached,hwhole.output_eq,?_⟩
  rw [hbytes,hrows rfl]
  rfl

end Restarts

end Leann.CacheRestart
