import Leann.CacheRestart
import Leann.TruthResumption

/-!
# What any history of ground truth generations comes to

Whatever happened to the calls before, a ground truth that is there has the
nearest documents of every query, and nobody takes it away. A later call
completes it unless a call was killed between the partial file and its first
checkpoint, and then none ever does.
-/

namespace Leann.TruthRestart

open Effects RaisingPrograms StagedFiles CacheFiles CacheGeneration CacheResumption CacheRestart EmbeddingCache
open BlockwiseTopK TruthGeneration TruthFiles TruthResumption Lines BinaryFloat
open PythonValues (raiseWhen_ok)
open Exceptions (Text bind_eq_ok pure_eq_ok)
open Embeddings (Embedding)
open GroundTruth (isSpace Truth)

/-- What is left of a call. -/
abbrev TruthCall := Remaining UInt8 TruthCheckpoint TruthSidecar ClockOp.Reply TruthError TruthSidecar

/-- The calls of a program that may fail or be killed. -/
abbrev TruthRun {σ : Type} [LinearOrder σ] (argpartition : List σ → ℕ → List ℕ) (norm : Embedding → Single)
    (score : Embedding → Embedding → σ) (job : TruthJob) (files after : TruthDisk) (rest : TruthCall) : Prop :=
  Run (surroundings clock TruthError.callFailed True)
    (files,(generateTruth argpartition score norm job).run) (after,rest)

/-- What is on disk when calls take place one after the other, each failing or
killed anywhere or not at all. -/
abbrev TruthReachable {σ : Type} [LinearOrder σ] (argpartition : List σ → ℕ → List ℕ) (norm : Embedding → Single)
    (score : Embedding → Embedding → σ) (job : TruthJob) : TruthDisk → Prop :=
  Reachable clock TruthError.callFailed (fun _ : Unit => generateTruth argpartition score norm job)

/-- The ids of the documents of any such job can be told apart. -/
def Fits (norm : Embedding → Single) (job : TruthJob) : Prop :=
  ∀ vectors,checkArguments norm job=.ok vectors → vectors.corpus.length≤2^32

section Histories

variable {σ : Type} [LinearOrder σ] {argpartition : List σ → ℕ → List ℕ} {norm : Embedding → Single}
variable {score : Embedding → Embedding → σ} {job : TruthJob} {vectors : TruthVectors} {files after : TruthDisk}

/-- A call keeps what is on disk, whatever fails. -/
theorem truth_holds (hpartition : Partitions argpartition) (hfits : Fits norm job)
    (hkept : Kept (truthSchemes norm score job) files) :
    TruthHolds norm score job True True (generateTruth argpartition score norm job)
      (Published (truthSchemes norm score job)) files :=
  generateTruth_holds hpartition hfits hkept (fun h => absurd trivial h) (fun _ => trivial)

/-- So do many calls. -/
theorem truth_kept (hpartition : Partitions argpartition) (hfits : Fits norm job)
    (reached : TruthReachable argpartition norm score job files) : Kept (truthSchemes norm score job) files :=
  kept_of_reachable kept_empty (fun _ _ hkept => truth_holds hpartition hfits hkept) reached

/-- Whatever happened to the calls before, a ground truth has the nearest
documents of every query in order and can be read, a checkpoint vouches for a
beginning of it, no call takes a ground truth away, and a call that returns has
published all of it. -/
theorem truth_exact {σ : Type} [LinearOrder σ] (argpartition : List σ → ℕ → List ℕ) (norm : Embedding → Single)
    (score : Embedding → Embedding → σ) (job : TruthJob) (files : TruthDisk) (hpartition : Partitions argpartition)
    (hfits : Fits norm job) (reached : TruthReachable argpartition norm score job files) :
    (∀ bytes,files.output=some bytes → ∃ vectors,checkArguments norm job=.ok vectors ∧
      bytes=truthBytes (job.header vectors) (vectors.queries.map (nearest score job vectors)) ∧
        ∃ truth,readTruth job vectors job.output bytes=.ok truth) ∧
    (∀ bytes state,files.partialFile=some bytes → files.checkpoint=some state →
      ∃ vectors,checkArguments norm job=.ok vectors ∧ bytes<+:truthTarget score job vectors ∧
        bytes.take (state.committedLengthBytes.getD 0)=truthFront score job vectors state.completedQueries) ∧
    ∀ (after : TruthDisk) (rest : TruthCall),TruthRun argpartition norm score job files after rest →
      (∀ bytes,files.output=some bytes → after.output=some bytes) ∧
      ∀ declared,rest=.done (.ok declared) → ∃ vectors,checkArguments norm job=.ok vectors ∧
        after.output=some (truthTarget score job vectors) ∧ after.sidecar=some declared ∧
          TruthDeclares score job vectors declared := by
  have hkept := truth_kept hpartition hfits reached
  have hholds := truth_holds hpartition hfits hkept
  refine ⟨fun bytes houtput => ?_,fun bytes state hwritten hcheckpoint => ?_,fun after rest path =>
    ⟨fun bytes houtput => hholds.run_output hkept houtput path,fun declared hdone => ?_⟩⟩
  · rcases hkept with hempty|⟨_,⟨vectors,harguments,rfl⟩,hby⟩
    · rw [hempty] at houtput
      exact absurd houtput (Option.some_ne_none _).symm
    · have hbytes : bytes=truthTarget score job vectors := hby.sound.output_eq bytes houtput
      have hthere : files.output≠none := by rw [houtput]; exact Option.some_ne_none _
      refine ⟨vectors,harguments,hbytes,?_⟩
      rw [hbytes]
      exact hby.checked hthere
  · rcases hkept with hempty|⟨_,⟨vectors,harguments,rfl⟩,hby⟩
    · rw [hempty] at hwritten
      exact absurd hwritten (Option.some_ne_none _).symm
    · exact ⟨vectors,harguments,hby.sound.begins bytes hwritten,committed_front hby hwritten hcheckpoint⟩
  · have hrest := (hholds.run_kept hkept path).2
    rw [hdone] at hrest
    obtain ⟨-,_,⟨vectors,harguments,rfl⟩,houtput,-,hsidecar,hdeclares⟩ := hrest after rfl
    exact ⟨vectors,harguments,houtput,hsidecar,hdeclares⟩

end Histories

section Restarts

variable {σ : Type} [LinearOrder σ] {argpartition : List σ → ℕ → List ℕ} {norm : Embedding → Single}
variable {score : Embedding → Embedding → σ} {job : TruthJob} {vectors : TruthVectors} {files after : TruthDisk}

/-- How a call leaves everything that nothing disturbs. -/
structure TruthWhole (score : Embedding → Embedding → σ) (job : TruthJob) (vectors : TruthVectors)
    (declared : TruthSidecar) (files : TruthDisk) : Prop where
  /-- The whole ground truth is there. -/
  output_eq : files.output=some (truthTarget score job vectors)
  /-- The partial file is gone. -/
  partialFile_eq : files.partialFile=none
  /-- The ground truth has its sidecar. -/
  sidecar_eq : files.sidecar=some declared
  /-- It declares the ground truth. -/
  declares : TruthDeclares score job vectors declared

/-- A call that finds no stuck file completes the ground truth. -/
theorem truth_completes (hpartition : Partitions argpartition) (hfits : Fits norm job)
    (sane : TruthSane norm job vectors) (hkept : Kept (truthSchemes norm score job) files) (hstuck : ¬Stuck files) :
    Completes clock TruthError.callFailed (generateTruth argpartition score norm job)
      (TruthWhole score job vectors) files := by
  have hholds : TruthHolds norm score job False False (generateTruth argpartition score norm job)
      (Published (truthSchemes norm score job)) files :=
    generateTruth_holds hpartition hfits hkept (fun _ => ⟨vectors,sane⟩) hstuck
  obtain ⟨finishes,returns⟩ := hholds.completes
  refine ⟨finishes,fun after result path => ?_⟩
  obtain ⟨declared,hresult,-,_,⟨vectors',hvectors,rfl⟩,houtput,hbegun,hsidecar,hdeclares⟩ :=
    returns after result path
  have hsame : vectors'=vectors := Except.ok.inj (hvectors.symm.trans sane.arguments_eq)
  rw [hsame] at houtput hdeclares
  exact ⟨declared,hresult,houtput,hbegun,hsidecar,hdeclares⟩

/-- A call that finds a stuck file raises, and leaves everything as it is. -/
theorem truth_refuses (hkept : Kept (truthSchemes norm score job) files) (hstuck : Stuck files) :
    Refuses clock TruthError.callFailed (generateTruth argpartition score norm job) files := by
  have houtput : files.output=none := by
    by_contra hthere
    exact hstuck.1 (alone_of_kept hkept hthere)
  obtain ⟨bytes,hbytes⟩ := Option.ne_none_iff_exists'.mp hstuck.1
  unfold generateTruth
  refine computed_refuses (fun vectors _ => Quiet.refuses trivial (fun output h => ?_))
  have hnone : output=none := h.trans houtput
  rw [hnone]
  refine Quiet.refuses trivial (fun _ _ => Quiet.refuses trivial (fun checkpoint h => ?_))
  have hunvouched : checkpoint=none := h.trans hstuck.2
  rw [hunvouched]
  refine Quiet.refuses trivial (fun found h => ?_)
  have hfound : found=some bytes := h.trans hbytes
  rw [hfound]
  exact .throw rfl

/-- Whatever happened to the calls before, an undisturbed call completes the
ground truth unless there is a partial file without a checkpoint. Then every
call raises and leaves that as it is. -/
theorem truth_restarts {σ : Type} [LinearOrder σ] (argpartition : List σ → ℕ → List ℕ) (norm : Embedding → Single)
    (score : Embedding → Embedding → σ) (job : TruthJob) (vectors : TruthVectors) (files : TruthDisk)
    (hpartition : Partitions argpartition) (hfits : Fits norm job) (sane : TruthSane norm job vectors)
    (reached : TruthReachable argpartition norm score job files) :
    (¬Stuck files → Completes clock TruthError.callFailed (generateTruth argpartition score norm job)
      (TruthWhole score job vectors) files) ∧
    (Stuck files → ∀ (after : TruthDisk) (rest : TruthCall),TruthRun argpartition norm score job files after rest →
      after=files ∧ ∀ declared,rest≠.done (.ok declared)) := by
  have hkept := truth_kept hpartition hfits reached
  exact ⟨fun hstuck => truth_completes hpartition hfits sane hkept hstuck,
    fun hstuck after rest path => (truth_refuses hkept hstuck).run path⟩

/-- The sidecar of a cache of one line. -/
def lineSidecar (bindings : List (String×String)) : Sidecar where
  schema := cacheMetaSchema
  role := "query"
  cache := boundMetadata [] 1 1 ['m'] ['a','\n']
  cacheSha256 := []
  sourceSha256 := []
  modelSha256 := []
  bindings := bindings
  generation := none

/-- A query that is its own corpus. -/
def lineTruth (cache : Text) : TruthJob where
  corpusCache := cache
  corpusSidecar := some (lineSidecar [])
  queryCache := cache
  querySidecar := some (lineSidecar [("corpus_cache_sha256",String.ofList (sha256File cache))])
  documents := lineJob.source
  queries := lineJob.source
  output := "truth.txt"
  topK := 1
  queryBlockRows := 1
  corpusBlockRows := 1
  inputHash := []

/-- All documents are equally far. -/
def lineScore (_ _ : Embedding) : ℕ := 0

/-- The arguments are accepted. -/
theorem exists_lineTruth : ∃ cache vectors,TruthSane lineNorm (lineTruth cache) vectors ∧
    Fits lineNorm (lineTruth cache) := by
  obtain ⟨plan,sane⟩ := exists_linePlan
  have hread := sane.readable
  have hlength : (plan.rows lineRow lineJob).length=1 := (makePlan_planned sane.plan_eq).rows_length
  have hsource : validateCacheSource (boundMetadata plan.header plan.dimension (plan.rows lineRow lineJob).length
      lineJob.fingerprint lineJob.source) lineJob.source=.ok () :=
    (validateCacheSource_ok _ _ _).mpr ⟨hlength,rfl⟩
  have htop : ¬((1 : ℤ)≤0 ∨ (1 : ℤ)>(plan.rows lineRow lineJob).length) := by
    rw [hlength]
    decide
  have hbound : (some (String.ofList (sha256File (plan.target lineRow lineJob)))).map String.toList=
      some (sha256File (plan.target lineRow lineJob)) := congrArg some String.toList_ofList
  have harguments : checkArguments lineNorm (lineTruth (plan.target lineRow lineJob))=
      .ok ⟨plan.rows lineRow lineJob,plan.rows lineRow lineJob⟩ := by
    simp only [checkArguments,bind_eq_ok,ofCache_ok,raiseWhen_ok,pure_eq_ok,Prod.exists,ne_eq,not_not]
    exact ⟨_,_,hread,_,_,hread,(),hsource,(),hsource,(),rfl,(),rfl,(),htop,_,rfl,_,rfl,(),rfl,(),hbound,rfl⟩
  refine ⟨plan.target lineRow lineJob,_,⟨harguments,Int.one_pos,Int.one_pos⟩,fun vectors hvectors => ?_⟩
  rw [←Except.ok.inj (harguments.symm.trans hvectors),hlength]
  decide

/-- A call that is killed behind its header leaves a stuck file. -/
theorem exists_truthStuck {norm : Embedding → Single} {job : TruthJob} {vectors : TruthVectors}
    (harguments : checkArguments norm job=.ok vectors) :
    ∃ files,TruthReachable argpartition norm score job files ∧ Stuck files := by
  have hnow : List.all ['1'] isSpace=false := by decide
  let header := encodeText (job.header vectors++['\n'])
  let E : Environment (StagedOp UInt8 TruthCheckpoint TruthSidecar ClockOp)
      (fun op => Except TruthError (op.Result ClockOp.Reply)) TruthDisk := surroundings clock TruthError.callFailed True
  have path : ∃ rest,Run E (.empty,(generateTruth argpartition score norm job).run)
      (⟨some header,none,none,none⟩,rest) := by
    unfold generateTruth
    rw [harguments]
    exact ⟨_,.head (@Step.call _ _ _ _ E .readOutput _ .empty _ (.ok none) ⟨trivial,rfl,rfl⟩)
      (.head (@Step.call _ _ _ _ E (.other .utcNow) _ .empty _ (.ok ['1']) ⟨trivial,hnow,rfl⟩)
      (.head (@Step.call _ _ _ _ E .readCheckpoint _ .empty _ (.ok none) ⟨trivial,rfl,rfl⟩)
      (.head (@Step.call _ _ _ _ E .readPartial _ .empty _ (.ok none) ⟨trivial,rfl,rfl⟩)
      (.single (@Step.call _ _ _ _ E (.createPartial header) _ .empty _ (.ok ()) ⟨rfl,trivial,rfl⟩)))))⟩
  obtain ⟨rest,hpath⟩ := path
  exact ⟨_,@Reachable.call _ _ _ _ _ _ _ _ clock TruthError.callFailed _ _ _ () rest .first hpath,
    Option.some_ne_none _,rfl⟩

/-- The ground truth of one line is there behind a call, and it has one row. -/
theorem truth_exact_line : ∃ cache files bytes vectors,
    TruthReachable argsort lineNorm lineScore (lineTruth cache) files ∧ files.output=some bytes ∧
      bytes=truthBytes ((lineTruth cache).header vectors)
        (vectors.queries.map (nearest lineScore (lineTruth cache) vectors)) := by
  obtain ⟨cache,vectors,sane,fits⟩ := exists_lineTruth
  have hpartition : Partitions (argsort : List ℕ → ℕ → List ℕ) := fun values place _ => argsort_partitioned values place
  obtain ⟨finishes,returns⟩ := @truth_completes _ _ _ _ lineScore _ _ _ hpartition fits sane kept_empty
    (fun h => h.1 rfl)
  obtain ⟨after,result,path⟩ := finishes
  obtain ⟨declared,rfl,hwhole⟩ := returns after result path
  have reached : TruthReachable argsort lineNorm lineScore (lineTruth cache) after :=
    @Reachable.call _ _ _ _ _ _ _ _ clock TruthError.callFailed _ _ _ () _ .first (run_undisturbed path)
  obtain ⟨vectors',-,hbytes,-⟩ := (truth_exact argsort lineNorm lineScore (lineTruth cache) after hpartition fits
    reached).1 _ hwhole.output_eq
  exact ⟨cache,after,_,vectors',reached,hwhole.output_eq,hbytes⟩

/-- A call completes the ground truth of one line, and one that was killed at
the wrong time does not let any other do so. -/
theorem truth_restarts_line : ∃ cache vectors,TruthSane lineNorm (lineTruth cache) vectors ∧
    Completes clock TruthError.callFailed (generateTruth argsort lineScore lineNorm (lineTruth cache))
      (TruthWhole lineScore (lineTruth cache) vectors) .empty ∧
    ∃ files,TruthReachable argsort lineNorm lineScore (lineTruth cache) files ∧
      ∀ (after : TruthDisk) (rest : TruthCall),
        TruthRun argsort lineNorm lineScore (lineTruth cache) files after rest →
          after=files ∧ ∀ declared,rest≠.done (.ok declared) := by
  obtain ⟨cache,vectors,sane,fits⟩ := exists_lineTruth
  have hpartition : Partitions (argsort : List ℕ → ℕ → List ℕ) := fun values place _ => argsort_partitioned values place
  obtain ⟨files,reached,hstuck⟩ := @exists_truthStuck _ _ argsort lineScore _ _ _ sane.arguments_eq
  exact ⟨cache,vectors,sane,
    (truth_restarts argsort lineNorm lineScore (lineTruth cache) vectors .empty hpartition fits sane .first).1
      (fun h => h.1 rfl),files,reached,
    (truth_restarts argsort lineNorm lineScore (lineTruth cache) vectors files hpartition fits sane reached).2 hstuck⟩

end Restarts

end Leann.TruthRestart
