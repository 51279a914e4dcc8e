import Leann.BuildScopes
import Leann.BuildStops

/-!
# How a build ends

Whatever fails or cancels a build before its publication leaves the live pair
as it was, and the temporaries go before the locks. From the publication on
nobody is asked any more, and what is left is one of its outcomes.
-/

namespace Leann.BuildFailure

open Effects Exceptions ArtifactPublisher Host BuildProgram BuildSteps BuildArtifacts BuildScopes
  BuildStops
open BuildLocks hiding World building ofLocks

section Publication

/-- The part of the calls that belongs to a publication. -/
def publishing (tokens : Set Text) : Environment FileOp FileOp.Answer World :=
  fun op => Host.building tokens (.artifact op)

/-- The files a publication works on. -/
def artifactView (tokens : Set Text) : DiskView Artifact (publishing tokens) where
  disk world := world.disk
  sound effect := effect.1.1
  failed path world := path∈world.notes.unremoved
  records effect := by
    rw [effect.2.1]
    exact List.mem_append_right _ List.mem_cons_self
  persists := by
    intro path op before answer after effect h
    rw [effect.2.1]
    cases op with
    | pathExists other => exact h
    | rename source target operation => exact h
    | remove other =>
      cases answer with
      | none => exact h
      | some reason => exact List.mem_append_left _ h

variable {tokens : Set Text} {start world : World} {index documents : Text}

/-- A publication keeps its promises as part of a build. -/
theorem builds_ofFiles {α : Type} {program : FileProgram α} {post : α → World → Prop}
    (h : Keeps (publishing tokens) Eq (fun op => Careful start index documents (.artifact op)) program
      post world) :
    Builds tokens start index documents (ofFiles program) post world := by
  induction program generalizing world with
  | done value => exact h
  | call op next ih =>
    intro seen moved answer after effect
    obtain ⟨promised,rest⟩ := h seen moved answer after effect
    exact ⟨promised,ih answer rest⟩

/-- Where a document store is in a publication. -/
def HoldsDocuments (paths : ArtifactPaths) (path : Text) : Prop :=
  path=paths.temporaryDocuments ∨ path=paths.documents ∨ path=paths.documentsBackup

/-- Only the commit is called what the commit is called, and only document
stores go where document stores are. -/
def Labelled (paths : ArtifactPaths) : FileOp → Prop
  | .rename source target operation => (operation=text "failed to publish index" ↔
    source=paths.temporaryIndex ∧ target=paths.index) ∧
      (HoldsDocuments paths target → HoldsDocuments paths source)
  | _ => True

/-- The calls of a publication. -/
def publicationCalls (paths : ArtifactPaths) : List FileOp :=
  [.pathExists paths.index,.pathExists paths.documents,
   .rename paths.index paths.indexBackup "failed to back up previous index",
   .rename paths.documents paths.documentsBackup "failed to back up previous document store",
   .rename paths.temporaryDocuments paths.documents "failed to publish document store",
   .rename paths.temporaryIndex paths.index "failed to publish index",
   .rename paths.documents paths.temporaryDocuments "failed to withdraw uncommitted documents",
   .remove paths.documents,
   .rename paths.documentsBackup paths.documents "failed to restore document backup",
   .rename paths.indexBackup paths.index "failed to restore index backup",
   .remove paths.indexBackup,.remove paths.documentsBackup]

/-- It makes no others. -/
theorem publishArtifactPair_calls (paths : ArtifactPaths) :
    (publishArtifactPair paths).All (·∈publicationCalls paths) (fun _ => True) := by
  have hcall : ∀ {op : FileOp},op∈publicationCalls paths →
      (Program.perform op : FileProgram op.Answer).All (·∈publicationCalls paths) (fun _ => True) :=
    fun h => Program.all_perform h
  have hbackUp : ∀ {source target operation : Text} (present : Bool),
      FileOp.rename source target operation∈publicationCalls paths →
      (backUp present source target operation).All (·∈publicationCalls paths) (fun _ => True) := by
    intro source target operation present h
    unfold backUp
    split
    · exact hcall h
    · trivial
  have hinstall : ∀ hadIndex hadDocuments,(installPair paths hadIndex hadDocuments).All
      (·∈publicationCalls paths) (fun _ => True) := by
    intro hadIndex hadDocuments
    unfold installPair
    refine (hbackUp hadIndex (by simp [publicationCalls])).bind (fun first _ => ?_)
    cases first with
    | error cause => trivial
    | ok _ =>
      refine (hbackUp hadDocuments (by simp [publicationCalls])).bind (fun second _ => ?_)
      cases second with
      | error cause => trivial
      | ok _ =>
        refine Program.All.bind (hcall (by simp [publicationCalls])) (fun third _ => ?_)
        cases third with
        | error cause => trivial
        | ok _ => exact Program.All.bind (hcall (by simp [publicationCalls])) (fun _ _ => trivial)
  have hrestore : ∀ {backup live action noted operation : Text},
      FileOp.rename backup live operation∈publicationCalls paths →
      (restoreBackup backup live operation action noted).All (·∈publicationCalls paths)
        (fun _ => True) := by
    intro backup live action noted operation h
    refine Program.All.bind (hcall h) (fun result _ => ?_)
    cases result with
    | error reason => trivial
    | ok _ => trivial
  have hwithdraw : (withdrawDocuments paths).All (·∈publicationCalls paths) (fun _ => True) := by
    refine Program.All.bind (hcall (by simp [publicationCalls])) (fun result _ => ?_)
    cases result with
    | ok _ => trivial
    | error reason =>
      refine Program.All.bind (hcall (by simp [publicationCalls])) (fun removed _ => ?_)
      cases removed with
      | none => trivial
      | some reason => trivial
  have hrollback : ∀ progress,(rollback paths progress).All (·∈publicationCalls paths)
      (fun _ => True) := by
    intro progress
    have hfirst : (if progress.newDocumentsInstalled then withdrawDocuments paths
        else pure []).All (·∈publicationCalls paths) (fun _ => True) := by
      split
      · exact hwithdraw
      · trivial
    refine hfirst.bind (fun withdrawn _ => ?_)
    have hsecond : (if progress.documentsBackedUp then
          restoreBackup paths.documentsBackup paths.documents "failed to restore document backup"
            "cannot restore document backup" withdrawn
        else pure withdrawn).All (·∈publicationCalls paths) (fun _ => True) := by
      split
      · exact hrestore (by simp [publicationCalls])
      · trivial
    refine hsecond.bind (fun documents _ => ?_)
    split
    · exact hrestore (by simp [publicationCalls])
    · trivial
  have hcleanup : ∀ (backedUp : Bool) {backup : Text} (action noted : Text),
      FileOp.remove backup∈publicationCalls paths →
      (removeBackup backedUp backup action noted).All (·∈publicationCalls paths) (fun _ => True) := by
    intro backedUp backup action noted h
    unfold removeBackup
    split
    · refine Program.All.bind (hcall h) (fun removed _ => ?_)
      cases removed with
      | none => trivial
      | some reason => trivial
    · trivial
  refine Program.All.bind (hcall (by simp [publicationCalls])) (fun hadIndex _ => ?_)
  cases hadIndex with
  | error reason => trivial
  | ok hadIndex =>
    refine Program.All.bind (hcall (by simp [publicationCalls])) (fun hadDocuments _ => ?_)
    cases hadDocuments with
    | error reason => trivial
    | ok hadDocuments =>
      refine (hinstall hadIndex hadDocuments).bind (fun installed _ => ?_)
      obtain ⟨progress,result⟩ := installed
      cases result with
      | error cause => exact (hrollback progress).bind (fun _ _ => trivial)
      | ok _ =>
        refine (hcleanup _ _ _ (by simp [publicationCalls])).bind (fun _ _ => ?_)
        exact (hcleanup _ _ _ (by simp [publicationCalls])).bind (fun _ _ => trivial)

/-- The calls of a publication are labelled so. -/
theorem publishArtifactPair_labelled {paths : ArtifactPaths} (distinct : paths.Distinct) :
    (publishArtifactPair paths).All (Labelled paths) (fun _ => True) := by
  have hne := distinct.ne
  have hindex : ¬HoldsDocuments paths paths.index :=
    not_or.mpr ⟨hne.2.1.1.symm,not_or.mpr ⟨hne.2.2.1.1,hne.2.2.1.2.2⟩⟩
  have hindexBackup : ¬HoldsDocuments paths paths.indexBackup := by
    unfold HoldsDocuments
    grind
  have hother : ∀ {source target : Text} {operation : String},source≠paths.temporaryIndex →
      text operation≠text "failed to publish index" →
      (HoldsDocuments paths target → HoldsDocuments paths source) →
      Labelled paths (.rename source target operation) := fun hs ho hd =>
    ⟨⟨fun h => absurd h ho,fun h => absurd h.1 hs⟩,hd⟩
  refine (publishArtifactPair_calls paths).mono (fun op h => ?_) (fun _ h => h)
  simp only [publicationCalls,List.mem_cons,List.not_mem_nil,or_false] at h
  rcases h with rfl|rfl|rfl|rfl|rfl|rfl|rfl|rfl|rfl|rfl|rfl|rfl
  · trivial
  · trivial
  · exact hother hne.1.2.1.symm (by decide) (fun h => absurd h hindexBackup)
  · exact hother hne.1.2.2.1.symm (by decide) (fun _ => .inr (.inl rfl))
  · exact hother hne.1.1.symm (by decide) (fun _ => .inl rfl)
  · exact ⟨⟨fun _ => ⟨rfl,rfl⟩,fun _ => rfl⟩,fun h => absurd h hindex⟩
  · exact hother hne.1.2.2.1.symm (by decide) (fun _ => .inr (.inl rfl))
  · trivial
  · exact hother hne.1.2.2.2.2.symm (by decide) (fun _ => .inr (.inr rfl))
  · exact hother hne.1.2.2.2.1.symm (by decide) (fun h => absurd h hindex)
  · trivial
  · trivial

/-- The files of earlier builds. -/
def Numbered (start : World) : Prop :=
  ∀ path artifact,start.disk path=some artifact → artifact.build< start.notes.build

/-- The files during a publication, with the pair committed last. -/
def Underway (start : World) (paths : ArtifactPaths) (newIndex newDocuments : Artifact)
    (before : Disk Artifact) (world : World) : Prop :=
  (Uncommitted paths before world.disk ∧ world.committed=start.committed ∨
    Committed paths before world.disk ∧ world.committed=some (newIndex,newDocuments)) ∧
    Stored paths before world.disk

variable {paths : ArtifactPaths} {newIndex newDocuments : Artifact} {before : Disk Artifact}

/-- The new pair is not live before the commit. -/
theorem not_both (numbered : Numbered start)
    (ready : Ready start index documents paths newIndex newDocuments before) {disk : Disk Artifact}
    (uncommitted : Uncommitted paths before disk) (committed : Committed paths before disk) : False := by
  have hlive : disk paths.index=some newIndex := committed.index.trans ready.index_at
  have hne := ready.fresh.distinct.ne
  have hprevious : before paths.index=start.disk paths.index :=
    ready.others _ hne.1.2.1.symm hne.2.1.1.symm
  rcases uncommitted.pair with h|h
  · have hold := numbered paths.index newIndex (by rw [←hprevious,←h.1,hlive])
    rw [ready.index_build] at hold
    exact Nat.lt_irrefl _ hold
  · rw [hlive] at h
    cases h

/-- A document store stays one of the two when it is moved or removed. -/
theorem stored_step {op : FileOp} {disk after : Disk Artifact} {answer : op.Answer}
    (labelled : Labelled paths op) (effect : fileSystem Artifact op disk answer after)
    (stored : Stored paths before disk) : Stored paths before after := by
  intro path hp
  cases op with
  | pathExists other => exact (pathExists_cases effect).1 ▸ stored path hp
  | rename source target operation =>
    rcases rename_cases effect with ⟨reason,-,hsame⟩|⟨-,-,hmoved⟩
    · exact hsame ▸ stored path hp
    · rw [hmoved,moved_apply]
      split
      · rename_i same
        exact stored source (labelled.2 (same ▸ hp))
      · split
        · exact .inl rfl
        · exact stored path hp
  | remove other =>
    rcases remove_cases effect with ⟨reason,-,hsame⟩|⟨-,hplaced⟩
    · exact hsame ▸ stored path hp
    · rw [hplaced,place_apply]
      split
      · exact .inl rfl
      · exact stored path hp

/-- What stays the same in a publication apart from files. -/
structure Apart (entered world : World) : Prop where
  /-- The locks. -/
  locks : world.locks=entered.locks
  /-- What was done to locks. -/
  history : world.notes.locks=entered.notes.locks
  /-- The files that were opened. -/
  opened : world.notes.opened=entered.notes.opened
  /-- The document store that is replaced. -/
  documents : world.notes.documents=entered.notes.documents

/-- One call of a publication. -/
theorem publication_step (numbered : Numbered start)
    (ready : Ready start index documents paths newIndex newDocuments before) {entered : World}
    (target : entered.notes.documents=documents) {op : FileOp} {here there : World}
    {answer : op.Answer} (effect : publishing tokens op here answer there)
    (guarded : Guarded paths before (fun world : World => world.disk) op here answer there)
    (labelled : Labelled paths op)
    (underway : Underway start paths newIndex newDocuments before here) (apart : Apart entered here) :
    Underway start paths newIndex newDocuments before there ∧ Apart entered there ∧
      there.notes.publishing=true := by
  obtain ⟨⟨hfiles,hlocks⟩,hnotes,hcommitted⟩ := effect
  have hne := ready.fresh.distinct.ne
  have hnotes' : there.notes.locks=here.notes.locks ∧ there.notes.opened=here.notes.opened ∧
      there.notes.documents=here.notes.documents ∧ there.notes.publishing=true := by
    rw [hnotes]
    cases op with
    | pathExists path => exact ⟨rfl,rfl,rfl,rfl⟩
    | rename source target operation => exact ⟨rfl,rfl,rfl,rfl⟩
    | remove path =>
      cases answer with
      | none => exact ⟨rfl,rfl,rfl,rfl⟩
      | some reason => exact ⟨rfl,rfl,rfl,rfl⟩
  obtain ⟨underway,stored⟩ := underway
  refine ⟨⟨?_,stored_step labelled hfiles stored⟩,⟨hlocks.trans apart.locks,
    hnotes'.1.trans apart.history,hnotes'.2.1.trans apart.opened,hnotes'.2.2.1.trans apart.documents⟩,
    hnotes'.2.2.2⟩
  by_cases commits : Commits paths op answer
  · obtain ⟨uncommitted,committed⟩ := guarded.1 commits
    refine .inr ⟨committed,?_⟩
    cases op with
    | pathExists path => cases commits
    | remove path => cases commits
    | rename source target operation =>
      cases answer with
      | error reason => cases commits
      | ok _ =>
        obtain ⟨rfl,rfl⟩ := commits
        have hlabel : operation=text "failed to publish index" := labelled.1.mpr ⟨rfl,rfl⟩
        rcases rename_cases hfiles with ⟨reason,hr,-⟩|⟨-,-,hmoved⟩
        · cases hr
        · have hindex : here.disk paths.temporaryIndex=some newIndex := by
            have h : there.disk paths.index=some newIndex := committed.index.trans ready.index_at
            rwa [hmoved,moved_apply,if_pos rfl] at h
          have hdocuments : here.disk here.notes.documents=some newDocuments := by
            have h : there.disk paths.documents=some newDocuments :=
              committed.documents.trans ready.documents_at
            rw [hmoved,moved_apply,if_neg hne.2.2.1.1.symm,if_neg hne.1.2.2.1.symm] at h
            rw [apart.documents,target,←ready.fresh.documents_eq]
            exact h
          have hcommit : committedBy here (.artifact (.rename paths.temporaryIndex paths.index
              operation)) (.ok ())=some (newIndex,newDocuments) := by
            rw [committedBy,if_pos hlabel,hindex,Option.bind_some,hdocuments]
            rfl
          exact hcommitted.trans hcommit
  · have hsame : there.committed=here.committed := by
      rw [hcommitted]
      cases op with
      | pathExists path => rfl
      | remove path => rfl
      | rename source target operation =>
        cases answer with
        | error reason => rfl
        | ok _ =>
          have hlabel : operation≠text "failed to publish index" :=
            fun h => commits (labelled.1.mp h)
          exact if_neg hlabel
    rcases guarded.2 commits with ⟨hu,hu'⟩|⟨hc,hc'⟩
    · rcases underway with h|h
      · exact .inl ⟨hu',hsame.trans h.2⟩
      · exact (not_both numbered ready hu h.1).elim
    · rcases underway with h|h
      · exact (not_both numbered ready h.1 hc).elim
      · exact .inr ⟨hc',hsame.trans h.2⟩

/-- Every call of a publication marks its beginning. -/
theorem publishing_flag {op : FileOp} {here there : World} {answer : op.Answer}
    (effect : publishing tokens op here answer there) : there.notes.publishing=true := by
  rw [effect.2.1]
  cases op with
  | pathExists path => rfl
  | rename source target operation => rfl
  | remove path =>
    cases answer with
    | none => rfl
    | some reason => rfl

/-- A publication of verified artifacts ends in one of its outcomes, and every
call of it leaves the previous pair or the new one. -/
theorem publication_spec (numbered : Numbered start)
    (ready : Ready start index documents paths newIndex newDocuments world.disk)
    (committed : world.committed=start.committed) (target : world.notes.documents=documents) :
    Builds tokens start index documents (ofFiles (publishArtifactPair paths)) (fun result after =>
      (Outcome (artifactView tokens) paths world.disk after result ∧
        Underway start paths newIndex newDocuments world.disk after ∧ Apart world after) ∧
      after.notes.publishing=true) world := by
  have hne := ready.fresh.distinct.ne
  have hindexBackup : world.disk paths.indexBackup=none := by
    rw [ready.others _ hne.1.2.2.2.1.symm hne.2.1.2.2.1.symm,ready.fresh.indexBackup]
  have hdocumentsBackup : world.disk paths.documentsBackup=none := by
    rw [ready.others _ hne.1.2.2.2.2.symm hne.2.1.2.2.2.symm,ready.fresh.documentsBackup]
  have hview : (artifactView tokens).disk world=world.disk := rfl
  have hspec := publishArtifactPair_spec (artifactView tokens) ready.fresh.distinct hview hindexBackup
    hdocumentsBackup
  have hlabelled : Keeps (publishing tokens) Eq (fun op _ _ after => Labelled paths op ∧
      after.notes.publishing=true) (publishArtifactPair paths) (fun _ _ => True) world :=
    ((publishArtifactPair_labelled ready.fresh.distinct).keeps trivial (fun _ _ _ _ => trivial)
      (fun op before answer after h _ effect => ⟨⟨h,publishing_flag effect⟩,trivial⟩)).mono
        (fun _ _ _ _ h => h) (fun _ _ _ => trivial)
  have hstored : Stored paths world.disk world.disk := by
    intro path hp
    rcases hp with hp|hp|hp
    · exact .inr (.inl (congrArg world.disk hp))
    · exact .inr (.inr (congrArg world.disk hp))
    · exact .inl ((congrArg world.disk hp).trans hdocumentsBackup)
  have hstart : Underway start paths newIndex newDocuments world.disk world ∧ Apart world world :=
    ⟨⟨.inl ⟨(parked_start hindexBackup hdocumentsBackup).uncommitted
      ⟨.inr (.inr ⟨rfl,rfl⟩),.inr (.inr rfl)⟩,committed⟩,hstored⟩,⟨rfl,rfl,rfl,rfl⟩⟩
  have hboth := (hspec.both hlabelled).invariant (fun seen =>
    Underway start paths newIndex newDocuments world.disk seen ∧ Apart world seen) hstart
    (fun op before answer after effect promised h => by
      have hstep := publication_step numbered ready target effect promised.1 promised.2.1 h.1 h.2
      exact ⟨hstep.1,hstep.2.1⟩)
  refine builds_ofFiles (Keeps.acted (hboth.mono ?_ ?_) (fun _ _ _ _ effect => publishing_flag effect))
  · intro op before answer after promised
    obtain ⟨⟨-,-,flag⟩,-,underway,-⟩ := promised
    refine ⟨trivial,?_⟩
    obtain ⟨h|h,stored⟩ := underway
    · exact .uncommitted flag ready h.1 stored h.2
    · exact .committed flag ready h.1 h.2
  · intro result after h
    exact ⟨h.1.1,h.2.1,h.2.2⟩

end Publication

section Cleanup

/-- A file is absent, or its removal failed. -/
def Gone (world : World) (path : Text) : Prop := world.disk path=none ∨ path∈world.notes.unremoved

/-- A file is removed, or that fails. -/
structure Removed (path : Text) (world after : World) : Prop where
  /-- The locks are as they were. -/
  locks : after.locks=world.locks
  /-- So is the pair committed last. -/
  committed : after.committed=world.committed
  /-- Only a failure is noted. -/
  notes : after.notes={world.notes with unremoved := after.notes.unremoved}
  /-- Failures that were noted stay noted. -/
  unremoved : ∀ other∈world.notes.unremoved,other∈after.notes.unremoved
  /-- The other files are as they were. -/
  others : ∀ other,other≠path → after.disk other=world.disk other
  /-- The file may still be there. -/
  kept : after.disk path=none ∨ after.disk path=world.disk path
  /-- If so, its removal failed. -/
  gone : Gone after path

variable {tokens : Set Text} {start world : World} {index documents : Text}

/-- One removal. -/
theorem remove_step {path : Text} {before after : World} {answer : Option Text}
    (effect : Host.building tokens (.remove path) before answer after) : Removed path before after := by
  obtain ⟨⟨hfiles,hlocks⟩,hnotes,hcommitted⟩ := effect
  rcases remove_cases hfiles with ⟨reason,rfl,hdisk⟩|⟨rfl,hdisk⟩
  · refine ⟨hlocks,hcommitted,by rw [hnotes]; rfl,fun other ho => ?_,fun other _ => by rw [hdisk],
      .inr (by rw [hdisk]),.inr ?_⟩
    · rw [hnotes]
      exact List.mem_append_left _ ho
    · rw [hnotes]
      exact List.mem_append_right _ List.mem_cons_self
  · have habsent : after.disk path=none := by rw [hdisk,place_apply,if_pos rfl]
    refine ⟨hlocks,hcommitted,by rw [hnotes]; rfl,fun other ho => ?_,fun other hne => ?_,.inl habsent,
      .inl habsent⟩
    · rw [hnotes]
      exact ho
    · rw [hdisk,place_apply,if_neg hne]

/-- What is gone stays gone. -/
theorem Removed.still_gone {path other : Text} {after : World} (h : Removed path world after)
    (hg : Gone world other) : Gone after other := by
  by_cases same : other=path
  · rw [same]
    exact h.gone
  · exact hg.imp (fun hd => (h.others other same).trans hd) (h.unremoved other)

/-- The destructor of `TemporaryCleanup`. -/
theorem cleanup_spec {paths : ArtifactPaths} {files : World → Prop}
    (phase : ∀ world,files world → Phase start index documents world)
    (stable : ∀ world after path,path=paths.temporaryIndex ∨ path=paths.temporaryDocuments →
      files world → Removed path world after → files after) (hf : files world) :
    Builds tokens start index documents (cleanup paths) (fun _ after => files after ∧
      Gone after paths.temporaryIndex ∧ Gone after paths.temporaryDocuments) world := by
  intro seen same first middle effect
  subst same
  have hfirst := remove_step effect
  have hmiddle := stable world middle _ (.inl rfl) hf hfirst
  refine ⟨⟨trivial,phase middle hmiddle⟩,?_⟩
  intro seen same second after effect
  subst same
  have hsecond := remove_step effect
  have hafter := stable middle after _ (.inr rfl) hmiddle hsecond
  refine ⟨⟨trivial,phase after hafter⟩,?_⟩
  intro seen same
  subst same
  exact ⟨hafter,hsecond.still_gone hfirst.gone,hsecond.gone⟩

end Cleanup

section Outcomes

/-- How a publication left the files that are not temporary. -/
def Settled (start world : World) (paths : ArtifactPaths) (newIndex newDocuments : Artifact) :
    Except PublishFailure Unit → Prop
  | .ok () => world.disk paths.index=some newIndex ∧ world.disk paths.documents=some newDocuments ∧
      world.disk paths.indexBackup=none ∧ world.disk paths.documentsBackup=none
  | .error (.cleanupRequired _) => world.disk paths.index=some newIndex ∧
      world.disk paths.documents=some newDocuments ∧ Gone world paths.indexBackup ∧
      Gone world paths.documentsBackup
  | .error (.restored _) => world.disk paths.index=start.disk paths.index ∧
      world.disk paths.documents=start.disk paths.documents ∧ world.disk paths.indexBackup=none ∧
      world.disk paths.documentsBackup=none
  | .error (.rollbackIncomplete _ _) => world.disk paths.index=none ∧
      (∀ artifact,start.disk paths.index=some artifact → world.disk paths.indexBackup=some artifact) ∧
      ∀ artifact,start.disk paths.documents=some artifact →
        world.disk paths.documents=some artifact ∨ world.disk paths.documentsBackup=some artifact
  | .error (.cannotInspect _) => world.disk paths.index=start.disk paths.index ∧
      world.disk paths.documents=start.disk paths.documents

variable {tokens : Set Text} {start world : World} {index documents : Text}
variable {paths : ArtifactPaths} {newIndex newDocuments : Artifact} {before : Disk Artifact}

/-- The outcomes of the publication say so. -/
theorem settled_of_outcome
    (ready : Ready start index documents paths newIndex newDocuments before)
    {result : Except PublishFailure Unit}
    (outcome : Outcome (artifactView tokens) paths before world result) :
    Settled start world paths newIndex newDocuments result := by
  have hne := ready.fresh.distinct.ne
  have hindex : before paths.index=start.disk paths.index :=
    ready.others _ hne.1.2.1.symm hne.2.1.1.symm
  have hdocuments : before paths.documents=start.disk paths.documents :=
    ready.others _ hne.1.2.2.1.symm hne.2.1.2.1.symm
  match result with
  | .ok () =>
    obtain ⟨committed,hib,hdb⟩ := outcome
    exact ⟨committed.index.trans ready.index_at,committed.documents.trans ready.documents_at,hib,hdb⟩
  | .error (.cleanupRequired _) =>
    obtain ⟨committed,hib,hdb⟩ := outcome
    exact ⟨committed.index.trans ready.index_at,committed.documents.trans ready.documents_at,hib,hdb⟩
  | .error (.restored _) =>
    exact ⟨outcome.index.trans hindex,outcome.documents.trans hdocuments,outcome.indexBackup,
      outcome.documentsBackup⟩
  | .error (.rollbackIncomplete _ _) =>
    obtain ⟨kept,gone⟩ := outcome
    refine ⟨gone,fun artifact ha => ?_,fun artifact ha => ?_⟩
    · rw [←hindex] at ha
      rcases kept.indexKept with h|h|h
      · rw [ha] at h
        cases h
      · have habsent : world.disk paths.index=none := gone
        have hsame : world.disk paths.index=before paths.index := h
        rw [habsent,ha] at hsame
        cases hsame
      · exact h.trans ha
    · rw [←hdocuments] at ha
      rcases kept.documentsKept with h|h|h
      · rw [ha] at h
        cases h
      · exact .inl (h.trans ha)
      · exact .inr (h.trans ha)
  | .error (.cannotInspect _) =>
    have hsame : world.disk=before := outcome
    exact ⟨(congrFun hsame _).trans hindex,(congrFun hsame _).trans hdocuments⟩

/-- They do not depend on the temporaries. -/
theorem Settled.agree {after : World} {result : Except PublishFailure Unit}
    (h : Settled start world paths newIndex newDocuments result)
    (files : ∀ path,path=paths.index ∨ path=paths.documents ∨ path=paths.indexBackup ∨
      path=paths.documentsBackup → after.disk path=world.disk path)
    (unremoved : ∀ path∈world.notes.unremoved,path∈after.notes.unremoved) :
    Settled start after paths newIndex newDocuments result := by
  have hi := files _ (.inl rfl)
  have hd := files _ (.inr (.inl rfl))
  have hib := files _ (.inr (.inr (.inl rfl)))
  have hdb := files _ (.inr (.inr (.inr rfl)))
  match result with
  | .ok () =>
    rw [Settled,hi,hd,hib,hdb]
    exact h
  | .error (.cleanupRequired _) =>
    obtain ⟨h1,h2,h3,h4⟩ := h
    exact ⟨hi.trans h1,hd.trans h2,h3.imp hib.trans (unremoved _),h4.imp hdb.trans (unremoved _)⟩
  | .error (.restored _) =>
    rw [Settled,hi,hd,hib,hdb]
    exact h
  | .error (.rollbackIncomplete _ _) =>
    rw [Settled,hi,hd,hib,hdb]
    exact h
  | .error (.cannotInspect _) =>
    rw [Settled,hi,hd]
    exact h

/-- What a build returns after a publication: its failure, or an error about
the locks, or nothing. -/
def Reported : Except PublishFailure Unit → Except Fault Unit → Prop
  | .error failure,result => result=.error (.thrown (runtimeError failure.what))
  | .ok (),result => result=.ok () ∨ ∃ message,result=.error (.thrown (runtimeError message))

/-- What a build has left behind when it returns. -/
inductive Ended (start : World) (index documents : Text) (paths : ArtifactPaths) (world : World)
    (result : Except Fault Unit) : Prop where
  /-- It failed before its publication: the previous pair is untouched. -/
  | unpublished (before : world.notes.publishing=false) (failed : Failed result)
      (kept : Kept start index documents world.disk) (committed : world.committed=start.committed)
      (opened : ∀ path∈world.notes.opened,path=paths.temporaryIndex ∨ path=paths.temporaryDocuments)
  /-- It returned with one of the outcomes of its publication. -/
  | published {newIndex newDocuments : Artifact} {before : Disk Artifact}
      {outcome : Except PublishFailure Unit} (publishing : world.notes.publishing=true)
      (ready : Ready start index documents paths newIndex newDocuments before)
      (underway : Underway start paths newIndex newDocuments before world)
      (settled : Settled start world paths newIndex newDocuments outcome)
      (reported : Reported outcome result)

/-- A phase. -/
theorem Ended.phase {result : Except Fault Unit} (h : Ended start index documents paths world result) :
    Phase start index documents world := by
  cases h with
  | unpublished before failed kept committed opened => exact .preparing before kept committed
  | published publishing ready underway settled reported =>
    obtain ⟨h|h,stored⟩ := underway
    · exact .uncommitted publishing ready h.1 stored h.2
    · exact .committed publishing ready h.1 h.2

/-- The end of a build does not depend on locks. -/
theorem ended_stable (result : Except Fault Unit) :
    LockStable (fun world => Ended start index documents paths world result ∧ TemporariesGone world) := by
  intro world after h hdisk hcommitted hnotes
  obtain ⟨hended,hgone⟩ := h
  have hunremoved : after.notes.unremoved=world.notes.unremoved := by rw [hnotes]
  have hopened : after.notes.opened=world.notes.opened := by rw [hnotes]
  have hpublishing : after.notes.publishing=world.notes.publishing := by rw [hnotes]
  refine ⟨?_,fun hp path ho => ?_⟩
  · cases hended with
    | unpublished before failed kept committed opened =>
      exact .unpublished (hpublishing.trans before) failed (hdisk ▸ kept) (hcommitted.trans committed)
        (hopened ▸ opened)
    | published publishing ready underway settled reported =>
      refine .published (hpublishing.trans publishing) ready ?_
        (settled.agree (fun path _ => congrFun hdisk path) (fun _ h => hunremoved ▸ h)) reported
      unfold Underway
      rw [hdisk,hcommitted]
      exact underway
  · rw [hdisk,hunremoved]
    exact hgone (hpublishing ▸ hp) path (hopened ▸ ho)

/-- Nor does it depend on the temporaries. -/
theorem Ended.remove {result : Except Fault Unit} (fresh : Fresh start index documents paths)
    (h : Ended start index documents paths world result) {path : Text}
    (hp : path=paths.temporaryIndex ∨ path=paths.temporaryDocuments) {after : World}
    (removed : Removed path world after) : Ended start index documents paths after result := by
  have hne := fresh.distinct.ne
  have hpublishing : after.notes.publishing=world.notes.publishing := by rw [removed.notes]
  have hopened : after.notes.opened=world.notes.opened := by rw [removed.notes]
  have hothers : ∀ other,other=paths.index ∨ other=paths.documents ∨ other=paths.indexBackup ∨
      other=paths.documentsBackup → after.disk other=world.disk other := by
    intro other ho
    refine removed.others other ?_
    grind
  cases h with
  | unpublished before failed kept committed opened =>
    refine .unpublished (hpublishing.trans before) failed (fun other ho => ?_)
      (removed.committed.trans committed) (hopened ▸ opened)
    have hother : other≠path := by
      intro same
      have hunused : start.disk path=none := by
        rcases hp with hp|hp
        · rw [hp,fresh.temporaryIndex]
        · rw [hp,fresh.temporaryDocuments]
      rcases ho with ho|ho|ho
      · have hi := fresh.index_eq
        grind
      · have hd := fresh.documents_eq
        grind
      · rw [same,hunused] at ho
        cases ho
    exact (removed.others other hother).trans (kept other ho)
  | @published newIndex newDocuments before outcome publishing ready underway settled reported =>
    refine .published (hpublishing.trans publishing) ready ?_
      (settled.agree hothers removed.unremoved) reported
    have hframe : ∀ other∉paths.all,after.disk other=world.disk other := by
      intro other ho
      refine removed.others other (fun same => ho ?_)
      rw [same]
      exact ArtifactPaths.mem_all.mpr (by grind)
    have hstored : Stored paths before after.disk := by
      intro other ho
      by_cases same : other=path
      · rw [same] at ho ⊢
        rcases removed.kept with h|h
        · exact .inl h
        · rw [h]
          exact underway.2 path ho
      · rw [removed.others other same]
        exact underway.2 other ho
    refine ⟨underway.1.imp (fun h => ⟨?_,removed.committed.trans h.2⟩)
      (fun h => ⟨?_,removed.committed.trans h.2⟩),hstored⟩
    · obtain ⟨⟨pair,indexKept,documentsKept,frame⟩,-⟩ := h
      constructor <;> grind
    · obtain ⟨⟨hi,hd,frame⟩,-⟩ := h
      constructor <;> grind

/-- Locks that could not be released are reported behind a commit. -/
theorem Ended.not_released (h : Ended start index documents paths world (.ok ())) (message : Text) :
    Ended start index documents paths world (.error (.thrown (runtimeError message))) := by
  cases h with
  | unpublished before failed kept committed opened =>
    obtain ⟨fault,hf⟩ := failed
    cases hf
  | @published newIndex newDocuments before outcome publishing ready underway settled reported =>
    cases outcome with
    | error failure => cases reported
    | ok _ => exact .published publishing ready underway settled (.inr ⟨message,rfl⟩)

end Outcomes

section Build

variable {tokens : Set Text} {start entered world : World} {index documents : Text}
variable {paths : ArtifactPaths} {request : BuildRequest} {locks : List Text}

/-- While it only takes locks, a build has done nothing else. -/
theorem entered_stable : LockStable (Entered start) := by
  intro world after h hdisk hcommitted hnotes
  refine ⟨hdisk.trans h.disk,hcommitted.trans h.committed,?_⟩
  rw [hnotes,h.notes]

variable {corpus : List Text}

/-- It has opened no file. -/
theorem entered_gone (hb : Begun start corpus documents) (h : Entered start world) :
    TemporariesGone world := by
  intro _ path ho
  rw [h.notes,hb] at ho
  cases ho

/-- A build that failed before it wrote a file. -/
theorem entered_ended (hb : Begun start corpus documents) (h : Entered start world) (fault : Fault) :
    Ended start index documents paths world (.error fault) := by
  refine .unpublished (@entered_phase index _ _ _ _ hb h).1 ⟨fault,rfl⟩ (fun path _ => ?_) h.committed
    (fun path ho => ?_)
  · rw [h.disk]
  · rw [h.notes,hb] at ho
    cases ho

/-- A publication, and the release of the locks behind it. -/
theorem publish_spec (numbered : Numbered start) (hb : Begun start request.documents documents)
    (he : Entered start entered) (fresh : Fresh start index documents paths)
    (hr : Releasing start entered locks) :
    Builds tokens start index documents (publish request paths locks) (fun result after =>
      Ended start index documents paths after result.1 ∧ Releasing start after result.2) entered := by
  refine Keeps.bind _ (fun _ => rfl) (prepare_spec hb he fresh) (fun result world h => ?_)
  obtain ⟨hw,hready⟩ := h
  have hlocks : Releasing start world locks := hr.agree hw.locks (by rw [hw.notes])
  cases result with
  | error fault =>
    obtain ⟨before,hphase⟩ := hw.phase hb he fresh
    intro seen same
    subst same
    refine ⟨?_,hlocks⟩
    cases hphase with
    | preparing before kept committed =>
      exact .unpublished before ⟨fault,rfl⟩ kept committed hw.opened
    | uncommitted publishing => exact absurd (before.symm.trans publishing) (by decide)
    | committed publishing => exact absurd (before.symm.trans publishing) (by decide)
  | ok _ =>
    obtain ⟨newIndex,newDocuments,ready⟩ := hready () rfl
    have htarget : world.notes.documents=documents := by rw [hw.notes,he.notes,hb]
    refine Keeps.bind _ (fun _ => rfl) (publication_spec numbered ready
      (hw.committed.trans he.committed) htarget) (fun result after h => ?_)
    obtain ⟨⟨houtcome,underway,apart⟩,publishing⟩ := h
    have hsettled := settled_of_outcome ready houtcome
    have hlocks' : Releasing start after locks := hlocks.agree apart.locks apart.history
    cases result with
    | error failure =>
      intro seen same
      subst same
      exact ⟨.published publishing ready underway hsettled rfl,hlocks'⟩
    | ok _ =>
      have hended : Ended start index documents paths after (.ok ()) ∧ TemporariesGone after :=
        ⟨.published publishing ready underway hsettled (.inl rfl),
          fun before => absurd (before.symm.trans publishing) (by decide)⟩
      refine Keeps.bind _ (fun _ => rfl) (releaseChecked_spec (ended_stable (.ok ()))
        (fun _ h => h.1.phase) (fun _ h => h.2) hended hlocks') (fun result last h => ?_)
      obtain ⟨⟨hended,-⟩,hreleased⟩ := h
      cases result with
      | error message =>
        intro seen same
        subst same
        exact ⟨hended.not_released message,hreleased⟩
      | ok _ =>
        intro seen same
        subst same
        exact ⟨hended,hreleased⟩

/-- The scope of the locks. -/
theorem locked_spec (unique : UniqueTokens tokens index documents) (hne : index≠documents)
    (numbered : Numbered start) (hb : Begun start request.documents documents)
    (he : Entered start entered) (hr : Releasing start entered locks) :
    Builds tokens start index documents (locked request index documents locks) (fun result after =>
      ((∃ paths,Ended start index documents paths after result.1) ∧ TemporariesGone after) ∧
        Releasing start after result.2) entered := by
  refine Keeps.bind _ (fun _ => rfl) (chooseNames_spec unique hne hb he) (fun result world h => ?_)
  obtain ⟨rfl,hfresh⟩ := h
  cases result with
  | error fault =>
    intro seen same
    subst same
    exact ⟨⟨⟨⟨[],[],[],[],[],[]⟩,entered_ended hb he fault⟩,entered_gone hb he⟩,hr⟩
  | ok paths =>
    have fresh := hfresh paths rfl
    refine Keeps.bind _ (fun _ => rfl) (publish_spec numbered hb he fresh hr) (fun result middle h => ?_)
    have hstable : ∀ world after path,path=paths.temporaryIndex ∨ path=paths.temporaryDocuments →
        Ended start index documents paths world result.1 ∧ Releasing start world result.2 →
        Removed path world after →
        Ended start index documents paths after result.1 ∧ Releasing start after result.2 :=
      fun world after path hp h removed => ⟨h.1.remove fresh hp removed,
        h.2.agree removed.locks (by rw [removed.notes])⟩
    refine Keeps.bind _ (fun _ => rfl) (cleanup_spec (fun _ h => h.1.phase) hstable h)
      (fun _ after h => ?_)
    obtain ⟨⟨hended,hreleasing⟩,hfirst,hsecond⟩ := h
    intro seen same
    subst same
    refine ⟨⟨⟨paths,hended⟩,fun before path ho => ?_⟩,hreleasing⟩
    cases hended with
    | unpublished before failed kept committed opened =>
      rcases opened path ho with hp|hp
      · rw [hp]
        exact hfirst
      · rw [hp]
        exact hsecond
    | published publishing => exact absurd (before.symm.trans publishing) (by decide)

/-- A build keeps its promises. -/
theorem build_spec (unique : UniqueTokens tokens index documents) (numbered : Numbered start)
    (hb : Begun start request.documents documents) :
    Builds tokens start index documents (build request index documents) (fun result after =>
      ((∃ paths,Ended start index documents paths after result) ∧ TemporariesGone after) ∧
        Releasing start after []) start := by
  have hentered : Entered start start := ⟨rfl,rfl,rfl⟩
  have hreleasing : Releasing start start [] := by
    have hlocks : start.notes.locks={} := by rw [hb]
    refine ⟨fun lock hl => ?_,fun lock hl => ?_,fun lock hl => ?_,fun lock => .inl rfl⟩
    · rw [hlocks] at hl
      cases hl
    · cases hl
    · rw [hlocks] at hl
      cases hl
  have hnone : ∀ {world : World} (fault : Fault),Entered start world → Releasing start world [] →
      ((∃ paths,Ended start index documents paths world (.error fault)) ∧ TemporariesGone world) ∧
        Releasing start world [] := fun fault he hr =>
    ⟨⟨⟨⟨[],[],[],[],[],[]⟩,entered_ended hb he fault⟩,entered_gone hb he⟩,hr⟩
  unfold build
  split
  · intro seen same
    subst same
    exact hnone _ hentered hreleasing
  · rename_i hcheck
    have hne : index≠documents := by
      simp only [checkRequest,bind_eq_ok,throwIf_ok,exists_and_left] at hcheck
      obtain ⟨_,_,_,_,_,_,_,_,h⟩ := hcheck
      exact h
    refine Keeps.bind _ (fun _ => rfl) (acquireEach_spec entered_stable
      (fun _ h => (entered_phase hb h).2) (fun _ h => entered_gone hb h) (sortTargets index documents)
      hentered hreleasing) (fun result entered h => ?_)
    obtain ⟨he,hok,herror⟩ := h
    cases result with
    | error message =>
      intro seen same
      subst same
      exact hnone _ he (herror message rfl)
    | ok locks =>
      refine Keeps.bind _ (fun _ => rfl) (locked_spec unique hne numbered hb he (hok locks rfl))
        (fun result after h => ?_)
      have hstable : LockStable (fun world => (∃ paths,Ended start index documents paths world result.1) ∧
          TemporariesGone world) := fun world after h hdisk hcommitted hnotes => by
        obtain ⟨⟨paths,hended⟩,hgone⟩ := h
        have h := ended_stable result.1 world after ⟨hended,hgone⟩ hdisk hcommitted hnotes
        exact ⟨⟨paths,h.1⟩,h.2⟩
      refine Keeps.bind _ (fun _ => rfl) (releaseNoexcept_spec hstable
        (fun _ h => h.1.elim (fun _ h => h.phase)) (fun _ h => h.2) h.1 h.2) (fun _ last h => ?_)
      intro seen same
      subst same
      exact h

/-- While it is not published, the previous pair is live. -/
theorem Phase.kept (h : Phase start index documents world) (before : world.notes.publishing=false) :
    Kept start index documents world.disk := by
  cases h with
  | preparing _ kept _ => exact kept
  | uncommitted publishing => exact absurd (before.symm.trans publishing) (by decide)
  | committed publishing => exact absurd (before.symm.trans publishing) (by decide)

/-- A call that cleans up does not begin a publication. -/
theorem cleans_step {op : HostOp} (h : Cleans op) {before after : World} {answer : op.Answer}
    (effect : Host.building tokens op before answer after) :
    after.notes.publishing=before.notes.publishing := by
  rw [effect.2.1]
  cases op with
  | lock op => rfl
  | remove path =>
    cases answer with
    | none => rfl
    | some reason => rfl
  | _ => exact h.elim

/-- Nor does one whose answer stops the build. -/
theorem stops_step {dimension : ℕ} {op : HostOp} {before after : World} {answer : op.Answer}
    (h : Stops dimension op answer) (effect : Host.building tokens op before answer after) :
    after.notes.publishing=before.notes.publishing := by
  rw [effect.2.1]
  cases op with
  | artifact op => exact h.elim
  | remove path => exact h.elim
  | _ => rfl

/-- A build is in one of its phases wherever it is. -/
theorem build_phase (begun : Begun start request.documents documents) (numbered : Numbered start)
    (unique : UniqueTokens tokens index documents) {there : World×HostProgram (Except Fault Unit)}
    (path : Run (Host.building tokens) (start,build request index documents) there) :
    Phase start index documents there.1 := by
  have hstart : Phase start index documents start := (entered_phase begun ⟨rfl,rfl,rfl⟩).2
  have hkept : Preserves (Host.building tokens) (Phase start index documents)
      (build request index documents) (fun _ _ => True) start :=
    (build_spec unique numbered begun).mono (fun _ _ _ _ h => h.2) (fun _ _ _ => trivial)
  exact (hkept.run hstart path).1

/-- A build that is stopped or fails before its publication leaves the live
pair as it was, removes its temporaries before its locks and no locks but its
own, and asks nobody once the publication has begun. It ends with the previous
pair untouched or with an outcome of the publication. -/
theorem build_fail_closed {here : World×HostProgram (Except Fault Unit)}
    (begun : Begun start request.documents documents) (numbered : Numbered start)
    (unique : UniqueTokens tokens index documents)
    (path : Run (Host.building tokens) (start,build request index documents) here) :
    Phase start index documents here.1 ∧
    (∀ op next,here.2=.call op next → ∀ answer after,Host.building tokens op here.1 answer after →
      Timely here.1 op ∧ (here.1.notes.publishing=false → Stops request.dimension op answer →
        ∀ there,Run (Host.building tokens) (after,next answer) there →
          there.1.notes.publishing=false ∧ Kept start index documents there.1.disk ∧
            ∀ result,there.2=.done result → Failed result)) ∧
    ∀ result,here.2=.done result → (∃ paths,Ended start index documents paths here.1 result) ∧
      TemporariesGone here.1 ∧ Releasing start here.1 [] := by
  have hspec := build_spec unique numbered begun
  have hhere := hspec.reached path
  refine ⟨build_phase begun numbered unique path,fun op next hop answer after effect => ?_,
    fun result hr => ?_⟩
  · obtain ⟨world,program⟩ := here
    dsimp only at hop effect hhere
    subst hop
    refine ⟨(hhere world rfl answer after effect).1.1,fun before stops there path' => ?_⟩
    have hall := (((build_halts request index documents).reached path) answer).1 stops
    have hwhole := (path.tail (.call effect)).trans path'
    have hafter : after.notes.publishing=false := (stops_step stops effect).trans before
    have hpublishing : there.1.notes.publishing=false :=
      hall.invariant (fun seen : World => seen.notes.publishing=false) hafter
        (fun op before answer after hc h effect => (cleans_step hc effect).trans h) path'
    refine ⟨hpublishing,Phase.kept (build_phase begun numbered unique hwhole) hpublishing,
      fun result hr => ?_⟩
    have hlast := hall.reached path'
    rw [hr] at hlast
    exact hlast
  · rw [hr] at hhere
    obtain ⟨⟨hended,hgone⟩,hreleasing⟩ := hhere here.1 rfl
    exact ⟨hended,hgone,hreleasing⟩

end Build

/-- A configuration that is accepted. -/
def sampleConfig : IndexBuilder.BuildConfig := ⟨2,2,1,0,.simHash,64,1,1,1,1,1,0⟩

/-- A request for one document that may be cancelled. -/
def sampleRequest : BuildRequest :=
  ⟨sampleConfig,false,true,["a"],2,"fingerprint",⟨List.range,fun _ => 0,fun _ _ total => total⟩⟩

/-- A pair is live and nobody holds a lock. -/
def sampleWorld : World where
  disk := place (place (fun _ => none) "corpus.leann" (some ⟨[1],[],0⟩)) "corpus.docs" (some ⟨[2],[],0⟩)
  locks := fun _ => none
  notes := {corpus := ["a"],build := 1,documents := "corpus.docs"}
  committed := none

/-- The locks are taken, the names are chosen, and the first question whether
to stop is answered with yes. -/
def cancelled : World×HostProgram (Except Fault Unit) :=
  replay (respond "0") (List.replicate 16 none++some (text "stop")::List.replicate 6 none)
    (sampleWorld,build sampleRequest "corpus.leann" "corpus.docs")

/-- What a program has thrown. -/
def thrownBy : HostProgram (Except Fault Unit) → Option Exception
  | .done (.error (.thrown e)) => some e
  | _ => none

/-- It has returned then. -/
theorem thrownBy_eq {program : HostProgram (Except Fault Unit)} {e : Exception}
    (h : thrownBy program=some e) : program=.done (.error (.thrown e)) := by
  cases program with
  | call op next => cases h
  | done result =>
    cases result with
    | ok _ => cases h
    | error fault =>
      cases fault with
      | thrown e' =>
        cases Option.some.inj h
        rfl
      | _ => cases h

/-- A build that is cancelled leaves the pair as it was and no lock. -/
theorem build_fail_closed_cancelled : Phase sampleWorld "corpus.leann" "corpus.docs" cancelled.1 ∧
    (∃ paths,Ended sampleWorld "corpus.leann" "corpus.docs" paths cancelled.1
      (.error (.thrown ⟨.buildCancelled,"build cancelled during writing documents"⟩))) ∧
    TemporariesGone cancelled.1 ∧ Releasing sampleWorld cancelled.1 [] := by
  have unique : UniqueTokens {text "0"} "corpus.leann" "corpus.docs" := by
    refine ⟨?_,?_,?_⟩
    · simp only [Set.mem_singleton_iff,forall_eq]
      unfold IsHexDigit
      decide
    · simp only [Set.mem_singleton_iff,forall_eq]
      decide
    · simp only [Set.mem_singleton_iff,forall_eq]
      decide
  have numbered : Numbered sampleWorld := by
    intro path artifact h
    simp only [sampleWorld,place_apply] at h
    split at h
    · rw [←Option.some.inj h]
      exact Nat.zero_lt_one
    · split at h
      · rw [←Option.some.inj h]
        exact Nat.zero_lt_one
      · cases h
  have path := replay_run (respond_allowed (Set.mem_singleton (text "0")))
    (List.replicate 16 none++some (text "stop")::List.replicate 6 none)
    (sampleWorld,build sampleRequest "corpus.leann" "corpus.docs")
  have begun : Begun sampleWorld sampleRequest.documents "corpus.docs" := rfl
  have hclosed := build_fail_closed begun numbered unique path
  have hdone : cancelled.2=.done (.error (.thrown ⟨.buildCancelled,
    "build cancelled during writing documents"⟩)) := thrownBy_eq (by decide +kernel)
  exact ⟨hclosed.1,hclosed.2.2 _ hdone⟩

end Leann.BuildFailure
