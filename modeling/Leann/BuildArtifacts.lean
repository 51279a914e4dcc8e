import Leann.BuildSteps

/-!
# The two artifacts of a build before they are published

A build writes under two names that nobody used. When the preparation
returns, the temporary store holds the documents under their identity, and
the temporary index is one that loads and names the same identity.
-/

namespace Leann.BuildArtifacts

open BinaryFloat Effects Exceptions Outcomes Format Documents IndexFile Search IndexBuilder
  ArtifactPublisher Host BuildProgram BuildSteps
open BuildLocks hiding World building
open Embeddings hiding Unit

section Writers

/-- The header keeps what the file holds. -/
theorem writeHeader_extends (identity : PairIdentity) (count : ℕ) :
    Extends (writeHeader identity count) :=
  (Extends.writeBytes _).bind (fun _ => (Extends.writeLe _).bind (fun _ =>
    (Extends.writeBytes _).bind (fun _ => Extends.writeLe _)))

/-- Taking the digest of the file keeps it. -/
theorem sha256FilePrefix_extends (path : Text) : Extends (Checksum.sha256FilePrefix path) := by
  intro file value after h
  rw [((Checksum.sha256FilePrefix_ok path file after value).mp h).2.2]

/-- So do the offsets. -/
theorem writeOffsets_extends (offset : ℕ) (documents : List Text) :
    Extends (writeOffsets offset documents) := by
  induction documents generalizing offset with
  | nil => exact .pure ()
  | cons document documents ih =>
    exact (Extends.lift _).bind (fun _ => (Extends.writeLe _).bind (fun _ => ih _))

/-- So does the table. -/
theorem writeMetadata_extends (path : Text) (documents : List Text) (checksums : List UInt32) :
    Extends (writeMetadata path documents checksums) :=
  (sha256FilePrefix_extends path).bind (fun _ => (Extends.writeBytes _).bind (fun _ =>
    (Extends.writeLe _).bind (fun _ => (writeOffsets_extends 0 documents).bind (fun _ =>
      Extends.writeVector checksums))))

/-- So do the documents. -/
theorem writeDocuments_extends (documents : List Text) : Extends (writeDocuments documents) := by
  induction documents with
  | nil => exact .pure ()
  | cons document documents ih => exact (Extends.writeBytes _).bind (fun _ => ih)

/-- So does the payload. -/
theorem writePayload_extends (path : Text) (documents : List Text) :
    Extends (writePayload path documents) :=
  (sha256FilePrefix_extends path).bind (fun _ => (Extends.writeBytes _).bind (fun _ =>
    writeDocuments_extends documents))

/-- So do the fields of an index. -/
theorem writeIndex_extends (fields : Index) (count : ℕ) : Extends (writeIndex fields count) := by
  have hlayers : ∀ layers : List UpperLayer,Extends (writeUpperLayers layers) := by
    intro layers
    induction layers with
    | nil => exact .pure ()
    | cons layer layers ih =>
      have hlayer : Extends (writeUpperLayer layer) := by
        unfold writeUpperLayer
        repeat' first | exact .writeLe _ | exact .writeVector _ | refine Extends.bind ?_ (fun _ => ?_)
      exact hlayer.bind (fun _ => ih)
  have hparameters : ∀ parameters : Parameters,Extends (writeParameters parameters) := by
    intro parameters
    unfold writeParameters
    repeat' first | exact .writeLe _ | refine Extends.bind ?_ (fun _ => ?_)
  have hcounts : Extends (writeCounts fields count) := by
    unfold writeCounts
    repeat' first | exact .writeLe _ | exact .lift _ | refine Extends.bind ?_ (fun _ => ?_)
  have hcodes : Extends (writeCodes fields) := by
    unfold writeCodes
    split
    · exact .writeVector _
    · exact (Extends.writeVector _).bind (fun _ => .writeBytes _)
  refine (Extends.writeBytes _).bind (fun _ => (Extends.writeLe _).bind (fun _ =>
    (Extends.writeLe _).bind (fun _ => (Extends.writeBytes _).bind (fun _ =>
      (hparameters _).bind (fun _ => hcounts.bind (fun _ => (Extends.writeBytes _).bind (fun _ =>
        (Extends.writeVector _).bind (fun _ => (Extends.writeVector _).bind (fun _ =>
          (hlayers _).bind (fun _ => hcodes))))))))))

/-- So does the digest behind them. -/
theorem appendSha256Footer_extends (path : Text) : Extends (Checksum.appendSha256Footer path) := by
  refine (sha256FilePrefix_extends path).bind (fun computed => ?_)
  intro file value after h
  dsimp only at h
  split at h
  · rw [←(Prod.mk.inj (Except.ok.inj h)).2]
    exact List.prefix_append _ _
  · cases h

/-- The three stages make the file that `write` returns. -/
theorem write_of_stages {path : Text} {documents : List Text} {identity : PairIdentity}
    {header metadata file : Text} (hi : isZeroIdentity identity=false)
    (hh : writeHeader identity documents.length []=.ok ((),header))
    (hm : writeMetadata path documents (documents.map Checksum.crc32c) header=.ok ((),metadata))
    (hp : writePayload path documents metadata=.ok ((),file)) :
    Documents.write path documents identity=.ok file := by
  simp only [Documents.write,bind_eq_ok,throwIf_ok,Bool.not_eq_true,exists_const,Prod.exists,
    pure_eq_ok,output_bind_ok]
  exact ⟨hi,(),file,⟨(),header,hh,(),metadata,hm,hp⟩,rfl⟩

end Writers

/-- A store that was written opens with the identity it was given. -/
theorem written_identity {path other : Text} {documents : List Text} {identity : PairIdentity}
    {file : Text} {store : DocumentStore} (hw : Documents.write path documents identity=.ok file)
    (ho : openStore other file=.ok store) : store.pairIdentity=identity := by
  obtain ⟨hi,ht,hf,hfile⟩ := (write_ok path documents identity file).mp hw
  have hopen := (openStore_ok other file _).mpr ⟨imageOf documents identity hi ht hf,hfile.symm,rfl⟩
  rw [Except.ok.inj (ho.symm.trans hopen)]
  rfl

section Phases

/-- The names a build may choose: nobody used them when it began. -/
structure Fresh (start : World) (index documents : Text) (paths : ArtifactPaths) : Prop where
  /-- The index it is to replace. -/
  index_eq : paths.index=index
  /-- The document store it is to replace. -/
  documents_eq : paths.documents=documents
  /-- The names differ. -/
  distinct : paths.Distinct
  /-- The name of the new index is unused. -/
  temporaryIndex : start.disk paths.temporaryIndex=none
  /-- The name of the new document store is unused. -/
  temporaryDocuments : start.disk paths.temporaryDocuments=none
  /-- The name for the previous index is unused. -/
  indexBackup : start.disk paths.indexBackup=none
  /-- The name for the previous document store is unused. -/
  documentsBackup : start.disk paths.documentsBackup=none
  /-- The temporaries are beside their targets. -/
  temporary : ∃ first second,paths.temporaryIndex=index++".tmp."++first ∧
    paths.temporaryDocuments=documents++".tmp."++second
  /-- The backups are beside their targets. -/
  backup : ∃ first second,paths.indexBackup=index++".bak."++first ∧
    paths.documentsBackup=documents++".bak."++second

/-- The targets and all files that were there are as they were. -/
def Kept (start : World) (index documents : Text) (disk : Disk Artifact) : Prop :=
  ∀ path,path=index ∨ path=documents ∨ (start.disk path).isSome → disk path=start.disk path

/-- Two artifacts that a build of some documents has verified. -/
structure Verified (corpus : List Text) (index documents : Artifact) : Prop where
  /-- The index was made from the documents. -/
  index_corpus : index.corpus=corpus
  /-- So was the document store. -/
  documents_corpus : documents.corpus=corpus
  /-- They are a pair, and the store was written with the identity of the
  documents. -/
  pair : ∃ path documentsPath loaded store,load path index.bytes=.ok loaded ∧
    openStore documentsPath documents.bytes=.ok store ∧ validateDocumentStore loaded store=.ok () ∧
    makePairIdentity corpus=.ok loaded.pairIdentity ∧
    Documents.write documentsPath corpus loaded.pairIdentity=.ok documents.bytes

/-- The files in front of a publication: two verified artifacts under the
temporary names, and nothing else is new. -/
structure Ready (start : World) (index documents : Text) (paths : ArtifactPaths)
    (newIndex newDocuments : Artifact) (disk : Disk Artifact) : Prop where
  /-- The names were unused. -/
  fresh : Fresh start index documents paths
  /-- The new index. -/
  index_at : disk paths.temporaryIndex=some newIndex
  /-- The new document store. -/
  documents_at : disk paths.temporaryDocuments=some newDocuments
  /-- The other files are as they were. -/
  others : ∀ path,path≠paths.temporaryIndex → path≠paths.temporaryDocuments →
    disk path=start.disk path
  /-- The artifacts were verified. -/
  verified : Verified start.notes.corpus newIndex newDocuments
  /-- This build created the new index. -/
  index_build : newIndex.build=start.notes.build

/-- In front of the publication the targets were as when the build began. -/
theorem Ready.live {start : World} {index documents : Text} {paths : ArtifactPaths}
    {newIndex newDocuments : Artifact} {before : Disk Artifact}
    (ready : Ready start index documents paths newIndex newDocuments before) :
    before paths.index=start.disk index ∧ before paths.documents=start.disk documents := by
  have hne := ready.fresh.distinct.ne
  have hindex := ready.others _ hne.1.2.1.symm hne.2.1.1.symm
  have hdocuments := ready.others _ hne.1.2.2.1.symm hne.2.1.2.1.symm
  constructor
  · rw [hindex,ready.fresh.index_eq]
  · rw [hdocuments,ready.fresh.documents_eq]

/-- A document store that is new, live or parked is the previous one or the
new one. -/
def Stored (paths : ArtifactPaths) (before disk : Disk Artifact) : Prop :=
  ∀ path,path=paths.temporaryDocuments ∨ path=paths.documents ∨ path=paths.documentsBackup →
    disk path=none ∨ disk path=before paths.temporaryDocuments ∨ disk path=before paths.documents

/-- How far a build is, as far as others can see. -/
inductive Phase (start : World) (index documents : Text) (world : World) : Prop where
  /-- The publication has not begun. -/
  | preparing (before : world.notes.publishing=false) (kept : Kept start index documents world.disk)
      (committed : world.committed=start.committed)
  /-- The new index is not live yet, or the previous pair is live again. -/
  | uncommitted {paths : ArtifactPaths} {newIndex newDocuments : Artifact} {before : Disk Artifact}
      (publishing : world.notes.publishing=true)
      (ready : Ready start index documents paths newIndex newDocuments before)
      (shape : Uncommitted paths before world.disk) (stored : Stored paths before world.disk)
      (committed : world.committed=start.committed)
  /-- The new pair is live. -/
  | committed {paths : ArtifactPaths} {newIndex newDocuments : Artifact} {before : Disk Artifact}
      (publishing : world.notes.publishing=true)
      (ready : Ready start index documents paths newIndex newDocuments before)
      (shape : Committed paths before world.disk)
      (committed : world.committed=some (newIndex,newDocuments))

/-- Unless it has published them, the files the build opened are gone, or
could not be removed. -/
def TemporariesGone (world : World) : Prop := world.notes.publishing=false →
  ∀ path∈world.notes.opened,world.disk path=none ∨ path∈world.notes.unremoved

/-- What a build asks of its next call, apart from what it does to files. -/
def Timely (world : World) : HostOp → Prop
  | .shouldCancel => world.notes.publishing=false
  | .lock (.createDirectory _) => True
  | .lock (.writeOwner lock) => lock∈world.notes.locks.created
  | .lock (.removeOwner lock) => lock∈world.notes.locks.created
  | .lock (.removeDirectory lock) => lock∈world.notes.locks.created ∧ TemporariesGone world
  | _ => True

/-- What every call of a build respects. -/
def Careful (start : World) (index documents : Text) : Promise HostOp HostOp.Answer World :=
  fun op before _ after => Timely before op ∧ Phase start index documents after

end Phases

section Rules

variable {tokens : Set Text} {start : World} {index documents : Text} {α β : Type}

/-- A build keeps its promises in front of a result. -/
abbrev Builds (tokens : Set Text) (start : World) (index documents : Text) {α : Type}
    (program : HostProgram α) (post : α → World → Prop) (world : World) : Prop :=
  Keeps (building tokens) Eq (Careful start index documents) program post world

/-- The same for a program that may throw. -/
abbrev Attempts (tokens : Set Text) (start : World) (index documents : Text) {α : Type}
    (program : Throwing α) (post : Except Fault α → World → Prop) (world : World) : Prop :=
  Builds tokens start index documents program.run post world

/-- Programs that may throw, one behind the other. -/
theorem attempts_bind (mid : α → World → Prop) {program : Throwing α} {rest : α → Throwing β}
    {post : Except Fault β → World → Prop} {world : World}
    (first : Attempts tokens start index documents program (fun result after =>
      (∀ value,result=.ok value → mid value after) ∧
        ∀ fault,result=.error fault → post (.error fault) after) world)
    (second : ∀ value after,mid value after →
      Attempts tokens start index documents (rest value) post after) :
    Attempts tokens start index documents (program>>=rest) post world := by
  refine Keeps.bind _ (fun _ => rfl) first (fun result after h => ?_)
  cases result with
  | error fault =>
    intro seen same
    subst same
    exact h.2 fault rfl
  | ok value => exact second value after (h.1 value rfl)

/-- Quiet programs leave everything as it is. -/
theorem attempts_quiet {returns : α → Prop} {program : Throwing α} {world : World}
    (h : Issues Quiet returns program) (before : world.notes.publishing=false)
    (phase : Phase start index documents world) :
    Attempts tokens start index documents program
      (fun result after => after=world ∧ ∀ value,result=.ok value → returns value) world := by
  have hkeeps : Builds tokens start index documents program (fun result after =>
      (∀ value,result=.ok value → returns value) ∧ after=world) world := by
    refine Program.All.keeps h rfl (fun _ _ h moved => moved.symm.trans h)
      (fun op seen answer after hq hs effect => ?_)
    have same := quiet_step hq effect
    subst hs
    subst same
    refine ⟨⟨?_,phase⟩,rfl⟩
    cases op with
    | shouldCancel => exact before
    | lock op => cases hq
    | _ => trivial
  exact hkeeps.mono (fun _ _ _ _ h => h) (fun _ _ h => ⟨h.2,h.1⟩)

/-- A quiet call that is answered truthfully. -/
theorem builds_ask {op : HostOp} {world : World} (h : Quiet op)
    (before : world.notes.publishing=false) (phase : Phase start index documents world) :
    Builds tokens start index documents (perform op) (fun answer after => after=world ∧
      op.Effect tokens world.notes.created world.toMachine answer world.toMachine) world := by
  intro seen moved answer after effect
  subst moved
  have same := quiet_step h effect
  subst same
  refine ⟨⟨?_,phase⟩,fun later same => ?_⟩
  · cases op with
    | shouldCancel => exact before
    | lock op => cases h
    | _ => trivial
  · subst same
    exact ⟨rfl,effect.1⟩

/-- Such a call in a program that may throw. -/
theorem attempts_ask {op : HostOp} {world : World} {rest : op.Answer → Throwing β}
    {post : Except Fault β → World → Prop} (h : Quiet op) (before : world.notes.publishing=false)
    (phase : Phase start index documents world)
    (second : ∀ answer,op.Effect tokens world.notes.created world.toMachine answer world.toMachine →
      Attempts tokens start index documents (rest answer) post world) :
    Attempts tokens start index documents
      ((monadLift (perform op : HostProgram op.Answer) : Throwing op.Answer)>>=rest) post world := by
  intro seen moved answer after effect
  subst moved
  have same := quiet_step h effect
  subst same
  refine ⟨⟨?_,phase⟩,second answer effect.1⟩
  cases op with
  | shouldCancel => exact before
  | lock op => cases h
  | _ => trivial

end Rules

section Writing

/-- Putting a file where it is changes nothing. -/
theorem place_self {File : Type} (disk : Disk File) (path : Text) : place disk path (disk path)=disk := by
  funext name
  rw [place_apply]
  split
  · rename_i h
    rw [h]
  · rfl

/-- A build has begun. -/
def Begun (start : World) (corpus : List Text) (documents : Text) : Prop :=
  start.notes={corpus := corpus,build := start.notes.build,documents := documents}

/-- It has its locks. -/
structure Entered (start entered : World) : Prop where
  /-- The files are as they were. -/
  disk : entered.disk=start.disk
  /-- So is the pair committed last. -/
  committed : entered.committed=start.committed
  /-- It has done nothing but take locks. -/
  notes : entered.notes={start.notes with locks := entered.notes.locks}

/-- It has written to its temporaries. -/
structure Written (entered : World) (paths : ArtifactPaths) (world : World) : Prop where
  /-- The locks are as they were. -/
  locks : world.locks=entered.locks
  /-- So is the pair committed last. -/
  committed : world.committed=entered.committed
  /-- Files were opened and nothing else was done. -/
  notes : world.notes={entered.notes with opened := world.notes.opened}
  /-- These are the temporaries. -/
  opened : ∀ path∈world.notes.opened,path=paths.temporaryIndex ∨ path=paths.temporaryDocuments
  /-- The other files are as they were. -/
  others : ∀ path,path≠paths.temporaryIndex → path≠paths.temporaryDocuments →
    world.disk path=entered.disk path
  /-- This build created the temporaries. -/
  created : ∀ path,path=paths.temporaryIndex ∨ path=paths.temporaryDocuments →
    ∀ artifact,world.disk path=some artifact →
      artifact.corpus=entered.notes.corpus ∧ artifact.build=entered.notes.build

variable {tokens : Set Text} {start entered world : World} {index documents : Text}
variable {corpus : List Text} {paths : ArtifactPaths}

/-- Nothing is written yet. -/
theorem written_refl (hb : Begun start corpus documents) (he : Entered start entered)
    (fresh : Fresh start index documents paths) : Written entered paths entered where
  locks := rfl
  committed := rfl
  notes := rfl
  opened path h := by
    rw [he.notes,hb] at h
    cases h
  others _ _ _ := rfl
  created path hp artifact ha := by
    rw [he.disk] at ha
    rcases hp with hp|hp
    · rw [hp,fresh.temporaryIndex] at ha
      cases ha
    · rw [hp,fresh.temporaryDocuments] at ha
      cases ha

/-- Others see nothing of it. -/
theorem Written.phase (hw : Written entered paths world) (hb : Begun start corpus documents)
    (he : Entered start entered) (fresh : Fresh start index documents paths) :
    world.notes.publishing=false ∧ Phase start index documents world := by
  have before : world.notes.publishing=false := by
    rw [hw.notes,he.notes,hb]
  have hne := fresh.distinct.ne
  refine ⟨before,.preparing before (fun path hp => ?_) (hw.committed.trans he.committed)⟩
  have hindex : path≠paths.temporaryIndex := by
    intro same
    rcases hp with hp|hp|hp
    · exact hne.1.2.1 (same.symm.trans (hp.trans fresh.index_eq.symm))
    · exact hne.1.2.2.1 (same.symm.trans (hp.trans fresh.documents_eq.symm))
    · rw [same,fresh.temporaryIndex] at hp
      cases hp
  have hdocuments : path≠paths.temporaryDocuments := by
    intro same
    rcases hp with hp|hp|hp
    · exact hne.2.1.1 (same.symm.trans (hp.trans fresh.index_eq.symm))
    · exact hne.2.1.2.1 (same.symm.trans (hp.trans fresh.documents_eq.symm))
    · rw [same,fresh.temporaryDocuments] at hp
      cases hp
  rw [hw.others path hindex hdocuments,he.disk]

/-- A temporary may be replaced by a file this build created. -/
theorem Written.place (hw : Written entered paths world) {after : World} {path : Text}
    (hp : path=paths.temporaryIndex ∨ path=paths.temporaryDocuments) {entry : Option Artifact}
    (hc : ∀ artifact,entry=some artifact →
      artifact.corpus=entered.notes.corpus ∧ artifact.build=entered.notes.build)
    (disk : after.disk=place world.disk path entry) (locks : after.locks=world.locks)
    (committed : after.committed=world.committed)
    (notes : after.notes={world.notes with opened := after.notes.opened})
    (opened : ∀ other∈after.notes.opened,other∈world.notes.opened ∨ other=path) :
    Written entered paths after where
  locks := locks.trans hw.locks
  committed := committed.trans hw.committed
  notes := by
    rw [notes,hw.notes]
  opened other ho := by
    rcases opened other ho with ho|ho
    · exact hw.opened other ho
    · rw [ho]
      exact hp
  others other hi hd := by
    have hne : other≠path := by
      rintro rfl
      exact hp.elim hi hd
    rw [disk,place_apply,if_neg hne]
    exact hw.others other hi hd
  created other ho artifact ha := by
    rw [disk,place_apply] at ha
    split at ha
    · exact hc artifact ha
    · exact hw.created other ho artifact ha

/-- An empty file of this build is one it created. -/
theorem Written.created_eq (hw : Written entered paths world) :
    world.notes.created=entered.notes.created := by
  rw [hw.notes]
  rfl

/-- A program that writes only to the temporaries. -/
abbrev Writes (tokens : Set Text) (start entered : World) (index documents : Text)
    (paths : ArtifactPaths) {α : Type} (program : Throwing α) (returns : α → World → Prop)
    (world : World) : Prop :=
  Attempts tokens start index documents program (fun result after =>
    Written entered paths after ∧ ∀ value,result=.ok value → returns value after) world

/-- Such programs one behind the other. -/
theorem writes_bind {α β : Type} (mid : α → World → Prop) {program : Throwing α}
    {rest : α → Throwing β} {returns : β → World → Prop}
    (first : Writes tokens start entered index documents paths program mid world)
    (second : ∀ value after,Written entered paths after → mid value after →
      Writes tokens start entered index documents paths (rest value) returns after) :
    Writes tokens start entered index documents paths (program>>=rest) returns world := by
  refine attempts_bind (fun value after => Written entered paths after ∧ mid value after)
    (first.mono (fun _ _ _ _ h => h) (fun result after h => ⟨fun value hv => ⟨h.1,h.2 value hv⟩,
      fun fault hf => ⟨h.1,fun value hv => nomatch hv⟩⟩)) (fun value after h => second value after h.1 h.2)

variable (hb : Begun start corpus documents) (he : Entered start entered)
variable (fresh : Fresh start index documents paths)

include hb he fresh

/-- A quiet program writes nothing. -/
theorem writes_quiet {α : Type} {returns : α → Prop} {program : Throwing α}
    (hw : Written entered paths world) (h : Issues Quiet returns program) :
    Writes tokens start entered index documents paths program
      (fun value after => after=world ∧ returns value) world := by
  obtain ⟨before,phase⟩ := hw.phase hb he fresh
  refine (attempts_quiet h before phase).mono (fun _ _ _ _ h => h) (fun result after hr => ?_)
  obtain ⟨rfl,hr⟩ := hr
  exact ⟨hw,fun value hv => ⟨rfl,hr value hv⟩⟩

/-- A file that is read. -/
theorem readFile_spec (hw : Written entered paths world) (path : Text) :
    Writes tokens start entered index documents paths (rethrow (perform (.readFile path)))
      (fun bytes after => after=world ∧ (world.disk path).map Artifact.bytes=some bytes) world := by
  obtain ⟨before,phase⟩ := hw.phase hb he fresh
  refine Keeps.bind _ (fun _ => rfl) (builds_ask trivial before phase) (fun answer after h => ?_)
  obtain ⟨rfl,-,hbytes⟩ := h
  intro seen moved
  subst moved
  refine ⟨hw,fun value hv => ⟨rfl,hbytes value ?_⟩⟩
  cases answer with
  | error e => cases hv
  | ok bytes => exact congrArg Except.ok (Except.ok.inj hv)

/-- A stream is opened on a temporary. -/
theorem openStream_spec (hw : Written entered paths world) {path : Text}
    (hp : path=paths.temporaryIndex ∨ path=paths.temporaryDocuments) (truncate : Bool) (message : Text) :
    Writes tokens start entered index documents paths (openStream path truncate message)
      (fun _ after => after.disk=place world.disk path
        (some (if truncate then entered.notes.created
          else (world.disk path).getD entered.notes.created))) world := by
  intro seen moved answer after effect
  subst moved
  obtain ⟨⟨hlocks,hdisk⟩,hnotes,hcommitted⟩ := effect
  have hopened : ∀ other∈after.notes.opened,other∈world.notes.opened ∨ other=path := by
    intro other ho
    rw [hnotes] at ho
    exact (List.mem_append.mp ho).imp_right List.mem_singleton.mp
  have hrecord : after.notes={world.notes with opened := after.notes.opened} := by
    rw [hnotes]
    rfl
  have hcreated : world.notes.created=entered.notes.created := hw.created_eq
  cases answer with
  | false =>
    have hsame : after.disk=place world.disk path (world.disk path) := hdisk.trans (place_self _ _).symm
    have hwritten := hw.place hp (hw.created path hp) hsame hlocks hcommitted hrecord hopened
    refine ⟨⟨trivial,(hwritten.phase hb he fresh).2⟩,fun later same => ?_⟩
    subst same
    exact ⟨hwritten,fun _ h => nomatch h⟩
  | true =>
    have hplaced : after.disk=place world.disk path (some (if truncate then entered.notes.created
        else (world.disk path).getD entered.notes.created)) := by
      rw [←hcreated]
      refine hdisk.trans ?_
      cases truncate <;> rfl
    have hown : ∀ artifact,some (if truncate then entered.notes.created
        else (world.disk path).getD entered.notes.created)=some artifact →
        artifact.corpus=entered.notes.corpus ∧ artifact.build=entered.notes.build := by
      intro artifact ha
      rw [←Option.some.inj ha]
      split
      · exact ⟨rfl,rfl⟩
      · cases hd : world.disk path with
        | none => exact ⟨rfl,rfl⟩
        | some old => exact hw.created path hp old hd
    have hwritten := hw.place hp hown hplaced hlocks hcommitted hrecord hopened
    refine ⟨⟨trivial,(hwritten.phase hb he fresh).2⟩,fun later same => ?_⟩
    subst same
    exact ⟨hwritten,fun _ _ => hplaced⟩

/-- A writer is run at the end of a temporary. -/
theorem extend_spec (hw : Written entered paths world) {path : Text}
    (hp : path=paths.temporaryIndex ∨ path=paths.temporaryDocuments) {artifact : Artifact}
    (ha : world.disk path=some artifact) {writer : Output Unit} (extends' : Extends writer) :
    Writes tokens start entered index documents paths (extend path artifact.bytes writer)
      (fun _ after => ∃ bytes,writer artifact.bytes=.ok ((),bytes) ∧
        after.disk=place world.disk path (some {artifact with bytes := bytes})) world := by
  unfold extend
  cases hr : writer artifact.bytes with
  | error fault =>
    intro seen moved
    subst moved
    exact ⟨hw,fun _ h => nomatch h⟩
  | ok written =>
    intro seen moved answer after effect
    subst moved
    obtain ⟨⟨hlocks,part,hpart,hwhole,hdisk⟩,hnotes,hcommitted⟩ := effect
    rw [ha] at hdisk
    have hown : ∀ other,(some artifact).map (fun artifact : Artifact =>
        {artifact with bytes := artifact.bytes++part})=some other →
        other.corpus=entered.notes.corpus ∧ other.build=entered.notes.build := by
      intro other ho
      rw [←Option.some.inj ho]
      exact hw.created path hp artifact ha
    have hwritten := hw.place hp hown hdisk hlocks hcommitted (by rw [hnotes]; rfl)
      (fun other ho => .inl (by rw [hnotes] at ho; exact ho))
    refine ⟨⟨trivial,(hwritten.phase hb he fresh).2⟩,fun later same => ?_⟩
    subst same
    refine ⟨hwritten,fun _ hok => ⟨written.2,rfl,?_⟩⟩
    have hanswer : answer=.ok () := by
      cases answer with
      | error e => cases hok
      | ok value => rfl
    obtain ⟨tail,htail⟩ := extends' artifact.bytes () written.2 hr
    rw [hdisk,hwhole hanswer,←htail,List.drop_left]
    rfl

/-- A later part of a file is written behind what it holds. -/
theorem appendStage_spec (hw : Written entered paths world) {path : Text}
    (hp : path=paths.temporaryIndex ∨ path=paths.temporaryDocuments) {artifact : Artifact}
    (ha : world.disk path=some artifact) {writer : Output Unit} (extends' : Extends writer)
    (message : Text) :
    Writes tokens start entered index documents paths (appendStage path message writer)
      (fun _ after => ∃ bytes,writer artifact.bytes=.ok ((),bytes) ∧
        after.disk=place world.disk path (some {artifact with bytes := bytes})) world := by
  refine writes_bind _ (readFile_spec hb he fresh hw path) (fun file after hafter hread => ?_)
  obtain ⟨rfl,hfile⟩ := hread
  rw [ha] at hfile
  cases Option.some.inj hfile
  refine writes_bind _ (openStream_spec hb he fresh hafter hp false message)
    (fun _ opened hopened hdisk => ?_)
  have hhere : opened.disk path=some artifact := by
    rw [hdisk,place_apply,if_pos rfl,ha]
    rfl
  refine (extend_spec hb he fresh hopened hp hhere extends').mono (fun _ _ _ _ h => h)
    (fun result last h => ⟨h.1,fun value hv => ?_⟩)
  obtain ⟨bytes,hbytes,hlast⟩ := h.2 value hv
  refine ⟨bytes,hbytes,hlast.trans ?_⟩
  rw [hdisk]
  funext name
  rw [place_apply,place_apply,place_apply]
  split <;> rfl

/-- The temporary document store holds the documents under their identity. -/
theorem writeDocumentStore_spec (hw : Written entered paths world) :
    Writes tokens start entered index documents paths
      (writeDocumentStore paths.temporaryDocuments corpus) (fun _ after => ∃ identity bytes,
        makePairIdentity corpus=.ok identity ∧
        Documents.write paths.temporaryDocuments corpus identity=.ok bytes ∧
        after.disk paths.temporaryDocuments=some {entered.notes.created with bytes := bytes}) world := by
  have hp : paths.temporaryDocuments=paths.temporaryIndex ∨
      paths.temporaryDocuments=paths.temporaryDocuments := .inr rfl
  unfold writeDocumentStore
  refine writes_bind _ (writes_quiet hb he fresh hw (Issues.computed (fun _ h => h)))
    (fun identity after hafter h => ?_)
  obtain ⟨rfl,hidentity⟩ := h
  refine writes_bind _ (writes_quiet hb he fresh hafter (Issues.computed (fun _ h => h)))
    (fun _ after' hafter' h => ?_)
  obtain ⟨rfl,hnonzero⟩ := h
  rw [throwIf_ok,Bool.not_eq_true] at hnonzero
  refine writes_bind _ (openStream_spec hb he fresh hafter' hp true _) (fun _ opened hopened hd => ?_)
  have hnew : opened.disk paths.temporaryDocuments=some entered.notes.created := by
    rw [hd,place_apply,if_pos rfl]
    rfl
  refine writes_bind _ (extend_spec hb he fresh hopened hp hnew (writeHeader_extends _ _))
    (fun _ first hfirst h => ?_)
  obtain ⟨header,hheader,hd⟩ := h
  have hat : first.disk paths.temporaryDocuments=some {entered.notes.created with bytes := header} := by
    rw [hd,place_apply,if_pos rfl]
  refine writes_bind _ (appendStage_spec hb he fresh hfirst hp hat (writeMetadata_extends _ _ _) _)
    (fun _ second hsecond h => ?_)
  obtain ⟨metadata,hmetadata,hd⟩ := h
  have hat : second.disk paths.temporaryDocuments=
      some {entered.notes.created with bytes := metadata} := by
    rw [hd,place_apply,if_pos rfl]
  refine (appendStage_spec hb he fresh hsecond hp hat (writePayload_extends _ _) _).mono
    (fun _ _ _ _ h => h) (fun result last h => ⟨h.1,fun value hv => ?_⟩)
  obtain ⟨bytes,hpayload,hd⟩ := h.2 value hv
  refine ⟨identity,bytes,hidentity,write_of_stages hnonzero hheader hmetadata hpayload,?_⟩
  rw [hd,place_apply,if_pos rfl]

/-- The temporary index holds the fields and their digest. -/
theorem writeIndexFile_spec (hw : Written entered paths world) (fields : Index) (count : ℕ) :
    Writes tokens start entered index documents paths
      (writeIndexFile paths.temporaryIndex fields count) (fun _ after => ∃ body bytes,
        writeIndex fields count []=.ok ((),body) ∧
        Checksum.appendSha256Footer paths.temporaryIndex body=.ok ((),bytes) ∧
        after.disk paths.temporaryIndex=some {entered.notes.created with bytes := bytes} ∧
        after.disk paths.temporaryDocuments=world.disk paths.temporaryDocuments) world := by
  have hp : paths.temporaryIndex=paths.temporaryIndex ∨
      paths.temporaryIndex=paths.temporaryDocuments := .inl rfl
  have hne : paths.temporaryDocuments≠paths.temporaryIndex := fresh.distinct.ne.1.1.symm
  unfold writeIndexFile
  refine writes_bind _ (openStream_spec hb he fresh hw hp true _) (fun _ opened hopened hd => ?_)
  have hnew : opened.disk paths.temporaryIndex=some entered.notes.created := by
    rw [hd,place_apply,if_pos rfl]
    rfl
  have hstore : opened.disk paths.temporaryDocuments=world.disk paths.temporaryDocuments := by
    rw [hd,place_apply,if_neg hne]
  refine writes_bind _ (extend_spec hb he fresh hopened hp hnew (writeIndex_extends _ _))
    (fun _ first hfirst h => ?_)
  obtain ⟨body,hbody,hd⟩ := h
  have hat : first.disk paths.temporaryIndex=some {entered.notes.created with bytes := body} := by
    rw [hd,place_apply,if_pos rfl]
  have hstore' : first.disk paths.temporaryDocuments=world.disk paths.temporaryDocuments := by
    rw [hd,place_apply,if_neg hne,hstore]
  refine (appendStage_spec hb he fresh hfirst hp hat (appendSha256Footer_extends _) _).mono
    (fun _ _ _ _ h => h) (fun result last h => ⟨h.1,fun value hv => ?_⟩)
  obtain ⟨bytes,hbytes,hd⟩ := h.2 value hv
  refine ⟨body,bytes,hbody,hbytes,?_,?_⟩
  · rw [hd,place_apply,if_pos rfl]
  · rw [hd,place_apply,if_neg hne,hstore']

/-- A store that is opened. -/
theorem openDocumentStore_spec (hw : Written entered paths world) (path : Text) :
    Writes tokens start entered index documents paths (openDocumentStore path)
      (fun store after => after=world ∧ ∃ bytes,(world.disk path).map Artifact.bytes=some bytes ∧
        openStore path bytes=.ok store) world := by
  refine writes_bind _ (readFile_spec hb he fresh hw path) (fun file after hafter h => ?_)
  obtain ⟨rfl,hfile⟩ := h
  refine (writes_quiet hb he fresh hw (Issues.computed (fun _ h => h))).mono (fun _ _ _ _ h => h)
    (fun result last h => ⟨h.1,fun store hs => ?_⟩)
  obtain ⟨hlast,hopen⟩ := h.2 store hs
  exact ⟨hlast,file,hfile,hopen⟩

/-- An index that is loaded. -/
theorem loadIndex_spec (hw : Written entered paths world) (path : Text) :
    Writes tokens start entered index documents paths (loadIndex path)
      (fun loaded after => after=world ∧ ∃ bytes,(world.disk path).map Artifact.bytes=some bytes ∧
        load path bytes=.ok loaded) world := by
  refine writes_bind _ (readFile_spec hb he fresh hw path) (fun file after hafter h => ?_)
  obtain ⟨rfl,hfile⟩ := h
  refine (writes_quiet hb he fresh hw (Issues.computed (fun _ h => h))).mono (fun _ _ _ _ h => h)
    (fun result last h => ⟨h.1,fun loaded hs => ?_⟩)
  obtain ⟨hlast,hload⟩ := h.2 loaded hs
  exact ⟨hlast,file,hfile,hload⟩

end Writing

section Preparing

variable {tokens : Set Text} {start entered : World} {index documents : Text}
variable {request : BuildRequest} {paths : ArtifactPaths}

/-- When the preparation returns, two verified artifacts wait. -/
theorem prepare_spec (hb : Begun start request.documents documents) (he : Entered start entered)
    (fresh : Fresh start index documents paths) :
    Writes tokens start entered index documents paths (prepare request paths) (fun _ after =>
      ∃ newIndex newDocuments,Ready start index documents paths newIndex newDocuments after.disk)
      entered := by
  have hw := written_refl hb he fresh
  have hcorpus : entered.notes.corpus=start.notes.corpus := by rw [he.notes]
  have hbuild : entered.notes.build=start.notes.build := by rw [he.notes]
  have hrequest : start.notes.corpus=request.documents := by rw [hb]
  have hquiet : ∀ {α : Type} {returns : α → Prop} {program : Throwing α} {world : World},
      Written entered paths world → Issues Quiet returns program →
      Writes tokens start entered index documents paths program
        (fun value after => after=world ∧ returns value) world := fun hw h =>
    writes_quiet hb he fresh hw h
  unfold prepare
  refine writes_bind _ (hquiet hw (start_quiet _ _ _)) (fun observer _ _ h => ?_)
  obtain ⟨rfl,-⟩ := h
  refine writes_bind _ (hquiet hw (checkpoint_quiet _)) (fun _ _ _ h => ?_)
  obtain ⟨rfl,-⟩ := h
  refine writes_bind _ (writeDocumentStore_spec hb he fresh hw) (fun _ stored hstored h => ?_)
  obtain ⟨identity,file,hidentity,hfile,hstore⟩ := h
  refine writes_bind _ (openDocumentStore_spec hb he fresh hstored _) (fun store _ _ h => ?_)
  obtain ⟨rfl,bytes,hbytes,hopen⟩ := h
  rw [hstore] at hbytes
  cases Option.some.inj hbytes
  have hstored' : store.pairIdentity=identity := written_identity hfile hopen
  refine writes_bind _ (hquiet hstored (computeIndex_quiet request _ _ _)) (fun computed' _ _ h => ?_)
  obtain ⟨rfl,-⟩ := h
  obtain ⟨observer,fields,count⟩ := computed'
  refine writes_bind _ (hquiet hstored (start_quiet _ _ _)) (fun observer _ _ h => ?_)
  obtain ⟨rfl,-⟩ := h
  refine writes_bind _ (hquiet hstored (checkpoint_quiet _)) (fun _ _ _ h => ?_)
  obtain ⟨rfl,-⟩ := h
  refine writes_bind _ (writeIndexFile_spec hb he fresh hstored fields count)
    (fun _ indexed hindexed h => ?_)
  obtain ⟨body,contents,-,-,hindex,hsame⟩ := h
  rw [hstore] at hsame
  refine writes_bind _ (hquiet hindexed (start_quiet _ _ _)) (fun observer _ _ h => ?_)
  obtain ⟨rfl,-⟩ := h
  refine writes_bind _ (hquiet hindexed (checkpoint_quiet _)) (fun _ _ _ h => ?_)
  obtain ⟨rfl,-⟩ := h
  refine writes_bind _ (loadIndex_spec hb he fresh hindexed _) (fun loaded _ _ h => ?_)
  obtain ⟨rfl,bytes,hbytes,hload⟩ := h
  rw [hindex] at hbytes
  cases Option.some.inj hbytes
  refine writes_bind _ (openDocumentStore_spec hb he fresh hindexed _) (fun store' _ _ h => ?_)
  obtain ⟨rfl,bytes,hbytes,hopen'⟩ := h
  rw [hsame] at hbytes
  cases Option.some.inj hbytes
  refine writes_bind _ (hquiet hindexed (Issues.computed (fun _ h => h))) (fun _ _ _ h => ?_)
  obtain ⟨rfl,hvalid⟩ := h
  have hchecks := hvalid
  simp only [validateDocumentStore,bind_eq_ok,throwIf_ok,not_not,exists_and_left] at hchecks
  have hpair : loaded.pairIdentity=identity := hchecks.1.symm.trans (written_identity hfile hopen')
  refine writes_bind _ (hquiet hindexed (checkpoint_quiet _)) (fun _ _ _ h => ?_)
  obtain ⟨rfl,-⟩ := h
  refine writes_bind _ (hquiet hindexed (start_quiet _ _ _)) (fun _ _ _ h => ?_)
  obtain ⟨rfl,-⟩ := h
  intro seen same
  subst same
  refine ⟨hindexed,fun _ _ => ⟨_,_,fresh,hindex,hsame,fun path hi hd => ?_,?_,hbuild⟩⟩
  · rw [hindexed.others path hi hd,he.disk]
  · refine ⟨hcorpus,hcorpus,_,paths.temporaryDocuments,loaded,store',hload,hopen',hvalid,?_,?_⟩
    · rw [hrequest,hpair]
      exact hidentity
    · rw [hrequest,hpair]
      exact hfile

end Preparing

end Leann.BuildArtifacts
