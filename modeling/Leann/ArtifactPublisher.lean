import Leann.Effects
import Leann.Exceptions
import Mathlib.Tactic.SplitIfs

/-!
# Transactional publication of an index and its document store

The previous pair is renamed to backups, the new documents and then the new
index are renamed into place, and an error rolls the pair back. Every file
operation may fail. The states a publication passes through are read off
three shapes, and the outcome of each kind of return follows from them.
-/

namespace Leann.ArtifactPublisher

open Effects Exceptions

/-- What each path of the directory names, absence included. -/
abbrev Disk (File : Type) := Text → Option File

/-- The interface `ArtifactFileOperations`. -/
inductive FileOp where
  /-- Inspect whether a path exists. -/
  | pathExists (path : Text)
  /-- Move a file; the last argument only words the error. -/
  | rename (source target operation : Text)
  /-- Delete a path, reporting instead of throwing. -/
  | remove (path : Text)
  deriving DecidableEq

/-- What each operation returns. A thrown exception carries its text, and an
error code is absent on success. -/
abbrev FileOp.Answer : FileOp → Type
  | .pathExists _ => Except Text Bool
  | .rename .. => Except Text Unit
  | .remove _ => Option Text

/-- Replace what one path names. -/
def place {File : Type} (disk : Disk File) (path : Text) (entry : Option File) : Disk File :=
  fun name => if name=path then entry else disk name

/-- The atomic effect of a rename that succeeds. -/
def moved {File : Type} (disk : Disk File) (source target : Text) : Disk File :=
  place (place disk source none) target (disk source)

/-- Answer one operation, failing without any effect when a fault is given.
Removing what is absent is not an error. -/
def FileOp.effect {File : Type} (disk : Disk File) (fault : Option Text) :
    (op : FileOp) → op.Answer×Disk File
  | .pathExists path => match fault with
    | some reason => (.error reason,disk)
    | none => (.ok (disk path).isSome,disk)
  | .rename source target _ => match fault with
    | some reason => (.error reason,disk)
    | none => if (disk source).isSome then (.ok (),moved disk source target)
      else (.error "No such file or directory",disk)
  | .remove path => match fault with
    | some reason => (some reason,disk)
    | none => (none,place disk path none)

/-- Every pattern of success and failure is a run of this environment. -/
def fileSystem (File : Type) : Environment FileOp FileOp.Answer (Disk File) :=
  fun op disk answer after => ∃ fault, op.effect disk fault=(answer,after)

section Effects

variable {File : Type} {disk after : Disk File} {path source target operation : Text}

@[simp,grind =] theorem place_apply (disk : Disk File) (path : Text) (entry : Option File)
    (name : Text) : place disk path entry name=if name=path then entry else disk name := rfl

@[simp,grind =] theorem moved_apply (disk : Disk File) (source target name : Text) :
    moved disk source target name=
      if name=target then disk source else if name=source then none else disk name := rfl

/-- An inspection changes nothing and answers truthfully unless it throws. -/
theorem pathExists_cases {answer : Except Text Bool}
    (h : fileSystem File (.pathExists path) disk answer after) :
    after=disk ∧ ((∃ reason, answer=.error reason) ∨ answer=.ok (disk path).isSome) := by
  obtain ⟨fault,he⟩ := h
  cases fault <;> cases he <;> simp

/-- A rename either throws and changes nothing, or moves a present file. -/
theorem rename_cases {answer : Except Text Unit}
    (h : fileSystem File (.rename source target operation) disk answer after) :
    (∃ reason, answer=.error reason ∧ after=disk) ∨
      answer=.ok () ∧ (disk source).isSome ∧ after=moved disk source target := by
  obtain ⟨fault,he⟩ := h
  cases fault with
  | some reason => cases he; exact .inl ⟨reason,rfl,rfl⟩
  | none =>
    simp only [FileOp.effect] at he
    split at he <;> cases he
    · exact .inr ⟨rfl,‹_›,rfl⟩
    · exact .inl ⟨_,rfl,rfl⟩

/-- A removal either returns an error and changes nothing, or leaves its
path absent. -/
theorem remove_cases {answer : Option Text}
    (h : fileSystem File (.remove path) disk answer after) :
    (∃ reason, answer=some reason ∧ after=disk) ∨ answer=none ∧ after=place disk path none := by
  obtain ⟨fault,he⟩ := h
  cases fault <;> cases he
  · exact .inr ⟨rfl,rfl⟩
  · exact .inl ⟨_,rfl,rfl⟩

end Effects

/-- A program over the artifact file operations. -/
abbrev FileProgram (α : Type) := Program FileOp FileOp.Answer α

/-- Issue a rename. -/
def rename (source target operation : Text) : FileProgram (Except Text Unit) :=
  .perform (FileOp.rename source target operation)

/-- Issue a removal. -/
def remove (path : Text) : FileProgram (Option Text) := .perform (FileOp.remove path)

/-- Issue an inspection. -/
def pathExists (path : Text) : FileProgram (Except Text Bool) := .perform (FileOp.pathExists path)

/-- The six paths of one publication. -/
structure ArtifactPaths where
  /-- Complete new index, not yet visible to readers. -/
  temporaryIndex : Text
  /-- Complete new document store, not yet visible to readers. -/
  temporaryDocuments : Text
  /-- The index readers open. -/
  index : Text
  /-- The document store readers open. -/
  documents : Text
  /-- Where the previous index is parked. -/
  indexBackup : Text
  /-- Where the previous document store is parked. -/
  documentsBackup : Text

/-- The six paths in declaration order. -/
def ArtifactPaths.all (paths : ArtifactPaths) : List Text :=
  [paths.temporaryIndex,paths.temporaryDocuments,paths.index,paths.documents,
    paths.indexBackup,paths.documentsBackup]

/-- No two of the six paths coincide. -/
def ArtifactPaths.Distinct (paths : ArtifactPaths) : Prop := paths.all.Nodup

/-- The distinctness of the six paths, pair by pair. -/
theorem ArtifactPaths.Distinct.ne {paths : ArtifactPaths} (hd : paths.Distinct) :
    (paths.temporaryIndex≠paths.temporaryDocuments ∧ paths.temporaryIndex≠paths.index ∧
      paths.temporaryIndex≠paths.documents ∧ paths.temporaryIndex≠paths.indexBackup ∧
      paths.temporaryIndex≠paths.documentsBackup) ∧
    (paths.temporaryDocuments≠paths.index ∧ paths.temporaryDocuments≠paths.documents ∧
      paths.temporaryDocuments≠paths.indexBackup ∧
      paths.temporaryDocuments≠paths.documentsBackup) ∧
    (paths.index≠paths.documents ∧ paths.index≠paths.indexBackup ∧
      paths.index≠paths.documentsBackup) ∧
    (paths.documents≠paths.indexBackup ∧ paths.documents≠paths.documentsBackup) ∧
    paths.indexBackup≠paths.documentsBackup := by
  simpa [ArtifactPaths.Distinct,ArtifactPaths.all,and_assoc] using hd

/-- Membership in the six paths, spelled out. -/
theorem ArtifactPaths.mem_all {paths : ArtifactPaths} {path : Text} :
    path∈paths.all ↔ path=paths.temporaryIndex ∨ path=paths.temporaryDocuments ∨
      path=paths.index ∨ path=paths.documents ∨ path=paths.indexBackup ∨
      path=paths.documentsBackup := by
  simp [ArtifactPaths.all]

/-- How far the forward renames came. -/
structure PublishProgress where
  /-- The previous index is parked in its backup. -/
  indexBackedUp : Bool := false
  /-- The previous document store is parked in its backup. -/
  documentsBackedUp : Bool := false
  /-- The new document store is live. -/
  newDocumentsInstalled : Bool := false
  deriving DecidableEq

/-- The exceptions `publish_artifact_pair` throws. -/
inductive PublishFailure where
  /-- A live path could not be inspected; nothing was attempted. -/
  | cannotInspect (reason : Text)
  /-- The new pair did not become live and the previous one is back. -/
  | restored (cause : Text)
  /-- The new pair did not become live and a rollback step failed as well. -/
  | rollbackIncomplete (cause rollbackError : Text)
  /-- The new pair is live and a superseded backup could not be deleted. -/
  | cleanupRequired (cleanupError : Text)
  deriving DecidableEq

/-- The text of each exception. -/
def PublishFailure.what : PublishFailure → Text
  | .cannotInspect reason => reason
  | .restored cause => cause++"; previous artifact pair restored"
  | .rollbackIncomplete cause rollbackError => cause++"; rollback incomplete: "++rollbackError
  | .cleanupRequired cleanupError =>
    "new artifact pair committed; backup cleanup required: "++cleanupError

/-- Add one failed action to a list of them. -/
def appendError (destination action path reason : Text) : Text :=
  (if destination.isEmpty then destination else destination++" ")++action++" '"++path++"': "++
    reason++";"

/-- A failed action leaves a nonempty text, which is how the caller sees it. -/
theorem appendError_ne_nil (destination action path reason : Text) :
    appendError destination action path reason≠[] :=
  List.append_ne_nil_of_right_ne_nil _ (by decide)

/-- Park a live file in its backup when it was there. -/
def backUp (present : Bool) (source target operation : Text) : FileProgram (Except Text Unit) :=
  if present then rename source target operation else pure (.ok ())

/-- The forward renames, with the progress made when one of them throws. -/
def installPair (paths : ArtifactPaths) (hadIndex hadDocuments : Bool) :
    FileProgram (PublishProgress×Except Text Unit) := do
  match ← backUp hadIndex paths.index paths.indexBackup "failed to back up previous index" with
  | .error cause => pure ({},.error cause)
  | .ok () =>
  match ← backUp hadDocuments paths.documents paths.documentsBackup
      "failed to back up previous document store" with
  | .error cause => pure ({indexBackedUp := hadIndex},.error cause)
  | .ok () =>
  match ← rename paths.temporaryDocuments paths.documents "failed to publish document store" with
  | .error cause => pure ({indexBackedUp := hadIndex, documentsBackedUp := hadDocuments},.error cause)
  | .ok () =>
    let result ← rename paths.temporaryIndex paths.index "failed to publish index"
    pure (⟨hadIndex,hadDocuments,true⟩,result)

/-- Take the uncommitted documents off the live path, deleting them when
they cannot be moved back. -/
def withdrawDocuments (paths : ArtifactPaths) : FileProgram Text := do
  match ← rename paths.documents paths.temporaryDocuments
      "failed to withdraw uncommitted documents" with
  | .ok () => pure []
  | .error _ =>
    match ← remove paths.documents with
    | none => pure []
    | some reason =>
      pure (appendError [] "cannot remove uncommitted document store" paths.documents reason)

/-- Bring one backup back, noting a failure. -/
def restoreBackup (backup live operation action rollbackError : Text) : FileProgram Text := do
  match ← rename backup live operation with
  | .ok () => pure rollbackError
  | .error reason => pure (appendError rollbackError action backup reason)

/-- Undo the forward renames, documents before the index. The index stays
parked as soon as anything went wrong. -/
def rollback (paths : ArtifactPaths) (progress : PublishProgress) : FileProgram Text := do
  let withdrawn ← (if progress.newDocumentsInstalled then withdrawDocuments paths else pure [])
  let documents ← (if progress.documentsBackedUp then
      restoreBackup paths.documentsBackup paths.documents "failed to restore document backup"
        "cannot restore document backup" withdrawn
    else pure withdrawn)
  if progress.indexBackedUp && documents.isEmpty then
    restoreBackup paths.indexBackup paths.index "failed to restore index backup"
      "cannot restore index backup" documents
  else pure documents

/-- Delete one superseded backup, noting a failure. -/
def removeBackup (backedUp : Bool) (backup action cleanupError : Text) : FileProgram Text :=
  if backedUp then do
    match ← remove backup with
    | none => pure cleanupError
    | some reason => pure (appendError cleanupError action backup reason)
  else pure cleanupError

/-- The publication transaction. -/
def publishArtifactPair (paths : ArtifactPaths) : FileProgram (Except PublishFailure Unit) := do
  match ← pathExists paths.index with
  | .error reason => pure (.error (.cannotInspect reason))
  | .ok hadIndex =>
  match ← pathExists paths.documents with
  | .error reason => pure (.error (.cannotInspect reason))
  | .ok hadDocuments =>
  match ← installPair paths hadIndex hadDocuments with
  | (progress,.error cause) =>
    let rollbackError ← rollback paths progress
    pure (.error (if rollbackError.isEmpty then .restored cause
      else .rollbackIncomplete cause rollbackError))
  | (progress,.ok ()) =>
    let indexError ← removeBackup progress.indexBackedUp paths.indexBackup
      "cannot remove index backup" []
    let cleanupError ← removeBackup progress.documentsBackedUp paths.documentsBackup
      "cannot remove document backup" indexError
    pure (if cleanupError.isEmpty then .ok () else .error (.cleanupRequired cleanupError))

/-- A larger state seen as the disk a publication works on, together with a
record of the removals that failed. -/
structure DiskView (File : Type) {σ : Type} (environment : Environment FileOp FileOp.Answer σ) where
  /-- The files of a state. -/
  disk : σ → Disk File
  /-- Every step is one the file system allows. -/
  sound : ∀ {op before answer after}, environment op before answer after →
    fileSystem File op (disk before) answer (disk after)
  /-- A removal of this path has failed. -/
  failed : Text → σ → Prop
  /-- A failed removal is recorded. -/
  records : ∀ {path before reason after}, environment (.remove path) before (some reason) after →
    failed path after
  /-- The record only grows. -/
  persists : ∀ {path op before answer after}, environment op before answer after →
    failed path before → failed path after

section Specification

variable {File σ : Type} {environment : Environment FileOp FileOp.Answer σ}
variable (view : DiskView File environment) {guarantee : Promise FileOp FileOp.Answer σ}

/-- Rule for an inspection. -/
theorem keeps_pathExists {path : Text} {post : Except Text Bool → σ → Prop} {state : σ}
    (throws : ∀ reason after, view.disk after=view.disk state →
      guarantee (.pathExists path) state (.error reason) after ∧ post (.error reason) after)
    (answers : ∀ after, view.disk after=view.disk state →
      guarantee (.pathExists path) state (.ok (view.disk state path).isSome) after ∧
        post (.ok (view.disk state path).isSome) after) :
    Keeps environment Eq guarantee (pathExists path) post state := by
  rintro _ rfl answer after effect
  obtain ⟨same,⟨reason,rfl⟩|rfl⟩ := pathExists_cases (view.sound effect)
  · obtain ⟨promised,holds⟩ := throws reason after same
    exact ⟨promised,fun _ h => h ▸ holds⟩
  · obtain ⟨promised,holds⟩ := answers after same
    exact ⟨promised,fun _ h => h ▸ holds⟩

/-- Rule for a rename. -/
theorem keeps_rename {source target operation : Text} {post : Except Text Unit → σ → Prop}
    {state : σ}
    (throws : ∀ reason after, view.disk after=view.disk state →
      guarantee (.rename source target operation) state (.error reason) after ∧
        post (.error reason) after)
    (moves : ∀ after, view.disk after=moved (view.disk state) source target →
      guarantee (.rename source target operation) state (.ok ()) after ∧ post (.ok ()) after) :
    Keeps environment Eq guarantee (rename source target operation) post state := by
  rintro _ rfl answer after effect
  rcases rename_cases (view.sound effect) with ⟨reason,rfl,same⟩|⟨rfl,_,next⟩
  · obtain ⟨promised,holds⟩ := throws reason after same
    exact ⟨promised,fun _ h => h ▸ holds⟩
  · obtain ⟨promised,holds⟩ := moves after next
    exact ⟨promised,fun _ h => h ▸ holds⟩

/-- Rule for a removal. -/
theorem keeps_remove {path : Text} {post : Option Text → σ → Prop} {state : σ}
    (fails : ∀ reason after, view.disk after=view.disk state → view.failed path after →
      guarantee (.remove path) state (some reason) after ∧ post (some reason) after)
    (removes : ∀ after, view.disk after=place (view.disk state) path none →
      guarantee (.remove path) state none after ∧ post none after) :
    Keeps environment Eq guarantee (remove path) post state := by
  rintro _ rfl answer after effect
  rcases remove_cases (view.sound effect) with ⟨reason,rfl,same⟩|⟨rfl,next⟩
  · obtain ⟨promised,holds⟩ := fails reason after same (view.records effect)
    exact ⟨promised,fun _ h => h ▸ holds⟩
  · obtain ⟨promised,holds⟩ := removes after next
    exact ⟨promised,fun _ h => h ▸ holds⟩

end Specification

/-- The live and parked files after some of the forward renames. -/
structure Parked {File : Type} (paths : ArtifactPaths) (before : Disk File)
    (progress : PublishProgress) (disk : Disk File) : Prop where
  /-- The previous index is live until it is parked. -/
  index : disk paths.index=if progress.indexBackedUp then none else before paths.index
  /-- The live documents are the new ones, parked, or the previous ones. -/
  documents : disk paths.documents=
    if progress.newDocumentsInstalled then before paths.temporaryDocuments
    else if progress.documentsBackedUp then none else before paths.documents
  /-- The parked index. -/
  indexBackup : disk paths.indexBackup=
    if progress.indexBackedUp then before paths.index else none
  /-- The parked documents. -/
  documentsBackup : disk paths.documentsBackup=
    if progress.documentsBackedUp then before paths.documents else none
  /-- The new index waits. -/
  temporaryIndex : disk paths.temporaryIndex=before paths.temporaryIndex
  /-- Every other file is as it was. -/
  frame : ∀ path∉paths.all,disk path=before path

/-- A progress the forward renames can have: what was live is parked before
anything later happens. -/
structure Ordered {File : Type} (paths : ArtifactPaths) (before : Disk File)
    (progress : PublishProgress) : Prop where
  /-- The index leaves the live path first. -/
  index : progress.indexBackedUp=true ∨ before paths.index=none ∨
    progress.documentsBackedUp=false ∧ progress.newDocumentsInstalled=false
  /-- The documents leave the live path before new ones arrive. -/
  documents : progress.documentsBackedUp=true ∨ before paths.documents=none ∨
    progress.newDocumentsInstalled=false

/-- The previous pair is live, or the index is absent and whatever there was
of the previous pair is live or parked. -/
structure Uncommitted {File : Type} (paths : ArtifactPaths) (before disk : Disk File) : Prop where
  /-- The live index is the previous one, together with its documents. -/
  pair : disk paths.index=before paths.index ∧ disk paths.documents=before paths.documents ∨
    disk paths.index=none
  /-- The previous index exists. -/
  indexKept : before paths.index=none ∨ disk paths.index=before paths.index ∨
    disk paths.indexBackup=before paths.index
  /-- The previous document store exists. -/
  documentsKept : before paths.documents=none ∨ disk paths.documents=before paths.documents ∨
    disk paths.documentsBackup=before paths.documents
  /-- Every other file is as it was. -/
  frame : ∀ path∉paths.all,disk path=before path

/-- The new pair is live. -/
structure Committed {File : Type} (paths : ArtifactPaths) (before disk : Disk File) : Prop where
  /-- The new index. -/
  index : disk paths.index=before paths.temporaryIndex
  /-- The new document store. -/
  documents : disk paths.documents=before paths.temporaryDocuments
  /-- Every other file is as it was. -/
  frame : ∀ path∉paths.all,disk path=before path

section Shapes

variable {File : Type} {paths : ArtifactPaths} {before disk : Disk File}
variable {progress : PublishProgress} {indexBackedUp documentsBackedUp newDocumentsInstalled : Bool}

/-- Before the commit the previous pair is safe. -/
theorem Parked.uncommitted (parked : Parked paths before progress disk)
    (ordered : Ordered paths before progress) : Uncommitted paths before disk := by
  obtain ⟨hi,hd,hib,hdb,_,frame⟩ := parked
  obtain ⟨oi,od⟩ := ordered
  constructor <;> grind

/-- Absent backups describe the state before any rename. -/
theorem parked_start (hib : before paths.indexBackup=none) (hdb : before paths.documentsBackup=none) :
    Parked paths before {} before := ⟨rfl,rfl,hib,hdb,rfl,fun _ _ => rfl⟩

/-- Parking the index. -/
theorem Parked.parkIndex (distinct : paths.Distinct) (parked : Parked paths before {} disk) :
    Parked paths before {indexBackedUp := true} (moved disk paths.index paths.indexBackup) := by
  have hne := distinct.ne
  obtain ⟨hi,hd,hib,hdb,hti,frame⟩ := parked
  constructor <;> grind [ArtifactPaths.mem_all]

/-- Parking the documents. -/
theorem Parked.parkDocuments (distinct : paths.Distinct)
    (parked : Parked paths before ⟨indexBackedUp,false,false⟩ disk) :
    Parked paths before ⟨indexBackedUp,true,false⟩
      (moved disk paths.documents paths.documentsBackup) := by
  have hne := distinct.ne
  obtain ⟨hi,hd,hib,hdb,hti,frame⟩ := parked
  constructor <;> grind [ArtifactPaths.mem_all]

/-- Installing the new documents. -/
theorem Parked.installDocuments (distinct : paths.Distinct)
    (waits : disk paths.temporaryDocuments=before paths.temporaryDocuments)
    (parked : Parked paths before ⟨indexBackedUp,documentsBackedUp,false⟩ disk) :
    Parked paths before ⟨indexBackedUp,documentsBackedUp,true⟩
      (moved disk paths.temporaryDocuments paths.documents) := by
  have hne := distinct.ne
  obtain ⟨hi,hd,hib,hdb,hti,frame⟩ := parked
  constructor <;> grind [ArtifactPaths.mem_all]

/-- Installing the new index commits. -/
theorem Parked.commit (distinct : paths.Distinct)
    (parked : Parked paths before ⟨indexBackedUp,documentsBackedUp,true⟩ disk) :
    Committed paths before (moved disk paths.temporaryIndex paths.index) := by
  have hne := distinct.ne
  obtain ⟨hi,hd,hib,hdb,hti,frame⟩ := parked
  constructor <;> grind [ArtifactPaths.mem_all]

/-- Withdrawing the new documents by moving them back. -/
theorem Parked.withdraw (distinct : paths.Distinct)
    (parked : Parked paths before ⟨indexBackedUp,documentsBackedUp,true⟩ disk)
    (absent : documentsBackedUp=true ∨ before paths.documents=none) :
    Parked paths before ⟨indexBackedUp,documentsBackedUp,false⟩
      (moved disk paths.documents paths.temporaryDocuments) := by
  have hne := distinct.ne
  obtain ⟨hi,hd,hib,hdb,hti,frame⟩ := parked
  constructor <;> grind [ArtifactPaths.mem_all]

/-- Withdrawing the new documents by deleting them. -/
theorem Parked.discard (distinct : paths.Distinct)
    (parked : Parked paths before ⟨indexBackedUp,documentsBackedUp,true⟩ disk)
    (absent : documentsBackedUp=true ∨ before paths.documents=none) :
    Parked paths before ⟨indexBackedUp,documentsBackedUp,false⟩
      (place disk paths.documents none) := by
  have hne := distinct.ne
  obtain ⟨hi,hd,hib,hdb,hti,frame⟩ := parked
  constructor <;> grind [ArtifactPaths.mem_all]

/-- Restoring the documents replaces whatever is live. -/
theorem Parked.restoreDocuments (distinct : paths.Distinct)
    (parked : Parked paths before ⟨indexBackedUp,true,newDocumentsInstalled⟩ disk) :
    Parked paths before ⟨indexBackedUp,false,false⟩
      (moved disk paths.documentsBackup paths.documents) := by
  have hne := distinct.ne
  obtain ⟨hi,hd,hib,hdb,hti,frame⟩ := parked
  constructor <;> grind [ArtifactPaths.mem_all]

/-- Restoring the index. -/
theorem Parked.restoreIndex (distinct : paths.Distinct)
    (parked : Parked paths before ⟨true,false,false⟩ disk) :
    Parked paths before {} (moved disk paths.indexBackup paths.index) := by
  have hne := distinct.ne
  obtain ⟨hi,hd,hib,hdb,hti,frame⟩ := parked
  constructor <;> grind [ArtifactPaths.mem_all]

/-- Deleting a backup leaves the new pair live. -/
theorem Committed.removeBackup (distinct : paths.Distinct) {backup : Text}
    (committed : Committed paths before disk)
    (isBackup : backup=paths.indexBackup ∨ backup=paths.documentsBackup) :
    Committed paths before (place disk backup none) := by
  have hne := distinct.ne
  obtain ⟨hi,hd,frame⟩ := committed
  constructor <;> grind [ArtifactPaths.mem_all]

end Shapes

/-- The answer that makes the new pair live. -/
def Commits (paths : ArtifactPaths) : (op : FileOp) → op.Answer → Prop
  | .rename source target _,.ok () => source=paths.temporaryIndex ∧ target=paths.index
  | _,_ => False

/-- What every file operation of a publication does to the two shapes: only
the commit leads from one to the other. -/
def Guarded {File σ : Type} (paths : ArtifactPaths) (before : Disk File) (disk : σ → Disk File) :
    Promise FileOp FileOp.Answer σ := fun op state answer after =>
  (Commits paths op answer → Uncommitted paths before (disk state) ∧
    Committed paths before (disk after)) ∧
  (¬Commits paths op answer →
    Uncommitted paths before (disk state) ∧ Uncommitted paths before (disk after) ∨
    Committed paths before (disk state) ∧ Committed paths before (disk after))

section Specification

variable {File σ : Type} {environment : Environment FileOp FileOp.Answer σ}
variable (view : DiskView File environment) {paths : ArtifactPaths} {before : Disk File}

/-- Steps that stay before the commit. -/
theorem guarded_uncommitted {disk : σ → Disk File} {op : FileOp} {answer : op.Answer} {state after : σ}
    (other : ¬Commits paths op answer) (here : Uncommitted paths before (disk state))
    (there : Uncommitted paths before (disk after)) :
    Guarded paths before disk op state answer after :=
  ⟨fun h => absurd h other,fun _ => .inl ⟨here,there⟩⟩

/-- Steps that stay after the commit. -/
theorem guarded_committed {disk : σ → Disk File} {op : FileOp} {answer : op.Answer} {state after : σ}
    (other : ¬Commits paths op answer) (here : Committed paths before (disk state))
    (there : Committed paths before (disk after)) :
    Guarded paths before disk op state answer after :=
  ⟨fun h => absurd h other,fun _ => .inr ⟨here,there⟩⟩

/-- A rename away from the uncommitted shapes, with the postcondition of
either answer. -/
theorem keeps_uncommitted_rename {source target operation : Text}
    {post : Except Text Unit → σ → Prop} {state : σ} (other : source≠paths.temporaryIndex)
    (here : Uncommitted paths before (view.disk state))
    (throws : ∀ reason after, view.disk after=view.disk state → post (.error reason) after)
    (moves : ∀ after, view.disk after=moved (view.disk state) source target →
      Uncommitted paths before (view.disk after) ∧ post (.ok ()) after) :
    Keeps environment Eq (Guarded paths before view.disk) (rename source target operation)
      post state := by
  apply keeps_rename view
  · intro reason after same
    exact ⟨guarded_uncommitted (fun h => h) here (same ▸ here),throws reason after same⟩
  · intro after next
    obtain ⟨there,holds⟩ := moves after next
    exact ⟨guarded_uncommitted (fun h => other h.1) here there,holds⟩

/-- Parking the index, when there was one. -/
theorem backUpIndex_spec (distinct : paths.Distinct) {hadIndex : Bool} {state : σ}
    (index : hadIndex=(before paths.index).isSome)
    (parked : Parked paths before {} (view.disk state))
    (waits : view.disk state paths.temporaryDocuments=before paths.temporaryDocuments)
    (operation : Text) :
    Keeps environment Eq (Guarded paths before view.disk)
      (backUp hadIndex paths.index paths.indexBackup operation)
      (fun result after => match result with
        | .ok () => Parked paths before ⟨hadIndex,false,false⟩ (view.disk after) ∧
            view.disk after paths.temporaryDocuments=before paths.temporaryDocuments
        | .error _ => Parked paths before {} (view.disk after)) state := by
  have hne := distinct.ne
  cases hadIndex with
  | false => rintro _ rfl; exact ⟨parked,waits⟩
  | true =>
    have ordered : Ordered paths before {} := ⟨.inr (.inr ⟨rfl,rfl⟩),.inr (.inr rfl)⟩
    apply keeps_uncommitted_rename view (by grind) (parked.uncommitted ordered)
    · exact fun reason after same => same ▸ parked
    · intro after next
      have there := parked.parkIndex distinct
      rw [←next] at there
      refine ⟨there.uncommitted ⟨.inl rfl,.inr (.inr rfl)⟩,there,?_⟩
      rw [next]
      grind

/-- Parking the documents, when there were any. -/
theorem backUpDocuments_spec (distinct : paths.Distinct) {hadIndex hadDocuments : Bool} {state : σ}
    (index : hadIndex=(before paths.index).isSome)
    (documents : hadDocuments=(before paths.documents).isSome)
    (parked : Parked paths before ⟨hadIndex,false,false⟩ (view.disk state))
    (waits : view.disk state paths.temporaryDocuments=before paths.temporaryDocuments)
    (operation : Text) :
    Keeps environment Eq (Guarded paths before view.disk)
      (backUp hadDocuments paths.documents paths.documentsBackup operation)
      (fun result after => match result with
        | .ok () => Parked paths before ⟨hadIndex,hadDocuments,false⟩ (view.disk after) ∧
            view.disk after paths.temporaryDocuments=before paths.temporaryDocuments
        | .error _ => Parked paths before ⟨hadIndex,false,false⟩ (view.disk after)) state := by
  have hne := distinct.ne
  cases hadDocuments with
  | false => rintro _ rfl; exact ⟨parked,waits⟩
  | true =>
    have ordered : Ordered paths before ⟨hadIndex,false,false⟩ :=
      ⟨.inr (.inr ⟨rfl,rfl⟩),.inr (.inr rfl)⟩
    apply keeps_uncommitted_rename view (by grind) (parked.uncommitted ordered)
    · exact fun reason after same => same ▸ parked
    · intro after next
      have there := parked.parkDocuments distinct
      rw [←next] at there
      have absent : hadIndex=true ∨ before paths.index=none := by cases hadIndex <;> simp_all
      refine ⟨there.uncommitted ⟨by tauto,.inl rfl⟩,there,?_⟩
      rw [next]
      grind

/-- A progress whose flags say what was there before is an ordered one. -/
theorem ordered_of_present {hadIndex hadDocuments installed : Bool}
    (index : hadIndex=(before paths.index).isSome)
    (documents : hadDocuments=(before paths.documents).isSome) :
    Ordered paths before ⟨hadIndex,hadDocuments,installed⟩ := by
  constructor
  · cases hadIndex <;> simp_all
  · cases hadDocuments <;> simp_all

/-- The forward renames end with the new pair live, or stop at a progress
whose files they describe. -/
theorem installPair_spec (distinct : paths.Distinct) {hadIndex hadDocuments : Bool} {state : σ}
    (index : hadIndex=(before paths.index).isSome)
    (documents : hadDocuments=(before paths.documents).isSome)
    (parked : Parked paths before {} (view.disk state))
    (waits : view.disk state paths.temporaryDocuments=before paths.temporaryDocuments) :
    Keeps environment Eq (Guarded paths before view.disk) (installPair paths hadIndex hadDocuments)
      (fun result after => match result.2 with
        | .ok () => result.1=⟨hadIndex,hadDocuments,true⟩ ∧
            Committed paths before (view.disk after) ∧
            view.disk after paths.indexBackup=(if hadIndex then before paths.index else none) ∧
            view.disk after paths.documentsBackup=
              (if hadDocuments then before paths.documents else none)
        | .error _ => Parked paths before result.1 (view.disk after) ∧
            Ordered paths before result.1) state := by
  have hne := distinct.ne
  unfold installPair
  apply Keeps.bind _ (fun _ => rfl) (backUpIndex_spec view distinct index parked waits _)
  rintro (cause|⟨⟩) first hfirst
  · rintro _ rfl
    exact ⟨hfirst,⟨.inr (.inr ⟨rfl,rfl⟩),.inr (.inr rfl)⟩⟩
  apply Keeps.bind _ (fun _ => rfl)
    (backUpDocuments_spec view distinct index documents hfirst.1 hfirst.2 _)
  rintro (cause|⟨⟩) second hsecond
  · rintro _ rfl
    exact ⟨hsecond,⟨.inr (.inr ⟨rfl,rfl⟩),.inr (.inr rfl)⟩⟩
  have ordered : Ordered paths before ⟨hadIndex,hadDocuments,false⟩ :=
    ordered_of_present index documents
  refine Keeps.bind (fun result after => match result with
    | .ok () => Parked paths before ⟨hadIndex,hadDocuments,true⟩ (view.disk after)
    | .error _ => Parked paths before ⟨hadIndex,hadDocuments,false⟩ (view.disk after)) (fun _ => rfl) ?_ ?_
  · apply keeps_uncommitted_rename view (by grind) (hsecond.1.uncommitted ordered)
    · exact fun reason after same => same ▸ hsecond.1
    · intro after next
      have there := hsecond.1.installDocuments distinct hsecond.2
      rw [←next] at there
      exact ⟨there.uncommitted (ordered_of_present index documents),there⟩
  rintro (cause|⟨⟩) third hthird
  · rintro _ rfl
    exact ⟨hthird,ordered⟩
  have final := hthird.uncommitted (ordered_of_present index documents)
  refine Keeps.bind (fun result after => match result with
    | .ok () => Committed paths before (view.disk after) ∧
        view.disk after paths.indexBackup=(if hadIndex then before paths.index else none) ∧
        view.disk after paths.documentsBackup=(if hadDocuments then before paths.documents else none)
    | .error _ => Parked paths before ⟨hadIndex,hadDocuments,true⟩ (view.disk after)) (fun _ => rfl) ?_ ?_
  · apply keeps_rename view
    · intro reason after same
      exact ⟨guarded_uncommitted (fun h => h) final (same ▸ final),same ▸ hthird⟩
    · intro after next
      have there := hthird.commit distinct
      rw [←next] at there
      refine ⟨⟨fun _ => ⟨final,there⟩,fun h => absurd ⟨rfl,rfl⟩ h⟩,there,?_,?_⟩
      · rw [next,moved_apply,if_neg hne.2.2.1.2.1.symm,if_neg hne.1.2.2.2.1.symm,hthird.indexBackup]
      · rw [next,moved_apply,if_neg hne.2.2.1.2.2.symm,if_neg hne.1.2.2.2.2.symm,
          hthird.documentsBackup]
  rintro (cause|⟨⟩) fourth hfourth
  · rintro _ rfl
    exact ⟨hfourth,ordered_of_present index documents⟩
  · rintro _ rfl
    exact ⟨rfl,hfourth⟩

/-- Withdrawing the new documents frees the live path or notes an error. -/
theorem withdrawDocuments_spec (distinct : paths.Distinct) {indexBackedUp documentsBackedUp : Bool}
    {state : σ} (parked : Parked paths before ⟨indexBackedUp,documentsBackedUp,true⟩ (view.disk state))
    (ordered : Ordered paths before ⟨indexBackedUp,documentsBackedUp,true⟩) :
    Keeps environment Eq (Guarded paths before view.disk) (withdrawDocuments paths)
      (fun noted after =>
        noted=[] ∧ Parked paths before ⟨indexBackedUp,documentsBackedUp,false⟩ (view.disk after) ∨
        noted≠[] ∧ Parked paths before ⟨indexBackedUp,documentsBackedUp,true⟩ (view.disk after))
      state := by
  have hne := distinct.ne
  have absent : documentsBackedUp=true ∨ before paths.documents=none := by
    simpa using ordered.documents
  have index : indexBackedUp=true ∨ before paths.index=none := by simpa using ordered.index
  have withdrawn : Ordered paths before ⟨indexBackedUp,documentsBackedUp,false⟩ :=
    ⟨by tauto,.inr (.inr rfl)⟩
  refine Keeps.bind (fun result after => match result with
    | .ok () => Parked paths before ⟨indexBackedUp,documentsBackedUp,false⟩ (view.disk after)
    | .error _ => Parked paths before ⟨indexBackedUp,documentsBackedUp,true⟩ (view.disk after)) (fun _ => rfl) ?_ ?_
  · apply keeps_uncommitted_rename view (by grind) (parked.uncommitted ordered)
    · exact fun reason after same => same ▸ parked
    · intro after next
      have there := parked.withdraw distinct absent
      rw [←next] at there
      exact ⟨there.uncommitted withdrawn,there⟩
  rintro (cause|⟨⟩) first hfirst
  · have here := hfirst.uncommitted ordered
    refine Keeps.bind (fun result after => match result with
      | none => Parked paths before ⟨indexBackedUp,documentsBackedUp,false⟩ (view.disk after)
      | some _ => Parked paths before ⟨indexBackedUp,documentsBackedUp,true⟩ (view.disk after)) (fun _ => rfl) ?_ ?_
    · apply keeps_remove view
      · intro reason after same _
        exact ⟨guarded_uncommitted (fun h => h) here (same ▸ here),same ▸ hfirst⟩
      · intro after next
        have there := hfirst.discard distinct absent
        rw [←next] at there
        exact ⟨guarded_uncommitted (fun h => h) here (there.uncommitted withdrawn),there⟩
    · rintro (_|reason) second hsecond
      · rintro _ rfl
        exact .inl ⟨rfl,hsecond⟩
      · rintro _ rfl
        exact .inr ⟨appendError_ne_nil _ _ _ _,hsecond⟩
  · rintro _ rfl
    exact .inl ⟨rfl,hfirst⟩

/-- Restoring the parked documents, or noting that this failed. -/
theorem restoreDocuments_spec (distinct : paths.Distinct)
    {indexBackedUp newDocumentsInstalled : Bool} {state : σ}
    (parked : Parked paths before ⟨indexBackedUp,true,newDocumentsInstalled⟩ (view.disk state))
    (ordered : Ordered paths before ⟨indexBackedUp,true,newDocumentsInstalled⟩)
    (operation action noted : Text) :
    Keeps environment Eq (Guarded paths before view.disk)
      (restoreBackup paths.documentsBackup paths.documents operation action noted)
      (fun result after =>
        result=noted ∧ Parked paths before ⟨indexBackedUp,false,false⟩ (view.disk after) ∨
        result≠[] ∧
          Parked paths before ⟨indexBackedUp,true,newDocumentsInstalled⟩ (view.disk after))
      state := by
  have hne := distinct.ne
  refine Keeps.bind (fun result after => match result with
    | .ok () => Parked paths before ⟨indexBackedUp,false,false⟩ (view.disk after)
    | .error _ =>
        Parked paths before ⟨indexBackedUp,true,newDocumentsInstalled⟩ (view.disk after)) (fun _ => rfl) ?_ ?_
  · apply keeps_uncommitted_rename view (by grind) (parked.uncommitted ordered)
    · exact fun reason after same => same ▸ parked
    · intro after next
      have there := parked.restoreDocuments distinct
      rw [←next] at there
      exact ⟨there.uncommitted ⟨.inr (.inr ⟨rfl,rfl⟩),.inr (.inr rfl)⟩,there⟩
  rintro (cause|⟨⟩) first hfirst
  · rintro _ rfl
    exact .inr ⟨appendError_ne_nil _ _ _ _,hfirst⟩
  · rintro _ rfl
    exact .inl ⟨rfl,hfirst⟩

/-- Restoring the parked index, or noting that this failed. -/
theorem restoreIndex_spec (distinct : paths.Distinct) {state : σ}
    (parked : Parked paths before ⟨true,false,false⟩ (view.disk state))
    (operation action noted : Text) :
    Keeps environment Eq (Guarded paths before view.disk)
      (restoreBackup paths.indexBackup paths.index operation action noted)
      (fun result after =>
        result=noted ∧ Parked paths before {} (view.disk after) ∨
        result≠[] ∧ Parked paths before ⟨true,false,false⟩ (view.disk after)) state := by
  have hne := distinct.ne
  have ordered : ∀ parkedIndex,Ordered paths before ⟨parkedIndex,false,false⟩ :=
    fun _ => ⟨.inr (.inr ⟨rfl,rfl⟩),.inr (.inr rfl)⟩
  refine Keeps.bind (fun result after => match result with
    | .ok () => Parked paths before {} (view.disk after)
    | .error _ => Parked paths before ⟨true,false,false⟩ (view.disk after)) (fun _ => rfl) ?_ ?_
  · apply keeps_uncommitted_rename view (by grind) (parked.uncommitted (ordered true))
    · exact fun reason after same => same ▸ parked
    · intro after next
      have there := parked.restoreIndex distinct
      rw [←next] at there
      exact ⟨there.uncommitted (ordered false),there⟩
  rintro (cause|⟨⟩) first hfirst
  · rintro _ rfl
    exact .inr ⟨appendError_ne_nil _ _ _ _,hfirst⟩
  · rintro _ rfl
    exact .inl ⟨rfl,hfirst⟩

/-- A rollback restores the pair, or notes an error and leaves the index
path absent with everything of the previous pair kept. -/
theorem rollback_spec (distinct : paths.Distinct) {progress : PublishProgress} {state : σ}
    (parked : Parked paths before progress (view.disk state))
    (ordered : Ordered paths before progress) :
    Keeps environment Eq (Guarded paths before view.disk) (rollback paths progress)
      (fun noted after =>
        noted=[] ∧ Parked paths before {} (view.disk after) ∨
        noted≠[] ∧ Uncommitted paths before (view.disk after) ∧
          view.disk after paths.index=none) state := by
  obtain ⟨indexBackedUp,documentsBackedUp,newDocumentsInstalled⟩ := progress
  -- the index is parked or never existed whenever a rollback step can fail
  have gone : ∀ {documentsParked installed : Bool} {disk : Disk File},
      Parked paths before ⟨indexBackedUp,documentsParked,installed⟩ disk →
      Ordered paths before ⟨indexBackedUp,documentsParked,installed⟩ →
      indexBackedUp=true ∨ before paths.index=none →
      Uncommitted paths before disk ∧ disk paths.index=none := by
    intro documentsParked installed disk here order absent
    refine ⟨here.uncommitted order,?_⟩
    rw [here.index]
    rcases absent with rfl|absent
    · rfl
    · rw [absent,ite_self]
  refine Keeps.bind (fun noted after =>
    noted=[] ∧ Parked paths before ⟨indexBackedUp,documentsBackedUp,false⟩ (view.disk after) ∨
    noted≠[] ∧ newDocumentsInstalled=true ∧
      Parked paths before ⟨indexBackedUp,documentsBackedUp,true⟩ (view.disk after)) (fun _ => rfl) ?_ ?_
  · cases newDocumentsInstalled with
    | false => rintro _ rfl; exact .inl ⟨rfl,parked⟩
    | true =>
      refine (withdrawDocuments_spec view distinct parked ordered).mono
        (fun _ _ _ _ promised => promised) ?_
      rintro noted after (⟨rfl,h⟩|⟨failed,h⟩)
      · exact .inl ⟨rfl,h⟩
      · exact .inr ⟨failed,rfl,h⟩
  intro withdrawn first hfirst
  have early : Ordered paths before ⟨indexBackedUp,documentsBackedUp,false⟩ :=
    ⟨by have := ordered.index; tauto,.inr (.inr rfl)⟩
  refine Keeps.bind (fun noted after =>
    noted=[] ∧ Parked paths before ⟨indexBackedUp,false,false⟩ (view.disk after) ∨
    noted≠[] ∧ Uncommitted paths before (view.disk after) ∧
      view.disk after paths.index=none) (fun _ => rfl) ?_ ?_
  · cases documentsBackedUp with
    | false =>
      rintro _ rfl
      rcases hfirst with ⟨rfl,h⟩|⟨failed,rfl,h⟩
      · exact .inl ⟨rfl,h⟩
      · exact .inr ⟨failed,gone h ordered (by simpa using ordered.index)⟩
    | true =>
      have absent : indexBackedUp=true ∨ before paths.index=none := by
        simpa using ordered.index
      rcases hfirst with ⟨rfl,h⟩|⟨failed,rfl,h⟩
      · refine (restoreDocuments_spec view distinct h early _ _ _).mono
          (fun _ _ _ _ promised => promised) ?_
        rintro noted after (⟨rfl,there⟩|⟨failed,there⟩)
        · exact .inl ⟨rfl,there⟩
        · exact .inr ⟨failed,gone there early absent⟩
      · refine (restoreDocuments_spec view distinct h ordered _ _ _).mono
          (fun _ _ _ _ promised => promised) ?_
        rintro noted after (⟨rfl,there⟩|⟨failed',there⟩)
        · exact .inr ⟨failed,gone there ⟨.inr (.inr ⟨rfl,rfl⟩),.inr (.inr rfl)⟩ absent⟩
        · exact .inr ⟨failed',gone there ordered absent⟩
  intro documents second hsecond
  cases indexBackedUp with
  | false =>
    rintro _ rfl
    exact hsecond
  | true =>
    rcases hsecond with ⟨rfl,h⟩|⟨failed,h⟩
    · refine (restoreIndex_spec view distinct h _ _ _).mono (fun _ _ _ _ promised => promised) ?_
      rintro noted after (⟨rfl,there⟩|⟨failed,there⟩)
      · exact .inl ⟨rfl,there⟩
      · exact .inr ⟨failed,gone there ⟨.inl rfl,.inr (.inr rfl)⟩ (.inl rfl)⟩
    · have kept : documents.isEmpty=false := by simpa using failed
      simp only [kept,Bool.and_false,Bool.false_eq_true,if_false]
      rintro _ rfl
      exact .inr ⟨failed,h⟩

/-- Deleting one superseded backup removes it or records the failure. The
other backup is not touched. -/
theorem removeBackup_spec (distinct : paths.Distinct) {backedUp : Bool}
    {backup other action noted : Text} {state : σ}
    (isBackup : backup=paths.indexBackup ∨ backup=paths.documentsBackup) (apart : other≠backup)
    (committed : Committed paths before (view.disk state))
    (absent : backedUp=false → view.disk state backup=none) :
    Keeps environment Eq (Guarded paths before view.disk) (removeBackup backedUp backup action noted)
      (fun result after => Committed paths before (view.disk after) ∧
        view.disk after other=view.disk state other ∧
        (∀ path,view.failed path state → view.failed path after) ∧
        (result=noted ∧ view.disk after backup=none ∨
          result≠[] ∧ view.failed backup after)) state := by
  cases backedUp with
  | false =>
    rintro _ rfl
    exact ⟨committed,rfl,fun _ h => h,.inl ⟨rfl,absent rfl⟩⟩
  | true =>
    rintro _ rfl answer after effect
    have persists : ∀ path,view.failed path state → view.failed path after :=
      fun _ h => view.persists effect h
    rcases remove_cases (view.sound effect) with ⟨reason,rfl,same⟩|⟨rfl,next⟩
    · have there : Committed paths before (view.disk after) := same ▸ committed
      refine ⟨guarded_committed (fun h => h) committed there,?_⟩
      rintro _ rfl
      exact ⟨there,by rw [same],persists,.inr ⟨appendError_ne_nil _ _ _ _,view.records effect⟩⟩
    · have there := committed.removeBackup distinct isBackup
      rw [←next] at there
      refine ⟨guarded_committed (fun h => h) committed there,?_⟩
      rintro _ rfl
      refine ⟨there,?_,persists,.inl ⟨rfl,?_⟩⟩
      · rw [next,place_apply,if_neg apart]
      · rw [next,place_apply,if_pos rfl]

/-- What each kind of return says about the files. -/
def Outcome (paths : ArtifactPaths) (before : Disk File) (state : σ) :
    Except PublishFailure Unit → Prop
  | .ok () => Committed paths before (view.disk state) ∧
      view.disk state paths.indexBackup=none ∧ view.disk state paths.documentsBackup=none
  | .error (.cleanupRequired _) => Committed paths before (view.disk state) ∧
      (view.disk state paths.indexBackup=none ∨ view.failed paths.indexBackup state) ∧
      (view.disk state paths.documentsBackup=none ∨ view.failed paths.documentsBackup state)
  | .error (.restored _) => Parked paths before {} (view.disk state)
  | .error (.rollbackIncomplete _ _) => Uncommitted paths before (view.disk state) ∧
      view.disk state paths.index=none
  | .error (.cannotInspect _) => view.disk state=before

/-- The whole transaction: every operation respects the two shapes and every
return means its outcome. -/
theorem publishArtifactPair_spec (distinct : paths.Distinct) {state : σ}
    (start : view.disk state=before) (indexBackup : before paths.indexBackup=none)
    (documentsBackup : before paths.documentsBackup=none) :
    Keeps environment Eq (Guarded paths before view.disk) (publishArtifactPair paths)
      (fun result after => Outcome view paths before after result) state := by
  have hne := distinct.ne
  have parked : ∀ {seen : σ},view.disk seen=before → Parked paths before {} (view.disk seen) := by
    intro seen same
    rw [same]
    exact parked_start indexBackup documentsBackup
  have here : ∀ {seen : σ},view.disk seen=before → Uncommitted paths before (view.disk seen) :=
    fun same => (parked same).uncommitted ⟨.inr (.inr ⟨rfl,rfl⟩),.inr (.inr rfl)⟩
  have inspect : ∀ {seen : σ} (path : Text),view.disk seen=before →
      Keeps environment Eq (Guarded paths before view.disk) (pathExists path)
        (fun result after => view.disk after=before ∧ ∀ present,result=.ok present →
          present=(before path).isSome) seen := by
    intro seen path same
    apply keeps_pathExists view
    · intro reason after kept
      exact ⟨guarded_uncommitted (fun h => h) (here same) (here (kept.trans same)),
        kept.trans same,fun _ h => nomatch h⟩
    · intro after kept
      refine ⟨guarded_uncommitted (fun h => h) (here same) (here (kept.trans same)),
        kept.trans same,?_⟩
      rintro present ⟨⟩
      rw [same]
  apply Keeps.bind _ (fun _ => rfl) (inspect paths.index start)
  rintro (reason|hadIndex) first ⟨hfirst,hpresent⟩
  · rintro _ rfl
    exact hfirst
  have index := hpresent hadIndex rfl
  apply Keeps.bind _ (fun _ => rfl) (inspect paths.documents hfirst)
  rintro (reason|hadDocuments) second ⟨hsecond,hpresent⟩
  · rintro _ rfl
    exact hsecond
  have documents := hpresent hadDocuments rfl
  apply Keeps.bind _ (fun _ => rfl) (installPair_spec view distinct index documents (parked hsecond)
    (by rw [hsecond]))
  rintro ⟨progress,cause|⟨⟩⟩ third hthird
  · apply Keeps.bind _ (fun _ => rfl) (rollback_spec view distinct hthird.1 hthird.2)
    rintro noted after (⟨rfl,h⟩|⟨failed,h⟩)
    · rintro _ rfl
      exact h
    · have kept : noted.isEmpty=false := by simpa using failed
      simp only [kept,Bool.false_eq_true,if_false]
      rintro _ rfl
      exact h
  obtain ⟨rfl,committed,hib,hdb⟩ := hthird
  apply Keeps.bind _ (fun _ => rfl) (removeBackup_spec view distinct (.inl rfl) hne.2.2.2.2.symm
    committed (fun h => by rw [hib]; exact if_neg (by simpa using h)))
  rintro indexError fourth ⟨hfourth,hother,hpersists,hindex⟩
  apply Keeps.bind _ (fun _ => rfl) (removeBackup_spec view distinct (.inr rfl) hne.2.2.2.2
    hfourth (fun h => by rw [hother,hdb]; exact if_neg (by simpa using h)))
  rintro cleanupError fifth ⟨hfifth,hother',hpersists',hdocuments⟩
  have indexGone : indexError=[] ∧ view.disk fifth paths.indexBackup=none ∨
      indexError≠[] ∧ view.failed paths.indexBackup fifth := by
    rcases hindex with ⟨noted,gone⟩|⟨noted,failed⟩
    · exact .inl ⟨noted,hother'.trans gone⟩
    · exact .inr ⟨noted,hpersists' _ failed⟩
  by_cases clean : cleanupError=[]
  · subst clean
    rintro _ rfl
    rcases hdocuments with ⟨noted,gone⟩|⟨noted,_⟩
    · rcases indexGone with ⟨_,indexGone⟩|⟨noted',_⟩
      · exact ⟨hfifth,indexGone,gone⟩
      · exact absurd noted.symm noted'
    · exact absurd rfl noted
  · have kept : cleanupError.isEmpty=false := by simpa using clean
    simp only [kept,Bool.false_eq_true,if_false]
    rintro _ rfl
    exact ⟨hfifth,indexGone.imp And.right And.right,hdocuments.imp And.right And.right⟩

end Specification

/-- The file system with a log of every answered operation. -/
def loggedView (File : Type) : DiskView File (logged (fileSystem File)) where
  disk state := state.1
  sound effect := effect.1
  failed path state := ∃ reason,⟨.remove path,some reason⟩∈state.2
  records effect := ⟨_,by rw [effect.2]; exact List.mem_append_right _ (List.mem_singleton_self _)⟩
  persists effect := fun ⟨reason,h⟩ => ⟨reason,by rw [effect.2]; exact List.mem_append_left _ h⟩

/-- The four kinds of return of a publication, and the live pair after every
single file operation, for every pattern of failures. -/
theorem publishArtifactPair_outcomes {File : Type} (paths : ArtifactPaths) (before : Disk File)
    {newIndex newDocuments : File} (distinct : paths.Distinct)
    (hasIndex : before paths.temporaryIndex=some newIndex)
    (hasDocuments : before paths.temporaryDocuments=some newDocuments)
    (indexBackup : before paths.indexBackup=none)
    (documentsBackup : before paths.documentsBackup=none) :
    (∀ result after log,
      Run (logged (fileSystem File)) ((before,[]),publishArtifactPair paths) ((after,log),.done result) →
      match result with
      | .ok () => after paths.index=some newIndex ∧ after paths.documents=some newDocuments ∧
          after paths.indexBackup=none ∧ after paths.documentsBackup=none
      | .error (.cleanupRequired _) =>
          after paths.index=some newIndex ∧ after paths.documents=some newDocuments ∧
          ∀ backup∈[paths.indexBackup,paths.documentsBackup],after backup≠none →
            ∃ reason,⟨.remove backup,some reason⟩∈log
      | .error (.restored _) =>
          after paths.index=before paths.index ∧ after paths.documents=before paths.documents ∧
          after paths.indexBackup=none ∧ after paths.documentsBackup=none
      | .error (.rollbackIncomplete _ _) => after paths.index=none ∧
          (∀ file,before paths.index=some file → after paths.indexBackup=some file) ∧
          (∀ file,before paths.documents=some file →
            after paths.documents=some file ∨ after paths.documentsBackup=some file)
      | .error (.cannotInspect _) => after=before) ∧
    (∀ here,Run (logged (fileSystem File)) ((before,[]),publishArtifactPair paths) here →
      (here.1.1 paths.index=none ∨
        here.1.1 paths.index=before paths.index ∧ here.1.1 paths.documents=before paths.documents ∨
        here.1.1 paths.index=some newIndex ∧ here.1.1 paths.documents=some newDocuments) ∧
      ∀ previous,before paths.index=some previous → previous≠newIndex →
        before paths.documents≠some newDocuments →
        ¬(here.1.1 paths.index=some previous ∧ here.1.1 paths.documents=some newDocuments)) := by
  have preserved : Preserves (logged (fileSystem File))
      (fun state => Uncommitted paths before state.1 ∨ Committed paths before state.1)
      (publishArtifactPair paths)
      (fun result after => Outcome (loggedView File) paths before after result) (before,[]) := by
    have start : (loggedView File).disk (before,[])=before := rfl
    refine (publishArtifactPair_spec (loggedView File) distinct start indexBackup
      documentsBackup).mono ?_ (fun _ _ h => h)
    intro op state answer after promised
    by_cases commits : Commits paths op answer
    · exact .inr (promised.1 commits).2
    · exact (promised.2 commits).imp And.right And.right
  have start : Uncommitted paths before before :=
    (parked_start indexBackup documentsBackup).uncommitted
      ⟨.inr (.inr ⟨rfl,rfl⟩),.inr (.inr rfl)⟩
  constructor
  · intro result after log path
    have outcome := preserved.returned (.inl start) path
    match result with
    | .ok () =>
      obtain ⟨committed,hib,hdb⟩ := outcome
      exact ⟨committed.index.trans hasIndex,committed.documents.trans hasDocuments,hib,hdb⟩
    | .error (.cleanupRequired _) =>
      obtain ⟨committed,hib,hdb⟩ := outcome
      refine ⟨committed.index.trans hasIndex,committed.documents.trans hasDocuments,?_⟩
      intro backup member left
      rcases List.mem_pair.mp member with rfl|rfl
      · exact hib.resolve_left left
      · exact hdb.resolve_left left
    | .error (.restored _) =>
      exact ⟨outcome.index,outcome.documents,outcome.indexBackup,outcome.documentsBackup⟩
    | .error (.rollbackIncomplete _ _) =>
      obtain ⟨kept,gone⟩ := outcome
      refine ⟨gone,?_,?_⟩
      · intro file present
        rcases kept.indexKept with h|h|h
        · rw [present] at h; cases h
        · rw [gone,present] at h; cases h
        · exact h.trans present
      · intro file present
        rcases kept.documentsKept with h|h|h
        · rw [present] at h; cases h
        · exact .inl (h.trans present)
        · exact .inr (h.trans present)
    | .error (.cannotInspect _) => exact outcome
  · intro here path
    have pair : here.1.1 paths.index=none ∨
        here.1.1 paths.index=before paths.index ∧ here.1.1 paths.documents=before paths.documents ∨
        here.1.1 paths.index=some newIndex ∧ here.1.1 paths.documents=some newDocuments := by
      rcases (preserved.run (.inl start) path).1 with uncommitted|committed
      · exact uncommitted.pair.elim (fun h => .inr (.inl h)) .inl
      · exact .inr (.inr ⟨committed.index.trans hasIndex,committed.documents.trans hasDocuments⟩)
    refine ⟨pair,?_⟩
    rintro previous present fresh freshDocuments ⟨live,mixed⟩
    rcases pair with gone|⟨_,documents⟩|⟨index,_⟩
    · rw [gone] at live; cases live
    · exact freshDocuments (documents ▸ mixed)
    · rw [index] at live; exact fresh (Option.some.inj live).symm

/-- Six concrete paths. -/
def samplePaths : ArtifactPaths :=
  ⟨"new-index.tmp","new-documents.tmp","active.leann","active.docs","old-index.bak",
    "old-documents.bak"⟩

/-- Both live artifacts and both temporaries, with distinct contents. -/
def sampleDisk : Disk ℕ :=
  place (place (place (place (fun _ => none) "active.leann" (some 1)) "active.docs" (some 2))
    "new-index.tmp" (some 3)) "new-documents.tmp" (some 4)

/-- Answer one operation and log it. -/
def respond {File : Type} (op : FileOp) (state : Disk File×List (Event FileOp FileOp.Answer))
    (fault : Option Text) : op.Answer×(Disk File×List (Event FileOp FileOp.Answer)) :=
  ((op.effect state.1 fault).1,((op.effect state.1 fault).2,
    state.2++[⟨op,(op.effect state.1 fault).1⟩]))

/-- A commit rename that fails together with the restoring of the index
leaves the index path absent and the previous index parked. -/
theorem publishArtifactPair_outcomes_rollback :
    let final := replay respond [none,none,none,none,none,some "disk error",none,none,
      some "disk error"] ((sampleDisk,[]),publishArtifactPair samplePaths)
    final.1.1 "active.leann"=none ∧ final.1.1 "old-index.bak"=some 1 := by
  have allowed : ∀ op state fault,logged (fileSystem ℕ) op state (respond op state fault).1
      (respond op state fault).2 := fun _ _ fault => ⟨⟨fault,rfl⟩,rfl⟩
  have distinct : samplePaths.Distinct := by unfold ArtifactPaths.Distinct; decide
  have outcome := (publishArtifactPair_outcomes samplePaths sampleDisk distinct rfl rfl rfl
    rfl).1 _ _ _ (replay_run allowed
      [none,none,none,none,none,some "disk error",none,none,some "disk error"]
      ((sampleDisk,[]),publishArtifactPair samplePaths))
  exact ⟨outcome.1,outcome.2.1 1 rfl⟩

end Leann.ArtifactPublisher
