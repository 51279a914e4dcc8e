import Leann.ArtifactPublisher
import Leann.BuildLocks
import Leann.IndexBuilder

/-!
# What a build sees of the machine it runs on

The files and the lock directories of a machine, and every call by which a
build or a diagnosis reaches them or something else outside its own memory:
the callbacks, the embedder and the graph library. Each call may fail. What
a build has done is noted beside the files, and nothing reads these notes.
-/

namespace Leann.Host

open Effects Exceptions ArtifactPublisher BuildLocks IndexBuilder
open Embeddings hiding Unit

/-- A file. Which build created it is noted for the statements; no call
reads that. -/
structure Artifact where
  /-- Its contents. -/
  bytes : Text
  /-- The documents of the build that created it. -/
  corpus : List Text
  /-- The number of the build that created it. -/
  build : ℕ
  deriving DecidableEq

/-- The calls. -/
inductive HostOp where
  /-- A call of `ArtifactFileOperations`. -/
  | artifact (op : FileOp)
  /-- A call on a lock directory. -/
  | lock (op : LockOp)
  /-- `std::filesystem::exists`. -/
  | pathExists (path : Text)
  /-- `std::filesystem::is_regular_file`. -/
  | isRegularFile (path : Text)
  /-- `std::filesystem::remove`. -/
  | remove (path : Text)
  /-- Open a stream for writing, on an empty file or at its end. -/
  | openFile (path : Text) (truncate : Bool)
  /-- Write to the end of an open stream and close it. -/
  | write (path : Text) (bytes : Text)
  /-- Open a stream for reading and read it. -/
  | readFile (path : Text)
  /-- `unique_token`. -/
  | uniqueToken
  /-- `std::filesystem::is_directory`. -/
  | isDirectory (directory : Text)
  /-- The regular files of a directory. -/
  | listDirectory (directory : Text)
  /-- `std::filesystem::is_directory` of a lock. -/
  | lockPresent (path : Text)
  /-- Read the owner file of a lock. -/
  | readOwner (path : Text)
  /-- `current_host_name`. -/
  | hostName
  /-- Whether a process of this host answers a signal. -/
  | signalProcess (pid : ℕ)
  /-- `std::filesystem::file_size`. -/
  | fileSize (path : Text)
  /-- `BuildConfig::report_progress`. -/
  | reportProgress (stage : Text) (completed total : ℕ)
  /-- `BuildConfig::should_cancel`. -/
  | shouldCancel
  /-- `Embedder::embed`. -/
  | embed (texts : List Text)
  /-- The constructor of `HierarchicalNSW`. -/
  | createGraph (dimension count : ℕ)
  /-- `addPoint`. -/
  | addPoint (vector : Embedding) (label : ℕ)
  /-- What is read from the graph. -/
  | readGraph

/-- What each call returns. The text of an error code is absent on success. -/
abbrev HostOp.Answer : HostOp → Type
  | .artifact op => op.Answer
  | .lock op => op.Answer
  | .pathExists _ => Except Text Bool
  | .isRegularFile _ => Except Text Bool
  | .remove _ => Option Text
  | .openFile .. => Bool
  | .write .. => Except Exception Unit
  | .readFile _ => Except Exception Text
  | .uniqueToken => Text
  | .isDirectory _ => Bool
  | .listDirectory _ => Except Text (List Text)
  | .lockPresent _ => Bool
  | .readOwner _ => Option Text
  | .hostName => Text
  | .signalProcess _ => Bool
  | .fileSize _ => Except Text ℕ
  | .reportProgress .. => Except Exception Unit
  | .shouldCancel => Except Exception Bool
  | .embed _ => Except Exception (List Embedding)
  | .createGraph .. => Except Exception Unit
  | .addPoint .. => Except Exception Unit
  | .readGraph => HnswGraph

/-- The separator of the names in a path. -/
def slash : UInt8 := 47

/-- The directory of a path, with the separator at its end. -/
def parentPath (path : Text) : Text := (path.reverse.dropWhile (·≠slash)).reverse

/-- `filename`. -/
def fileName (path : Text) : Text := (path.reverse.takeWhile (·≠slash)).reverse

/-- The files and the lock directories. -/
structure Machine where
  /-- What each path names. -/
  disk : Disk Artifact
  /-- What each lock path names. -/
  locks : Locks

/-- The digits that `std::hex` prints. -/
def IsHexDigit (byte : UInt8) : Prop := 48≤byte ∧ byte≤57 ∨ 97≤byte ∧ byte≤102

/-- What a call does to the machine. A stream that fails may have written
some of its bytes. -/
def HostOp.Effect (tokens : Set Text) (created : Artifact) :
    (op : HostOp) → Machine → op.Answer → Machine → Prop
  | .artifact op,machine,answer,after =>
    fileSystem Artifact op machine.disk answer after.disk ∧ after.locks=machine.locks
  | .lock op,machine,answer,after =>
    (∃ fault owner,op.effect machine.locks fault owner=(answer,after.locks)) ∧
      after.disk=machine.disk
  | .pathExists path,machine,answer,after => after=machine ∧
    ((∃ reason,answer=.error reason) ∨ answer=.ok (machine.disk path).isSome)
  | .isRegularFile path,machine,answer,after => after=machine ∧
    (answer=.ok true → (machine.disk path).isSome)
  | .remove path,machine,answer,after =>
    fileSystem Artifact (.remove path) machine.disk answer after.disk ∧ after.locks=machine.locks
  | .openFile path truncate,machine,answer,after => after.locks=machine.locks ∧
    after.disk=if answer then place machine.disk path
      (if truncate then some created else some ((machine.disk path).getD created))
    else machine.disk
  | .write path bytes,machine,answer,after => after.locks=machine.locks ∧
    ∃ written,written<+:bytes ∧ (answer=.ok () → written=bytes) ∧
      after.disk=place machine.disk path ((machine.disk path).map (fun artifact =>
        {artifact with bytes := artifact.bytes++written}))
  | .readFile path,machine,answer,after => after=machine ∧
    ∀ bytes,answer=.ok bytes → (machine.disk path).map Artifact.bytes=some bytes
  | .uniqueToken,machine,token,after => after=machine ∧ token∈tokens
  | .isDirectory _,machine,_,after => after=machine
  | .listDirectory directory,machine,answer,after => after=machine ∧
    ∀ paths,answer=.ok paths → paths.Nodup ∧
      ∀ path,path∈paths ↔ parentPath path=directory ∧ (machine.disk path).isSome
  | .lockPresent path,machine,answer,after => after=machine ∧ answer=(machine.locks path).isSome
  | .readOwner path,machine,answer,after => after=machine ∧
    ∀ bytes,answer=some bytes → (machine.locks path).bind LockDirectory.owner=some bytes
  | .hostName,machine,_,after => after=machine
  | .signalProcess _,machine,_,after => after=machine
  | .fileSize path,machine,answer,after => after=machine ∧
    ∀ size,answer=.ok size → (machine.disk path).map (fun file => file.bytes.length)=some size
  | .reportProgress ..,machine,_,after => after=machine
  | .shouldCancel,machine,_,after => after=machine
  | .embed _,machine,_,after => after=machine
  | .createGraph ..,machine,_,after => after=machine
  | .addPoint ..,machine,_,after => after=machine
  | .readGraph,machine,_,after => after=machine

/-- What one build has done. -/
structure Notes where
  /-- The documents it was given. -/
  corpus : List Text
  /-- Its number. -/
  build : ℕ
  /-- The document store it is to replace. -/
  documents : Text
  /-- What it did to locks. -/
  locks : History := {}
  /-- The files it opened for writing. -/
  opened : List Text := []
  /-- The files it failed to remove. -/
  unremoved : List Text := []
  /-- Whether the publication has begun. -/
  publishing : Bool := false

/-- An empty file that it creates. -/
def Notes.created (notes : Notes) : Artifact := ⟨[],notes.corpus,notes.build⟩

/-- Note one answered call. -/
def Notes.record (notes : Notes) : (op : HostOp) → op.Answer → Notes
  | .artifact (.remove path),some _ =>
    {notes with publishing := true,unremoved := notes.unremoved++[path]}
  | .artifact _,_ => {notes with publishing := true}
  | .lock op,answer => {notes with locks := notes.locks.record (.lock op) answer}
  | .openFile path _,_ => {notes with opened := notes.opened++[path]}
  | .remove path,some _ => {notes with unremoved := notes.unremoved++[path]}
  | _,_ => notes

/-- The machine, what the running build has done, and the pair that was
committed last. -/
structure World extends Machine where
  /-- What the running build has done. -/
  notes : Notes
  /-- The index and the documents committed last. -/
  committed : Option (Artifact×Artifact)

/-- The commit of a publication is the rename that puts the new index into
place. The document store it belongs to is live by then. -/
def committedBy (world : World) : (op : HostOp) → op.Answer → Option (Artifact×Artifact)
  | .artifact (.rename source _ operation),.ok () =>
    if operation=text "failed to publish index" then
      (world.disk source).bind (fun index =>
        (world.disk world.notes.documents).map (fun documents => (index,documents)))
    else world.committed
  | _,_ => world.committed

/-- A build acts. -/
def building (tokens : Set Text) : Environment HostOp HostOp.Answer World :=
  fun op before answer after =>
    op.Effect tokens before.notes.created before.toMachine answer after.toMachine ∧
      after.notes=before.notes.record op answer ∧ after.committed=committedBy before op answer

/-- A diagnosis acts. -/
def diagnosing : Environment HostOp HostOp.Answer World := fun op before answer after =>
  op.Effect ∅ ⟨[],[],0⟩ before.toMachine answer after.toMachine ∧ after.notes=before.notes ∧
    after.committed=before.committed

section Responses

/-- One of the ways to answer a call, failing when a fault is given. -/
def HostOp.respond (token : Text) (created : Artifact) (fault : Option Text) :
    (op : HostOp) → Machine → op.Answer×Machine
  | .artifact op,machine =>
    ((op.effect machine.disk fault).1,{machine with disk := (op.effect machine.disk fault).2})
  | .lock op,machine =>
    ((op.effect machine.locks fault none).1,{machine with locks := (op.effect machine.locks fault none).2})
  | .pathExists path,machine => match fault with
    | some reason => (.error reason,machine)
    | none => (.ok (machine.disk path).isSome,machine)
  | .isRegularFile path,machine => match fault with
    | some reason => (.error reason,machine)
    | none => (.ok (machine.disk path).isSome,machine)
  | .remove path,machine => (((FileOp.remove path).effect machine.disk fault).1,
      {machine with disk := ((FileOp.remove path).effect machine.disk fault).2})
  | .openFile path truncate,machine => match fault with
    | some _ => (false,machine)
    | none => (true,⟨place machine.disk path
        (if truncate then some created else some ((machine.disk path).getD created)),machine.locks⟩)
  | .write path bytes,machine => match fault with
    | some reason => (.error (runtimeError reason),⟨place machine.disk path ((machine.disk path).map
        (fun artifact => {artifact with bytes := artifact.bytes++[]})),machine.locks⟩)
    | none => (.ok (),⟨place machine.disk path ((machine.disk path).map
        (fun artifact => {artifact with bytes := artifact.bytes++bytes})),machine.locks⟩)
  | .readFile path,machine => match machine.disk path with
    | some file => (.ok file.bytes,machine)
    | none => (.error (runtimeError path),machine)
  | .uniqueToken,machine => (token,machine)
  | .isDirectory _,machine => (fault.isNone,machine)
  | .listDirectory directory,machine => (.error directory,machine)
  | .lockPresent path,machine => ((machine.locks path).isSome,machine)
  | .readOwner path,machine => match fault with
    | some _ => (none,machine)
    | none => ((machine.locks path).bind LockDirectory.owner,machine)
  | .hostName,machine => (fault.getD [],machine)
  | .signalProcess _,machine => (fault.isSome,machine)
  | .fileSize path,machine => match machine.disk path with
    | some file => (.ok file.bytes.length,machine)
    | none => (.error path,machine)
  | .reportProgress ..,machine => (.ok (),machine)
  | .shouldCancel,machine => (.ok fault.isSome,machine)
  | .embed _,machine => (.ok [],machine)
  | .createGraph ..,machine => (.ok (),machine)
  | .addPoint ..,machine => (.ok (),machine)
  | .readGraph,machine => (⟨id,fun _ => 0,fun _ _ => [],0,0⟩,machine)

/-- It is a way to answer it. -/
theorem respond_effect {tokens : Set Text} {token : Text} (ht : token∈tokens) (created : Artifact)
    (fault : Option Text) (op : HostOp) (machine : Machine) :
    op.Effect tokens created machine (op.respond token created fault machine).1
      (op.respond token created fault machine).2 := by
  cases op with
  | artifact op => exact ⟨⟨fault,rfl⟩,rfl⟩
  | lock op => exact ⟨⟨fault,none,rfl⟩,rfl⟩
  | pathExists path =>
    cases fault with
    | some reason => exact ⟨rfl,.inl ⟨reason,rfl⟩⟩
    | none => exact ⟨rfl,.inr rfl⟩
  | isRegularFile path =>
    cases fault with
    | some reason => exact ⟨rfl,fun h => nomatch h⟩
    | none => exact ⟨rfl,fun h => Except.ok.inj h⟩
  | remove path => exact ⟨⟨fault,rfl⟩,rfl⟩
  | openFile path truncate =>
    cases fault with
    | some reason => exact ⟨rfl,rfl⟩
    | none => exact ⟨rfl,rfl⟩
  | write path bytes =>
    cases fault with
    | some reason => exact ⟨rfl,[],List.nil_prefix,fun h => (nomatch h),rfl⟩
    | none => exact ⟨rfl,bytes,List.prefix_rfl,fun _ => rfl,rfl⟩
  | readFile path =>
    simp only [HostOp.respond]
    split
    · rename_i file ha
      refine ⟨rfl,fun bytes hb => ?_⟩
      rw [ha]
      exact congrArg some (Except.ok.inj hb)
    · exact ⟨rfl,fun _ h => nomatch h⟩
  | uniqueToken => exact ⟨rfl,ht⟩
  | listDirectory directory => exact ⟨rfl,fun _ h => nomatch h⟩
  | lockPresent path => exact ⟨rfl,rfl⟩
  | readOwner path =>
    cases fault with
    | some reason => exact ⟨rfl,fun _ h => nomatch h⟩
    | none => exact ⟨rfl,fun _ h => h⟩
  | fileSize path =>
    simp only [HostOp.respond]
    split
    · rename_i file ha
      refine ⟨rfl,fun size hs => ?_⟩
      rw [ha]
      exact congrArg some (Except.ok.inj hs)
    · exact ⟨rfl,fun _ h => nomatch h⟩
  | _ => exact rfl

/-- Answer a call of a build. -/
def respond (token : Text) (op : HostOp) (world : World) (fault : Option Text) : op.Answer×World :=
  ((op.respond token world.notes.created fault world.toMachine).1,
    {toMachine := (op.respond token world.notes.created fault world.toMachine).2,
     notes := world.notes.record op (op.respond token world.notes.created fault world.toMachine).1,
     committed := committedBy world op (op.respond token world.notes.created fault world.toMachine).1})

/-- The build allows for that. -/
theorem respond_allowed {tokens : Set Text} {token : Text} (ht : token∈tokens) (op : HostOp)
    (world : World) (fault : Option Text) :
    building tokens op world (respond token op world fault).1 (respond token op world fault).2 :=
  ⟨respond_effect ht _ fault op world.toMachine,rfl,rfl⟩

end Responses

/-- A program over these calls. -/
abbrev HostProgram (α : Type) := Program HostOp HostOp.Answer α

/-- A program that may throw. -/
abbrev Throwing (α : Type) := ExceptT Fault (Program HostOp HostOp.Answer) α

/-- Make a call. -/
def perform (op : HostOp) : HostProgram op.Answer := Program.perform op

/-- Hand a result on, with an exception thrown. -/
def rethrow {α : Type} (program : HostProgram (Except Exception α)) : Throwing α :=
  program.bind (fun answer => .done (answer.mapError Fault.thrown))

/-- Hand on the result of a computation that makes no call. -/
def computed {α : Type} (result : Except Fault α) : Throwing α := Program.done result

end Leann.Host
