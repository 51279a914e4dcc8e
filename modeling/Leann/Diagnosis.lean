import Leann.Histories

/-!
# A diagnosis by itself

While nobody else acts, what the machine holds, which calls fail, the name
of the host and its processes determine what a diagnosis finds, what it
removes and what it says.
-/

namespace Leann.Diagnosis

open Effects Exceptions Documents IndexFile Search ArtifactPublisher Host BuildProgram BuildSteps
  Doctor Histories
open BuildLocks hiding World building ofLocks
open LockOwner

section Circumstances

/-- What a diagnosis comes upon. -/
structure Circumstances where
  /-- The files and the locks. -/
  machine : Machine
  /-- The paths of the files, in the order of a scan. -/
  files : List Text
  /-- A scan comes upon each once. -/
  distinct : files.Nodup
  /-- These are the files. -/
  listed : ∀ path,path∈files ↔ (machine.disk path).isSome
  /-- The calls that fail, with the texts of the errors. -/
  fault : HostOp → Option Text
  /-- The name of the host. -/
  host : Text
  /-- Its processes that answer a signal. -/
  runs : ℕ → Bool

variable (circumstances : Circumstances)

/-- How a call is answered. -/
def Circumstances.respond (op : HostOp) (machine : Machine) : op.Answer×Machine :=
  match op with
  | .readFile path => match circumstances.fault (.readFile path) with
    | some reason => (.error (runtimeError reason),machine)
    | none => HostOp.respond [] ⟨[],[],0⟩ none (.readFile path) machine
  | .fileSize path => match circumstances.fault (.fileSize path) with
    | some reason => (.error reason,machine)
    | none => HostOp.respond [] ⟨[],[],0⟩ none (.fileSize path) machine
  | .listDirectory directory => match circumstances.fault (.listDirectory directory) with
    | some reason => (.error reason,machine)
    | none => (.ok (circumstances.files.filter (fun path =>
        parentPath path=directory ∧ (machine.disk path).isSome)),machine)
  | .hostName => (circumstances.host,machine)
  | .signalProcess pid => (circumstances.runs pid,machine)
  | op => op.respond [] ⟨[],[],0⟩ (circumstances.fault op) machine

/-- The result of a program and what it leaves behind. -/
def Circumstances.eval {α : Type} (program : HostProgram α) (machine : Machine) : α×Machine :=
  program.eval circumstances.respond machine

variable {circumstances} {α β : Type}

/-- One program behind another. -/
theorem eval_bind (program : HostProgram α) (rest : α → HostProgram β) (machine : Machine) :
    circumstances.eval (program>>=rest) machine=
      circumstances.eval (rest (circumstances.eval program machine).1)
        (circumstances.eval program machine).2 :=
  Program.eval_bind _ program rest machine

/-- So when the first may throw. -/
theorem eval_throwing (program : Throwing α) (rest : α → Throwing β) (machine : Machine) :
    circumstances.eval (program>>=rest).run machine=
      match circumstances.eval program.run machine with
      | (.ok value,after) => circumstances.eval (rest value).run after
      | (.error fault,after) => (.error fault,after) := by
  unfold Circumstances.eval
  change (Program.bind program _).eval _ _=_
  rw [Program.eval_bind]
  change _=match Program.eval circumstances.respond program machine with
    | (.ok value,after) => Program.eval circumstances.respond (rest value).run after
    | (.error fault,after) => (.error fault,after)
  rcases Program.eval circumstances.respond program machine with ⟨fault|value,after⟩
  · rfl
  · rfl

/-- So when it throws nothing. -/
theorem eval_lifted (program : HostProgram α) (rest : α → Throwing β) (machine : Machine) :
    circumstances.eval (((monadLift program : Throwing α)>>=rest) : Throwing β).run machine=
      circumstances.eval (rest (circumstances.eval program machine).1).run
        (circumstances.eval program machine).2 := by
  rw [lifted_bind]
  exact Program.eval_bind _ program _ machine

/-- A program that throws nothing, as one that may. -/
theorem eval_liftM (program : HostProgram α) (machine : Machine) :
    circumstances.eval (liftM program : Throwing α).run machine=
      (.ok (circumstances.eval program machine).1,(circumstances.eval program machine).2) :=
  Program.eval_bind _ program _ machine

end Circumstances

section Quiet

variable {circumstances : Circumstances} {α : Type}

/-- A call that changes nothing. -/
theorem respond_quiet (circumstances : Circumstances) {op : HostOp} (h : Quiet op) (machine : Machine) :
    (circumstances.respond op machine).2=machine := by
  have hmachine : ∀ fault,(op.respond [] ⟨[],[],0⟩ fault machine).2=machine := fun fault =>
    quiet_machine h (respond_effect (Set.mem_univ _) ⟨[],[],0⟩ fault op machine)
  unfold Circumstances.respond
  split
  · split
    · rfl
    · exact hmachine none
  · split
    · rfl
    · exact hmachine none
  · split <;> rfl
  · rfl
  · rfl
  · exact hmachine _

/-- A program that changes nothing returns something of its kind. -/
theorem quiet_eval {returns : α → Prop} {program : HostProgram α} (h : program.All Quiet returns)
    (machine : Machine) :
    ∃ value,returns value ∧ circumstances.eval program machine=(value,machine) := by
  induction program with
  | done value => exact ⟨value,h,rfl⟩
  | call op next ih =>
    have hsame := respond_quiet circumstances h.1 machine
    obtain ⟨value,hv,heval⟩ := ih (circumstances.respond op machine).1 (h.2 _)
    refine ⟨value,hv,?_⟩
    change circumstances.eval (next _) (circumstances.respond op machine).2=_
    rw [hsame]
    exact heval

end Quiet

section Findings

variable (circumstances : Circumstances)

/-- What the full load path gives. -/
def Circumstances.pair (index documents : Text) : Except Fault Index :=
  (circumstances.eval (checkPair index documents).run circumstances.machine).1

/-- Whether a file is seen. -/
def Circumstances.sees (path : Text) : Bool :=
  (circumstances.fault (.isRegularFile path)).isNone && (circumstances.machine.disk path).isSome

/-- Whether the live pair loads and validates. -/
def Circumstances.validates (index documents : Text) : Bool :=
  circumstances.sees index && circumstances.sees documents &&
    (circumstances.pair index documents).toBool

/-- What is said of a pair that does not, or whose statistics fail. -/
def Circumstances.complaint (index documents : Text) : Text :=
  if circumstances.sees index then
    if circumstances.sees documents then
      match circumstances.pair index documents with
      | .error fault => describe fault
      | .ok _ => (circumstances.fault (.fileSize index)).getD []
    else "document store is missing; the index alone cannot be used"
  else if circumstances.sees documents then
    "index is missing; a build may have been interrupted before its commit"
  else "no artifact pair at this prefix"

/-- The lock of a target. -/
def Circumstances.lock (target : Text) : LockReport :=
  (circumstances.eval (inspectLock target) circumstances.machine).1

variable {circumstances}

/-- One call. -/
theorem eval_perform (op : HostOp) (machine : Machine) :
    circumstances.eval (perform op) machine=circumstances.respond op machine := rfl

/-- Returning. -/
theorem eval_pure {α : Type} (value : α) (machine : Machine) :
    circumstances.eval (pure value) machine=(value,machine) := rfl

/-- A file is looked at. -/
theorem isRegularFile_respond (circumstances : Circumstances) (path : Text) :
    ∃ answer,circumstances.respond (.isRegularFile path) circumstances.machine=
        (answer,circumstances.machine) ∧ (answer=.ok true ↔ circumstances.sees path=true) := by
  unfold Circumstances.respond HostOp.respond Circumstances.sees
  dsimp only
  cases circumstances.fault (.isRegularFile path) with
  | some reason => exact ⟨.error reason,rfl,by simp⟩
  | none => exact ⟨.ok (circumstances.machine.disk path).isSome,rfl,by simp⟩

/-- A file that is seen is measured, or that fails. -/
theorem fileSize_respond (circumstances : Circumstances) {path : Text} (h : circumstances.sees path=true) :
    ∃ answer,circumstances.respond (.fileSize path) circumstances.machine=
        (answer,circumstances.machine) ∧ ((∃ size,answer=.ok size) ∧
          circumstances.fault (.fileSize path)=none ∨
        ∃ reason,answer=.error reason ∧ circumstances.fault (.fileSize path)=some reason) := by
  obtain ⟨file,hfile⟩ := Option.isSome_iff_exists.mp (Bool.and_eq_true _ _ ▸ h).2
  unfold Circumstances.respond HostOp.respond
  dsimp only
  cases circumstances.fault (.fileSize path) with
  | some reason => exact ⟨_,rfl,.inr ⟨reason,rfl,rfl⟩⟩
  | none =>
    dsimp only
    rw [hfile]
    exact ⟨_,rfl,.inl ⟨⟨_,rfl⟩,rfl⟩⟩

/-- The load path changes nothing. -/
theorem checkPair_eval (index documents : Text) :
    circumstances.eval (checkPair index documents).run circumstances.machine=
      (circumstances.pair index documents,circumstances.machine) := by
  obtain ⟨result,-,heval⟩ := quiet_eval (checkPair_quiet index documents) circumstances.machine
  unfold Circumstances.pair
  rw [show circumstances.eval (checkPair index documents).run circumstances.machine=_ from heval]

/-- What is known of the pair is written down. -/
structure Circumstances.Found (circumstances : Circumstances) (index documents : Text)
    (report : DoctorReport) : Prop where
  /-- Which index it is about. -/
  indexPath : report.indexPath=index
  /-- Which documents. -/
  documentsPath : report.documentsPath=documents
  /-- Whether the pair validates. -/
  pairValid : report.pairValid=circumstances.validates index documents
  /-- What is said of it. -/
  pairError : report.pairError=circumstances.complaint index documents
  /-- Its identity, or nothing. -/
  pairIdentity : ∃ digest,report.pairIdentity=hexDigest digest
  /-- Nothing is removed yet. -/
  removed : report.removed=[]
  /-- Nothing is kept. -/
  retained : report.retained=[]

/-- Both files are seen. -/
theorem found_seen {index documents : Text} {result : Except Fault Index} {valid : Bool}
    {error : Text} (digest : Text) (hi : circumstances.sees index=true)
    (hd : circumstances.sees documents=true) (hp : circumstances.pair index documents=result)
    (h : (∃ fault,result=.error fault ∧ valid=false ∧ error=describe fault) ∨
      ∃ loaded,result=.ok loaded ∧ valid=true ∧
        error=(circumstances.fault (.fileSize index)).getD []) :
    circumstances.Found index documents
      ⟨index,documents,true,true,valid,error,hexDigest digest,[],[],[],[]⟩ := by
  refine ⟨rfl,rfl,?_,?_,⟨digest,rfl⟩,rfl,rfl⟩
  · rcases h with ⟨fault,rfl,rfl,-⟩|⟨loaded,rfl,rfl,-⟩ <;>
      simp [Circumstances.validates,hi,hd,hp,Except.toBool]
  · rcases h with ⟨fault,rfl,-,rfl⟩|⟨loaded,rfl,-,rfl⟩ <;>
      simp [Circumstances.complaint,hi,hd,hp]

/-- Only the index is seen. -/
theorem found_index {index documents : Text} (hi : circumstances.sees index=true)
    (hd : circumstances.sees documents=false) : circumstances.Found index documents
      ⟨index,documents,true,false,false,"document store is missing; the index alone cannot be used",
        [],[],[],[],[]⟩ := by
  refine ⟨rfl,rfl,?_,?_,⟨[],rfl⟩,rfl,rfl⟩
  · simp [Circumstances.validates,hd]
  · simp [Circumstances.complaint,hi,hd]

/-- Only the documents are seen. -/
theorem found_documents {index documents : Text} (hi : circumstances.sees index=false)
    (hd : circumstances.sees documents=true) : circumstances.Found index documents
      ⟨index,documents,false,true,false,
        "index is missing; a build may have been interrupted before its commit",[],[],[],[],[]⟩ := by
  refine ⟨rfl,rfl,?_,?_,⟨[],rfl⟩,rfl,rfl⟩
  · simp [Circumstances.validates,hi]
  · simp [Circumstances.complaint,hi,hd]

/-- Neither is. -/
theorem found_nothing {index documents : Text} (hi : circumstances.sees index=false)
    (hd : circumstances.sees documents=false) : circumstances.Found index documents
      ⟨index,documents,false,false,false,"no artifact pair at this prefix",[],[],[],[],[]⟩ := by
  refine ⟨rfl,rfl,?_,?_,⟨[],rfl⟩,rfl,rfl⟩
  · simp [Circumstances.validates,hi]
  · simp [Circumstances.complaint,hi,hd]

/-- What is known of the pair. -/
theorem inspectPair_eval (circumstances : Circumstances) (index documents : Text) :
    ∃ report,circumstances.eval (inspectPair index documents) circumstances.machine=
      (report,circumstances.machine) ∧ circumstances.Found index documents report := by
  obtain ⟨first,hfirst,hsees⟩ := isRegularFile_respond circumstances index
  obtain ⟨second,hsecond,hsees'⟩ := isRegularFile_respond circumstances documents
  have hno : ∀ {answer : Except Text Bool} {path : Text},
      (answer=.ok true ↔ circumstances.sees path=true) → answer≠.ok true →
        circumstances.sees path=false := fun same h =>
    Bool.eq_false_iff.mpr (fun hs => h (same.mpr hs))
  unfold inspectPair
  rw [eval_bind,eval_perform,hfirst,eval_bind,eval_perform,hsecond]
  by_cases h : first=.ok true
  · have hi := hsees.mp h
    by_cases h' : second=.ok true
    · have hd := hsees'.mp h'
      subst h h'
      obtain ⟨size,hsize,hs⟩ := fileSize_respond circumstances hi
      dsimp only
      rw [eval_bind,checkPair_eval]
      cases hp : circumstances.pair index documents with
      | error fault => exact ⟨_,rfl,found_seen [] hi hd hp (.inl ⟨fault,rfl,rfl,rfl⟩)⟩
      | ok loaded =>
        dsimp only
        rw [eval_bind,eval_perform,hsize]
        rcases hs with ⟨⟨bytes,rfl⟩,hnone⟩|⟨reason,rfl,hsome⟩
        · exact ⟨_,rfl,found_seen _ hi hd hp (.inr ⟨loaded,rfl,rfl,by rw [hnone,Option.getD_none]⟩)⟩
        · exact ⟨_,rfl,found_seen [] hi hd hp (.inr ⟨loaded,rfl,rfl,by rw [hsome,Option.getD_some]⟩)⟩
    · have hd := hno hsees' h'
      subst h
      match second,h' with
      | .ok false,_ => exact ⟨_,rfl,found_index hi hd⟩
      | .error reason,_ => exact ⟨_,rfl,found_index hi hd⟩
  · have hi := hno hsees h
    by_cases h' : second=.ok true
    · have hd := hsees'.mp h'
      subst h'
      match first,h with
      | .ok false,_ => exact ⟨_,rfl,found_documents hi hd⟩
      | .error reason,_ => exact ⟨_,rfl,found_documents hi hd⟩
    · have hd := hno hsees' h'
      match first,second,h,h' with
      | .ok false,.ok false,_,_ => exact ⟨_,rfl,found_nothing hi hd⟩
      | .ok false,.error reason,_,_ => exact ⟨_,rfl,found_nothing hi hd⟩
      | .error reason,.ok false,_,_ => exact ⟨_,rfl,found_nothing hi hd⟩
      | .error reason,.error reason',_,_ => exact ⟨_,rfl,found_nothing hi hd⟩

/-- A lock is inspected. -/
theorem inspectLock_eval (target : Text) :
    circumstances.eval (inspectLock target) circumstances.machine=
      (circumstances.lock target,circumstances.machine) := by
  obtain ⟨report,-,heval⟩ := quiet_eval (inspectLock_quiet target) circumstances.machine
  unfold Circumstances.lock
  rw [heval]

/-- It is the lock of the target. -/
theorem lock_path (target : Text) : (circumstances.lock target).path=lockPathFor target := by
  unfold Circumstances.lock inspectLock
  rw [eval_bind]
  split
  · rw [eval_bind,eval_bind]
    rfl
  · rfl

/-- It is found when it is there. -/
theorem lock_present (target : Text) : (circumstances.lock target).present=
    (circumstances.machine.locks (lockPathFor target)).isSome := by
  unfold Circumstances.lock inspectLock
  have hanswer : circumstances.respond (.lockPresent (lockPathFor target)) circumstances.machine=
      ((circumstances.machine.locks (lockPathFor target)).isSome,circumstances.machine) := rfl
  rw [eval_bind,eval_perform,hanswer]
  dsimp only
  cases (circumstances.machine.locks (lockPathFor target)).isSome with
  | true =>
    rw [if_pos rfl,eval_bind,eval_bind]
    rfl
  | false => rfl

end Findings

section Scans

variable (circumstances : Circumstances)

/-- Whether the directory is found. -/
def Circumstances.scans (index : Text) : Bool :=
  (circumstances.fault (.isDirectory (parentPath index))).isNone

/-- Why it cannot be read. -/
def Circumstances.unreadable (index : Text) : Option Text :=
  if circumstances.scans index then circumstances.fault (.listDirectory (parentPath index)) else none

/-- What stands beside the pair, by its name. -/
def Circumstances.beside (index documents : Text) : List Leftover :=
  if circumstances.scans index then
    (circumstances.files.filter (fun path => parentPath path=parentPath index ∧
      (circumstances.machine.disk path).isSome)).filterMap
        (leftoverOf [fileName index,fileName documents])
  else []

/-- A leftover with its size. -/
def Circumstances.measured (leftover : Leftover) : Leftover :=
  (circumstances.eval (measure leftover) circumstances.machine).1

/-- The leftovers. -/
def Circumstances.leftovers (index documents : Text) : List Leftover :=
  sortLeftovers ((circumstances.beside index documents).map circumstances.measured)

variable {circumstances}

/-- A leftover is measured. -/
theorem measure_eval (circumstances : Circumstances) (leftover : Leftover) :
    circumstances.eval (measure leftover) circumstances.machine=
      (circumstances.measured leftover,circumstances.machine) ∧
      (circumstances.measured leftover).kind=leftover.kind ∧
      (circumstances.measured leftover).path=leftover.path := by
  obtain ⟨measured,hsame,heval⟩ := quiet_eval (measure_quiet leftover) circumstances.machine
  unfold Circumstances.measured
  rw [heval]
  exact ⟨rfl,hsame⟩

/-- The directory is scanned. -/
theorem collectLeftovers_eval (circumstances : Circumstances) (index documents : Text) :
    ∃ fault,circumstances.eval (collectLeftovers index documents).run circumstances.machine=
      (match circumstances.unreadable index with
        | some _ => .error fault
        | none => .ok (circumstances.leftovers index documents),circumstances.machine) := by
  unfold collectLeftovers Circumstances.unreadable Circumstances.leftovers Circumstances.beside
  have hanswer : circumstances.respond (.isDirectory (parentPath index)) circumstances.machine=
      (circumstances.scans index,circumstances.machine) := rfl
  rw [eval_lifted,eval_perform,hanswer]
  dsimp only
  cases hs : circumstances.scans index with
  | false => exact ⟨.endless,rfl⟩
  | true =>
    simp only [if_true]
    rw [eval_lifted,eval_perform]
    unfold Circumstances.respond
    dsimp only
    cases circumstances.fault (.listDirectory (parentPath index)) with
    | some reason => exact ⟨_,rfl⟩
    | none =>
      dsimp only
      rw [eval_lifted]
      have hloop : ∀ found : List Leftover,circumstances.eval (found.mapM measure) circumstances.machine=
          (found.map circumstances.measured,circumstances.machine) := fun found =>
        Program.eval_mapM _ (fun leftover _ => (measure_eval circumstances leftover).1)
      rw [hloop]
      exact ⟨.endless,rfl⟩

variable {index documents : Text}

/-- What a file is says its path, and no size yet. -/
theorem leftoverOf_path {stems : List Text} {path : Text} {leftover : Leftover}
    (h : leftoverOf stems path=some leftover) : leftover={kind := leftover.kind,path := path} := by
  obtain ⟨stem,-,hs⟩ := List.exists_of_findSome?_eq_some h
  split at hs
  · rw [←Option.some.inj hs]
  · split at hs
    · rw [←Option.some.inj hs]
    · cases hs

/-- A file that is nothing has neither name. -/
theorem leftoverOf_none {stems : List Text} {path stem : Text} (h : leftoverOf stems path=none)
    (hs : stem∈stems) :
    ¬stem++(".tmp." : Text)<+:fileName path ∧ ¬stem++(".bak." : Text)<+:fileName path := by
  have hone := List.findSome?_eq_none_iff.mp h stem hs
  split at hone
  · cases hone
  · rename_i htemporary
    split at hone
    · cases hone
    · rename_i hbackup
      exact ⟨htemporary,hbackup⟩

/-- What a file of the directory is called when it extends a target. -/
theorem fileName_extends {target marker token path : Text} (h : path=target++marker++token)
    (directory : parentPath path=parentPath target) : fileName target++marker<+:fileName path := by
  have hwhole : parentPath path++(fileName target++marker++token)=parentPath path++fileName path := by
    rw [parent_file,directory,←List.append_assoc,←List.append_assoc,parent_file,h]
  exact ⟨token,List.append_cancel_left hwhole⟩

/-- A file of the directory is a temporary or a backup as its name says. -/
theorem leftoverOf_iff (separate : Separate index documents) {path : Text}
    (directory : parentPath path=parentPath index) (kind : LeftoverKind) :
    leftoverOf [fileName index,fileName documents] path=some {kind := kind,path := path} ↔
      match kind with
      | .temporary => Temporary index documents path
      | .backup => Backup index documents path := by
  have hdocuments : parentPath path=parentPath documents := directory.trans separate.directory.symm
  constructor
  · intro h
    have hnamed := leftoverOf_named separate.directory directory h
    cases kind with
    | temporary => exact hnamed.2.1 rfl
    | backup => exact hnamed.2.2 rfl
  · intro h
    cases hfound : leftoverOf [fileName index,fileName documents] path with
    | none =>
      have hi := leftoverOf_none hfound List.mem_cons_self
      have hd := leftoverOf_none hfound (List.mem_cons_of_mem _ List.mem_cons_self)
      exfalso
      cases kind with
      | temporary =>
        obtain ⟨token,ht|ht⟩ := h
        · exact hi.1 (fileName_extends ht directory)
        · exact hd.1 (fileName_extends ht hdocuments)
      | backup =>
        obtain ⟨token,hb|hb⟩ := h
        · exact hi.2 (fileName_extends hb directory)
        · exact hd.2 (fileName_extends hb hdocuments)
    | some leftover =>
      have hnamed := leftoverOf_named separate.directory directory hfound
      have hkind : leftover.kind=kind := by
        cases hl : leftover.kind with
        | temporary =>
          cases kind with
          | temporary => rfl
          | backup => exact absurd h (separate.apart path (hnamed.2.1 hl))
        | backup =>
          cases kind with
          | temporary => exact absurd (hnamed.2.2 hl) (separate.apart path h)
          | backup => rfl
      rw [leftoverOf_path hfound,hkind]

/-- What is found beside the pair. -/
theorem mem_beside (separate : Separate index documents) (kind : LeftoverKind) (path : Text) :
    {kind := kind,path := path}∈circumstances.beside index documents ↔
      circumstances.scans index=true ∧ path∈circumstances.files ∧
        parentPath path=parentPath index ∧ match kind with
          | .temporary => Temporary index documents path
          | .backup => Backup index documents path := by
  unfold Circumstances.beside
  cases circumstances.scans index with
  | false => simp
  | true =>
    simp only [if_true,true_and,List.mem_filterMap,List.mem_filter,decide_eq_true_eq]
    constructor
    · rintro ⟨file,⟨hf,hd,-⟩,hl⟩
      have hpath : path=file := congrArg Leftover.path (leftoverOf_path hl)
      subst hpath
      exact ⟨hf,hd,(leftoverOf_iff separate hd kind).mp hl⟩
    · rintro ⟨hf,hd,hk⟩
      exact ⟨path,⟨hf,hd,(circumstances.listed path).mp hf⟩,(leftoverOf_iff separate hd kind).mpr hk⟩

/-- The leftovers are these, measured and in order. -/
theorem leftovers_perm (index documents : Text) : (circumstances.leftovers index documents).Perm
    ((circumstances.beside index documents).map circumstances.measured) :=
  List.perm_insertionSort _ _

/-- No path is met twice. -/
theorem leftovers_distinct (index documents : Text) :
    ((circumstances.leftovers index documents).map Leftover.path).Nodup := by
  rw [((leftovers_perm index documents).map _).nodup_iff,List.map_map]
  have hpaths : (circumstances.beside index documents).map (Leftover.path∘circumstances.measured)=
      (circumstances.beside index documents).map Leftover.path :=
    List.map_congr_left (fun leftover _ => (measure_eval circumstances leftover).2.2)
  rw [hpaths]
  unfold Circumstances.beside
  split
  · have hsub : ∀ files : List Text,((files.filterMap (leftoverOf [fileName index,fileName
        documents])).map Leftover.path).Sublist files := by
      intro files
      induction files with
      | nil => exact List.Sublist.refl _
      | cons file files ih =>
        rw [List.filterMap_cons]
        split
        · exact ih.cons _
        · rename_i leftover hl
          rw [List.map_cons,leftoverOf_path hl]
          exact ih.cons_cons _
    exact (hsub _).nodup (circumstances.distinct.filter _)
  · exact List.nodup_nil

/-- The leftovers have the paths and the kinds found. -/
theorem mem_leftovers {leftover : Leftover} (h : leftover∈circumstances.leftovers index documents) :
    {kind := leftover.kind,path := leftover.path}∈circumstances.beside index documents := by
  obtain ⟨found,hf,rfl⟩ := List.mem_map.mp ((leftovers_perm index documents).mem_iff.mp h)
  have hsame := (measure_eval circumstances found).2
  have hshape : found={kind := found.kind,path := found.path} := by
    unfold Circumstances.beside at hf
    split at hf
    · obtain ⟨file,-,hl⟩ := List.mem_filterMap.mp hf
      rw [leftoverOf_path hl]
    · cases hf
  rw [hsame.1,hsame.2,←hshape]
  exact hf

/-- And none is missing. -/
theorem beside_leftovers {found : Leftover} (h : found∈circumstances.beside index documents) :
    ∃ leftover∈circumstances.leftovers index documents,
      leftover.kind=found.kind ∧ leftover.path=found.path :=
  ⟨circumstances.measured found,(leftovers_perm index documents).mem_iff.mpr (List.mem_map_of_mem h),
    (measure_eval circumstances found).2⟩

end Scans

section Removals

/-- Some files less. -/
def erase (disk : Disk Artifact) (paths : List Text) : Disk Artifact :=
  fun path => if path∈paths then none else disk path

/-- What is said of something removed. -/
def removedEntry (entry : Text×Text) : Text := entry.1++" ("++entry.2++")"

/-- What is said of something kept. -/
def retainedEntry (entry : Text×Text) : Text := entry.1++": "++entry.2

/-- Write down what was removed and what was kept. -/
def noting (report : DoctorReport) (removed retained : List (Text×Text)) : DoctorReport :=
  {report with removed := report.removed++removed.map removedEntry,
               retained := report.retained++retained.map retainedEntry}

/-- Whether `--repair` wants a leftover to go. -/
def condemned (locked valid : Bool) (leftover : Leftover) : Bool :=
  !locked && (leftover.kind=.temporary || valid)

/-- Why it goes. -/
def removalReason : LeftoverKind → Text
  | .temporary => "abandoned build temporary"
  | .backup => "superseded backup; live pair validates"

variable (circumstances : Circumstances) (locked valid : Bool)

/-- Whether it does. -/
def Circumstances.removes (leftover : Leftover) : Bool :=
  condemned locked valid leftover && (circumstances.fault (.remove leftover.path)).isNone

/-- Why it does not. -/
def Circumstances.retention (leftover : Leftover) : Text :=
  if locked then "a build lock is present, so a build may still be using this file"
  else if condemned locked valid leftover then
    (circumstances.fault (.remove leftover.path)).getD []
  else "the live pair does not validate, so this backup may be the only usable artifact"

/-- What goes, with the reasons. -/
def Circumstances.victims (leftovers : List Leftover) : List (Text×Text) :=
  (leftovers.filter (circumstances.removes locked valid)).map
    (fun leftover => (leftover.path,removalReason leftover.kind))

/-- What stays, with the reasons. -/
def Circumstances.survivors (leftovers : List Leftover) : List (Text×Text) :=
  (leftovers.filter (fun leftover => !circumstances.removes locked valid leftover)).map
    (fun leftover => (leftover.path,circumstances.retention locked valid leftover))

variable {circumstances} {locked}

/-- One removal is noted. -/
theorem noting_removed (report : DoctorReport) (path reason : Text) :
    noting report [(path,reason)] []=
      {report with removed := report.removed++[path++" ("++reason++")"]} := by
  simp [noting,removedEntry]

/-- One that is kept is noted. -/
theorem noting_retained (report : DoctorReport) (path reason : Text) :
    noting report [] [(path,reason)]=
      {report with retained := report.retained++[path++": "++reason]} := by
  simp [noting,retainedEntry]

/-- Notes follow each other. -/
theorem noting_noting (report : DoctorReport) (removed retained removed' retained' : List (Text×Text)) :
    noting (noting report removed retained) removed' retained'=
      noting report (removed++removed') (retained++retained') := by
  simp [noting]

/-- Nothing is noted. -/
theorem noting_nothing (report : DoctorReport) : noting report [] []=report := by
  simp [noting]

/-- Files go one after the other. -/
theorem erase_erase (disk : Disk Artifact) (paths paths' : List Text) :
    erase (erase disk paths) paths'=erase disk (paths++paths') := by
  funext path
  unfold erase
  by_cases h : path∈paths' <;> simp [h]

/-- No file goes. -/
theorem erase_nothing (disk : Disk Artifact) : erase disk []=disk := by
  funext path
  simp [erase]

/-- A removal is noted as it ends. -/
theorem removePath_noted (removal : HostProgram (Option Text)) (path reason : Text)
    (report : DoctorReport) (machine : Machine) :
    circumstances.eval (removePath removal path reason report) machine=
      (match (circumstances.eval removal machine).1 with
        | some error => noting report [] [(path,error)]
        | none => noting report [(path,reason)] [],(circumstances.eval removal machine).2) := by
  unfold removePath
  rw [eval_bind]
  cases (circumstances.eval removal machine).1 with
  | some error =>
    dsimp only
    rw [noting_retained]
    rfl
  | none =>
    dsimp only
    rw [noting_removed]
    rfl

/-- A file is removed, or that fails. -/
theorem remove_respond (path : Text) (machine : Machine) :
    circumstances.respond (.remove path) machine=match circumstances.fault (.remove path) with
      | some error => (some error,machine)
      | none => (none,⟨erase machine.disk [path],machine.locks⟩) := by
  have hdisk : place machine.disk path none=erase machine.disk [path] := by
    funext name
    simp [erase]
  rw [←hdisk]
  unfold Circumstances.respond HostOp.respond FileOp.effect
  dsimp only
  cases circumstances.fault (.remove path) with
  | some error => rfl
  | none => rfl

/-- The removal of one file. -/
theorem removePath_eval (path reason : Text) (report : DoctorReport) (machine : Machine) :
    circumstances.eval (removePath (perform (.remove path)) path reason report) machine=
      match circumstances.fault (.remove path) with
      | some error => (noting report [] [(path,error)],machine)
      | none => (noting report [(path,reason)] [],⟨erase machine.disk [path],machine.locks⟩) := by
  rw [removePath_noted,eval_perform,remove_respond]
  cases circumstances.fault (.remove path) with
  | some error => rfl
  | none => rfl

/-- One round of `--repair`. -/
theorem repairLeftover_eval (report : DoctorReport) (leftover : Leftover) (machine : Machine) :
    circumstances.eval (repairLeftover locked report leftover) machine=
      if circumstances.removes locked report.pairValid leftover then
        (noting report [(leftover.path,removalReason leftover.kind)] [],
          ⟨erase machine.disk [leftover.path],machine.locks⟩)
      else (noting report [] [(leftover.path,circumstances.retention locked report.pairValid leftover)],
        machine) := by
  have hkept : ∀ {report : DoctorReport} {reason entry : Text},entry=": "++reason →
      circumstances.eval (pure {report with retained := report.retained++[leftover.path++entry]})
        machine=(noting report [] [(leftover.path,reason)],machine) := by
    intro report reason entry he
    rw [noting_retained,he,List.append_assoc]
    rfl
  have hlocked : text ": a build lock is present, so a build may still be using this file"=
      text ": "++text "a build lock is present, so a build may still be using this file" := by decide
  have hbackup : text ": the live pair does not validate, so this backup may be the only usable artifact"=
      text ": "++text "the live pair does not validate, so this backup may be the only usable artifact" := by
    decide
  unfold repairLeftover Circumstances.removes Circumstances.retention condemned
  cases locked with
  | true => exact hkept hlocked
  | false =>
    cases leftover.kind with
    | temporary =>
      simp only [Bool.false_eq_true,if_false]
      rw [removePath_eval]
      cases circumstances.fault (.remove leftover.path) with
      | some error => rfl
      | none => rfl
    | backup =>
      obtain ⟨_,_,_,_,valid,_,_,_,_,_,_⟩ := report
      cases valid with
      | true =>
        simp only [Bool.false_eq_true,if_false,if_true]
        rw [removePath_eval]
        cases circumstances.fault (.remove leftover.path) with
        | some error => rfl
        | none => rfl
      | false => exact hkept hbackup

/-- The loop of `--repair`. -/
theorem repair_eval (leftovers : List Leftover) (report : DoctorReport) (machine : Machine) :
    circumstances.eval (leftovers.foldlM (repairLeftover locked) report) machine=
      (noting report (circumstances.victims locked report.pairValid leftovers)
          (circumstances.survivors locked report.pairValid leftovers),
        ⟨erase machine.disk ((circumstances.victims locked report.pairValid leftovers).map Prod.fst),
          machine.locks⟩) := by
  induction leftovers generalizing report machine with
  | nil =>
    change (report,machine)=(noting report [] [],⟨erase machine.disk [],machine.locks⟩)
    rw [noting_nothing,erase_nothing]
  | cons leftover leftovers ih =>
    rw [List.foldlM_cons,eval_bind,repairLeftover_eval]
    unfold Circumstances.victims Circumstances.survivors at ih ⊢
    cases h : circumstances.removes locked report.pairValid leftover with
    | true =>
      simp only [if_true,ih,noting_noting,erase_erase]
      simp [h,noting]
    | false =>
      simp only [Bool.false_eq_true,if_false,ih,noting_noting]
      simp [h,noting]

end Removals

section Unlocking

variable (circumstances : Circumstances)

/-- Whether the directory of a lock can be removed behind its owner file. -/
def Circumstances.unlocks (path : Text) (lock : LockDirectory) : Bool :=
  (circumstances.fault (.lock (.removeDirectory path))).isNone &&
    (lock.owner.isNone || (circumstances.fault (.lock (.removeOwner path))).isNone)

/-- What is left of a lock. -/
def Circumstances.unlocked (path : Text) (lock : LockDirectory) : Option LockDirectory :=
  if circumstances.unlocks path lock then none
  else if (circumstances.fault (.lock (.removeOwner path))).isNone then some ⟨none⟩
  else some lock

/-- The locks behind `--force-unlock`. -/
def Circumstances.release (locks : Locks) (paths : List Text) : Locks :=
  fun path => if path∈paths then (locks path).bind (circumstances.unlocked path) else locks path

/-- The locks that go, with the reason. -/
def Circumstances.freed (locks : Locks) (paths : List Text) : List (Text×Text) :=
  (paths.filter (fun path => (locks path).any (circumstances.unlocks path))).map
    (fun path => (path,"build lock removed by --force-unlock"))

/-- The locks that stay, with the reasons. -/
def Circumstances.stuck (locks : Locks) (paths : List Text) : List (Text×Text) :=
  (paths.filter (fun path => (locks path).any (fun lock => !circumstances.unlocks path lock))).map
    (fun path => (path,(circumstances.fault (.lock (.removeDirectory path))).getD notEmpty))

variable {circumstances}

/-- An operation on a lock leaves the files. -/
theorem lock_respond (op : LockOp) (machine : Machine) :
    circumstances.respond (.lock op) machine=
      ((op.effect machine.locks (circumstances.fault (.lock op)) none).1,
        ⟨machine.disk,(op.effect machine.locks (circumstances.fault (.lock op)) none).2⟩) := rfl

/-- One lock is released. -/
theorem forceUnlock_eval (report : DoctorReport) (lock : LockReport) (machine : Machine)
    (present : lock.present=(machine.locks lock.path).isSome) :
    circumstances.eval (forceUnlock report lock) machine=
      (noting report (circumstances.freed machine.locks [lock.path])
          (circumstances.stuck machine.locks [lock.path]),
        ⟨machine.disk,circumstances.release machine.locks [lock.path]⟩) := by
  unfold forceUnlock
  cases h : machine.locks lock.path with
  | none =>
    rw [h] at present
    have hlocks : circumstances.release machine.locks [lock.path]=machine.locks := by
      funext path
      unfold Circumstances.release
      split
      · rename_i hp
        rw [List.mem_singleton.mp hp,h]
        rfl
      · rfl
    simp only [Circumstances.freed,Circumstances.stuck,List.filter_cons,h,Option.any_none,
      Bool.false_eq_true,if_false,List.filter_nil,List.map_nil]
    rw [noting_nothing,hlocks,present]
    rfl
  | some entry =>
    rw [h] at present
    rw [present,Option.isSome_some,if_pos rfl,eval_bind,eval_perform,removePath_noted,eval_perform]
    have howner : (circumstances.respond (.lock (.removeOwner lock.path)) machine).2=
        ⟨machine.disk,Function.update machine.locks lock.path (some
          (if (circumstances.fault (.lock (.removeOwner lock.path))).isNone then ⟨none⟩ else entry))⟩ := by
      rw [lock_respond]
      unfold LockOp.effect
      cases circumstances.fault (.lock (.removeOwner lock.path)) with
      | some reason =>
        dsimp only
        rw [Option.isNone_some,if_neg Bool.false_ne_true,←h,Function.update_eq_self]
      | none =>
        dsimp only
        rw [h]
        rfl
    have hrelease : circumstances.release machine.locks [lock.path]=
        Function.update machine.locks lock.path (circumstances.unlocked lock.path entry) := by
      funext path
      unfold Circumstances.release
      by_cases hp : path=lock.path
      · rw [hp,if_pos (List.mem_singleton_self _),h,Function.update_self]
        rfl
      · rw [if_neg (fun hm => hp (List.mem_singleton.mp hm)),Function.update_of_ne hp]
    rw [howner,lock_respond,hrelease]
    unfold Circumstances.freed Circumstances.stuck Circumstances.unlocked
    simp only [List.filter_cons,h,Option.any_some,List.filter_nil]
    cases hu : circumstances.unlocks lock.path entry with
    | true =>
      obtain ⟨hfault,hempty⟩ := (Bool.and_eq_true _ _).mp hu
      rw [Option.isNone_iff_eq_none] at hfault
      have hleft : (if (circumstances.fault (.lock (.removeOwner lock.path))).isNone then ⟨none⟩
          else entry : LockDirectory).owner=none := by
        split
        · rfl
        · rename_i hf
          simpa [hf] using hempty
      simp only [LockOp.effect,hfault,Function.update_self,Option.bind_some,hleft,Option.isSome_none,
        Bool.false_eq_true,if_false,if_true,Function.update_idem,Bool.not_true,List.map_cons,
        List.map_nil]
    | false =>
      have hleft : (if (circumstances.fault (.lock (.removeOwner lock.path))).isNone then
          some (⟨none⟩ : LockDirectory) else some entry)=some (if (circumstances.fault
            (.lock (.removeOwner lock.path))).isNone then ⟨none⟩ else entry) := by
        split <;> rfl
      simp only [Bool.false_eq_true,if_false,Bool.not_false,if_true,List.map_nil,List.map_cons,hleft]
      unfold LockOp.effect
      cases hfault : circumstances.fault (.lock (.removeDirectory lock.path)) with
      | some reason => rfl
      | none =>
        unfold Circumstances.unlocks at hu
        rw [hfault,Option.isNone_none,Bool.true_and,Bool.or_eq_false_iff] at hu
        have howned : entry.owner.isSome=true := by
          rw [←Option.not_isNone,hu.1]
          rfl
        simp only [hu.2,Bool.false_eq_true,if_false,Function.update_self,Option.bind_some,howned,
          if_true,Option.getD_none]

/-- The loop of `--force-unlock`. -/
theorem unlock_eval (locks : List LockReport) (distinct : (locks.map LockReport.path).Nodup)
    (report : DoctorReport) (machine : Machine)
    (present : ∀ lock∈locks,lock.present=(machine.locks lock.path).isSome) :
    circumstances.eval (locks.foldlM forceUnlock report) machine=
      (noting report (circumstances.freed machine.locks (locks.map LockReport.path))
          (circumstances.stuck machine.locks (locks.map LockReport.path)),
        ⟨machine.disk,circumstances.release machine.locks (locks.map LockReport.path)⟩) := by
  induction locks generalizing report machine with
  | nil =>
    have hlocks : circumstances.release machine.locks []=machine.locks := by
      funext path
      simp [Circumstances.release]
    change (report,machine)=(noting report [] [],⟨machine.disk,circumstances.release machine.locks []⟩)
    rw [noting_nothing,hlocks]
  | cons lock locks ih =>
    rw [List.map_cons,List.nodup_cons] at distinct
    have hother : ∀ {path : Text},path∈locks.map LockReport.path →
        circumstances.release machine.locks [lock.path] path=machine.locks path := by
      intro path hp
      refine if_neg (fun hm => distinct.1 ?_)
      rw [←List.mem_singleton.mp hm]
      exact hp
    have hfreed : circumstances.freed (circumstances.release machine.locks [lock.path])
        (locks.map LockReport.path)=circumstances.freed machine.locks (locks.map LockReport.path) :=
      congrArg _ (List.filter_congr (fun path hp => by rw [hother hp]))
    have hstuck : circumstances.stuck (circumstances.release machine.locks [lock.path])
        (locks.map LockReport.path)=circumstances.stuck machine.locks (locks.map LockReport.path) :=
      congrArg _ (List.filter_congr (fun path hp => by rw [hother hp]))
    have hrelease : circumstances.release (circumstances.release machine.locks [lock.path])
        (locks.map LockReport.path)=
          circumstances.release machine.locks (lock.path::locks.map LockReport.path) := by
      funext path
      by_cases hp : path∈locks.map LockReport.path
      · rw [Circumstances.release,if_pos hp,hother hp,Circumstances.release,
          if_pos (List.mem_cons_of_mem _ hp)]
      · rw [Circumstances.release,if_neg hp]
        unfold Circumstances.release
        simp only [List.mem_cons,hp,List.not_mem_nil,or_false]
    have hsplit : lock.path::locks.map LockReport.path=[lock.path]++locks.map LockReport.path := rfl
    rw [List.foldlM_cons,eval_bind,forceUnlock_eval _ _ _ (present lock List.mem_cons_self),
      ih distinct.2 _ _ ?_,noting_noting,List.map_cons]
    · dsimp only
      rw [hfreed,hstuck,hrelease,hsplit]
      unfold Circumstances.freed Circumstances.stuck
      rw [List.filter_append,List.map_append,List.filter_append,List.map_append]
    · intro other ho
      rw [present other (List.mem_cons_of_mem _ ho)]
      dsimp only
      rw [hother (List.mem_map_of_mem ho)]

end Unlocking

section Whole

variable (circumstances : Circumstances) (arguments : DoctorArguments) (index documents : Text)

/-- The two locks. -/
def Circumstances.locks : List LockReport := [circumstances.lock index,circumstances.lock documents]

/-- Whether a lock is there. -/
def Circumstances.locked : Bool := (circumstances.locks index documents).any LockReport.present

/-- Whether `--force-unlock` is refused. -/
def Circumstances.refuses : Bool :=
  arguments.forceUnlock && (circumstances.locks index documents).any
    (fun lock => lock.present && lock.liveness=.running)

/-- The report with the locks and the leftovers. -/
def Circumstances.examined (report : DoctorReport) : DoctorReport :=
  {report with locks := circumstances.locks index documents,
               leftovers := circumstances.leftovers index documents}

/-- What is removed. -/
def Circumstances.removed : List (Text×Text) :=
  (if arguments.repair then circumstances.victims (circumstances.locked index documents)
      (circumstances.validates index documents) (circumstances.leftovers index documents) else [])++
    if arguments.forceUnlock then circumstances.freed circumstances.machine.locks
      [lockPathFor index,lockPathFor documents] else []

/-- What is kept. -/
def Circumstances.retained : List (Text×Text) :=
  (if arguments.repair then circumstances.survivors (circumstances.locked index documents)
      (circumstances.validates index documents) (circumstances.leftovers index documents) else [])++
    if arguments.forceUnlock then circumstances.stuck circumstances.machine.locks
      [lockPathFor index,lockPathFor documents] else []

/-- What is left on the machine. -/
def Circumstances.remains : Machine :=
  ⟨if arguments.repair then erase circumstances.machine.disk
      ((circumstances.victims (circumstances.locked index documents)
        (circumstances.validates index documents) (circumstances.leftovers index documents)).map
          Prod.fst)
    else circumstances.machine.disk,
   if arguments.forceUnlock then circumstances.release circumstances.machine.locks
      [lockPathFor index,lockPathFor documents]
    else circumstances.machine.locks⟩

variable {circumstances arguments index documents}

/-- A diagnosis that cannot scan or is refused throws. -/
theorem doctor_throws (h : (circumstances.unreadable index).isSome ∨
      circumstances.refuses arguments index documents=true) :
    ∃ fault,circumstances.eval (doctor arguments index documents).run circumstances.machine=
      (.error fault,circumstances.machine) := by
  obtain ⟨report,hreport,-⟩ := inspectPair_eval circumstances index documents
  obtain ⟨reason,hleftovers⟩ := collectLeftovers_eval circumstances index documents
  unfold doctor
  rw [eval_lifted,hreport,eval_lifted,inspectLock_eval,eval_lifted,inspectLock_eval,eval_throwing,
    hleftovers]
  cases hu : circumstances.unreadable index with
  | some reason => exact ⟨_,rfl⟩
  | none =>
    have hrefuses : arguments.forceUnlock ∧ [circumstances.lock index,circumstances.lock documents].any
        (fun lock => lock.present && lock.liveness=.running) := by
      rcases h with h|h
      · rw [hu] at h
        cases h
      · exact (Bool.and_eq_true _ _).mp h
    dsimp only
    rw [if_pos hrefuses]
    exact ⟨_,rfl⟩

/-- What `--repair` does, if it is asked for. -/
theorem repairing_eval (arguments : DoctorArguments) (start : DoctorReport)
    (valid : start.pairValid=circumstances.validates index documents) :
    circumstances.eval (if arguments.repair=true then
        (circumstances.leftovers index documents).foldlM
          (repairLeftover ([circumstances.lock index,circumstances.lock documents].any
            LockReport.present)) start
      else pure start) circumstances.machine=
      (noting start
        (if arguments.repair then circumstances.victims (circumstances.locked index documents)
          (circumstances.validates index documents) (circumstances.leftovers index documents) else [])
        (if arguments.repair then circumstances.survivors (circumstances.locked index documents)
          (circumstances.validates index documents) (circumstances.leftovers index documents) else []),
        ⟨(circumstances.remains arguments index documents).disk,circumstances.machine.locks⟩) := by
  unfold Circumstances.remains
  cases arguments.repair with
  | false =>
    simp only [Bool.false_eq_true,if_false,noting_nothing]
    rfl
  | true =>
    simp only [if_true]
    rw [repair_eval,valid]
    rfl

/-- The locks are those of the machine. -/
theorem locks_paths : (circumstances.locks index documents).map LockReport.path=
    [lockPathFor index,lockPathFor documents] := by
  unfold Circumstances.locks
  rw [List.map_cons,List.map_cons,List.map_nil,lock_path,lock_path]

/-- What `--force-unlock` does, if it is asked for. -/
theorem unlocking_eval (different : index≠documents) (start : DoctorReport) (disk : Disk Artifact) :
    circumstances.eval (if arguments.forceUnlock=true then
        [circumstances.lock index,circumstances.lock documents].foldlM forceUnlock start
      else pure start) ⟨disk,circumstances.machine.locks⟩=
      (noting start
        (if arguments.forceUnlock then circumstances.freed circumstances.machine.locks
          [lockPathFor index,lockPathFor documents] else [])
        (if arguments.forceUnlock then circumstances.stuck circumstances.machine.locks
          [lockPathFor index,lockPathFor documents] else []),
        ⟨disk,(circumstances.remains arguments index documents).locks⟩) := by
  have hdistinct : ((circumstances.locks index documents).map LockReport.path).Nodup := by
    have hne : lockPathFor index≠lockPathFor documents := fun h =>
      different (List.append_cancel_right h)
    rw [locks_paths]
    simp [hne]
  have hpresent : ∀ lock∈circumstances.locks index documents,
      lock.present=(circumstances.machine.locks lock.path).isSome := by
    intro lock hl
    rcases List.mem_cons.mp hl with rfl|hl
    · rw [lock_present,lock_path]
    · rw [List.mem_singleton.mp hl,lock_present,lock_path]
  unfold Circumstances.remains
  cases arguments.forceUnlock with
  | false =>
    simp only [Bool.false_eq_true,if_false,noting_nothing]
    rfl
  | true =>
    simp only [if_true]
    change circumstances.eval ((circumstances.locks index documents).foldlM forceUnlock start) _=_
    rw [unlock_eval _ hdistinct start ⟨disk,circumstances.machine.locks⟩ hpresent,locks_paths]

/-- Any other returns a report. -/
theorem doctor_returns (different : index≠documents) (readable : circumstances.unreadable index=none)
    (admitted : circumstances.refuses arguments index documents=false) :
    ∃ report,circumstances.Found index documents report ∧
      circumstances.eval (doctor arguments index documents).run circumstances.machine=
        (.ok (noting (circumstances.examined index documents report)
          (circumstances.removed arguments index documents)
          (circumstances.retained arguments index documents)),
        circumstances.remains arguments index documents) := by
  obtain ⟨report,hreport,found⟩ := inspectPair_eval circumstances index documents
  obtain ⟨reason,hleftovers⟩ := collectLeftovers_eval circumstances index documents
  refine ⟨report,found,?_⟩
  have hadmitted : ¬(arguments.forceUnlock ∧
      [circumstances.lock index,circumstances.lock documents].any
        (fun lock => lock.present && lock.liveness=.running)) := by
    intro h
    have hr : circumstances.refuses arguments index documents=true := (Bool.and_eq_true _ _).mpr h
    rw [admitted] at hr
    cases hr
  unfold doctor
  rw [eval_lifted,hreport,eval_lifted,inspectLock_eval,eval_lifted,inspectLock_eval,eval_throwing,
    hleftovers,readable]
  have hrepair := repairing_eval arguments (circumstances.examined index documents report)
    found.pairValid
  unfold Circumstances.examined Circumstances.locks at hrepair
  dsimp only
  rw [if_neg hadmitted,eval_lifted,hrepair,eval_liftM,unlocking_eval different,noting_noting]
  rfl

end Whole

section Runs

/-- The calls of a diagnosis: it looks, and it removes. -/
def Asks (op : HostOp) : Prop :=
  Quiet op ∨ (∃ path,op=.remove path) ∨ (∃ path,op=.lock (.removeOwner path)) ∨
    ∃ path,op=.lock (.removeDirectory path)

/-- Whatever the machine allows for. -/
def anything : Environment HostOp HostOp.Answer Machine := fun op before answer after =>
  op.Effect Set.univ ⟨[],[],0⟩ before answer after

variable {index documents : Text} {circumstances : Circumstances}

/-- Looking is all right. -/
theorem quiet_asks {α : Type} {returns : α → Prop} {program : HostProgram α}
    (h : program.All Quiet returns) : program.All Asks returns :=
  h.mono (fun _ hq => .inl hq) (fun _ hr => hr)

/-- A removal. -/
theorem removePath_asks {removal : HostProgram (Option Text)} (h : removal.All Asks (fun _ => True))
    (path reason : Text) (report : DoctorReport) :
    (removePath removal path reason report).All Asks (fun _ => True) := by
  refine h.bind (fun error _ => ?_)
  cases error with
  | some reason => trivial
  | none => trivial

/-- A loop of rounds that do so. -/
theorem foldlM_asks {α : Type} {round : DoctorReport → α → HostProgram DoctorReport}
    (h : ∀ report value,(round report value).All Asks (fun _ => True)) (values : List α)
    (report : DoctorReport) : (values.foldlM round report).All Asks (fun _ => True) := by
  induction values generalizing report with
  | nil => trivial
  | cons value values ih =>
    rw [List.foldlM_cons]
    exact (h report value).bind (fun report' _ => ih report')

/-- One round of `--repair`. -/
theorem repairLeftover_asks (locked : Bool) (report : DoctorReport) (leftover : Leftover) :
    (repairLeftover locked report leftover).All Asks (fun _ => True) := by
  have hremove : (perform (.remove leftover.path)).All Asks (fun _ => True) :=
    ⟨.inr (.inl ⟨_,rfl⟩),fun _ => trivial⟩
  unfold repairLeftover
  split
  · trivial
  · split
    · exact removePath_asks hremove _ _ _
    · split
      · exact removePath_asks hremove _ _ _
      · trivial

/-- One round of `--force-unlock`. -/
theorem forceUnlock_asks (report : DoctorReport) (lock : LockReport) :
    (forceUnlock report lock).All Asks (fun _ => True) := by
  unfold forceUnlock
  split
  · refine ⟨.inr (.inr (.inl ⟨_,rfl⟩)),fun _ => ?_⟩
    have hremove : (perform (.lock (.removeDirectory lock.path))).All Asks (fun _ => True) :=
      ⟨.inr (.inr (.inr ⟨_,rfl⟩)),fun _ => trivial⟩
    exact removePath_asks hremove _ _ _
  · trivial

/-- A program that throws nothing, as one that may. -/
theorem issues_lift {α : Type} {issues : HostOp → Prop} {program : HostProgram α}
    (h : program.All issues (fun _ => True)) :
    Issues issues (fun _ => True) (liftM program : Throwing α) :=
  h.bind (fun _ _ _ _ => trivial)

/-- The pair is looked at. -/
theorem inspectPair_quiet (index documents : Text) :
    (inspectPair index documents).All Quiet (fun _ => True) := by
  refine ⟨trivial,fun first => ⟨trivial,fun second => ?_⟩⟩
  dsimp only [Program.bind]
  split
  · refine Program.All.bind (checkPair_quiet index documents) (fun result _ => ?_)
    cases result with
    | error fault => trivial
    | ok loaded =>
      refine ⟨trivial,fun size => ?_⟩
      cases size with
      | ok size => trivial
      | error reason => trivial
  · trivial
  · trivial
  · trivial

/-- The directory is scanned. -/
theorem collectLeftovers_quiet (index documents : Text) :
    Issues Quiet (fun _ => True) (collectLeftovers index documents) := by
  have hdirectory : (perform (.isDirectory (parentPath index))).All Quiet (fun _ => True) :=
    ⟨trivial,fun _ => trivial⟩
  have hlist : (perform (.listDirectory (parentPath index))).All Quiet (fun _ => True) :=
    ⟨trivial,fun _ => trivial⟩
  refine (issues_lift hdirectory).bind (fun present _ => ?_)
  split
  · refine (issues_lift hlist).bind (fun answer _ => ?_)
    cases answer with
    | error reason => exact .throw _
    | ok paths =>
      have hloop := Program.All.mapM (fun (leftover : Leftover) (_ : leftover∈paths.filterMap
        (leftoverOf [fileName index,fileName documents])) => measure_quiet leftover)
      exact (issues_lift (hloop.mono (fun _ h => h) (fun _ _ => trivial))).bind (fun _ _ => .pure trivial)
  · exact .pure trivial

/-- A whole diagnosis. -/
theorem doctor_asks (arguments : DoctorArguments) (index documents : Text) :
    Issues Asks (fun _ => True) (doctor arguments index documents) := by
  refine (issues_lift (quiet_asks (inspectPair_quiet index documents))).bind (fun report _ => ?_)
  refine (issues_lift (quiet_asks (inspectLock_quiet index))).bind (fun first _ => ?_)
  refine (issues_lift (quiet_asks (inspectLock_quiet documents))).bind (fun second _ => ?_)
  have hleftovers : Issues Asks (fun _ => True) (collectLeftovers index documents) :=
    quiet_asks (collectLeftovers_quiet index documents)
  refine hleftovers.bind (fun leftovers _ => ?_)
  dsimp only
  split
  · exact .throw _
  · refine (issues_lift ?_).bind (fun report' _ => issues_lift ?_)
    · split
      · exact foldlM_asks (repairLeftover_asks _) _ _
      · trivial
    · split
      · exact foldlM_asks forceUnlock_asks _ _
      · trivial

/-- A diagnosis and its output. -/
theorem commandDoctor_asks (format : OutputFormat) (arguments : DoctorArguments) (stem : Text) :
    Issues Asks (fun _ => True) (commandDoctor format arguments stem) :=
  (doctor_asks arguments _ _).bind (fun _ _ =>
    (Issues.computed (fun _ _ => trivial)).bind (fun _ _ => .pure trivial))

/-- The machine allows for the answers while the listed files are all there are. -/
theorem respond_anything {op : HostOp} (h : Asks op) {machine : Machine}
    (listed : ∀ path,(machine.disk path).isSome → path∈circumstances.files) :
    anything op machine (circumstances.respond op machine).1 (circumstances.respond op machine).2 ∧
      ∀ path,((circumstances.respond op machine).2.disk path).isSome → path∈circumstances.files := by
  constructor
  · have heffect : ∀ fault,anything op machine (op.respond [] ⟨[],[],0⟩ fault machine).1
        (op.respond [] ⟨[],[],0⟩ fault machine).2 := fun fault =>
      respond_effect (Set.mem_univ _) ⟨[],[],0⟩ fault op machine
    unfold Circumstances.respond
    split
    · split
      · exact ⟨rfl,fun _ h => nomatch h⟩
      · exact heffect none
    · split
      · exact ⟨rfl,fun _ h => nomatch h⟩
      · exact heffect none
    · split
      · exact ⟨rfl,fun _ h => nomatch h⟩
      · refine ⟨rfl,fun paths hp => ?_⟩
        rw [←Except.ok.inj hp]
        refine ⟨circumstances.distinct.filter _,fun path => ?_⟩
        rw [List.mem_filter,decide_eq_true_eq]
        exact ⟨fun h => h.2,fun h => ⟨listed path h.2,h⟩⟩
    · exact rfl
    · exact rfl
    · exact heffect _
  · have hsame : (circumstances.respond op machine).2.disk=machine.disk →
        ∀ path,((circumstances.respond op machine).2.disk path).isSome → path∈circumstances.files := by
      intro hdisk path hp
      rw [hdisk] at hp
      exact listed path hp
    rcases h with hq|⟨removed,rfl⟩|⟨lock,rfl⟩|⟨lock,rfl⟩
    · exact hsame (congrArg Machine.disk (respond_quiet circumstances hq machine))
    · rw [remove_respond]
      cases circumstances.fault (.remove removed) with
      | some error => exact listed
      | none =>
        intro path hp
        refine listed path ?_
        dsimp only [erase] at hp
        split at hp
        · cases hp
        · exact hp
    · exact hsame rfl
    · exact hsame rfl

/-- What is evaluated is one of the runs. -/
theorem commandDoctor_run (format : OutputFormat) (arguments : DoctorArguments) (stem : Text) :
    Run anything (circumstances.machine,(commandDoctor format arguments stem).run)
      ((circumstances.eval (commandDoctor format arguments stem).run circumstances.machine).2,
        .done (circumstances.eval (commandDoctor format arguments stem).run circumstances.machine).1) :=
  Program.eval_run circumstances.respond
    (fun machine => ∀ path,(machine.disk path).isSome → path∈circumstances.files)
    (fun _ _ asks listed => respond_anything asks listed) (commandDoctor_asks format arguments stem)
    (fun path h => (circumstances.listed path).mpr h)

end Runs

end Leann.Diagnosis
