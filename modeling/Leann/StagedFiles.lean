import Mathlib.Data.List.Basic
import Mathlib.Logic.Relation
import Leann.RaisingPrograms

/-!
# Outputs that are made in stages

A program appends to a partial file, lets a checkpoint vouch for what it has
written, renames the whole to its place and describes it in a sidecar. Any call
may fail or be the last one before the program is killed. `Holds` says of a
part of such a program that it keeps what is on disk, and that it only raises
with an excuse.
-/

namespace Leann.StagedFiles

open Effects RaisingPrograms

/-- The files of an output. -/
structure Files (α κ δ : Type) where
  /-- The partial file. -/
  partialFile : Option (List α)
  /-- The checkpoint. -/
  checkpoint : Option κ
  /-- The output. -/
  output : Option (List α)
  /-- The sidecar. -/
  sidecar : Option δ

/-- Calls on these files, and other ones. -/
inductive StagedOp (α κ δ Other : Type) where
  /-- Read the output, if it is there. -/
  | readOutput
  /-- Read the partial file, if it is there. -/
  | readPartial
  /-- Read the checkpoint, if it is there. -/
  | readCheckpoint
  /-- Read the sidecar, if it is there. -/
  | readSidecar
  /-- Create the partial file and write it. -/
  | createPartial (bytes : List α)
  /-- Append to the partial file. -/
  | appendPartial (bytes : List α)
  /-- Cut the partial file off. -/
  | truncatePartial (length : ℕ)
  /-- Replace the checkpoint. -/
  | writeCheckpoint (state : κ)
  /-- Remove the checkpoint. -/
  | unlinkCheckpoint
  /-- Rename the partial file to the output. -/
  | replaceOutput
  /-- Replace the sidecar. -/
  | writeSidecar (declared : δ)
  /-- Another call. -/
  | other (op : Other)

variable {α κ δ Other ε β γ ι : Type}

/-- None of them is there. -/
def Files.empty : Files α κ δ := ⟨none,none,none,none⟩

/-- What the answers hold. -/
def StagedOp.Result (Reply : Other → Type) : StagedOp α κ δ Other → Type
  | .readOutput => Option (List α)
  | .readPartial => Option (List α)
  | .readCheckpoint => Option κ
  | .readSidecar => Option δ
  | .other op => Reply op
  | _ => Unit

/-- A program over such calls. -/
abbrev StagedProgram (α κ δ : Type) (Reply : Other → Type) (ε β : Type) :=
  Attempt (StagedOp α κ δ Other) (StagedOp.Result Reply) ε β

/-- Make a call. -/
abbrev request {Reply : Other → Type} (op : StagedOp α κ δ Other) : StagedProgram α κ δ Reply ε (op.Result Reply) :=
  ask op

/-- A file that has to be there. -/
def present {Reply : Other → Type} (failed : ε) (file : Option (List α)) : StagedProgram α κ δ Reply ε (List α) :=
  match file with
  | some bytes => pure bytes
  | none => throw failed

/-- What is longer than it should be is cut off. -/
def truncateTo {Reply : Other → Type} (observed expected : ℕ) : StagedProgram α κ δ Reply ε Unit :=
  if observed>expected then request (.truncatePartial expected) else pure ()

/-- The sidecar is written, and the checkpoint is removed. -/
def declare {Reply : Other → Type} (declared : δ) : StagedProgram α κ δ Reply ε δ := do
  request (.writeSidecar declared)
  request .unlinkCheckpoint
  return declared

section Surroundings

/-- What a call does to the files. -/
def effect : StagedOp α κ δ Other → Files α κ δ → Files α κ δ
  | .createPartial bytes,files => {files with partialFile := some bytes}
  | .appendPartial bytes,files => {files with partialFile := some (files.partialFile.getD []++bytes)}
  | .truncatePartial length,files => {files with partialFile := files.partialFile.map (List.take length)}
  | .writeCheckpoint state,files => {files with checkpoint := some state}
  | .unlinkCheckpoint,files => {files with checkpoint := none}
  | .replaceOutput,files => {files with partialFile := none,output := files.partialFile}
  | .writeSidecar declared,files => {files with sidecar := some declared}
  | _,files => files

/-- What a call needs: a file that is there is not created, and what is cut off
or renamed has to be there. -/
def Possible : StagedOp α κ δ Other → Files α κ δ → Prop
  | .createPartial _,files => files.partialFile=none
  | .truncatePartial _,files => files.partialFile≠none
  | .replaceOutput,files => files.partialFile≠none
  | _,_ => True

/-- What is left by a call that fails or in which the program is killed. -/
inductive Leaves : StagedOp α κ δ Other → Files α κ δ → Files α κ δ → Prop where
  /-- Nothing was done. -/
  | nothing {op : StagedOp α κ δ Other} {files : Files α κ δ} : Leaves op files files
  /-- Everything was done. -/
  | everything {op : StagedOp α κ δ Other} {files : Files α κ δ} (possible : Possible op files) :
      Leaves op files (effect op files)
  /-- Some of a new file was written. -/
  | created {bytes part : List α} {files : Files α κ δ} (absent : files.partialFile=none) (begins : part<+:bytes) :
      Leaves (.createPartial bytes) files {files with partialFile := some part}
  /-- Some was appended. -/
  | appended {bytes part : List α} {files : Files α κ δ} (begins : part<+:bytes) :
      Leaves (.appendPartial bytes) files {files with partialFile := some (files.partialFile.getD []++part)}

/-- How the other calls are answered. -/
structure Client (Reply : Other → Type) where
  /-- What they may answer. -/
  answers : (op : Other) → Reply op → Prop
  /-- Which ones do not fail by themselves. -/
  willing : Other → Prop
  /-- These have an answer. -/
  willing_answers : ∀ op,willing op → ∃ value,answers op value

variable {Reply : Other → Type} (client : Client Reply) (failed : ε)

/-- What a call may answer. -/
def Answers : (op : StagedOp α κ δ Other) → Files α κ δ → op.Result Reply → Prop
  | .readOutput,files,answer => answer=files.output
  | .readPartial,files,answer => answer=files.partialFile
  | .readCheckpoint,files,answer => answer=files.checkpoint
  | .readSidecar,files,answer => answer=files.sidecar
  | .other op,_,answer => client.answers op answer
  | _,_,_ => True

/-- Which calls do not fail by themselves. -/
def Willing : StagedOp α κ δ Other → Prop
  | .other op => client.willing op
  | _ => True

/-- How calls are answered. They only fail when they may, or when they are
not possible. -/
def surroundings (failing : Prop) :
    Environment (StagedOp α κ δ Other) (fun op => Except ε (op.Result Reply)) (Files α κ δ) :=
  fun op before answer after => match answer with
    | .ok value => Possible op before ∧ Answers client op before value ∧ after=effect op before
    | .error failure => failure=failed ∧
      (failing ∨ ¬(Possible op before ∧ Willing client op)) ∧ Leaves op before after

/-- What is left of a program. -/
abbrev Remaining (α κ δ : Type) (Reply : Other → Type) (ε β : Type) :=
  Program (StagedOp α κ δ Other) (fun op => Except ε (op.Result Reply)) (Except ε β)

/-- What is on disk when calls of some programs take place one after the other,
each killed anywhere or not at all. -/
inductive Reachable (programs : ι → StagedProgram α κ δ Reply ε β) : Files α κ δ → Prop where
  /-- Before the first of them. -/
  | first : Reachable programs Files.empty
  /-- During one or behind it. -/
  | call {before after : Files α κ δ} {choice : ι} {rest : Remaining α κ δ Reply ε β}
      (reached : Reachable programs before)
      (path : Run (surroundings client failed True) (before,(programs choice).run) (after,rest)) :
      Reachable programs after

end Surroundings

section Logs

/-- What there is of an output. -/
structure Log (α : Type) where
  /-- What the partial file holds, if it is there. -/
  written : Option (List α)
  /-- The length that the checkpoint vouches for, if it is there. -/
  committed : Option ℕ
  /-- What the output holds, if it is there. -/
  output : Option (List α)

/-- What there is of a target. -/
structure Sound (target : List α) (log : Log α) : Prop where
  /-- What is written is a beginning of it. -/
  begins : ∀ bytes,log.written=some bytes → bytes<+:target
  /-- A checkpoint vouches for nothing that is not written. -/
  covered : ∀ bytes length,log.written=some bytes → log.committed=some length → length≤bytes.length
  /-- The output is the whole of it. -/
  output_eq : ∀ bytes,log.output=some bytes → bytes=target
  /-- There is no partial file beside an output. -/
  alone : log.output≠none → log.written=none
  /-- A checkpoint has something to vouch for. -/
  backed : log.committed≠none → log.written≠none ∨ log.output≠none
  /-- Behind the output it vouches for everything. -/
  whole : log.output≠none → ∀ length,log.committed=some length → length=target.length

variable {target : List α} {log : Log α}

/-- A partial file without an output. -/
theorem sound_written {bytes : List α} {committed : Option ℕ} (begins : bytes<+:target)
    (covered : ∀ length,committed=some length → length≤bytes.length) :
    Sound target ⟨some bytes,committed,none⟩ where
  begins _ h := Option.some.inj h ▸ begins
  covered _ length h hc := Option.some.inj h ▸ covered length hc
  output_eq _ h := absurd h (Option.some_ne_none _).symm
  alone h := absurd rfl h
  backed _ := .inl (Option.some_ne_none bytes)
  whole h := absurd rfl h

/-- An output without a partial file. -/
theorem sound_output {committed : Option ℕ} (whole : ∀ length,committed=some length → length=target.length) :
    Sound target ⟨none,committed,some target⟩ where
  begins _ h := absurd h (Option.some_ne_none _).symm
  covered _ _ h := absurd h (Option.some_ne_none _).symm
  output_eq _ h := (Option.some.inj h).symm
  alone _ := rfl
  backed _ := .inr (Option.some_ne_none target)
  whole _ := whole

/-- What a checkpoint vouches for is a beginning of the target. -/
theorem Sound.committed_eq (h : Sound target log) {bytes : List α} {length : ℕ}
    (hw : log.written=some bytes) (hc : log.committed=some length) : bytes.take length=target.take length := by
  obtain ⟨rest,hrest⟩ := h.begins bytes hw
  rw [←hrest,List.take_append_of_le_length (h.covered bytes length hw hc)]

end Logs

section Schemes

/-- What an output is going to be, and what is said about it on the way. -/
structure Scheme (α κ δ : Type) where
  /-- The whole output. -/
  target : List α
  /-- How much a checkpoint vouches for. -/
  covers : κ → ℕ
  /-- The checkpoints that say the truth. -/
  records : κ → Prop
  /-- The checkpoints behind the whole output. -/
  ready : κ → Prop
  /-- The sidecars that say the truth. -/
  declares : δ → Prop
  /-- What is found out before it is published. -/
  checked : Prop

/-- The output that is written piece by piece. -/
def Files.log (covers : κ → ℕ) (files : Files α κ δ) : Log α :=
  ⟨files.partialFile,files.checkpoint.map covers,files.output⟩

/-- What is on disk of an output. -/
structure KeptBy (scheme : Scheme α κ δ) (files : Files α κ δ) : Prop where
  /-- It is a beginning of the output, or the whole of it. -/
  sound : Sound scheme.target (files.log scheme.covers)
  /-- The checkpoint records what is there. -/
  recorded : ∀ state,files.checkpoint=some state → scheme.records state
  /-- The sidecar declares the output. -/
  declares : ∀ declared,files.sidecar=some declared → files.output≠none ∧ scheme.declares declared
  /-- The output was checked. -/
  checked : files.output≠none → scheme.checked
  /-- It is published with a checkpoint until it has its sidecar. -/
  published : files.output≠none → (∃ declared,files.sidecar=some declared) ∨
    ∃ state,files.checkpoint=some state ∧ scheme.ready state

/-- What is on disk, for one of several possible outputs. -/
def Kept (schemes : Scheme α κ δ → Prop) (files : Files α κ δ) : Prop :=
  files=Files.empty ∨ ∃ scheme,schemes scheme ∧ KeptBy scheme files

variable {scheme : Scheme α κ δ} {schemes : Scheme α κ δ → Prop} {files : Files α κ δ}

/-- Nothing is on disk. -/
theorem kept_empty : Kept schemes Files.empty := .inl rfl

/-- A partial file without an output. -/
theorem keptBy_written {bytes : List α} {checkpoint : Option κ} (begins : bytes<+:scheme.target)
    (recorded : ∀ state,checkpoint=some state → scheme.records state ∧ scheme.covers state≤bytes.length) :
    KeptBy scheme ⟨some bytes,checkpoint,none,none⟩ where
  sound := sound_written begins (fun length hlength => by
    obtain ⟨state,hstate,rfl⟩ := Option.map_eq_some_iff.mp hlength
    exact (recorded state hstate).2)
  recorded state hstate := (recorded state hstate).1
  declares _ h := absurd h (Option.some_ne_none _).symm
  checked h := absurd rfl h
  published h := absurd rfl h

/-- An output is there. -/
theorem keptBy_published {checkpoint : Option κ} {sidecar : Option δ}
    (recorded : ∀ state,checkpoint=some state → scheme.records state ∧ scheme.covers state=scheme.target.length)
    (declares : ∀ declared,sidecar=some declared → scheme.declares declared) (checked : scheme.checked)
    (published : (∃ declared,sidecar=some declared) ∨ ∃ state,checkpoint=some state ∧ scheme.ready state) :
    KeptBy scheme ⟨none,checkpoint,some scheme.target,sidecar⟩ where
  sound := sound_output (fun length hlength => by
    obtain ⟨state,hstate,rfl⟩ := Option.map_eq_some_iff.mp hlength
    exact (recorded state hstate).2)
  recorded state hstate := (recorded state hstate).1
  declares declared h := ⟨Option.some_ne_none _,declares declared h⟩
  checked _ := checked
  published _ := published

/-- Without a sidecar the output has its checkpoint. -/
theorem KeptBy.undeclared (hby : KeptBy scheme files) (hthere : files.output≠none) (hsidecar : files.sidecar=none) :
    ∃ state,files.checkpoint=some state ∧ scheme.ready state := by
  rcases hby.published hthere with ⟨declared,hsome⟩|hready
  · rw [hsidecar] at hsome
    exact absurd hsome (Option.some_ne_none _).symm
  · exact hready

/-- An output has no partial file beside it. -/
theorem alone_of_kept (hkept : Kept schemes files) (hthere : files.output≠none) : files.partialFile=none := by
  rcases hkept with rfl|⟨scheme,-,hby⟩
  · rfl
  · exact hby.sound.alone hthere

/-- A partial file that no checkpoint vouches for. -/
def Stuck (files : Files α κ δ) : Prop := files.partialFile≠none ∧ files.checkpoint=none

/-- Where a program that does not find the output finds itself. -/
theorem Kept.unpublished (hkept : Kept schemes files) (houtput : files.output=none) :
    files=Files.empty ∨
      (∃ scheme bytes state,schemes scheme ∧ files=⟨some bytes,some state,none,none⟩ ∧ KeptBy scheme files) ∨
      Stuck files := by
  rcases hkept with hempty|⟨scheme,hscheme,hby⟩
  · exact .inl hempty
  have hsidecar : files.sidecar=none := by
    cases hdeclared : files.sidecar with
    | none => rfl
    | some declared => exact absurd houtput (hby.declares declared hdeclared).1
  obtain ⟨partialFile,checkpoint,output,sidecar⟩ := files
  dsimp only at houtput hsidecar
  subst houtput hsidecar
  cases checkpoint with
  | some state =>
    cases partialFile with
    | some bytes => exact .inr (.inl ⟨scheme,bytes,state,hscheme,rfl,hby⟩)
    | none =>
      rcases hby.sound.backed (Option.some_ne_none _) with hwritten|houtput
      · exact absurd rfl hwritten
      · exact absurd rfl houtput
  | none =>
    cases partialFile with
    | some bytes => exact .inr (.inr ⟨Option.some_ne_none _,rfl⟩)
    | none => exact .inl rfl

end Schemes

section Rules

variable {Reply : Other → Type} {client : Client Reply} {failed : ε}
variable {kept : Files α κ δ → Prop} {failing excuse : Prop} {files after : Files α κ δ}

/-- How a program may end when it raises. -/
def Raises (kept : Files α κ δ → Prop) (failing excuse : Prop) : ε → Files α κ δ → Prop :=
  fun _ after => kept after ∧ (failing ∨ excuse)

/-- Every step keeps what is on disk. -/
abbrev Keeping (Reply : Other → Type) (ε : Type) (kept : Files α κ δ → Prop) :
    Promise (StagedOp α κ δ Other) (fun op => Except ε (op.Result Reply)) (Files α κ δ) :=
  fun _ _ _ after => kept after

/-- A part of a program keeps what is on disk, and raises with an excuse. -/
abbrev Holds (client : Client Reply) (failed : ε) (kept : Files α κ δ → Prop) (failing excuse : Prop)
    (program : StagedProgram α κ δ Reply ε β) (post : β → Files α κ δ → Prop) (files : Files α κ δ) : Prop :=
  Attempts (surroundings client failed failing) (Keeping Reply ε kept) (Raises kept failing excuse) program post files

/-- The rule of one call. -/
theorem request_holds {op : StagedOp α κ δ Other} {post : op.Result Reply → Files α κ δ → Prop}
    (possible : Possible op files) (willing : ¬excuse → Willing client op)
    (left : ∀ after,Leaves op files after → kept after)
    (answered : ∀ value,Answers client op files value → post value (effect op files)) :
    Holds client failed kept failing excuse (request op) post files := by
  refine Attempts.ask (fun answer after h => ?_)
  cases answer with
  | ok value =>
    obtain ⟨-,hvalue,rfl⟩ := h
    exact ⟨left _ (.everything possible),answered value hvalue⟩
  | error failure =>
    obtain ⟨-,hfailing,hleaves⟩ := h
    refine ⟨left _ hleaves,left _ hleaves,hfailing.imp_right (fun hnot => ?_)⟩
    by_contra hexcuse
    exact hnot ⟨possible,willing hexcuse⟩

/-- An operation that is done as a whole or not at all. -/
def Atomic : StagedOp α κ δ Other → Prop
  | .createPartial _ => False
  | .appendPartial _ => False
  | _ => True

/-- What such an operation leaves. -/
theorem atomic_leaves {op : StagedOp α κ δ Other} (atomic : Atomic op) (h : Leaves op files after) :
    after=files ∨ after=effect op files := by
  cases h with
  | nothing => exact .inl rfl
  | everything _ => exact .inr rfl
  | created _ _ => exact atomic.elim
  | appended _ => exact atomic.elim

/-- A call that changes nothing. -/
def Quiet : StagedOp α κ δ Other → Prop
  | .readOutput => True
  | .readPartial => True
  | .readCheckpoint => True
  | .readSidecar => True
  | .other _ => True
  | _ => False

/-- It changes nothing. -/
theorem Quiet.effect_eq {op : StagedOp α κ δ Other} (quiet : Quiet op) : effect op files=files := by
  cases op <;> first | rfl | exact quiet.elim

/-- It is done as a whole. -/
theorem Quiet.atomic {op : StagedOp α κ δ Other} (quiet : Quiet op) : Atomic op := by
  cases op <;> trivial

/-- It needs nothing. -/
theorem Quiet.possible {op : StagedOp α κ δ Other} (quiet : Quiet op) : Possible op files := by
  cases op <;> trivial

/-- The rule of one that changes nothing. -/
theorem quiet_holds {op : StagedOp α κ δ Other} {post : op.Result Reply → Files α κ δ → Prop} (quiet : Quiet op)
    (willing : ¬excuse → Willing client op) (here : kept files)
    (answered : ∀ value,Answers client op files value → post value files) :
    Holds client failed kept failing excuse (request op) post files := by
  refine request_holds quiet.possible willing (fun after h => ?_) (fun value h => ?_)
  · rcases atomic_leaves quiet.atomic h with rfl|rfl
    · exact here
    · rw [quiet.effect_eq]
      exact here
  · rw [quiet.effect_eq]
    exact answered value h

/-- The rule of one that is done as a whole or not at all. -/
theorem atomic_holds {op : StagedOp α κ δ Other} {post : op.Result Reply → Files α κ δ → Prop} (atomic : Atomic op)
    (willing : Willing client op) (possible : Possible op files) (here : kept files)
    (there : kept (effect op files)) (answered : ∀ value,post value (effect op files)) :
    Holds client failed kept failing excuse (request op) post files := by
  refine request_holds possible (fun _ => willing) (fun after h => ?_) (fun value _ => answered value)
  rcases atomic_leaves atomic h with rfl|rfl
  · exact here
  · exact there

/-- A partial file is created. -/
theorem createPartial_holds {bytes : List α} (empty : kept Files.empty)
    (begun : ∀ part,part<+:bytes → kept ⟨some part,none,none,none⟩) :
    Holds client failed kept failing excuse (request (.createPartial bytes))
      (fun _ after => after=⟨some bytes,none,none,none⟩) Files.empty := by
  refine request_holds (by rfl) (fun _ => trivial) (fun after h => ?_) (fun _ _ => rfl)
  cases h with
  | nothing => exact empty
  | everything _ => exact begun bytes (List.prefix_refl _)
  | created _ begins => exact begun _ begins

/-- Something is appended. -/
theorem appendPartial_holds {done bytes : List α} {state : κ}
    (begun : ∀ part,part<+:bytes → kept ⟨some (done++part),some state,none,none⟩) :
    Holds client failed kept failing excuse (request (.appendPartial bytes))
      (fun _ after => after=⟨some (done++bytes),some state,none,none⟩) ⟨some done,some state,none,none⟩ := by
  refine request_holds trivial (fun _ => trivial) (fun after h => ?_) (fun _ _ => rfl)
  cases h with
  | nothing =>
    have hnothing := begun [] List.nil_prefix
    rw [List.append_nil] at hnothing
    exact hnothing
  | everything _ => exact begun bytes (List.prefix_refl _)
  | appended begins => exact begun _ begins

/-- A computation that only fails with an excuse. -/
theorem computed_holds {result : Except ε β} (here : kept files) (succeeds : ¬excuse → ∃ value,result=.ok value) :
    Holds client failed kept failing excuse (computed result)
      (fun value after => result=.ok value ∧ after=files) files := by
  refine Attempts.computed ?_
  cases hresult : result with
  | ok value => exact ⟨rfl,rfl⟩
  | error failure =>
    refine ⟨here,.inr ?_⟩
    by_contra hexcuse
    obtain ⟨value,hvalue⟩ := succeeds hexcuse
    rw [hresult] at hvalue
    cases hvalue

/-- A check that only fails with an excuse. -/
theorem raiseIf_holds {condition : Prop} [Decidable condition] {failure : ε} (here : kept files)
    (fails : condition → excuse) :
    Holds client failed kept failing excuse (raiseIf condition failure)
      (fun _ after => ¬condition ∧ after=files) files :=
  Attempts.raiseIf (fun h => ⟨here,.inr (fails h)⟩) (fun h => ⟨h,rfl⟩)

/-- Raising with an excuse. -/
theorem throw_holds {failure : ε} {post : β → Files α κ δ → Prop} (here : kept files) (h : excuse) :
    Holds client failed kept failing excuse (throw failure : StagedProgram α κ δ Reply ε β) post files :=
  Attempts.throw ⟨here,.inr h⟩

/-- A file that is there is read. -/
theorem present_holds {file : Option (List α)} {bytes : List α} (h : file=some bytes) :
    Holds client failed kept failing excuse (present failed file)
      (fun found after => found=bytes ∧ after=files) files := by
  rw [h]
  exact .pure ⟨rfl,rfl⟩

/-- What is written is read back. -/
theorem readBack_holds {bytes : List α} {next : List α → StagedProgram α κ δ Reply ε β}
    {post : β → Files α κ δ → Prop} (here : kept files) (hfile : files.partialFile=some bytes)
    (holds : Holds client failed kept failing excuse (next bytes) post files) :
    Holds client failed kept failing excuse (request .readPartial >>= fun found => present failed found >>= next)
      post files := by
  have hread : Holds client failed kept failing excuse (request .readPartial) (fun found after =>
      found=some bytes ∧ after=files) files :=
    quiet_holds trivial (fun _ => trivial) here (fun _ h => ⟨h.trans hfile,rfl⟩)
  refine hread.bind (fun found after h => ?_)
  rw [h.2]
  refine Attempts.bind (present_holds h.1) (fun found after h => ?_)
  rw [h.1,h.2]
  exact holds

end Rules

section Stages

variable {Reply : Other → Type} {client : Client Reply} {failed : ε}
variable {scheme : Scheme α κ δ} {schemes : Scheme α κ δ → Prop} {failing excuse : Prop} {files : Files α κ δ}

/-- A beginning of the output is created. -/
theorem create_holds {bytes : List α} (hscheme : schemes scheme) (begins : bytes<+:scheme.target) :
    Holds client failed (Kept schemes) failing excuse (request (.createPartial bytes))
      (fun _ after => after=⟨some bytes,none,none,none⟩) Files.empty :=
  createPartial_holds kept_empty (fun _ hpart => .inr ⟨scheme,hscheme,keptBy_written (hpart.trans begins)
    (fun _ h => absurd h (Option.some_ne_none _).symm)⟩)

/-- More of the output is appended. -/
theorem append_holds {done bytes : List α} {state : κ} (hscheme : schemes scheme)
    (begins : done++bytes<+:scheme.target) (hrecorded : scheme.records state)
    (hcovered : scheme.covers state≤ done.length) :
    Holds client failed (Kept schemes) failing excuse (request (.appendPartial bytes))
      (fun _ after => after=⟨some (done++bytes),some state,none,none⟩) ⟨some done,some state,none,none⟩ := by
  refine appendPartial_holds (fun part hpart => ?_)
  obtain ⟨behind,hbehind⟩ := hpart
  refine .inr ⟨scheme,hscheme,keptBy_written (List.IsPrefix.trans ⟨behind,?_⟩ begins) (fun state' hstate => ?_)⟩
  · rw [←hbehind,List.append_assoc]
  · rw [←Option.some.inj hstate]
    exact ⟨hrecorded,Nat.le_trans hcovered (List.prefix_append _ _).length_le⟩

/-- A checkpoint vouches for some of what is written. -/
theorem commit_holds {bytes : List α} {checkpoint : Option κ} {state : κ} (hscheme : schemes scheme)
    (begins : bytes<+:scheme.target)
    (recorded : ∀ before,checkpoint=some before → scheme.records before ∧ scheme.covers before≤bytes.length)
    (hrecorded : scheme.records state) (hcovered : scheme.covers state≤bytes.length) :
    Holds client failed (Kept schemes) failing excuse (request (.writeCheckpoint state))
      (fun _ after => after=⟨some bytes,some state,none,none⟩) ⟨some bytes,checkpoint,none,none⟩ := by
  refine atomic_holds trivial trivial trivial (.inr ⟨scheme,hscheme,keptBy_written begins recorded⟩)
    (.inr ⟨scheme,hscheme,keptBy_written begins (fun state' hstate => ?_)⟩) (fun _ => rfl)
  rw [←Option.some.inj hstate]
  exact ⟨hrecorded,hcovered⟩

/-- What no checkpoint vouches for is cut off. -/
theorem truncateTo_holds {bytes : List α} {state : κ} (hscheme : schemes scheme) (begins : bytes<+:scheme.target)
    (hrecorded : scheme.records state) (hcovered : scheme.covers state≤bytes.length) :
    Holds client failed (Kept schemes) failing excuse (truncateTo bytes.length (scheme.covers state))
      (fun _ after => after=⟨some (bytes.take (scheme.covers state)),some state,none,none⟩)
      ⟨some bytes,some state,none,none⟩ := by
  have hbefore : ∀ state',some state=some state' → scheme.records state' ∧ scheme.covers state'≤bytes.length :=
    fun state' hstate => Option.some.inj hstate ▸ ⟨hrecorded,hcovered⟩
  by_cases hlonger : bytes.length>scheme.covers state
  · have hcut : (truncateTo bytes.length (scheme.covers state) : StagedProgram α κ δ Reply ε Unit)=
        request (.truncatePartial (scheme.covers state)) := if_pos hlonger
    rw [hcut]
    refine atomic_holds trivial trivial (Option.some_ne_none _) (.inr ⟨scheme,hscheme,keptBy_written begins hbefore⟩)
      (.inr ⟨scheme,hscheme,keptBy_written ((List.take_prefix _ _).trans begins) (fun state' hstate => ?_)⟩)
      (fun _ => rfl)
    rw [←Option.some.inj hstate,List.length_take]
    exact ⟨hrecorded,Nat.le_min.mpr ⟨Nat.le_refl _,hcovered⟩⟩
  · have hcut : (truncateTo bytes.length (scheme.covers state) : StagedProgram α κ δ Reply ε Unit)=pure () :=
      if_neg hlonger
    rw [hcut,List.take_of_length_le (Nat.le_of_not_gt hlonger)]
    exact .pure rfl

/-- The whole partial file becomes the output. -/
theorem replace_holds {state : κ} (hscheme : schemes scheme) (hrecorded : scheme.records state)
    (hcovered : scheme.covers state=scheme.target.length) (hready : scheme.ready state) (checked : scheme.checked) :
    Holds client failed (Kept schemes) failing excuse (request .replaceOutput)
      (fun _ after => after=⟨none,some state,some scheme.target,none⟩)
      ⟨some scheme.target,some state,none,none⟩ := by
  refine atomic_holds trivial trivial (Option.some_ne_none _)
    (.inr ⟨scheme,hscheme,keptBy_written (List.prefix_refl _) (fun state' hstate => ?_)⟩)
    (.inr ⟨scheme,hscheme,keptBy_published (fun state' hstate => Option.some.inj hstate ▸ ⟨hrecorded,hcovered⟩)
      (fun _ h => absurd h (Option.some_ne_none _).symm) checked (.inr ⟨state,rfl,hready⟩)⟩) (fun _ => rfl)
  rw [←Option.some.inj hstate]
  exact ⟨hrecorded,Nat.le_of_eq hcovered⟩

/-- How a program that returns leaves everything. -/
structure Published (schemes : Scheme α κ δ → Prop) (declared : δ) (files : Files α κ δ) : Prop where
  /-- What is on disk. -/
  kept : Kept schemes files
  /-- The output is there, and the sidecar declares it. -/
  published : ∃ scheme,schemes scheme ∧ files.output=some scheme.target ∧ files.partialFile=none ∧
    files.sidecar=some declared ∧ scheme.declares declared

/-- An output that is there gets its sidecar, and the checkpoint is removed. -/
theorem declare_holds {state : κ} {declared : δ} (hscheme : schemes scheme) (hrecorded : scheme.records state)
    (hcovered : scheme.covers state=scheme.target.length) (hready : scheme.ready state) (checked : scheme.checked)
    (hdeclares : scheme.declares declared) :
    Holds client failed (Kept schemes) failing excuse (declare declared) (Published schemes) ⟨none,some state,some scheme.target,none⟩ := by
  have hrecords : ∀ state',some state=some state' → scheme.records state' ∧
      scheme.covers state'=scheme.target.length :=
    fun state' hstate => Option.some.inj hstate ▸ ⟨hrecorded,hcovered⟩
  have hplaced : Kept schemes ⟨none,some state,some scheme.target,none⟩ :=
    .inr ⟨scheme,hscheme,keptBy_published hrecords (fun _ h => absurd h (Option.some_ne_none _).symm) checked
      (.inr ⟨state,rfl,hready⟩)⟩
  have hdeclared : Kept schemes ⟨none,some state,some scheme.target,some declared⟩ :=
    .inr ⟨scheme,hscheme,keptBy_published hrecords (fun _ h => Option.some.inj h ▸ hdeclares) checked
      (.inl ⟨declared,rfl⟩)⟩
  have hforgotten : Kept schemes ⟨none,none,some scheme.target,some declared⟩ :=
    .inr ⟨scheme,hscheme,keptBy_published (fun _ h => absurd h (Option.some_ne_none _).symm)
      (fun _ h => Option.some.inj h ▸ hdeclares) checked (.inl ⟨declared,rfl⟩)⟩
  have hwrite : Holds client failed (Kept schemes) failing excuse (request (.writeSidecar declared)) (fun _ after =>
      after=⟨none,some state,some scheme.target,some declared⟩) ⟨none,some state,some scheme.target,none⟩ :=
    atomic_holds trivial trivial trivial hplaced hdeclared (fun _ => rfl)
  have hunlink : Holds client failed (Kept schemes) failing excuse (request .unlinkCheckpoint) (fun _ after =>
      after=⟨none,none,some scheme.target,some declared⟩) ⟨none,some state,some scheme.target,some declared⟩ :=
    atomic_holds trivial trivial trivial hdeclared hforgotten (fun _ => rfl)
  refine hwrite.bind (fun _ after h => ?_)
  rw [h]
  refine hunlink.bind (fun _ after h => ?_)
  rw [h]
  exact .pure ⟨hforgotten,scheme,hscheme,rfl,rfl,rfl,hdeclares⟩

end Stages

section Histories

variable {Reply : Other → Type} {client : Client Reply} {failed : ε} {files after : Files α κ δ}
variable {program : StagedProgram α κ δ Reply ε β} {post : β → Files α κ δ → Prop} {kept : Files α κ δ → Prop}

/-- Every step of a program keeps what is on disk, and so does what is left of it. -/
theorem Holds.run_kept (holds : Holds client failed kept True True program post files) (here : kept files)
    {rest : Remaining α κ δ Reply ε β}
    (path : Run (surroundings client failed True) (files,program.run) (after,rest)) :
    kept after ∧ Preserves (surroundings client failed True) kept rest (Outcome (Raises kept True True) post) after := by
  have keeps : Preserves (surroundings client failed True) kept program.run _ files := holds
  exact keeps.run here path

/-- So do many programs. -/
theorem kept_of_reachable {programs : ι → StagedProgram α κ δ Reply ε β} (empty : kept Files.empty)
    (keeps : ∀ choice files,kept files → Holds client failed kept True True (programs choice) post files)
    (reached : Reachable client failed programs files) : kept files := by
  induction reached with
  | first => exact empty
  | call _ path ih => exact ((keeps _ _ ih).run_kept ih path).1

/-- What is done to the files leaves an output alone. -/
theorem effect_output {op : StagedOp α κ δ Other} (possible : Possible op files) (alone : files.partialFile=none) :
    (effect op files).output=files.output := by
  cases op with
  | replaceOutput => exact absurd alone possible
  | _ => rfl

/-- Whatever a call does, an output stays as it is. -/
theorem step_output {failing : Prop} {op : StagedOp α κ δ Other} {answer : Except ε (op.Result Reply)}
    (alone : files.partialFile=none) (done : surroundings client failed failing op files answer after) :
    after.output=files.output := by
  cases answer with
  | ok value =>
    obtain ⟨possible,-,rfl⟩ := done
    exact effect_output possible alone
  | error failure =>
    obtain ⟨-,-,hleaves⟩ := done
    cases hleaves with
    | nothing => rfl
    | everything possible => exact effect_output possible alone
    | created _ _ => rfl
    | appended _ => rfl

/-- So it does along a program. -/
theorem Holds.run_output {schemes : Scheme α κ δ → Prop}
    (holds : Holds client failed (Kept schemes) True True program post files) (here : Kept schemes files)
    {bytes : List α} (houtput : files.output=some bytes) {rest : Remaining α κ δ Reply ε β}
    (path : Run (surroundings client failed True) (files,program.run) (after,rest)) : after.output=some bytes := by
  have hall : ∀ there : Files α κ δ×Remaining α κ δ Reply ε β,
      Run (surroundings client failed True) (files,program.run) there → there.1.output=some bytes := by
    intro there path
    induction path with
    | refl => exact houtput
    | tail path step ih =>
      have hkept := (holds.run_kept here path).1
      cases step with
      | call done =>
        have halone := alone_of_kept hkept (by rw [ih]; exact Option.some_ne_none _)
        rw [step_output halone done]
        exact ih
  exact hall (after,rest) path

/-- A call is always answered. -/
theorem total (op : StagedOp α κ δ Other) (files : Files α κ δ) :
    ∃ answer after,surroundings client failed False op files answer after := by
  by_cases possible : Possible op files ∧ Willing client op
  · have hanswer : ∃ value,Answers client op files value := by
      cases op with
      | other op => exact client.willing_answers op possible.2
      | readOutput => exact ⟨_,rfl⟩
      | readPartial => exact ⟨_,rfl⟩
      | readCheckpoint => exact ⟨_,rfl⟩
      | readSidecar => exact ⟨_,rfl⟩
      | _ => exact ⟨(),trivial⟩
    obtain ⟨value,hvalue⟩ := hanswer
    exact ⟨.ok value,_,possible.1,hvalue,rfl⟩
  · exact ⟨.error failed,files,rfl,.inr possible,.nothing⟩

/-- A program that nothing disturbs comes to an end, and returns. -/
structure Completes (client : Client Reply) (failed : ε) (program : StagedProgram α κ δ Reply ε β)
    (post : β → Files α κ δ → Prop) (files : Files α κ δ) : Prop where
  /-- It comes to an end. -/
  finishes : ∃ after result,Run (surroundings client failed False) (files,program.run) (after,.done result)
  /-- Whenever it does, it returns. -/
  returns : ∀ after result,Run (surroundings client failed False) (files,program.run) (after,.done result) →
    ∃ value,result=.ok value ∧ post value after

/-- A program that has no excuse completes. -/
theorem Holds.completes (holds : Holds client failed kept False False program post files) :
    Completes client failed program post files := by
  refine ⟨exists_finished total _ _,fun after result path => ?_⟩
  have hkeeps : Keeps (surroundings client failed False) Eq (Keeping Reply ε kept) program.run _ files := holds
  have hleft : Keeps (surroundings client failed False) Eq (Keeping Reply ε kept) (.done result) _ after :=
    @Keeps.reached _ _ _ _ _ _ _ (files,program.run) (after,.done result) hkeeps path
  have hend := hleft after rfl
  cases result with
  | error failure =>
    obtain ⟨-,hfalse⟩ := hend
    exact absurd hfalse (by rw [or_self]; exact not_false)
  | ok value => exact ⟨value,rfl,hend⟩

/-- Calls that only fail when they must are also calls that may. -/
theorem run_undisturbed {first rest : Remaining α κ δ Reply ε β}
    (path : Run (surroundings client failed False) (files,first) (after,rest)) :
    Run (surroundings client failed True) (files,first) (after,rest) := by
  refine path.lift id (fun there here step => ?_)
  cases step with
  | @call op next state after answer done =>
    refine .call ?_
    cases answer with
    | ok value => exact done
    | error failure => exact ⟨done.1,.inl trivial,done.2.2⟩

/-- A program raises and leaves everything as it is. -/
abbrev Refuses (client : Client Reply) (failed : ε) (program : StagedProgram α κ δ Reply ε β)
    (files : Files α κ δ) : Prop :=
  Attempts (surroundings client failed True) (fun _ _ _ after => after=files) (fun _ after => after=files) program
    (fun _ _ => False) files

/-- A call that changes nothing changes nothing when it fails. -/
theorem Quiet.same {failing : Prop} {op : StagedOp α κ δ Other} {answer : Except ε (op.Result Reply)}
    (quiet : Quiet op) (done : surroundings client failed failing op files answer after) : after=files := by
  cases answer with
  | ok value => rw [done.2.2,quiet.effect_eq]
  | error failure =>
    rcases atomic_leaves quiet.atomic done.2.2 with h|h
    · exact h
    · rw [h,quiet.effect_eq]

/-- Behind a call that changes nothing a program may refuse. -/
theorem Quiet.refuses {op : StagedOp α κ δ Other} {next : op.Result Reply → StagedProgram α κ δ Reply ε β}
    (quiet : Quiet op) (refuses : ∀ value,Answers client op files value → Refuses client failed (next value) files) :
    Refuses client failed (request op >>= next) files := by
  have hrequest : Attempts (surroundings client failed True) (fun _ _ _ after => after=files)
      (fun _ after => after=files) (request op) (fun value after => Answers client op files value ∧ after=files)
      files := by
    refine Attempts.ask (fun answer after done => ?_)
    have hsame := quiet.same done
    refine ⟨hsame,?_⟩
    cases answer with
    | ok value => exact ⟨done.2.1,hsame⟩
    | error failure => exact hsame
  refine hrequest.bind (fun value after h => ?_)
  rw [h.2]
  exact refuses value h.1

/-- Behind a check as well. -/
theorem raiseIf_refuses {condition : Prop} [Decidable condition] {failure : ε}
    {next : Unit → StagedProgram α κ δ Reply ε β} (refuses : Refuses client failed (next ()) files) :
    Refuses client failed (raiseIf condition failure >>= next) files := by
  have hcheck : Attempts (surroundings client failed True) (fun _ _ _ after => after=files)
      (fun _ after => after=files) (raiseIf condition failure) (fun _ after => after=files) files :=
    .raiseIf (fun _ => rfl) (fun _ => rfl)
  refine hcheck.bind (fun value after h => ?_)
  rw [h]
  exact refuses

/-- Behind a computation as well. -/
theorem computed_refuses {γ : Type} {result : Except ε γ} {next : γ → StagedProgram α κ δ Reply ε β}
    (refuses : ∀ value,result=.ok value → Refuses client failed (next value) files) :
    Refuses client failed (computed result >>= next) files := by
  have hcomputed : Attempts (surroundings client failed True) (fun _ _ _ after => after=files)
      (fun _ after => after=files) (computed result) (fun value after => result=.ok value ∧ after=files) files := by
    refine Attempts.computed ?_
    cases result with
    | ok value => exact ⟨rfl,rfl⟩
    | error failure => rfl
  refine hcomputed.bind (fun value after h => ?_)
  rw [h.2]
  exact refuses value h.1

/-- A refusal lasts: the files are as they were in every state of every run,
and no run returns. -/
theorem Refuses.run (refuses : Refuses client failed program files) {rest : Remaining α κ δ Reply ε β}
    (path : Run (surroundings client failed True) (files,program.run) (after,rest)) :
    after=files ∧ ∀ value,rest≠.done (.ok value) := by
  have hrefuses : Preserves (surroundings client failed True) (fun after => after=files) program.run _ files := refuses
  obtain ⟨hafter,hrest⟩ := hrefuses.run rfl path
  refine ⟨hafter,fun value hdone => ?_⟩
  rw [hdone] at hrest
  exact hrest after rfl

end Histories

end Leann.StagedFiles
