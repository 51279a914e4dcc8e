import Leann.Exceptions
import Leann.Interleaving
import Mathlib.Data.Fintype.Lattice
import Mathlib.Data.List.Lex

/-!
# The locks of a build

A build creates one directory beside each of its two targets, in the order
of the targets, and gives up as soon as one of them exists. Creating a
directory is what decides between builds that contend, and a build removes
only what it created.
-/

namespace Leann.BuildLocks

open Effects Exceptions

/-- A lock directory. -/
structure LockDirectory where
  /-- What its owner file says, absent when it could not be written. -/
  owner : Option Text
  deriving DecidableEq

/-- What each lock path names. -/
abbrev Locks := Text → Option LockDirectory

/-- What a build does to lock directories. -/
inductive LockOp where
  /-- `create_directory`. -/
  | createDirectory (lock : Text)
  /-- `write_lock_owner`. -/
  | writeOwner (lock : Text)
  /-- `remove_lock_owner`. -/
  | removeOwner (lock : Text)
  /-- `remove` of the directory. -/
  | removeDirectory (lock : Text)
  deriving DecidableEq

/-- What each operation returns. Creating answers whether it did and the
text of an error, removing the text of an error. -/
abbrev LockOp.Answer : LockOp → Type
  | .createDirectory _ => Bool×Option Text
  | .writeOwner _ => Unit
  | .removeOwner _ => Option Text
  | .removeDirectory _ => Option Text

/-- The text of the error for a directory that holds a file. -/
def notEmpty : Text := "Directory not empty"

/-- Answer one operation, failing without any effect when a fault is given.
The other argument is what the owner file holds when it is written. -/
def LockOp.effect (locks : Locks) (fault owner : Option Text) : (op : LockOp) → op.Answer×Locks
  | .createDirectory lock => match fault with
    | some reason => ((false,some reason),locks)
    | none => if (locks lock).isSome then ((false,none),locks)
      else ((true,none),Function.update locks lock (some ⟨none⟩))
  | .writeOwner lock => match fault with
    | some _ => ((),locks)
    | none => ((),Function.update locks lock ((locks lock).map (fun _ => ⟨owner⟩)))
  | .removeOwner lock => match fault with
    | some reason => (some reason,locks)
    | none => (none,Function.update locks lock ((locks lock).map (fun _ => ⟨none⟩)))
  | .removeDirectory lock => match fault with
    | some reason => (some reason,locks)
    | none => if ((locks lock).bind LockDirectory.owner).isSome then (some notEmpty,locks)
      else (none,Function.update locks lock none)

/-- A program over the lock operations. -/
abbrev LockProgram (α : Type) := Program LockOp LockOp.Answer α

/-- Issue a creation. -/
def createDirectory (lock : Text) : LockProgram (Bool×Option Text) :=
  .perform (LockOp.createDirectory lock)

/-- `write_lock_owner`. -/
def writeLockOwner (lock : Text) : LockProgram Unit := .perform (LockOp.writeOwner lock)

/-- `remove_lock_owner`. -/
def removeLockOwner (lock : Text) : LockProgram (Option Text) := .perform (LockOp.removeOwner lock)

/-- Issue the removal of a directory. -/
def removeDirectory (lock : Text) : LockProgram (Option Text) :=
  .perform (LockOp.removeDirectory lock)

/-- `lock_path_for`. -/
def lockPathFor (target : Text) : Text := target++".lock"

/-- `operator<` of strings. -/
def before (lhs rhs : Text) : Prop := lhs.map UInt8.toNat< rhs.map UInt8.toNat

instance (lhs rhs : Text) : Decidable (before lhs rhs) := inferInstanceAs (Decidable (_<_))

/-- The two targets in the order of their names. -/
def sortTargets (first second : Text) : List Text :=
  if before second first then [second,first] else [first,second]

/-- Remove the owner file, whether or not that succeeds, and the directory. -/
def removeLock (lock : Text) : LockProgram (Option Text) := do
  let _ ← removeLockOwner lock
  removeDirectory lock

/-- Remove locks one by one, ignoring errors. -/
def releaseEach : List Text → LockProgram Unit
  | [] => .done ()
  | lock::rest => do
    let _ ← removeLock lock
    releaseEach rest

/-- `release_noexcept`. -/
def releaseNoexcept (locks : List Text) : LockProgram Unit := releaseEach locks.reverse

/-- The text of the error of a lock that could not be created. -/
def refusal (lock : Text) (error : Option Text) : Text :=
  "cannot acquire build lock '"++lock++"': "++
    error.getD "lock already exists (active or stale build)"

/-- The loop of the constructor. -/
def acquireEach (locks : List Text) : List Text → LockProgram (Except Text (List Text))
  | [] => .done (.ok locks)
  | target::targets =>
    if locks.getLast?=some (lockPathFor target) then acquireEach locks targets
    else do
      let answer ← createDirectory (lockPathFor target)
      if answer.1 then
        let _ ← writeLockOwner (lockPathFor target)
        acquireEach (locks++[lockPathFor target]) targets
      else
        releaseNoexcept locks
        return .error (refusal (lockPathFor target) answer.2)

/-- The constructor of `BuildLocks`. -/
def acquire (first second : Text) : LockProgram (Except Text (List Text)) :=
  acquireEach [] (sortTargets first second)

/-- Remove locks one by one, noting the errors. -/
def releaseNoting (failures : Text) : List Text → LockProgram Text
  | [] => .done failures
  | lock::rest => do
    let error ← removeLock lock
    match error with
    | none => releaseNoting failures rest
    | some reason =>
      releaseNoting ((if failures.isEmpty then failures else failures++" ")++
        ("'"++lock++"': "++reason++";")) rest

/-- `release_checked`. -/
def releaseChecked (locks : List Text) : LockProgram (Except Text Unit) := do
  let failures ← releaseNoting [] locks.reverse
  return if failures.isEmpty then .ok ()
    else .error ("artifact pair committed; build lock cleanup required: "++failures)

/-- What a build does to its locks, seen from outside. -/
inductive SessionOp where
  /-- An operation on a lock. -/
  | lock (op : LockOp)
  /-- The constructor has returned. -/
  | enter
  /-- The scope of the locks ends. -/
  | leave
  deriving DecidableEq

/-- The end of the scope tells whether it was reached without an exception. -/
abbrev SessionOp.Answer : SessionOp → Type
  | .lock op => op.Answer
  | .enter => Unit
  | .leave => Bool

/-- A program over these. -/
abbrev SessionProgram (α : Type) := Program SessionOp SessionOp.Answer α

/-- How a build ends as far as its locks go. -/
inductive SessionResult where
  /-- A lock was refused. -/
  | refused (message : Text)
  /-- The locks were released. -/
  | released (result : Except Text Unit)

/-- The constructor has returned. -/
def enter : SessionProgram Unit := .perform SessionOp.enter

/-- The scope ends. -/
def leave : SessionProgram Bool := .perform SessionOp.leave

/-- Read a program over locks as part of a build. -/
def ofLocks {α : Type} (program : LockProgram α) : SessionProgram α :=
  program.lift SessionOp.lock (fun _ answer => answer)

/-- A build: the locks are taken, held for a while, and released either at
the end of the build or because of an exception. -/
def session (first second : Text) : SessionProgram SessionResult := do
  match ← ofLocks (acquire first second) with
  | .error message => return .refused message
  | .ok locks =>
    enter
    let returns ← leave
    if returns then
      let result ← ofLocks (releaseChecked locks)
      return .released result
    else
      ofLocks (releaseNoexcept locks)
      return .released (.ok ())

/-- What a build has done so far. -/
structure History where
  /-- The locks it created. -/
  created : List Text := []
  /-- The locks it removed. -/
  removed : List Text := []
  /-- The locks it failed to remove. -/
  kept : List Text := []
  /-- The locks it failed to create. -/
  refused : List Text := []
  /-- Whether it got all of its locks. -/
  entered : Bool := false
  /-- Whether it no longer needs them. -/
  left : Bool := false
  deriving DecidableEq

/-- Note one answered operation. -/
def History.record (history : History) : (op : SessionOp) → op.Answer → History
  | .lock (.createDirectory lock),answer =>
    if answer.1 then {history with created := history.created++[lock]}
    else {history with refused := history.refused++[lock]}
  | .lock (.writeOwner _),_ => history
  | .lock (.removeOwner _),_ => history
  | .lock (.removeDirectory lock),none => {history with removed := history.removed++[lock]}
  | .lock (.removeDirectory lock),some _ => {history with kept := history.kept++[lock]}
  | .enter,_ => {history with entered := true}
  | .leave,_ => {history with left := true}

/-- A lock that a build has created and not yet removed. -/
def History.Holds (history : History) (lock : Text) : Prop :=
  lock∈history.created ∧ lock∉history.removed

/-- The build sits between its successful acquisition and its release. -/
def History.Inside (history : History) : Prop := history.entered=true ∧ history.left=false

/-- The lock directories, and what every build has done. -/
structure World (ι : Type) where
  /-- The lock directories. -/
  locks : Locks
  /-- What every build has done. -/
  history : ι → History

/-- What an operation does to the lock directories when nothing fails. -/
def SessionOp.Effect : (op : SessionOp) → Locks → op.Answer → Locks → Prop
  | .lock op,locks,answer,after => ∃ owner,op.effect locks none owner=(answer,after)
  | .enter,locks,_,after => after=locks
  | .leave,locks,_,after => after=locks

section Sessions

variable {ι : Type} [DecidableEq ι]

/-- One of the builds acts. -/
def building (party : ι) : Environment SessionOp SessionOp.Answer (World ι) :=
  fun op state answer after => op.Effect state.locks answer after.locks ∧
    after.history=Function.update state.history party ((state.history party).record op answer)

/-- What a build relies on: nobody touches the locks it holds. -/
def Untouched (party : ι) (state after : World ι) : Prop :=
  after.history party=state.history party ∧
    ∀ lock,(state.history party).Holds lock → after.locks lock=state.locks lock

/-- Apart from creating locks, a build acts on locks it holds. -/
def Touches (history : History) : SessionOp → Prop
  | .lock (.createDirectory _) => True
  | .lock (.writeOwner lock) => history.Holds lock
  | .lock (.removeOwner lock) => history.Holds lock
  | .lock (.removeDirectory lock) => history.Holds lock
  | .enter => True
  | .leave => True

/-- What holds of the actions of a build with two targets at any time. -/
structure Orderly (first second : Text) (history : History) : Prop where
  /-- It removes only locks it created. -/
  removed : ∀ lock∈history.removed,lock∈history.created
  /-- Removing them does not fail. -/
  kept : history.kept=[]
  /-- Once it has entered it has created the locks of its targets. -/
  complete : history.entered=true → ∀ target∈[first,second],lockPathFor target∈history.created
  /-- As long as it needs them it holds the locks of its targets. -/
  inside : history.Inside → ∀ target∈[first,second],history.Holds (lockPathFor target)
  /-- Once a lock was refused it does not go on, and the locks it created
  are those of targets further ahead. -/
  refused : ∀ lock∈history.refused,history.entered=false ∧
    ∃ target,lock=lockPathFor target ∧ ∀ other,lockPathFor other∈history.created → before other target

/-- What a build guarantees. -/
def Respectful (party : ι) (first second : Text) :
    Promise SessionOp SessionOp.Answer (World ι) := fun op state _ after =>
  Touches (state.history party) op ∧ Orderly first second (after.history party)

omit [DecidableEq ι] in
theorem untouched_refl (party : ι) (state : World ι) : Untouched party state state :=
  ⟨rfl,fun _ _ => rfl⟩

omit [DecidableEq ι] in
theorem untouched_trans (party : ι) (a b c : World ι) (hab : Untouched party a b)
    (hbc : Untouched party b c) : Untouched party a c := by
  refine ⟨hbc.1.trans hab.1,fun lock hl => ?_⟩
  rw [hbc.2 lock (by rwa [hab.1]),hab.2 lock hl]

/-- What a build knows between its actions: what it has done, and that the
locks it holds are there. -/
def At (party : ι) (history : History) (state : World ι) : Prop :=
  state.history party=history ∧ ∀ lock,history.Holds lock → (state.locks lock).isSome

omit [DecidableEq ι] in
theorem at_stable (party : ι) (history : History) : Stable (Untouched party) (At party history) := by
  intro state after here moved
  refine ⟨moved.1.trans here.1,fun lock hl => ?_⟩
  rw [moved.2 lock (by rwa [here.1])]
  exact here.2 lock hl

variable {party : ι} {first second : Text} {history : History} {state : World ι}

/-- An orderly build that no longer needs its locks may remove them. -/
theorem Orderly.removing (h : Orderly first second history) (out : ¬history.Inside)
    {removed : List Text} (own : ∀ lock∈removed,lock∈history.created) :
    Orderly first second {history with removed := removed} :=
  ⟨own,h.kept,h.complete,fun inside => absurd inside out,h.refused⟩

/-- The next lock of those it has yet to remove, last ones first. -/
theorem Orderly.next (h : Orderly first second history) (out : ¬history.Inside)
    (nodup : history.created.Nodup) {lock : Text} {pending : List Text}
    (rest : history.created.reverse=history.removed++lock::pending) :
    history.Holds lock ∧ Orderly first second {history with removed := history.removed++[lock]} ∧
      history.created.reverse=history.removed++[lock]++pending := by
  have hmem : ∀ other∈history.removed++[lock],other∈history.created := fun other ho => by
    rw [←List.mem_reverse,rest,List.append_cons]
    exact List.mem_append_left _ ho
  have hdistinct : (history.removed++lock::pending).Nodup := rest ▸ List.nodup_reverse.mpr nodup
  refine ⟨⟨hmem lock (by simp),fun hl => ?_⟩,h.removing out hmem,?_⟩
  · exact (List.disjoint_of_nodup_append hdistinct) hl List.mem_cons_self
  · rw [rest,List.append_cons]

/-- A build that has only created locks. -/
theorem orderly_created (created : List Text) :
    Orderly first second {created := created} where
  removed lock hl := absurd hl List.not_mem_nil
  kept := rfl
  complete h := absurd h (by simp)
  inside h := absurd h.1 (by simp)
  refused lock hl := absurd hl List.not_mem_nil

/-- A build that was refused a lock. -/
theorem orderly_refused {created : List Text} {target : Text}
    (ahead : ∀ other,lockPathFor other∈created → before other target) :
    Orderly first second {created := created, refused := [lockPathFor target]} where
  removed lock hl := absurd hl List.not_mem_nil
  kept := rfl
  complete h := absurd h (by simp)
  inside h := absurd h.1 (by simp)
  refused lock hl := ⟨rfl,target,List.mem_singleton.mp hl,ahead⟩

/-- The part of the actions that is about locks. -/
abbrev locking (party : ι) : Environment LockOp LockOp.Answer (World ι) :=
  fun op => building party (.lock op)

/-- What a build guarantees for that part. -/
abbrev RespectfulLocks (party : ι) (first second : Text) :
    Promise LockOp LockOp.Answer (World ι) := fun op => Respectful party first second (.lock op)

/-- The promises of a program over locks are those of a part of a build. -/
theorem keeps_ofLocks {α : Type} {program : LockProgram α} {post : α → World ι → Prop}
    (kept : Keeps (locking party) (Untouched party) (RespectfulLocks party first second) program post
      state) :
    Keeps (building party) (Untouched party) (Respectful party first second) (ofLocks program) post
      state := by
  refine Keeps.lift _ _ ?_
  have h := kept
  clear kept
  induction program generalizing state with
  | done value => exact h
  | call op next ih =>
    intro seen moved answer after effect
    obtain ⟨_,rfl,effect⟩ := effect
    obtain ⟨promised,rest⟩ := h seen moved _ after effect
    exact ⟨fun _ he _ => he ▸ promised,ih _ rest⟩

/-- What a build knows after one of its operations. -/
theorem at_recorded {op : SessionOp} {answer : op.Answer} {after : World ι}
    (here : At party history state)
    (history' : after.history=Function.update state.history party ((state.history party).record op answer)) :
    after.history party=history.record op answer := by
  rw [history',Function.update_self,here.1]

/-- A lock is created unless it is there. -/
theorem createDirectory_spec {lock : Text} (here : At party history state)
    (created : Orderly first second {history with created := history.created++[lock]})
    (refused : Orderly first second {history with refused := history.refused++[lock]}) :
    Keeps (locking party) (Untouched party) (RespectfulLocks party first second)
      (createDirectory lock) (fun answer after =>
        (answer.1=true → ¬history.Holds lock ∧
          At party {history with created := history.created++[lock]} after) ∧
        (answer.1=false → At party {history with refused := history.refused++[lock]} after)) state := by
  refine Keeps.perform here (at_stable party history) (fun answer state after h moved =>
    ⟨fun ha => ⟨(h.1 ha).1,at_stable _ _ _ _ (h.1 ha).2 moved⟩,
      fun ha => at_stable _ _ _ _ (h.2 ha) moved⟩) (fun seen answer there hseen effect => ?_)
  obtain ⟨⟨owner,he⟩,recorded⟩ := effect
  have hown := at_recorded hseen recorded
  simp only [LockOp.effect] at he
  split at he
  · obtain ⟨rfl,hlocks⟩ := Prod.mk.inj he
    refine ⟨⟨trivial,?_⟩,fun ha => absurd ha (by simp),fun _ => ⟨hown,fun other hl => ?_⟩⟩
    · rw [hown]
      exact refused
    · rw [←hlocks]
      exact hseen.2 other hl
  · rename_i absent
    obtain ⟨rfl,hlocks⟩ := Prod.mk.inj he
    refine ⟨⟨trivial,?_⟩,fun _ => ⟨fun hl => absent (hseen.2 lock hl),hown,fun other hl => ?_⟩,
      fun ha => absurd ha (by simp)⟩
    · rw [hown]
      exact created
    · rw [←hlocks]
      by_cases same : other=lock
      · rw [same,Function.update_self]
        rfl
      · rw [Function.update_of_ne same]
        refine hseen.2 other ⟨?_,hl.2⟩
        exact (List.mem_append.mp hl.1).resolve_right (fun h => same (List.mem_singleton.mp h))

/-- The owner file is written into a lock the build holds. -/
theorem writeLockOwner_spec {lock : Text} (here : At party history state) (held : history.Holds lock)
    (orderly : Orderly first second history) :
    Keeps (locking party) (Untouched party) (RespectfulLocks party first second)
      (writeLockOwner lock) (fun _ => At party history) state := by
  refine Keeps.perform here (at_stable party history) (fun _ => at_stable party history)
    (fun seen answer there hseen effect => ?_)
  obtain ⟨⟨owner,he⟩,recorded⟩ := effect
  have hown := at_recorded hseen recorded
  have hlocks : there.locks=Function.update seen.locks lock
    ((seen.locks lock).map (fun _ => ⟨owner⟩)) := (Prod.mk.inj he).2.symm
  refine ⟨⟨?_,?_⟩,hown,fun other hl => ?_⟩
  · rw [hseen.1]
    exact held
  · rw [hown]
    exact orderly
  · rw [hlocks]
    by_cases same : other=lock
    · rw [same,Function.update_self,Option.isSome_map]
      exact hseen.2 lock held
    · rw [Function.update_of_ne same]
      exact hseen.2 other hl

/-- The owner file of a lock the build holds is removed. -/
theorem removeLockOwner_spec {lock : Text} (here : At party history state)
    (held : history.Holds lock) (orderly : Orderly first second history) :
    Keeps (locking party) (Untouched party) (RespectfulLocks party first second)
      (removeLockOwner lock)
      (fun _ after => At party history after ∧ after.locks lock=some ⟨none⟩) state := by
  refine Keeps.perform here (at_stable party history) (fun answer state after h moved =>
    ⟨at_stable _ _ _ _ h.1 moved,?_⟩) (fun seen answer there hseen effect => ?_)
  · rw [moved.2 lock (by rw [h.1.1]; exact held)]
    exact h.2
  obtain ⟨⟨owner,he⟩,recorded⟩ := effect
  have hown := at_recorded hseen recorded
  have hlocks : there.locks=Function.update seen.locks lock
    ((seen.locks lock).map (fun _ => ⟨none⟩)) := (Prod.mk.inj he).2.symm
  obtain ⟨directory,hdirectory⟩ := Option.isSome_iff_exists.mp (hseen.2 lock held)
  have hgone : there.locks lock=some ⟨none⟩ := by
    rw [hlocks,Function.update_self,hdirectory]
    rfl
  refine ⟨⟨?_,?_⟩,⟨hown,fun other hl => ?_⟩,hgone⟩
  · rw [hseen.1]
    exact held
  · rw [hown]
    exact orderly
  · by_cases same : other=lock
    · rw [same,hgone]
      rfl
    · rw [hlocks,Function.update_of_ne same]
      exact hseen.2 other hl

/-- A lock the build holds is removed. -/
theorem removeLock_spec {lock : Text} (here : At party history state) (held : history.Holds lock)
    (orderly : Orderly first second history)
    (removed : Orderly first second {history with removed := history.removed++[lock]}) :
    Keeps (locking party) (Untouched party) (RespectfulLocks party first second)
      (removeLock lock) (fun error after => error=none ∧
        At party {history with removed := history.removed++[lock]} after) state := by
  have stable : Stable (Untouched party)
      (fun state => At party history state ∧ state.locks lock=some ⟨none⟩) := by
    intro state after h moved
    refine ⟨at_stable _ _ _ _ h.1 moved,?_⟩
    rw [moved.2 lock (by rw [h.1.1]; exact held)]
    exact h.2
  refine Keeps.bind _ (untouched_refl party) (removeLockOwner_spec here held orderly)
    (fun _ middle hmiddle => ?_)
  refine Keeps.perform hmiddle stable
    (fun answer state after h moved => ⟨h.1,at_stable _ _ _ _ h.2 moved⟩)
    (fun seen answer there hseen effect => ?_)
  obtain ⟨⟨owner,he⟩,recorded⟩ := effect
  simp only [LockOp.effect,hseen.2] at he
  obtain ⟨rfl,hlocks⟩ := Prod.mk.inj he
  have hown := at_recorded hseen.1 recorded
  refine ⟨⟨?_,?_⟩,rfl,hown,fun other hl => ?_⟩
  · rw [hseen.1.1]
    exact held
  · rw [hown]
    exact removed
  · have same : other≠lock := fun same => hl.2 (List.mem_append_right _ (List.mem_singleton.mpr same))
    rw [←hlocks,Function.update_of_ne same]
    exact hseen.1.2 other ⟨hl.1,fun h => hl.2 (List.mem_append_left _ h)⟩

/-- The histories of a build that removes its locks. -/
theorem releaseEach_spec {pending : List Text} (here : At party history state)
    (orderly : Orderly first second history) (out : ¬history.Inside) (nodup : history.created.Nodup)
    (rest : history.created.reverse=history.removed++pending) :
    Keeps (locking party) (Untouched party) (RespectfulLocks party first second)
      (releaseEach pending)
      (fun _ => At party {history with removed := history.created.reverse}) state := by
  induction pending generalizing history state with
  | nil =>
    rw [List.append_nil] at rest
    rw [rest]
    exact Keeps.returned here (at_stable party history)
  | cons lock pending ih =>
    obtain ⟨held,removed,rest⟩ := orderly.next out nodup rest
    refine Keeps.bind _ (untouched_refl party) (removeLock_spec here held orderly removed)
      (fun _ after hafter => ?_)
    have kept := ih hafter.2 removed out nodup rest
    exact kept

/-- Noting errors does not change what is done, and there are none. -/
theorem releaseNoting_spec {pending : List Text} {failures : Text} (here : At party history state)
    (orderly : Orderly first second history) (out : ¬history.Inside) (nodup : history.created.Nodup)
    (rest : history.created.reverse=history.removed++pending) :
    Keeps (locking party) (Untouched party) (RespectfulLocks party first second)
      (releaseNoting failures pending)
      (fun _ => At party {history with removed := history.created.reverse}) state := by
  induction pending generalizing history state with
  | nil =>
    rw [List.append_nil] at rest
    rw [rest]
    exact Keeps.returned here (at_stable party history)
  | cons lock pending ih =>
    obtain ⟨held,removed,rest⟩ := orderly.next out nodup rest
    refine Keeps.bind _ (untouched_refl party) (removeLock_spec here held orderly removed)
      (fun error after hafter => ?_)
    rw [hafter.1]
    have kept := ih hafter.2 removed out nodup rest
    exact kept

/-- What the constructor ends with. -/
def Acquired (party : ι) (created targets : List Text) : Except Text (List Text) → World ι → Prop
  | .ok locks,after => At party {created := locks} after ∧ locks.Nodup ∧
      (∀ lock∈created,lock∈locks) ∧ ∀ target∈targets,lockPathFor target∈locks
  | .error _,after => ∃ created lock,
      At party {created := created, removed := created.reverse, refused := [lock]} after

omit [DecidableEq ι] in
theorem acquired_stable (party : ι) (created targets : List Text) (result : Except Text (List Text)) :
    Stable (Untouched party) (Acquired party created targets result) := by
  intro state after h moved
  cases result with
  | ok locks => exact ⟨at_stable _ _ _ _ h.1 moved,h.2⟩
  | error message =>
    obtain ⟨created,lock,h⟩ := h
    exact ⟨created,lock,at_stable _ _ _ _ h moved⟩

/-- Targets in their order, behind those whose locks were created. -/
structure Ready (created targets : List Text) : Prop where
  /-- Equal targets are next to each other. -/
  sorted : targets.Pairwise (fun first second => first=second ∨ before first second)
  /-- Only the last lock can be one of a target to come. -/
  ahead : ∀ other,lockPathFor other∈created → ∀ target∈targets,
    before other target ∨ other=target ∧ created.getLast?=some (lockPathFor target)

theorem before_irrefl (target : Text) : ¬before target target := lt_irrefl _

theorem before_trans {first second third : Text} (h : before first second) (h' : before second third) :
    before first third := lt_trans h h'

theorem lockPathFor_injective {first second : Text} (h : lockPathFor first=lockPathFor second) :
    first=second := List.append_cancel_right h

/-- Behind a target whose lock is not the last one. -/
theorem Ready.fresh {created targets : List Text} {target : Text}
    (ready : Ready created (target::targets)) (other : created.getLast?≠some (lockPathFor target)) :
    (∀ other,lockPathFor other∈created → before other target) ∧
      Ready (created++[lockPathFor target]) targets := by
  have ahead : ∀ other,lockPathFor other∈created → before other target := fun o ho =>
    (ready.ahead o ho target List.mem_cons_self).resolve_right (fun h => other h.2)
  have sorted := List.pairwise_cons.mp ready.sorted
  refine ⟨ahead,sorted.2,fun o ho next hn => ?_⟩
  cases List.mem_append.mp ho with
  | inl ho =>
    cases sorted.1 next hn with
    | inl same => exact Or.inl (same ▸ ahead o ho)
    | inr later => exact Or.inl (before_trans (ahead o ho) later)
  | inr ho =>
    have same := lockPathFor_injective (List.mem_singleton.mp ho)
    cases sorted.1 next hn with
    | inl equal =>
      refine Or.inr ⟨same.trans equal,?_⟩
      rw [List.getLast?_concat,equal]
    | inr later => exact Or.inl (same ▸ later)

/-- The loop of the constructor either gets the locks of all targets or
gives back what it created. -/
theorem acquireEach_spec {created targets : List Text} (here : At party {created := created} state)
    (nodup : created.Nodup) (ready : Ready created targets) :
    Keeps (locking party) (Untouched party) (RespectfulLocks party first second)
      (acquireEach created targets) (Acquired party created targets) state := by
  induction targets generalizing created state with
  | nil => exact Keeps.returned ⟨here,nodup,fun _ h => h,by simp⟩ (acquired_stable party _ _ _)
  | cons target targets ih =>
    rw [acquireEach]
    split
    · rename_i same
      have ready' : Ready created targets := ⟨(List.pairwise_cons.mp ready.sorted).2,
        fun o ho next hn => ready.ahead o ho next (List.mem_cons_of_mem _ hn)⟩
      refine (ih here nodup ready').mono (fun _ _ _ _ h => h) (fun result after h => ?_)
      cases result with
      | error message => exact h
      | ok locks =>
        refine ⟨h.1,h.2.1,h.2.2.1,fun next hn => ?_⟩
        cases List.mem_cons.mp hn with
        | inl he => exact he ▸ h.2.2.1 _ (List.mem_of_getLast? same)
        | inr hn => exact h.2.2.2 next hn
    · rename_i other
      obtain ⟨ahead,ready'⟩ := ready.fresh other
      refine Keeps.bind _ (untouched_refl party) (createDirectory_spec here (orderly_created _)
        (orderly_refused ahead)) (fun answer after hafter => ?_)
      cases granted : answer.1 with
      | true =>
        obtain ⟨absent,hat⟩ := hafter.1 granted
        have hnew : lockPathFor target∉created := fun h => absent ⟨h,List.not_mem_nil⟩
        have nodup' : (created++[lockPathFor target]).Nodup :=
          List.nodup_append.mpr ⟨nodup,List.nodup_singleton _,fun a ha b hb he =>
            hnew (List.mem_singleton.mp hb ▸ he ▸ ha)⟩
        refine Keeps.bind _ (untouched_refl party) (writeLockOwner_spec hat
          ⟨by simp,List.not_mem_nil⟩ (orderly_created _)) (fun _ later hlater => ?_)
        refine (ih hlater nodup' ready').mono (fun _ _ _ _ h => h) (fun result final h => ?_)
        cases result with
        | error message => exact h
        | ok locks =>
          refine ⟨h.1,h.2.1,fun lock hl => h.2.2.1 lock (List.mem_append_left _ hl),fun next hn => ?_⟩
          cases List.mem_cons.mp hn with
          | inl he => exact he ▸ h.2.2.1 _ (by simp)
          | inr hn => exact h.2.2.2 next hn
      | false =>
        refine Keeps.bind _ (untouched_refl party) (releaseEach_spec (hafter.2 granted)
          (orderly_refused ahead) (fun h => absurd h.1 (by simp)) nodup rfl)
          (fun _ later hlater => ?_)
        exact Keeps.returned ⟨created,lockPathFor target,hlater⟩ (acquired_stable party _ _ _)

/-- The two targets are in order. -/
theorem sortTargets_ready (first second : Text) : Ready [] (sortTargets first second) := by
  refine ⟨?_,fun _ h => absurd h List.not_mem_nil⟩
  unfold sortTargets
  split
  · rename_i h
    simpa using Or.inr h
  · rename_i h
    have hle : first.map UInt8.toNat≤ second.map UInt8.toNat := le_of_not_gt h
    have hinj : Function.Injective (List.map UInt8.toNat) :=
      List.map_injective_iff.mpr (fun a b h => UInt8.toNat_inj.mp h)
    have hsorted : first=second ∨ before first second := hle.eq_or_lt.imp (fun h => hinj h) id
    simpa using hsorted

theorem mem_sortTargets {first second target : Text} :
    target∈sortTargets first second ↔ target∈[first,second] := by
  unfold sortTargets
  split
  · simp [or_comm]
  · rfl

/-- What a build ends with. -/
def Ended (party : ι) : SessionResult → World ι → Prop
  | .refused _,after => (after.history party).refused≠[] ∧
      (after.history party).removed=(after.history party).created.reverse
  | .released _,after => (after.history party).entered=true ∧
      (after.history party).removed=(after.history party).created.reverse

omit [DecidableEq ι] in
theorem ended_stable (party : ι) (result : SessionResult) :
    Stable (Untouched party) (Ended party result) := by
  intro state after h moved
  cases result with
  | refused message => exact (show _ ∧ _ from moved.1.symm ▸ h)
  | released result => exact (show _ ∧ _ from moved.1.symm ▸ h)

/-- A build that holds the locks of its targets. -/
theorem orderly_entered {locks : List Text} {left : Bool}
    (all : ∀ target∈[first,second],lockPathFor target∈locks) :
    Orderly first second {created := locks, entered := true, left := left} where
  removed _ hl := absurd hl List.not_mem_nil
  kept := rfl
  complete _ := all
  inside _ target ht := ⟨all target ht,List.not_mem_nil⟩
  refused _ hl := absurd hl List.not_mem_nil

/-- Entering and leaving do not touch any lock. -/
theorem marker_spec {op : SessionOp} (here : At party history state)
    (touches : ∀ history,Touches history op)
    (same : ∀ answer,(history.record op answer).created=history.created ∧
      (history.record op answer).removed=history.removed)
    (effect : ∀ locks answer after,op.Effect locks answer after → after=locks)
    (orderly : ∀ answer,Orderly first second (history.record op answer)) :
    Keeps (building party) (Untouched party) (Respectful party first second) (Program.perform op)
      (fun answer => At party (history.record op answer)) state := by
  refine Keeps.perform here (at_stable party history) (fun _ => at_stable party _)
    (fun seen answer there hseen moved => ?_)
  have hown := at_recorded hseen moved.2
  refine ⟨⟨touches _,?_⟩,hown,fun lock hl => ?_⟩
  · rw [hown]
    exact orderly answer
  · rw [effect _ _ _ moved.1]
    obtain ⟨created,removed⟩ := same answer
    exact hseen.2 lock ⟨created ▸ hl.1,removed ▸ hl.2⟩

/-- A build as a whole. -/
theorem session_spec (fresh : At party {} state) :
    Keeps (building party) (Untouched party) (Respectful party first second) (session first second)
      (Ended party) state := by
  refine Keeps.bind _ (untouched_refl party) (keeps_ofLocks (acquireEach_spec fresh List.nodup_nil
    (sortTargets_ready first second))) (fun result after hresult => ?_)
  cases result with
  | error message =>
    obtain ⟨created,lock,hat⟩ := hresult
    refine Keeps.returned ⟨?_,?_⟩ (ended_stable party _)
    · rw [hat.1]
      simp
    · rw [hat.1]
  | ok locks =>
    obtain ⟨hat,nodup,-,all⟩ := hresult
    have hall : ∀ target∈[first,second],lockPathFor target∈locks :=
      fun target ht => all target (mem_sortTargets.mpr ht)
    refine Keeps.bind _ (untouched_refl party) (marker_spec hat (fun _ => by trivial)
      (fun _ => by exact ⟨rfl,rfl⟩) (fun _ _ _ h => by exact h) (fun _ => by exact orderly_entered hall))
      (fun _ inside hinside => ?_)
    refine Keeps.bind _ (untouched_refl party) (marker_spec hinside (fun _ => by trivial)
      (fun _ => by exact ⟨rfl,rfl⟩) (fun _ _ _ h => by exact h) (fun _ => by exact orderly_entered hall))
      (fun returns outside houtside => ?_)
    have out : ¬(History.mk locks [] [] [] true true).Inside := fun h => absurd h.2 (by simp)
    have ends : ∀ result final,At party ⟨locks,locks.reverse,[],[],true,true⟩ final →
        Ended party (.released result) final := fun result final h => by
      rw [Ended,h.1]
      exact ⟨rfl,rfl⟩
    cases returns with
    | true =>
      refine Keeps.bind _ (untouched_refl party) (keeps_ofLocks (Keeps.bind _ (untouched_refl party)
        (releaseNoting_spec houtside (orderly_entered hall) out nodup rfl)
        (fun failures final hfinal => Keeps.returned hfinal (at_stable party _))))
        (fun result final hfinal => Keeps.returned (ends result final hfinal) (ended_stable party _))
    | false =>
      exact Keeps.bind _ (untouched_refl party) (keeps_ofLocks
        (releaseEach_spec houtside (orderly_entered hall) out nodup rfl))
        (fun _ final hfinal => Keeps.returned (ends _ final hfinal) (ended_stable party _))

/-- What one action of a build does to the locks and to its history. -/
inductive Acted (party : ι) (state after : World ι) : Prop where
  /-- It creates a lock that is not there. -/
  | creates (lock : Text) (absent : state.locks lock=none)
      (locks : after.locks=Function.update state.locks lock (some ⟨none⟩))
      (own : after.history party={state.history party with
        created := (state.history party).created++[lock]})
  /-- It is refused a lock that is there. -/
  | fails (lock : Text) (present : (state.locks lock).isSome) (locks : after.locks=state.locks)
      (own : after.history party={state.history party with
        refused := (state.history party).refused++[lock]})
  /-- It writes or removes the owner file of a lock it holds. -/
  | notes (lock : Text) (entry : Option LockDirectory) (held : (state.history party).Holds lock)
      (locks : after.locks=Function.update state.locks lock entry)
      (kept : entry.isSome=(state.locks lock).isSome) (own : after.history party=state.history party)
  /-- It removes a lock it holds. -/
  | removes (lock : Text) (held : (state.history party).Holds lock)
      (locks : after.locks=Function.update state.locks lock none)
      (own : after.history party={state.history party with
        removed := (state.history party).removed++[lock]})
  /-- It enters or leaves. -/
  | marks (locks : after.locks=state.locks) (entered left : Bool)
      (own : after.history party={state.history party with entered := entered, left := left})

/-- An action with its guarantee is one of these. -/
theorem acted_of_building {op : SessionOp} {answer : op.Answer} {after : World ι}
    (effect : building party op state answer after)
    (promised : Respectful party first second op state answer after) : Acted party state after := by
  obtain ⟨heffect,recorded⟩ := effect
  obtain ⟨touches,orderly⟩ := promised
  have own : after.history party=(state.history party).record op answer := by
    rw [recorded,Function.update_self]
  cases op with
  | enter => exact .marks heffect _ _ own
  | leave => exact .marks heffect _ _ own
  | lock op =>
    obtain ⟨owner,he⟩ := heffect
    cases op with
    | createDirectory lock =>
      simp only [LockOp.effect] at he
      split at he
      · rename_i present
        obtain ⟨rfl,hlocks⟩ := Prod.mk.inj he
        exact .fails lock present hlocks.symm own
      · rename_i absent
        obtain ⟨rfl,hlocks⟩ := Prod.mk.inj he
        exact .creates lock (by simpa using absent) hlocks.symm own
    | writeOwner lock =>
      obtain ⟨-,hlocks⟩ := Prod.mk.inj he
      exact .notes lock _ touches hlocks.symm (Option.isSome_map ..) own
    | removeOwner lock =>
      obtain ⟨-,hlocks⟩ := Prod.mk.inj he
      exact .notes lock _ touches hlocks.symm (Option.isSome_map ..) own
    | removeDirectory lock =>
      simp only [LockOp.effect] at he
      split at he
      · obtain ⟨rfl,-⟩ := Prod.mk.inj he
        have kept := orderly.kept
        rw [own] at kept
        exact absurd kept (by simp [History.record])
      · obtain ⟨rfl,hlocks⟩ := Prod.mk.inj he
        exact .removes lock touches hlocks.symm own

/-- What holds between several builds, each with two targets. -/
structure Exclusive (start : Locks) (targets : ι → Text×Text) (state : World ι) : Prop where
  /-- The locks a build holds are there. -/
  present : ∀ party lock,(state.history party).Holds lock → (state.locks lock).isSome
  /-- No lock is held by two builds. -/
  alone : ∀ party other lock,(state.history party).Holds lock → (state.history other).Holds lock →
    party=other
  /-- Every build is orderly. -/
  orderly : ∀ party,Orderly (targets party).1 (targets party).2 (state.history party)
  /-- A lock that is there was there at the start or created by a build. -/
  traced : ∀ lock,(state.locks lock).isSome →
    (start lock).isSome ∨ ∃ party,lock∈(state.history party).created
  /-- So was a lock that was refused. -/
  blocked : ∀ party,∀ lock∈(state.history party).refused,
    (start lock).isSome ∨ ∃ other,lock∈(state.history other).created

variable {start : Locks} {targets : ι → Text×Text}

omit [DecidableEq ι] in
/-- Builds do not touch the locks of each other. -/
theorem Acted.untouched {other : ι} {after : World ι} (acted : Acted party state after)
    (exclusive : Exclusive start targets state) (distinct : party≠other)
    (same : after.history other=state.history other) : Untouched other state after := by
  refine ⟨same,fun lock held => ?_⟩
  cases acted with
  | creates created absent locks own =>
    have hne : lock≠created := fun he => by
      have hp := exclusive.present other lock held
      rw [he,absent] at hp
      exact absurd hp (by simp)
    rw [locks,Function.update_of_ne hne]
  | fails refused present locks own => rw [locks]
  | notes noted entry held' locks kept own =>
    have hne : lock≠noted := fun he => distinct (exclusive.alone party other lock (he ▸ held') held)
    rw [locks,Function.update_of_ne hne]
  | removes removed held' locks own =>
    have hne : lock≠removed := fun he => distinct (exclusive.alone party other lock (he ▸ held') held)
    rw [locks,Function.update_of_ne hne]
  | marks locks entered left own => rw [locks]

omit [DecidableEq ι] in
/-- What a build holds after one of its actions. -/
theorem Acted.holds {after : World ι} (acted : Acted party state after) {lock : Text}
    (held : (after.history party).Holds lock) :
    (state.history party).Holds lock ∧ (after.locks lock).isSome=(state.locks lock).isSome ∨
      state.locks lock=none ∧ (after.locks lock).isSome := by
  cases acted with
  | creates created absent locks own =>
    rw [own] at held
    by_cases he : lock=created
    · refine Or.inr ⟨he ▸ absent,?_⟩
      rw [locks,he,Function.update_self]
      rfl
    · refine Or.inl ⟨⟨?_,held.2⟩,?_⟩
      · exact (List.mem_append.mp held.1).resolve_right (fun h => he (List.mem_singleton.mp h))
      · rw [locks,Function.update_of_ne he]
  | fails refused present locks own =>
    rw [own] at held
    exact Or.inl ⟨held,by rw [locks]⟩
  | notes noted entry held' locks kept own =>
    rw [own] at held
    refine Or.inl ⟨held,?_⟩
    by_cases he : lock=noted
    · rw [locks,he,Function.update_self,kept]
    · rw [locks,Function.update_of_ne he]
  | removes removed held' locks own =>
    rw [own] at held
    have he : lock≠removed := fun he => held.2 (List.mem_append_right _ (List.mem_singleton.mpr he))
    refine Or.inl ⟨⟨held.1,fun h => held.2 (List.mem_append_left _ h)⟩,?_⟩
    rw [locks,Function.update_of_ne he]
  | marks locks entered left own =>
    rw [own] at held
    exact Or.inl ⟨held,by rw [locks]⟩

omit [DecidableEq ι] in
/-- Histories only grow. -/
theorem Acted.created {after : World ι} (acted : Acted party state after) {lock : Text}
    (h : lock∈(state.history party).created) : lock∈(after.history party).created := by
  cases acted with
  | creates created absent locks own =>
    rw [own]
    exact List.mem_append_left _ h
  | fails refused present locks own => rwa [own]
  | notes noted entry held' locks kept own => rwa [own]
  | removes removed held' locks own => rwa [own]
  | marks locks entered left own => rwa [own]

omit [DecidableEq ι] in
/-- A lock that is there after an action was there before or is created. -/
theorem Acted.appears {after : World ι} (acted : Acted party state after) {lock : Text}
    (h : (after.locks lock).isSome) :
    (state.locks lock).isSome ∨ lock∈(after.history party).created := by
  cases acted with
  | creates created absent locks own =>
    by_cases he : lock=created
    · refine Or.inr ?_
      rw [own,he]
      simp
    · rw [locks,Function.update_of_ne he] at h
      exact Or.inl h
  | fails refused present locks own => exact Or.inl (locks ▸ h)
  | notes noted entry held' locks kept own =>
    by_cases he : lock=noted
    · rw [locks,he,Function.update_self,kept] at h
      exact Or.inl (he ▸ h)
    · rw [locks,Function.update_of_ne he] at h
      exact Or.inl h
  | removes removed held' locks own =>
    by_cases he : lock=removed
    · rw [locks,he,Function.update_self] at h
      exact absurd h (by simp)
    · rw [locks,Function.update_of_ne he] at h
      exact Or.inl h
  | marks locks entered left own => exact Or.inl (locks ▸ h)

omit [DecidableEq ι] in
/-- A lock that was refused was there. -/
theorem Acted.refused {after : World ι} (acted : Acted party state after) {lock : Text}
    (h : lock∈(after.history party).refused) :
    lock∈(state.history party).refused ∨ (state.locks lock).isSome := by
  cases acted with
  | creates created absent locks own => exact Or.inl (by rwa [own] at h)
  | fails refused present locks own =>
    rw [own] at h
    exact (List.mem_append.mp h).imp id (fun h => by rwa [List.mem_singleton.mp h])
  | notes noted entry held' locks kept own => exact Or.inl (by rwa [own] at h)
  | removes removed held' locks own => exact Or.inl (by rwa [own] at h)
  | marks locks entered left own => exact Or.inl (by rwa [own] at h)

omit [DecidableEq ι] in
/-- Any action of one build keeps what holds between them. -/
theorem Acted.exclusive {after : World ι} (acted : Acted party state after)
    (exclusive : Exclusive start targets state)
    (same : ∀ other,other≠party → after.history other=state.history other)
    (orderly : Orderly (targets party).1 (targets party).2 (after.history party)) :
    Exclusive start targets after := by
  have hheld : ∀ other lock,other≠party → (after.history other).Holds lock →
      (state.history other).Holds lock ∧ after.locks lock=state.locks lock := by
    intro other lock hne held
    rw [same other hne] at held
    exact ⟨held,(acted.untouched exclusive hne.symm (same other hne)).2 lock held⟩
  have hgrows : ∀ lock,(∃ other,lock∈(state.history other).created) →
      ∃ other,lock∈(after.history other).created := by
    intro lock h
    obtain ⟨other,h⟩ := h
    refine ⟨other,?_⟩
    by_cases he : other=party
    · rw [he] at h ⊢
      exact acted.created h
    · rwa [same other he]
  refine ⟨fun other lock held => ?_,fun first second lock hfirst hsecond => ?_,fun other => ?_,
    fun lock hl => ?_,fun other lock hl => ?_⟩
  · by_cases he : other=party
    · rw [he] at held
      cases acted.holds held with
      | inl h => exact h.2 ▸ exclusive.present party lock h.1
      | inr h => exact h.2
    · obtain ⟨held,hl⟩ := hheld other lock he held
      rw [hl]
      exact exclusive.present other lock held
  · by_cases hf : first=party
    · by_cases hs : second=party
      · rw [hf,hs]
      · obtain ⟨hsecond,-⟩ := hheld second lock hs hsecond
        rw [hf] at hfirst ⊢
        cases acted.holds hfirst with
        | inl h => exact exclusive.alone party second lock h.1 hsecond
        | inr h =>
          have hp := exclusive.present second lock hsecond
          rw [h.1] at hp
          exact absurd hp (by simp)
    · obtain ⟨hfirst,-⟩ := hheld first lock hf hfirst
      by_cases hs : second=party
      · rw [hs] at hsecond ⊢
        cases acted.holds hsecond with
        | inl h => exact exclusive.alone first party lock hfirst h.1
        | inr h =>
          have hp := exclusive.present first lock hfirst
          rw [h.1] at hp
          exact absurd hp (by simp)
      · exact exclusive.alone first second lock hfirst (hheld second lock hs hsecond).1
  · by_cases he : other=party
    · exact he ▸ orderly
    · rw [same other he]
      exact exclusive.orderly other
  · cases acted.appears hl with
    | inl h => exact (exclusive.traced lock h).imp id (hgrows lock)
    | inr h => exact Or.inr ⟨party,h⟩
  · by_cases he : other=party
    · rw [he] at hl
      cases acted.refused hl with
      | inl h => exact (exclusive.blocked party lock h).imp id (hgrows lock)
      | inr h => exact (exclusive.traced lock h).imp id (hgrows lock)
    · rw [same other he] at hl
      exact (exclusive.blocked other lock hl).imp id (hgrows lock)

/-- Builds that have not begun. -/
def begin (locks : Locks) : World ι := ⟨locks,fun _ => {}⟩

omit [DecidableEq ι] in
theorem exclusive_begin (locks : Locks) (targets : ι → Text×Text) :
    Exclusive locks targets (begin locks) where
  present _ _ h := absurd h.1 List.not_mem_nil
  alone _ _ _ h := absurd h.1 List.not_mem_nil
  orderly _ := orderly_created []
  traced _ h := Or.inl h
  blocked _ _ h := absurd h List.not_mem_nil

/-- What holds along every interleaving of the builds. -/
theorem sessions_run {world : World ι} {programs : ι → SessionProgram SessionResult}
    (path : ParallelRun building (begin start,fun party => session (targets party).1 (targets party).2)
      (world,programs)) :
    Composed building Untouched (fun party => Respectful party (targets party).1 (targets party).2)
      Ended (Exclusive start targets) (world,programs) := by
  refine Composed.run untouched_refl untouched_trans ?_ ?_ ⟨exclusive_begin start targets,
    fun party => session_spec ⟨rfl,fun _ h => absurd h.1 List.not_mem_nil⟩⟩ path
  · intro party other op state answer after distinct exclusive effect promised
    refine (acted_of_building effect promised).untouched exclusive distinct ?_
    rw [effect.2,Function.update_of_ne distinct.symm]
  · intro party op state answer after exclusive effect promised
    refine (acted_of_building effect promised).exclusive exclusive (fun other hne => ?_) promised.2
    rw [effect.2,Function.update_of_ne hne]

/-- Every operation has an answer. -/
theorem building_answers (party : ι) (op : SessionOp) (state : World ι) :
    ∃ answer after,building party op state answer after := by
  cases op with
  | enter =>
    exact ⟨(),⟨state.locks,Function.update state.history party _⟩,rfl,rfl⟩
  | leave =>
    exact ⟨true,⟨state.locks,Function.update state.history party _⟩,rfl,rfl⟩
  | lock op =>
    exact ⟨_,⟨(op.effect state.locks none none).2,Function.update state.history party _⟩,⟨none,rfl⟩,rfl⟩

/-- Removing locks takes two operations each. -/
theorem releaseEach_within (pending : List Text) :
    (releaseEach pending).Within (2*pending.length) (fun _ => True) := by
  induction pending with
  | nil => trivial
  | cons lock pending ih =>
    have hremove : (removeLock lock).Within 2 (fun _ => True) := fun _ _ => trivial
    have hboth := hremove.bind (fun _ _ => ih)
    exact hboth.mono (by rw [List.length_cons]; omega)

theorem releaseNoting_within (failures : Text) (pending : List Text) :
    (releaseNoting failures pending).Within (2*pending.length) (fun _ => True) := by
  induction pending generalizing failures with
  | nil => trivial
  | cons lock pending ih =>
    have hremove : (removeLock lock).Within 2 (fun _ => True) := fun _ _ => trivial
    have hrest : ∀ error : Option Text,(match error with
        | none => releaseNoting failures pending
        | some reason => releaseNoting ((if failures.isEmpty then failures else failures++" ")++
          ("'"++lock++"': "++reason++";")) pending).Within (2*pending.length) (fun _ => True) := by
      intro error
      cases error with
      | none => exact ih _
      | some reason => exact ih _
    have hboth := hremove.bind (fun error _ => hrest error)
    exact hboth.mono (by rw [List.length_cons]; omega)

/-- How many locks the constructor ends with. -/
def Few (bound : ℕ) : Except Text (List Text) → Prop
  | .ok locks => locks.length≤bound
  | .error _ => True

/-- The constructor takes a bounded number of operations. -/
theorem acquireEach_within (locks targets : List Text) :
    (acquireEach locks targets).Within (2*(locks.length+2*targets.length))
      (Few (locks.length+targets.length)) := by
  induction targets generalizing locks with
  | nil => exact (Program.within_done _ _).mpr (le_refl locks.length)
  | cons target targets ih =>
    have hfew : ∀ {bound bound' : ℕ},bound≤bound' → ∀ result,Few bound result → Few bound' result := by
      intro bound bound' hle result h
      cases result with
      | error message => trivial
      | ok locks => exact (show locks.length≤bound from h).trans hle
    rw [acquireEach]
    split
    · refine ((ih locks).returning (hfew ?_)).mono ?_
      · simp
      · rw [List.length_cons]
        omega
    · refine (Program.Within.bind (Program.within_perform _) (fun answer _ => ?_)).mono (show
        1+(2*(locks.length+2*targets.length)+3)≤_ by rw [List.length_cons]; omega)
      split
      · refine (Program.Within.bind (Program.within_perform _) (fun _ _ => ?_)).mono (show
          1+(2*(locks.length+2*targets.length)+2)≤_ by omega)
        have hrest := ih (locks++[lockPathFor target])
        rw [List.length_append,List.length_singleton] at hrest
        refine (hrest.returning (hfew ?_)).mono (by omega)
        rw [List.length_cons]
        omega
      · refine (Program.Within.bind (releaseEach_within locks.reverse) (fun _ _ => ?_)).mono (show
          2*locks.reverse.length+0≤_ by rw [List.length_reverse]; omega)
        trivial

/-- So does a build. -/
theorem session_within (first second : Text) : (session first second).Within 14 (fun _ => True) := by
  have hlength : (sortTargets first second).length=2 := by
    unfold sortTargets
    split <;> rfl
  have hlift : ∀ {α : Type} {program : LockProgram α} {bound : ℕ} {returns : α → Prop},
      program.Within bound returns → (ofLocks program).Within bound returns := fun h => h.lift
  have hacquire := hlift (acquireEach_within [] (sortTargets first second))
  rw [hlength] at hacquire
  refine (hacquire.bind (fun result hr => ?_)).mono (show 2*(0+2*2)+6≤14 by omega)
  cases result with
  | error message => trivial
  | ok locks =>
    have hl : locks.length≤2 := hr
    refine ((Program.within_perform SessionOp.enter).bind (fun _ _ =>
      (Program.within_perform SessionOp.leave).bind (fun returns _ => ?_))).mono
        (show 1+(1+2*locks.reverse.length)≤6 by rw [List.length_reverse]; omega)
    cases returns with
    | true =>
      have hchecked : (releaseChecked locks).Within (2*locks.reverse.length) (fun _ => True) :=
        (releaseNoting_within [] locks.reverse).bind
          (fun failures _ => (Program.within_done 0 _).mpr trivial)
      exact (hlift hchecked).bind (fun result _ => (Program.within_done 0 _).mpr trivial)
    | false =>
      exact (hlift (releaseEach_within locks.reverse)).bind
        (fun _ _ => (Program.within_done 0 _).mpr trivial)

/-- When nobody can act, every build has ended. -/
theorem all_done {world : World ι} {programs : ι → SessionProgram SessionResult}
    (stuck : ∀ next,¬ParallelStep building (world,programs) next) (party : ι) :
    ∃ result,programs party=.done result := by
  cases issued : programs party with
  | done result => exact ⟨result,rfl⟩
  | call op next =>
    obtain ⟨answer,after,effect⟩ := building_answers party op world
    exact absurd (ParallelStep.act issued effect) (stuck _)

omit [DecidableEq ι] in
/-- Unless a lock was there at the start, not every build is refused: the
lock that comes last among the refused ones was created by a build that goes
on to a later one. -/
theorem not_all_refused [Finite ι] [Nonempty ι] {world : World ι}
    (exclusive : Exclusive start targets world) (fresh : ∀ lock,start lock=none)
    (refused : ∀ party,(world.history party).refused≠[]) : False := by
  have hlast : ∀ party,∃ target,lockPathFor target∈(world.history party).refused ∧
      ∀ other,lockPathFor other∈(world.history party).created → before other target := by
    intro party
    obtain ⟨lock,hl⟩ := List.exists_mem_of_ne_nil _ (refused party)
    obtain ⟨-,target,rfl,ahead⟩ := (exclusive.orderly party).refused lock hl
    exact ⟨target,hl,ahead⟩
  choose last hmem hahead using hlast
  obtain ⟨greatest,hgreatest⟩ := Finite.exists_max (fun party => (last party).map UInt8.toNat)
  have hblocked := exclusive.blocked greatest _ (hmem greatest)
  rw [fresh] at hblocked
  obtain ⟨other,hcreated⟩ := hblocked.resolve_left (by simp)
  exact absurd (hahead other _ hcreated) (not_lt_of_ge (hgreatest other))

/-- Builds that contend for locks exclude each other, and do not all give
up. While a build sits between acquisition and release the locks of its
targets are its own, so no other build shares a target with it. A build only
removes locks it created, and one that is refused removes all of these. From
a state without locks every interleaving comes to an end, and then some build
has got its locks. -/
theorem buildLocks_exclusive {ι : Type} [DecidableEq ι] [Fintype ι] [Nonempty ι] (start : Locks)
    (targets : ι → Text×Text) :
    (∀ world programs,ParallelRun building
        (begin start,fun party => session (targets party).1 (targets party).2) (world,programs) →
      (∀ party,(world.history party).Inside →
        ∀ target∈[(targets party).1,(targets party).2],
          (world.history party).Holds (lockPathFor target) ∧
          (world.locks (lockPathFor target)).isSome) ∧
      (∀ party other,party≠other → (world.history party).Inside → (world.history other).Inside →
        ∀ target∈[(targets party).1,(targets party).2],
          target∉[(targets other).1,(targets other).2]) ∧
      (∀ party,(∀ lock∈(world.history party).removed,lock∈(world.history party).created) ∧
        (world.history party).kept=[]) ∧
      ∀ party message,programs party=.done (.refused message) →
        (world.history party).removed=(world.history party).created.reverse) ∧
    ((∀ lock,start lock=none) →
      (∀ run : ℕ → World ι×(ι → SessionProgram SessionResult),
        run 0=(begin start,fun party => session (targets party).1 (targets party).2) →
        ∃ time,¬ParallelStep building (run time) (run (time+1))) ∧
      ∀ world programs,ParallelRun building
        (begin start,fun party => session (targets party).1 (targets party).2) (world,programs) →
        (∀ next,¬ParallelStep building (world,programs) next) →
        ∃ party,(world.history party).entered=true ∧
          ∀ target∈[(targets party).1,(targets party).2],
            lockPathFor target∈(world.history party).created) := by
  refine ⟨fun world programs path => ?_,fun fresh => ⟨fun run first => ?_,
    fun world programs path stuck => ?_⟩⟩
  · have composed := sessions_run path
    have exclusive := composed.holds
    have inside : ∀ party,(world.history party).Inside →
        ∀ target∈[(targets party).1,(targets party).2],
          (world.history party).Holds (lockPathFor target) :=
      fun party h => (exclusive.orderly party).inside h
    refine ⟨fun party h target ht => ⟨inside party h target ht,
        exclusive.present party _ (inside party h target ht)⟩,
      fun party other distinct h h' target ht ht' => distinct (exclusive.alone party other _
        (inside party h target ht) (inside other h' target ht')),
      fun party => ⟨(exclusive.orderly party).removed,(exclusive.orderly party).kept⟩,
      fun party message ended => ?_⟩
    exact (composed.returned untouched_refl ended).2
  · refine parallel_terminates ⟨fun _ => 14,fun party => ?_,rfl⟩ run rfl
    rw [first]
    exact session_within _ _
  · have composed := sessions_run path
    by_contra nobody
    refine not_all_refused composed.holds fresh (fun party => ?_)
    obtain ⟨result,ended⟩ := all_done stuck party
    have post := composed.returned untouched_refl ended
    cases result with
    | refused message => exact post.1
    | released result =>
      exact absurd ⟨party,post.1,(composed.holds.orderly party).complete post.1⟩ nobody

end Sessions

/-- The targets of two builds of the same pair. -/
def sameTargets (_ : Bool) : Text×Text := ("corpus.leann","corpus.docs")

/-- Two builds of the same pair are never both inside, and one gets its locks. -/
theorem buildLocks_exclusive_same :
    (∀ world programs,ParallelRun building (begin (fun _ => none),fun party =>
        session (sameTargets party).1 (sameTargets party).2) (world,programs) →
      ¬((world.history true).Inside ∧ (world.history false).Inside)) ∧
    ∀ world programs,
    ParallelRun building (begin (fun _ => none),fun party => session (sameTargets party).1
      (sameTargets party).2) (world,programs) →
    (∀ next,¬ParallelStep building (world,programs) next) →
    ∃ party : Bool,(world.history party).entered=true ∧
      ∀ target∈[(sameTargets party).1,(sameTargets party).2],
        lockPathFor target∈(world.history party).created := by
  have exclusive := buildLocks_exclusive (fun _ => none) sameTargets
  refine ⟨fun world programs path both => ?_,(exclusive.2 (fun _ => rfl)).2⟩
  have apart := (exclusive.1 world programs path).2.1 true false Bool.noConfusion both.1 both.2
  exact apart _ List.mem_cons_self List.mem_cons_self

end Leann.BuildLocks
