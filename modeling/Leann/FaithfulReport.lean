import Leann.Residue

/-!
# What a diagnosis reports

A diagnosis throws before it has removed anything, or it says what it has
removed and what it has kept. Two of its steps break that: the report is
printed behind the removals and may be refused, and a lock is dismantled in
two steps of which the second may fail.
-/

namespace Leann.FaithfulReport

open Effects Exceptions ArtifactPublisher Host BuildProgram Doctor Histories Diagnosis Residue
  StructuredOutput
open BuildLocks hiding World building ofLocks

section Statement

/-- A file or a lock that was there and is gone. -/
def Gone (before after : Machine) (path : Text) : Prop :=
  (before.disk path).isSome ∧ after.disk path=none ∨ (before.locks path).isSome ∧ after.locks path=none

/-- A file or a lock that is there as before. -/
def Here (before after : Machine) (path : Text) : Prop :=
  ((before.disk path).isSome ∨ (before.locks path).isSome) ∧
    after.disk path=before.disk path ∧ after.locks path=before.locks path

/-- A report says what happened: the paths it lists as removed are those that
are gone, and what it lists as kept and every lock that it does not list as
removed are there as before. -/
def Faithful (before after : Machine) (report : DoctorReport) : Prop :=
  ∃ removed retained : List (Text×Text),
    report.removed=removed.map removedEntry ∧ report.retained=retained.map retainedEntry ∧
      (∀ path,(∃ reason,(path,reason)∈removed) ↔ Gone before after path) ∧
      (∀ path reason,(path,reason)∈retained → Here before after path) ∧
      ∀ lock,(before.locks lock).isSome → (∀ reason,(lock,reason)∉removed) →
        after.locks lock=before.locks lock

/-- A diagnosis throws and has changed nothing, or prints a faithful report. -/
def Atomic (circumstances : Circumstances) (format : OutputFormat) (arguments : DoctorArguments)
    (stem : Text) : Prop :=
  match circumstances.eval (commandDoctor format arguments stem).run circumstances.machine with
  | (.error _,after) => after=circumstances.machine
  | (.ok (report,_),after) => Faithful circumstances.machine after report

end Statement

section Printing

/-- A digit is no byte beyond ASCII. -/
theorem hexDigit_ascii (value : UInt8) (h : value<16) : hexDigit value<0x80 := by
  unfold hexDigit
  have hv : value.toNat<16 := UInt8.lt_iff_toNat_lt.mp h
  rw [UInt8.lt_iff_toNat_lt]
  split
  · rename_i hd
    rw [UInt8.lt_iff_toNat_lt] at hd
    rw [UInt8.toNat_add]
    change (48+value.toNat)%256<128
    omega
  · rw [UInt8.toNat_add]
    change (87+value.toNat)%256<128
    omega

/-- So digests can be written. -/
theorem hexDigest_ascii (digest : Text) : IsAscii (hexDigest digest) := by
  intro byte hb
  obtain ⟨source,-,hs⟩ := List.mem_flatMap.mp hb
  have hsource := source.toNat_lt
  have hhigh : source>>>4<16 := by
    rw [UInt8.lt_iff_toNat_lt,UInt8.toNat_shiftRight]
    change source.toNat>>>4<16
    rw [Nat.shiftRight_eq_div_pow]
    omega
  have hlow : source &&& 0x0f<16 := by
    rw [UInt8.lt_iff_toNat_lt,UInt8.toNat_and]
    exact Nat.and_lt_two_pow (n := 4) source.toNat (by decide)
  rcases List.mem_cons.mp hs with rfl|hs
  · exact hexDigit_ascii _ hhigh
  · rw [List.mem_singleton.mp hs]
    exact hexDigit_ascii _ hlow

/-- The name of the host that a lock was taken on. -/
def hostOf (lock : LockReport) : Text := (lock.owner.map LockOwner.Owner.host).getD []

/-- The strings of a report. -/
def strings (report : DoctorReport) : List Text :=
  [report.indexPath,report.documentsPath,report.pairIdentity,report.pairError]++
    report.locks.map LockReport.path++report.locks.map hostOf++
    report.leftovers.map Leftover.path++report.removed++report.retained

/-- A lock is written when its path and its host can be. -/
theorem accepts_writeLock (lock : LockReport) : Accepts (writeLock lock)
    (isValidUtf8 lock.path=true ∧ isValidUtf8 (hostOf lock)=true) := by
  have hliveness : isValidUtf8 (livenessText lock.liveness)=true := by
    cases lock.liveness with
    | unknown => exact isValidUtf8_ascii (by decide)
    | running => exact isValidUtf8_ascii (by decide)
    | absent => exact isValidUtf8_ascii (by decide)
  have hall := accepts_beginObject.bind ((accepts_fieldString "path" (by decide) lock.path).bind
    ((accepts_fieldFlag "present" (by decide) lock.present).bind
      ((accepts_fieldNumber "owner_pid" (by decide) ((lock.owner.map LockOwner.Owner.pid).getD 0)).bind
        ((accepts_fieldString "owner_host" (by decide) (hostOf lock)).bind
          ((accepts_fieldNumber "owner_started_unix" (by decide)
              ((lock.owner.map LockOwner.Owner.startedUnix).getD 0)).bind
            ((accepts_fieldString "owner_liveness" (by decide) (livenessText lock.liveness)).bind
              accepts_endObject))))))
  exact hall.congr (by simp [hliveness])

/-- A leftover is written when its path can be. -/
theorem accepts_writeLeftover (leftover : Leftover) :
    Accepts (writeLeftover leftover) (isValidUtf8 leftover.path=true) := by
  have hkind : isValidUtf8 (kindText leftover.kind)=true := by
    cases leftover.kind with
    | temporary => exact isValidUtf8_ascii (by decide)
    | backup => exact isValidUtf8_ascii (by decide)
  have hall := accepts_beginObject.bind ((accepts_fieldString "path" (by decide) leftover.path).bind
    ((accepts_fieldString "kind" (by decide) (kindText leftover.kind)).bind
      ((accepts_fieldNumber "bytes" (by decide) leftover.bytes).bind accepts_endObject)))
  exact hall.congr (by simp [hkind])

/-- An entry is written when it can be. -/
theorem accepts_writeDetail (entry : Text) : Accepts (writeDetail entry) (isValidUtf8 entry=true) :=
  (accepts_beginObject.bind ((accepts_fieldString "detail" (by decide) entry).bind
    accepts_endObject)).congr (by simp)

/-- A report is written if and only if its strings are valid. -/
theorem accepts_writeReport (report : DoctorReport) :
    Accepts (writeReport report) (∀ value∈strings report,isValidUtf8 value=true) := by
  have hlocks := Accepts.each (fun lock (_ : lock∈report.locks) => accepts_writeLock lock)
  have hleftovers := Accepts.each (fun leftover (_ : leftover∈report.leftovers) =>
    accepts_writeLeftover leftover)
  have hremoved := Accepts.each (fun entry (_ : entry∈report.removed) => accepts_writeDetail entry)
  have hretained := Accepts.each (fun entry (_ : entry∈report.retained) => accepts_writeDetail entry)
  have hlists := (accepts_beginArray "locks" (by decide)).bind (hlocks.bind (accepts_endArray.bind
    ((accepts_beginArray "leftovers" (by decide)).bind (hleftovers.bind (accepts_endArray.bind
      ((accepts_beginArray "removed" (by decide)).bind (hremoved.bind (accepts_endArray.bind
        ((accepts_beginArray "retained" (by decide)).bind (hretained.bind (accepts_endArray.bind
          accepts_endObject)))))))))))
  have hall := accepts_beginObject.bind
    ((accepts_fieldString "index_path" (by decide) report.indexPath).bind
      ((accepts_fieldString "documents_path" (by decide) report.documentsPath).bind
        ((accepts_fieldFlag "index_present" (by decide) report.indexPresent).bind
          ((accepts_fieldFlag "documents_present" (by decide) report.documentsPresent).bind
            ((accepts_fieldFlag "pair_valid" (by decide) report.pairValid).bind
              ((accepts_fieldString "pair_identity" (by decide) report.pairIdentity).bind
                ((accepts_fieldString "pair_error" (by decide) report.pairError).bind hlists)))))))
  refine hall.congr ?_
  simp only [true_and,and_true,strings,List.forall_mem_append,List.forall_mem_cons,
    List.forall_mem_map,imp_and,forall_and]
  tauto

end Printing

section Locks

variable (circumstances : Circumstances)

/-- What becomes of a lock when nothing of it can be removed. -/
theorem unlocked_same_iff (path : Text) (lock : LockDirectory) :
    circumstances.unlocked path lock=some lock ↔
      lock.owner.isSome=true ∧ circumstances.fault (.lock (.removeOwner path))≠none ∨
        lock.owner=none ∧ circumstances.fault (.lock (.removeDirectory path))≠none := by
  obtain ⟨owner⟩ := lock
  unfold Circumstances.unlocked Circumstances.unlocks
  cases owner <;> cases circumstances.fault (.lock (.removeOwner path)) <;>
    cases circumstances.fault (.lock (.removeDirectory path)) <;> simp

/-- What becomes of one otherwise, unless it is left without its owner file. -/
theorem unlocked_whole_iff (path : Text) (lock : LockDirectory) :
    circumstances.unlocks path lock=true ∨ circumstances.unlocked path lock=some lock ↔
      (lock.owner.isSome=true → circumstances.fault (.lock (.removeOwner path))=none →
        circumstances.fault (.lock (.removeDirectory path))=none) := by
  obtain ⟨owner⟩ := lock
  unfold Circumstances.unlocked Circumstances.unlocks
  cases owner <;> cases circumstances.fault (.lock (.removeOwner path)) <;>
    cases circumstances.fault (.lock (.removeDirectory path)) <;> simp

/-- A lock goes exactly when its directory can be removed behind its owner file. -/
theorem unlocked_none_iff (path : Text) (lock : LockDirectory) :
    circumstances.unlocked path lock=none ↔ circumstances.unlocks path lock=true := by
  unfold Circumstances.unlocked
  cases circumstances.unlocks path lock with
  | true => simp
  | false =>
    simp only [Bool.false_eq_true,if_false,iff_false]
    split <;> simp

/-- What stands beside a pair is no lock. -/
theorem marked_no_lock {stem path : Text} (h : Temporary (indexFileFromPrefix stem)
      (documentsFileFromPrefix stem) path ∨ Backup (indexFileFromPrefix stem)
        (documentsFileFromPrefix stem) path) :
    path∉[lockPathFor (indexFileFromPrefix stem),lockPathFor (documentsFileFromPrefix stem)] := by
  have hindex : text ".leann"=[46,108,101,97,110,110] := by decide
  have hdocuments : text ".docs"=[46,100,111,99,115] := by decide
  have htemporary : text ".tmp."=[46,116,109,112,46] := by decide
  have hbackup : text ".bak."=[46,98,97,107,46] := by decide
  have hlock : text ".lock"=[46,108,111,99,107] := by decide
  obtain ⟨stem',hi,hd⟩ := files_stem stem
  rw [hi,hd] at h ⊢
  unfold lockPathFor
  rcases h with ⟨token,rfl|rfl⟩|⟨token,rfl|rfl⟩ <;>
    simp [hindex,hdocuments,htemporary,hbackup,hlock,List.append_assoc]

end Locks

section Conditions

variable (circumstances : Circumstances) (arguments : DoctorArguments) (stem : Text)

/-- The two lock directories. -/
def lockPaths : List Text :=
  [lockPathFor (indexFileFromPrefix stem),lockPathFor (documentsFileFromPrefix stem)]

/-- The leftovers that `--repair` wants to go. -/
def Condemned (leftover : Leftover) : Prop :=
  leftover∈circumstances.leftovers (indexFileFromPrefix stem) (documentsFileFromPrefix stem) ∧
    circumstances.locked (indexFileFromPrefix stem) (documentsFileFromPrefix stem)=false ∧
      (leftover.kind=.temporary ∨
        circumstances.validates (indexFileFromPrefix stem) (documentsFileFromPrefix stem)=true)

/-- Where the owner file of a lock can be removed, so can its directory. -/
def Whole : Prop :=
  arguments.forceUnlock=true → ∀ path∈lockPaths stem,∀ lock,circumstances.machine.locks path=some lock →
    lock.owner.isSome=true → circumstances.fault (.lock (.removeOwner path))=none →
      circumstances.fault (.lock (.removeDirectory path))=none

/-- Nothing can be removed. -/
structure Barren : Prop where
  /-- No leftover. -/
  leftovers : arguments.repair=true → ∀ leftover,Condemned circumstances stem leftover →
    circumstances.fault (.remove leftover.path)≠none
  /-- No owner file, and no directory without one. -/
  locks : arguments.forceUnlock=true → ∀ path∈lockPaths stem,∀ lock,
    circumstances.machine.locks path=some lock →
      lock.owner.isSome=true ∧ circumstances.fault (.lock (.removeOwner path))≠none ∨
        lock.owner=none ∧ circumstances.fault (.lock (.removeDirectory path))≠none

/-- Every name and every message that the report is made of is valid UTF-8. -/
structure Printable : Prop where
  /-- The name of the index. -/
  index : isValidUtf8 (indexFileFromPrefix stem)=true
  /-- The name of the documents. -/
  documents : isValidUtf8 (documentsFileFromPrefix stem)=true
  /-- What is said of the pair. -/
  complaint : isValidUtf8 (circumstances.complaint (indexFileFromPrefix stem)
    (documentsFileFromPrefix stem))=true
  /-- The hosts in the owner files. -/
  hosts : ∀ lock∈circumstances.locks (indexFileFromPrefix stem) (documentsFileFromPrefix stem),
    isValidUtf8 (hostOf lock)=true
  /-- The names of the leftovers. -/
  leftovers : ∀ leftover∈circumstances.leftovers (indexFileFromPrefix stem)
    (documentsFileFromPrefix stem),isValidUtf8 leftover.path=true
  /-- Why a leftover cannot be removed. -/
  removals : arguments.repair=true → ∀ leftover,Condemned circumstances stem leftover →
    ∀ error,circumstances.fault (.remove leftover.path)=some error → isValidUtf8 error=true
  /-- Why a lock cannot be. -/
  unlocks : arguments.forceUnlock=true → ∀ path∈lockPaths stem,
    (circumstances.machine.locks path).isSome=true →
      ∀ error,circumstances.fault (.lock (.removeDirectory path))=some error → isValidUtf8 error=true

variable {circumstances arguments stem}

/-- An entry of the report is printed when its path is and, where something is
kept, the reason is. -/
theorem removedEntry_valid {entry : Text×Text} (ascii : IsAscii entry.2)
    (h : isValidUtf8 entry.1=true) : isValidUtf8 (removedEntry entry)=true := by
  have hopen : IsAscii (text " (") := by decide
  have hclose : IsAscii (text ")") := by decide
  unfold removedEntry
  exact isValidUtf8_append_ascii hclose _ (isValidUtf8_append_ascii ascii _
    (isValidUtf8_append_ascii hopen _ h))

/-- So where something is kept. -/
theorem retainedEntry_valid {entry : Text×Text} (h : isValidUtf8 entry.1=true) :
    isValidUtf8 (retainedEntry entry)=isValidUtf8 entry.2 := by
  have hcolon : IsAscii (text ": ") := by decide
  unfold retainedEntry
  exact isValidUtf8_append (isValidUtf8_append_ascii hcolon _ h) _

/-- The reasons are ASCII. -/
theorem removalReason_ascii (kind : LeftoverKind) : IsAscii (removalReason kind) := by
  cases kind with
  | temporary => decide
  | backup => decide

/-- What is removed is a leftover that goes or a lock that does. -/
theorem mem_removed {entry : Text×Text} : entry∈circumstances.removed arguments
      (indexFileFromPrefix stem) (documentsFileFromPrefix stem) ↔
    (arguments.repair=true ∧ ∃ leftover,Condemned circumstances stem leftover ∧
      circumstances.fault (.remove leftover.path)=none ∧
        entry=(leftover.path,removalReason leftover.kind)) ∨
    (arguments.forceUnlock=true ∧ ∃ path∈lockPaths stem,∃ lock,
      circumstances.machine.locks path=some lock ∧ circumstances.unlocks path lock=true ∧
        entry=(path,text "build lock removed by --force-unlock")) := by
  unfold Circumstances.removed Circumstances.victims Circumstances.freed
  rw [List.mem_append]
  refine or_congr ?_ ?_
  · cases arguments.repair with
    | false => simp
    | true =>
      simp only [if_true,true_and,List.mem_map,List.mem_filter,removes_iff,Condemned]
      constructor
      · rintro ⟨leftover,⟨hl,hlocked,hkind,hfault⟩,rfl⟩
        exact ⟨leftover,⟨hl,hlocked,hkind⟩,hfault,rfl⟩
      · rintro ⟨leftover,⟨hl,hlocked,hkind⟩,hfault,rfl⟩
        exact ⟨leftover,⟨hl,hlocked,hkind,hfault⟩,rfl⟩
  · cases arguments.forceUnlock with
    | false => simp
    | true =>
      simp only [if_true,true_and,List.mem_map,List.mem_filter,Option.any_eq_true]
      constructor
      · rintro ⟨path,⟨hp,lock,hl,hu⟩,rfl⟩
        exact ⟨path,hp,lock,hl,hu,rfl⟩
      · rintro ⟨path,hp,lock,hl,hu,rfl⟩
        exact ⟨path,⟨hp,lock,hl,hu⟩,rfl⟩

/-- What is kept is another leftover or another lock. -/
theorem mem_retained {entry : Text×Text} : entry∈circumstances.retained arguments
      (indexFileFromPrefix stem) (documentsFileFromPrefix stem) ↔
    (arguments.repair=true ∧ ∃ leftover∈circumstances.leftovers (indexFileFromPrefix stem)
        (documentsFileFromPrefix stem),
      ¬(Condemned circumstances stem leftover ∧ circumstances.fault (.remove leftover.path)=none) ∧
        entry=(leftover.path,circumstances.retention
          (circumstances.locked (indexFileFromPrefix stem) (documentsFileFromPrefix stem))
          (circumstances.validates (indexFileFromPrefix stem) (documentsFileFromPrefix stem)) leftover)) ∨
    (arguments.forceUnlock=true ∧ ∃ path∈lockPaths stem,∃ lock,
      circumstances.machine.locks path=some lock ∧ circumstances.unlocks path lock=false ∧
        entry=(path,(circumstances.fault (.lock (.removeDirectory path))).getD notEmpty)) := by
  unfold Circumstances.retained Circumstances.survivors Circumstances.stuck
  rw [List.mem_append]
  refine or_congr ?_ ?_
  · cases arguments.repair with
    | false => simp
    | true =>
      simp only [if_true,true_and,List.mem_map,List.mem_filter,Bool.not_eq_true',Condemned]
      constructor
      · rintro ⟨leftover,⟨hl,hr⟩,rfl⟩
        refine ⟨leftover,hl,fun h => ?_,rfl⟩
        rw [removes_iff.mpr ⟨h.1.2.1,h.1.2.2,h.2⟩] at hr
        cases hr
      · rintro ⟨leftover,hl,hn,rfl⟩
        refine ⟨leftover,⟨hl,Bool.eq_false_iff.mpr (fun hr => hn ?_)⟩,rfl⟩
        obtain ⟨hlocked,hkind,hfault⟩ := removes_iff.mp hr
        exact ⟨⟨hl,hlocked,hkind⟩,hfault⟩
  · cases arguments.forceUnlock with
    | false => simp
    | true =>
      simp only [if_true,true_and,List.mem_map,List.mem_filter,Option.any_eq_true,
        Bool.not_eq_true']
      constructor
      · rintro ⟨path,⟨hp,lock,hl,hu⟩,rfl⟩
        exact ⟨path,hp,lock,hl,hu,rfl⟩
      · rintro ⟨path,hp,lock,hl,hu,rfl⟩
        exact ⟨path,⟨hp,lock,hl,hu⟩,rfl⟩

/-- Why a leftover is kept can be printed unless the error cannot. -/
theorem retention_valid {leftover : Leftover} (h : leftover∈circumstances.leftovers
      (indexFileFromPrefix stem) (documentsFileFromPrefix stem)) :
    isValidUtf8 (circumstances.retention
        (circumstances.locked (indexFileFromPrefix stem) (documentsFileFromPrefix stem))
        (circumstances.validates (indexFileFromPrefix stem) (documentsFileFromPrefix stem)) leftover)=true ↔
      (Condemned circumstances stem leftover →
        ∀ error,circumstances.fault (.remove leftover.path)=some error → isValidUtf8 error=true) := by
  unfold Circumstances.retention Condemned condemned
  cases circumstances.locked (indexFileFromPrefix stem) (documentsFileFromPrefix stem) with
  | true =>
    have hascii : IsAscii (text "a build lock is present, so a build may still be using this file") := by
      decide
    simp [isValidUtf8_ascii hascii]
  | false =>
    by_cases hkind : leftover.kind=.temporary ∨ circumstances.validates (indexFileFromPrefix stem)
        (documentsFileFromPrefix stem)=true
    · have hempty : isValidUtf8 []=true := isValidUtf8_ascii (by decide)
      cases circumstances.fault (.remove leftover.path) with
      | none => simp [hkind,hempty]
      | some error => simp [hkind,h]
    · have hascii : IsAscii (text
          "the live pair does not validate, so this backup may be the only usable artifact") := by decide
      simp [hkind,isValidUtf8_ascii hascii]

/-- The path of a lock can be printed when its target can. -/
theorem lockPaths_valid (index : isValidUtf8 (indexFileFromPrefix stem)=true)
    (documents : isValidUtf8 (documentsFileFromPrefix stem)=true) :
    ∀ path∈lockPaths stem,isValidUtf8 path=true := by
  have hlock : IsAscii (text ".lock") := by decide
  intro path hp
  rcases List.mem_cons.mp hp with rfl|hp
  · exact isValidUtf8_append_ascii hlock _ index
  · rw [List.mem_singleton.mp hp]
    exact isValidUtf8_append_ascii hlock _ documents

/-- A report can be printed as a document when what it is made of can be. -/
theorem printable_iff {report : DoctorReport} (found : circumstances.Found (indexFileFromPrefix stem)
      (documentsFileFromPrefix stem) report) :
    (∀ value∈strings (noting (circumstances.examined (indexFileFromPrefix stem)
        (documentsFileFromPrefix stem) report)
        (circumstances.removed arguments (indexFileFromPrefix stem) (documentsFileFromPrefix stem))
        (circumstances.retained arguments (indexFileFromPrefix stem) (documentsFileFromPrefix stem))),
      isValidUtf8 value=true) ↔ Printable circumstances arguments stem := by
  obtain ⟨digest,hidentity⟩ := found.pairIdentity
  have hdigest := isValidUtf8_ascii (hexDigest_ascii digest)
  have hpaths : (circumstances.locks (indexFileFromPrefix stem) (documentsFileFromPrefix stem)).map
      LockReport.path=lockPaths stem := locks_paths
  simp only [strings,noting,Circumstances.examined,found.indexPath,found.documentsPath,
    found.pairError,hidentity,found.removed,found.retained,hpaths,List.nil_append,
    List.forall_mem_append,List.forall_mem_cons,List.forall_mem_map,List.not_mem_nil,
    IsEmpty.forall_iff,implies_true,and_true]
  constructor
  · rintro ⟨⟨⟨⟨⟨⟨hindex,hdocuments,-,hcomplaint⟩,hlocks⟩,hhosts⟩,hleftovers⟩,hremoved⟩,hretained⟩
    refine ⟨hindex,hdocuments,hcomplaint,hhosts,hleftovers,fun hr leftover hc => ?_,
      fun hf path hp hsome error he => ?_⟩
    · refine fun error he => (retention_valid hc.1).mp ?_ hc error he
      have hentry := hretained _ (mem_retained.mpr (.inl ⟨hr,leftover,hc.1,fun h => ?_,rfl⟩))
      · rwa [retainedEntry_valid (hleftovers leftover hc.1)] at hentry
      · rw [he] at h
        cases h.2
    · obtain ⟨lock,hl⟩ := Option.isSome_iff_exists.mp hsome
      have hu : circumstances.unlocks path lock=false := by
        unfold Circumstances.unlocks
        rw [he]
        rfl
      have hentry := hretained _ (mem_retained.mpr (.inr ⟨hf,path,hp,lock,hl,hu,rfl⟩))
      rw [retainedEntry_valid (lockPaths_valid hindex hdocuments path hp),he] at hentry
      exact hentry
  · intro h
    have hlocks := lockPaths_valid h.index h.documents
    have hforced : IsAscii (text "build lock removed by --force-unlock") := by decide
    have hempty : IsAscii notEmpty := by decide
    refine ⟨⟨⟨⟨⟨⟨h.index,h.documents,hdigest,h.complaint⟩,hlocks⟩,h.hosts⟩,h.leftovers⟩,?_⟩,?_⟩
    · intro entry he
      rcases mem_removed.mp he with ⟨-,leftover,hc,-,rfl⟩|⟨-,path,hp,lock,-,-,rfl⟩
      · exact removedEntry_valid (removalReason_ascii _) (h.leftovers leftover hc.1)
      · exact removedEntry_valid hforced (hlocks path hp)
    · intro entry he
      rcases mem_retained.mp he with ⟨hr,leftover,hl,-,rfl⟩|⟨hf,path,hp,lock,hl,-,rfl⟩
      · rw [retainedEntry_valid (h.leftovers leftover hl)]
        exact (retention_valid hl).mpr (h.removals hr leftover)
      · rw [retainedEntry_valid (hlocks path hp)]
        cases hfault : circumstances.fault (.lock (.removeDirectory path)) with
        | none => exact isValidUtf8_ascii hempty
        | some error => exact h.unlocks hf path hp (Option.isSome_iff_exists.mpr ⟨lock,hl⟩) error hfault

end Conditions

section Outcome

variable {circumstances : Circumstances} {arguments : DoctorArguments} {stem : Text}

/-- A leftover stands for its path only. -/
theorem leftover_unique {leftover other : Leftover}
    (h : leftover∈circumstances.leftovers (indexFileFromPrefix stem) (documentsFileFromPrefix stem))
    (h' : other∈circumstances.leftovers (indexFileFromPrefix stem) (documentsFileFromPrefix stem))
    (same : leftover.path=other.path) : leftover=other :=
  List.inj_on_of_nodup_map (leftovers_distinct _ _) h h' same

/-- A leftover is a file, and no lock. -/
theorem leftover_file {leftover : Leftover} (h : leftover∈circumstances.leftovers
      (indexFileFromPrefix stem) (documentsFileFromPrefix stem)) :
    (circumstances.machine.disk leftover.path).isSome=true ∧ leftover.path∉lockPaths stem := by
  obtain ⟨-,hfile,-,hnamed⟩ := (mem_beside (separate_targets stem).1 _ _).mp (mem_leftovers h)
  refine ⟨(circumstances.listed _).mp hfile,marked_no_lock ?_⟩
  cases hk : leftover.kind with
  | temporary =>
    rw [hk] at hnamed
    exact .inl hnamed
  | backup =>
    rw [hk] at hnamed
    exact .inr hnamed

/-- A leftover that goes. -/
def Goes (circumstances : Circumstances) (arguments : DoctorArguments) (stem path : Text) : Prop :=
  arguments.repair=true ∧ ∃ leftover,Condemned circumstances stem leftover ∧
    circumstances.fault (.remove leftover.path)=none ∧ leftover.path=path

/-- The files that `--repair` erases. -/
theorem mem_erased {path : Text} :
    path∈(circumstances.victims
        (circumstances.locked (indexFileFromPrefix stem) (documentsFileFromPrefix stem))
        (circumstances.validates (indexFileFromPrefix stem) (documentsFileFromPrefix stem))
        (circumstances.leftovers (indexFileFromPrefix stem) (documentsFileFromPrefix stem))).map Prod.fst ↔
      ∃ leftover,Condemned circumstances stem leftover ∧
        circumstances.fault (.remove leftover.path)=none ∧ leftover.path=path := by
  rw [mem_victims]
  constructor
  · rintro ⟨leftover,hl,hr,hp⟩
    obtain ⟨hlocked,hkind,hfault⟩ := removes_iff.mp hr
    exact ⟨leftover,⟨hl,hlocked,hkind⟩,hfault,hp⟩
  · rintro ⟨leftover,⟨hl,hlocked,hkind⟩,hfault,hp⟩
    exact ⟨leftover,hl,removes_iff.mpr ⟨hlocked,hkind,hfault⟩,hp⟩

/-- A file that goes is no longer there. -/
theorem remains_gone {path : Text} (h : Goes circumstances arguments stem path) :
    (circumstances.remains arguments (indexFileFromPrefix stem)
      (documentsFileFromPrefix stem)).disk path=none := by
  unfold Circumstances.remains
  dsimp only
  rw [if_pos h.1,erase,if_pos (mem_erased.mpr h.2)]

/-- Any other is there as before. -/
theorem remains_kept {path : Text} (h : ¬Goes circumstances arguments stem path) :
    (circumstances.remains arguments (indexFileFromPrefix stem)
      (documentsFileFromPrefix stem)).disk path=circumstances.machine.disk path := by
  unfold Circumstances.remains
  dsimp only
  split
  · rename_i hr
    rw [erase,if_neg (fun hm => h ⟨hr,mem_erased.mp hm⟩)]
  · rfl

/-- The locks behind a diagnosis. -/
theorem remains_locks (path : Text) :
    (circumstances.remains arguments (indexFileFromPrefix stem)
      (documentsFileFromPrefix stem)).locks path=
        if arguments.forceUnlock=true ∧ path∈lockPaths stem then
          (circumstances.machine.locks path).bind (circumstances.unlocked path)
        else circumstances.machine.locks path := by
  unfold Circumstances.remains Circumstances.release
  cases arguments.forceUnlock with
  | false => simp
  | true => simp [lockPaths]

/-- What goes was a file, and no lock. -/
theorem goes_file {path : Text} (h : Goes circumstances arguments stem path) :
    (circumstances.machine.disk path).isSome=true ∧ path∉lockPaths stem := by
  obtain ⟨-,leftover,hc,-,rfl⟩ := h
  exact leftover_file hc.1

/-- Nothing changes exactly when nothing can be removed. -/
theorem remains_same_iff :
    circumstances.remains arguments (indexFileFromPrefix stem) (documentsFileFromPrefix stem)=
      circumstances.machine ↔ Barren circumstances arguments stem := by
  constructor
  · intro h
    refine ⟨fun hr leftover hc hfault => ?_,fun hf path hp lock hl => ?_⟩
    · have hgoes : Goes circumstances arguments stem leftover.path := ⟨hr,leftover,hc,hfault,rfl⟩
      have hnone := remains_gone hgoes
      have hsome := (goes_file hgoes).1
      rw [←h,hnone] at hsome
      cases hsome
    · have hlock : (circumstances.remains arguments (indexFileFromPrefix stem)
          (documentsFileFromPrefix stem)).locks path=_ := remains_locks path
      rw [h,if_pos ⟨hf,hp⟩,hl] at hlock
      exact (unlocked_same_iff circumstances path lock).mp hlock.symm
  · intro h
    have hdisk : (circumstances.remains arguments (indexFileFromPrefix stem)
        (documentsFileFromPrefix stem)).disk=circumstances.machine.disk := by
      funext path
      exact remains_kept (fun ⟨hr,leftover,hc,hfault,_⟩ => h.leftovers hr leftover hc hfault)
    have hlocks : (circumstances.remains arguments (indexFileFromPrefix stem)
        (documentsFileFromPrefix stem)).locks=circumstances.machine.locks := by
      funext path
      rw [remains_locks]
      split
      · rename_i hforced
        cases hl : circumstances.machine.locks path with
        | none => rfl
        | some lock =>
          exact (unlocked_same_iff circumstances path lock).mpr (h.locks hforced.1 path hforced.2 lock hl)
      · rfl
    exact congrArg₂ Machine.mk hdisk hlocks

/-- What is listed as removed is what is gone. -/
theorem removed_gone_iff (path : Text) :
    (∃ reason,(path,reason)∈circumstances.removed arguments (indexFileFromPrefix stem)
        (documentsFileFromPrefix stem)) ↔
      Gone circumstances.machine (circumstances.remains arguments (indexFileFromPrefix stem)
        (documentsFileFromPrefix stem)) path := by
  constructor
  · rintro ⟨reason,hr⟩
    rcases mem_removed.mp hr with ⟨hrepair,leftover,hc,hfault,hentry⟩|⟨hf,path',hp,lock,hl,hu,hentry⟩
    · obtain ⟨rfl,-⟩ := Prod.mk.inj hentry
      have hgoes : Goes circumstances arguments stem leftover.path := ⟨hrepair,leftover,hc,hfault,rfl⟩
      exact .inl ⟨(goes_file hgoes).1,remains_gone hgoes⟩
    · obtain ⟨rfl,-⟩ := Prod.mk.inj hentry
      refine .inr ⟨Option.isSome_iff_exists.mpr ⟨lock,hl⟩,?_⟩
      rw [remains_locks,if_pos ⟨hf,hp⟩,hl]
      exact (unlocked_none_iff circumstances path lock).mpr hu
  · rintro (⟨hsome,hnone⟩|⟨hsome,hnone⟩)
    · have hgoes : Goes circumstances arguments stem path := by
        by_contra hn
        rw [remains_kept hn] at hnone
        rw [hnone] at hsome
        cases hsome
      obtain ⟨hrepair,leftover,hc,hfault,rfl⟩ := hgoes
      exact ⟨_,mem_removed.mpr (.inl ⟨hrepair,leftover,hc,hfault,rfl⟩)⟩
    · obtain ⟨lock,hl⟩ := Option.isSome_iff_exists.mp hsome
      rw [remains_locks] at hnone
      split at hnone
      · rename_i hforced
        rw [hl] at hnone
        have hu := (unlocked_none_iff circumstances path lock).mp hnone
        exact ⟨_,mem_removed.mpr (.inr ⟨hforced.1,path,hforced.2,lock,hl,hu,rfl⟩)⟩
      · rw [hnone] at hl
        cases hl

/-- A report is faithful exactly when no lock is left without its owner file. -/
theorem faithful_iff {report : DoctorReport} (removed : report.removed=[]) (retained : report.retained=[]) :
    Faithful circumstances.machine (circumstances.remains arguments (indexFileFromPrefix stem)
        (documentsFileFromPrefix stem))
      (noting report
        (circumstances.removed arguments (indexFileFromPrefix stem) (documentsFileFromPrefix stem))
        (circumstances.retained arguments (indexFileFromPrefix stem) (documentsFileFromPrefix stem))) ↔
      Whole circumstances arguments stem := by
  have hwhole : ∀ {path : Text} {lock : LockDirectory},arguments.forceUnlock=true → path∈lockPaths stem →
      circumstances.machine.locks path=some lock → (circumstances.remains arguments
        (indexFileFromPrefix stem) (documentsFileFromPrefix stem)).locks path=
          circumstances.unlocked path lock := by
    intro path lock hf hp hl
    rw [remains_locks,if_pos ⟨hf,hp⟩,hl]
    rfl
  constructor
  · rintro ⟨removed',retained',-,-,hgone,-,hlocks⟩ hf path hp lock hl howner hfault
    refine (unlocked_whole_iff circumstances path lock).mp ?_ howner hfault
    by_cases hlisted : ∃ reason,(path,reason)∈removed'
    · rcases (hgone path).mp hlisted with ⟨hsome,hnone⟩|⟨-,hnone⟩
      · have hgoes : Goes circumstances arguments stem path := by
          by_contra hn
          rw [remains_kept hn] at hnone
          rw [hnone] at hsome
          cases hsome
        exact absurd hp (goes_file hgoes).2
      · rw [hwhole hf hp hl] at hnone
        exact .inl ((unlocked_none_iff circumstances path lock).mp hnone)
    · have hsame := hlocks path (Option.isSome_iff_exists.mpr ⟨lock,hl⟩)
        (fun reason hr => hlisted ⟨reason,hr⟩)
      rw [hwhole hf hp hl,hl] at hsame
      exact .inr hsame
  · intro whole
    refine ⟨circumstances.removed arguments (indexFileFromPrefix stem) (documentsFileFromPrefix stem),
      circumstances.retained arguments (indexFileFromPrefix stem) (documentsFileFromPrefix stem),
      ?_,?_,removed_gone_iff,fun path reason hr => ?_,fun path hsome hnot => ?_⟩
    · unfold noting
      rw [removed,List.nil_append]
    · unfold noting
      rw [retained,List.nil_append]
    · rcases mem_retained.mp hr with ⟨-,leftover,hl,hstays,hentry⟩|⟨hf,path',hp,lock,hl,hu,hentry⟩
      · obtain ⟨rfl,-⟩ := Prod.mk.inj hentry
        obtain ⟨hfile,hlock⟩ := leftover_file hl
        refine ⟨.inl hfile,remains_kept (fun ⟨_,other,hc,hfault,hp⟩ => hstays ?_),?_⟩
        · rw [leftover_unique hl hc.1 hp.symm]
          exact ⟨hc,hfault⟩
        · rw [remains_locks,if_neg (fun h => hlock h.2)]
      · obtain ⟨rfl,-⟩ := Prod.mk.inj hentry
        refine ⟨.inr (Option.isSome_iff_exists.mpr ⟨lock,hl⟩),remains_kept (fun hgoes =>
          (goes_file hgoes).2 hp),?_⟩
        have hleft := (unlocked_whole_iff circumstances path lock).mpr (whole hf path hp lock hl)
        rw [hu] at hleft
        rw [hwhole hf hp hl,hl]
        exact hleft.resolve_left (by decide)
    · obtain ⟨lock,hl⟩ := Option.isSome_iff_exists.mp hsome
      by_cases hforced : arguments.forceUnlock=true ∧ path∈lockPaths stem
      · have hleft := (unlocked_whole_iff circumstances path lock).mpr
          (whole hforced.1 path hforced.2 lock hl)
        rw [hwhole hforced.1 hforced.2 hl,hl]
        refine hleft.resolve_left (fun hu => ?_)
        exact hnot _ (mem_removed.mpr (.inr ⟨hforced.1,path,hforced.2,lock,hl,hu,rfl⟩))
      · rw [remains_locks,if_neg hforced]

/-- A report is printed as text, or when what it is made of can be. -/
theorem prints_iff (arguments : DoctorArguments) (format : OutputFormat) {report : DoctorReport} (found : circumstances.Found
      (indexFileFromPrefix stem) (documentsFileFromPrefix stem) report) :
    (∃ output,printReport format arguments (noting (circumstances.examined (indexFileFromPrefix stem)
        (documentsFileFromPrefix stem) report)
        (circumstances.removed arguments (indexFileFromPrefix stem) (documentsFileFromPrefix stem))
        (circumstances.retained arguments (indexFileFromPrefix stem) (documentsFileFromPrefix stem)))=
          .ok output) ↔ format=.text ∨ Printable circumstances arguments stem := by
  cases format with
  | text => exact ⟨fun _ => .inl rfl,fun _ => ⟨_,rfl⟩⟩
  | json =>
    rw [←printable_iff found]
    exact (accepts_writeReport _).document.trans ⟨.inr,fun h => h.resolve_left (by decide)⟩

/-- A diagnosis is atomic and its report faithful if and only if it throws at
once, or no lock loses its owner file only and the report can be printed or
nothing can be removed. -/
theorem doctor_atomic_iff (circumstances : Circumstances) (format : OutputFormat)
    (arguments : DoctorArguments) (stem : Text) :
    Atomic circumstances format arguments stem ↔
      circumstances.refuses arguments (indexFileFromPrefix stem) (documentsFileFromPrefix stem)=true ∨
      (circumstances.unreadable (indexFileFromPrefix stem)).isSome=true ∨
      Whole circumstances arguments stem ∧
        (format=.text ∨ Printable circumstances arguments stem ∨ Barren circumstances arguments stem) := by
  obtain ⟨-,different⟩ := separate_targets stem
  have hbarren : Barren circumstances arguments stem → Whole circumstances arguments stem := by
    intro h hf path hp lock hl
    refine (unlocked_whole_iff circumstances path lock).mp (.inr ?_)
    exact (unlocked_same_iff circumstances path lock).mpr (h.locks hf path hp lock hl)
  unfold Atomic commandDoctor
  rw [eval_throwing]
  by_cases hthrows : (circumstances.unreadable (indexFileFromPrefix stem)).isSome=true ∨
      circumstances.refuses arguments (indexFileFromPrefix stem) (documentsFileFromPrefix stem)=true
  · obtain ⟨fault,heval⟩ := doctor_throws hthrows
    rw [heval]
    exact ⟨fun _ => hthrows.elim (fun h => .inr (.inl h)) .inl,fun _ => rfl⟩
  · obtain ⟨hreadable,hadmitted⟩ := not_or.mp hthrows
    have hnone := Option.not_isSome_iff_eq_none.mp hreadable
    obtain ⟨report,found,heval⟩ := doctor_returns different hnone (Bool.not_eq_true _ ▸ hadmitted)
    have hprints := prints_iff arguments format found
    have hfaithful : Faithful _ _ (noting (circumstances.examined (indexFileFromPrefix stem)
        (documentsFileFromPrefix stem) report) _ _) ↔ Whole circumstances arguments stem :=
      faithful_iff found.removed found.retained
    have hcomputed : ∀ (result : Except Fault Text) (machine : Machine),
        circumstances.eval (computed result).run machine=(result,machine) := fun _ _ => rfl
    rw [heval]
    dsimp only
    rw [eval_throwing,hcomputed]
    generalize noting _ _ _=final at hprints hfaithful ⊢
    cases hprint : printReport format arguments final with
    | error fault =>
      have hcannot : ¬(format=.text ∨ Printable circumstances arguments stem) := by
        intro h
        obtain ⟨output,ho⟩ := hprints.mpr h
        rw [hprint] at ho
        cases ho
      dsimp only
      rw [remains_same_iff]
      constructor
      · intro h
        exact .inr (.inr ⟨hbarren h,.inr (.inr h)⟩)
      · rintro (h|h|⟨-,h|h|h⟩)
        · exact absurd h hadmitted
        · exact absurd h hreadable
        · exact absurd (.inl h) hcannot
        · exact absurd (.inr h) hcannot
        · exact h
    | ok output =>
      have hcan := hprints.mp ⟨output,hprint⟩
      have hreturned : ∀ machine : Machine,circumstances.eval (ExceptT.run (m := HostProgram)
          (pure (final,output) : Throwing (DoctorReport×Text))) machine=(.ok (final,output),machine) :=
        fun _ => rfl
      dsimp only
      rw [hreturned]
      dsimp only
      rw [hfaithful]
      constructor
      · intro h
        exact .inr (.inr ⟨h,hcan.imp_right .inl⟩)
      · rintro (h|h|⟨h,-⟩)
        · exact absurd h hadmitted
        · exact absurd h hreadable
        · exact h

end Outcome

section Controls

variable {circumstances : Circumstances} {format : OutputFormat} {arguments : DoctorArguments}
variable {stem : Text}

/-- A diagnosis that throws has changed nothing. -/
theorem Atomic.thrown (atomic : Atomic circumstances format arguments stem)
    (thrown : (circumstances.eval (commandDoctor format arguments stem).run
      circumstances.machine).1.toBool=false) :
    (circumstances.eval (commandDoctor format arguments stem).run circumstances.machine).2=
      circumstances.machine := by
  unfold Atomic at atomic
  revert atomic thrown
  rcases circumstances.eval (commandDoctor format arguments stem).run circumstances.machine with
    ⟨fault|report,after⟩
  · exact fun atomic _ => atomic
  · exact fun _ thrown => nomatch thrown

/-- One that returns leaves every lock or removes it. -/
theorem Atomic.returned (atomic : Atomic circumstances format arguments stem)
    (returned : (circumstances.eval (commandDoctor format arguments stem).run
      circumstances.machine).1.toBool=true) (lock : Text)
    (present : (circumstances.machine.locks lock).isSome=true) :
    (circumstances.eval (commandDoctor format arguments stem).run circumstances.machine).2.locks lock=
        circumstances.machine.locks lock ∨
      Gone circumstances.machine
        (circumstances.eval (commandDoctor format arguments stem).run circumstances.machine).2 lock := by
  unfold Atomic at atomic
  revert atomic returned
  rcases circumstances.eval (commandDoctor format arguments stem).run circumstances.machine with
    ⟨fault|report,after⟩
  · exact fun _ returned => nomatch returned
  · rintro ⟨removed,-,-,-,hgone,-,hlocks⟩ -
    by_cases h : ∃ reason,(lock,reason)∈removed
    · exact .inr ((hgone lock).mp h)
    · exact .inl (hlocks lock present (fun reason hr => h ⟨reason,hr⟩))

/-- A leftover whose name is no UTF-8. -/
def unprintable : Circumstances where
  machine := ⟨fun path => if path=text "a.leann.tmp."++[0xff] then some ⟨[],[],0⟩ else none,fun _ => none⟩
  files := [text "a.leann.tmp."++[0xff]]
  distinct := List.nodup_singleton _
  listed := by
    intro path
    rw [List.mem_singleton]
    dsimp only
    split
    · rename_i h
      exact ⟨fun _ => rfl,fun _ => h⟩
    · rename_i h
      exact ⟨fun hp => absurd hp h,fun hs => nomatch hs⟩
  fault _ := none
  host := []
  runs _ := false

/-- A lock whose directory cannot be removed. -/
def jammed : Circumstances where
  machine := ⟨fun _ => none,fun path => if path=text "a.leann.lock" then some ⟨some "pid=1\n"⟩ else none⟩
  files := []
  distinct := List.nodup_nil
  listed _ := ⟨fun h => (nomatch h),fun h => nomatch h⟩
  fault op := match op with
    | .lock (.removeDirectory _) => some "Device or resource busy"
    | _ => none
  host := []
  runs _ := false

/-- Repairing the first throws behind the removal, and unlocking the second
leaves a lock without its owner file. -/
theorem doctor_not_atomic :
    ¬Atomic unprintable .json ⟨true,false⟩ "a" ∧ ¬Atomic jammed .text ⟨false,true⟩ "a" := by
  constructor
  · intro atomic
    have hthrown : (unprintable.eval (commandDoctor .json ⟨true,false⟩ "a").run
        unprintable.machine).1.toBool=false := by decide +kernel
    have hgone : (unprintable.eval (commandDoctor .json ⟨true,false⟩ "a").run
        unprintable.machine).2.disk (text "a.leann.tmp."++[0xff])=none := by decide +kernel
    rw [atomic.thrown hthrown] at hgone
    cases hgone
  · intro atomic
    have hreturned : (jammed.eval (commandDoctor .text ⟨false,true⟩ "a").run
        jammed.machine).1.toBool=true := by decide +kernel
    have hbare : (jammed.eval (commandDoctor .text ⟨false,true⟩ "a").run
        jammed.machine).2.locks (text "a.leann.lock")=some ⟨none⟩ := by decide +kernel
    rcases atomic.returned hreturned "a.leann.lock" rfl with hsame|⟨hfile,-⟩|⟨-,hnone⟩
    · rw [hbare] at hsame
      cases hsame
    · cases hfile
    · rw [hbare] at hnone
      cases hnone

end Controls

end Leann.FaithfulReport
