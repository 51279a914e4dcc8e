import Leann.BuildFailure
import Leann.Doctor

/-!
# Builds and diagnoses one after the other

At one prefix builds and diagnoses take place in any order, and each may be
killed after any of its calls. What they leave behind keeps an invariant:
the pair committed last exists, live or parked.
-/

namespace Leann.Histories

open Effects Exceptions ArtifactPublisher Host BuildProgram BuildSteps BuildArtifacts BuildScopes
  BuildFailure Doctor
open BuildLocks hiding World building ofLocks

section Names

/-- What `unique_token` prints: some hexadecimal digits. -/
def HexTokens (tokens : Set Text) : Prop := ∀ token∈tokens,token≠[] ∧ ∀ byte∈token,IsHexDigit byte

/-- What a string ends with. -/
theorem last_of_suffix {token path : Text} (h : token<:+path) (ht : token≠[]) (hp : path≠[]) :
    token.getLast ht=path.getLast hp := by
  obtain ⟨front,rfl⟩ := h
  exact (List.getLast_append_of_ne_nil hp ht).symm

/-- Tokens end neither target, since the targets do not end in a digit. -/
theorem unique_tokens {tokens : Set Text} (hex : HexTokens tokens) (stem : Text) :
    UniqueTokens tokens (stem++".leann") (stem++".docs") := by
  have hends : ∀ (suffix : Text) (hs : suffix≠[]),¬IsHexDigit (suffix.getLast hs) →
      ∀ token∈tokens,¬token<:+stem++suffix := by
    intro suffix hs hdigit token ht h
    obtain ⟨hne,hall⟩ := hex token ht
    have hlast := last_of_suffix h hne (List.append_ne_nil_of_right_ne_nil stem hs)
    rw [List.getLast_append_of_ne_nil _ hs] at hlast
    exact hdigit (hlast ▸ hall _ (List.getLast_mem hne))
  refine ⟨fun token ht => (hex token ht).2,hends ".leann" (by decide) ?_,hends ".docs" (by decide) ?_⟩
  · unfold IsHexDigit
    decide
  · unfold IsHexDigit
    decide

/-- A name that a build may choose for what it writes. -/
def Temporary (index documents path : Text) : Prop :=
  ∃ token,path=index++".tmp."++token ∨ path=documents++".tmp."++token

/-- A name that a build may choose for what it parks. -/
def Backup (index documents path : Text) : Prop :=
  ∃ token,path=index++".bak."++token ∨ path=documents++".bak."++token

/-- A path is its directory and its name. -/
theorem parent_file (path : Text) : parentPath path++fileName path=path := by
  rw [parentPath,fileName,←List.reverse_append,List.takeWhile_append_dropWhile,List.reverse_reverse]

/-- What is added to a name stays in the directory. -/
theorem parentPath_append {stem rest : Text} (h : ∀ byte∈rest,byte≠slash) :
    parentPath (stem++rest)=parentPath stem := by
  have hall : ∀ byte∈rest.reverse,decide (byte≠slash)=true :=
    fun byte hb => decide_eq_true (h byte (List.mem_reverse.mp hb))
  rw [parentPath,parentPath,List.reverse_append,List.dropWhile_append_of_pos hall]

/-- What is found beside the pair was named by a build. -/
theorem leftoverOf_named {index documents path : Text} {leftover : Leftover}
    (same : parentPath documents=parentPath index) (directory : parentPath path=parentPath index)
    (h : leftoverOf [fileName index,fileName documents] path=some leftover) :
    leftover.path=path ∧ (leftover.kind=.temporary → Temporary index documents path) ∧
      (leftover.kind=.backup → Backup index documents path) := by
  have hwhole : ∀ {target marker : Text},parentPath target=parentPath index →
      fileName target++marker<+:fileName path → ∃ token,path=target++marker++token := by
    intro target marker ht hp
    obtain ⟨token,htoken⟩ := hp
    refine ⟨token,?_⟩
    calc path=parentPath path++fileName path := (parent_file path).symm
      _=parentPath target++fileName target++marker++token := by
        rw [←htoken,directory,ht,List.append_assoc,List.append_assoc,List.append_assoc]
      _=target++marker++token := by rw [parent_file]
  obtain ⟨stem,hstem,hs⟩ := List.exists_of_findSome?_eq_some h
  have htarget : ∃ target,(target=index ∨ target=documents) ∧ parentPath target=parentPath index ∧
      stem=fileName target := by
    rcases List.mem_cons.mp hstem with hi|hd
    · exact ⟨index,.inl rfl,rfl,hi⟩
    · exact ⟨documents,.inr rfl,same,List.mem_singleton.mp hd⟩
  obtain ⟨target,hone,hparent,rfl⟩ := htarget
  have hnamed : ∀ {marker token : Text},path=target++marker++token →
      path=index++marker++token ∨ path=documents++marker++token := by
    intro marker token hp
    rcases hone with ht|ht
    · rw [ht] at hp
      exact .inl hp
    · rw [ht] at hp
      exact .inr hp
  split at hs
  · rename_i hp
    obtain ⟨token,htoken⟩ := hwhole hparent hp
    rw [←Option.some.inj hs]
    exact ⟨rfl,fun _ => ⟨token,hnamed htoken⟩,fun h => nomatch h⟩
  · split at hs
    · rename_i hp
      obtain ⟨token,htoken⟩ := hwhole hparent hp
      rw [←Option.some.inj hs]
      exact ⟨rfl,fun h => (nomatch h),fun _ => ⟨token,hnamed htoken⟩⟩
    · cases hs

/-- The names of a pair and of what builds put beside it are different. -/
structure Separate (index documents : Text) : Prop where
  /-- The targets are in one directory. -/
  directory : parentPath documents=parentPath index
  /-- Nothing beside them is one of them. -/
  live : ∀ path,Temporary index documents path ∨ Backup index documents path →
    path≠index ∧ path≠documents
  /-- A temporary is no backup. -/
  apart : ∀ path,Temporary index documents path → ¬Backup index documents path

/-- So are those at a prefix. -/
theorem separate_files (stem : Text) : Separate (stem++".leann") (stem++".docs") := by
  have hindex : text ".leann"=[46,108,101,97,110,110] := by decide
  have hdocuments : text ".docs"=[46,100,111,99,115] := by decide
  have htemporary : text ".tmp."=[46,116,109,112,46] := by decide
  have hbackup : text ".bak."=[46,98,97,107,46] := by decide
  refine ⟨?_,fun path hp => ?_,fun path ht hb => ?_⟩
  · rw [parentPath_append (by decide),parentPath_append (by decide)]
  · rcases hp with ⟨token,hp|hp⟩|⟨token,hp|hp⟩ <;>
      refine ⟨fun h => ?_,fun h => ?_⟩ <;>
      · rw [hp] at h
        simp [hindex,hdocuments,htemporary,hbackup,List.append_assoc] at h
  · obtain ⟨token,ht⟩ := ht
    obtain ⟨token',hb⟩ := hb
    rcases ht with ht|ht <;> rcases hb with hb|hb <;>
      · rw [ht] at hb
        simp [hindex,hdocuments,htemporary,hbackup,List.append_assoc] at hb

/-- An extension is what a path ends with. -/
theorem extension_suffix (path : Text) : extension path<:+path := by
  unfold extension
  dsimp only
  split
  · exact List.nil_suffix
  · rename_i h
    have hname : fileName path<:+path := ⟨parentPath path,parent_file path⟩
    have hsplit := List.takeWhile_append_dropWhile (p := fun byte => decide (byte≠dot))
      (l := (fileName path).reverse)
    cases hfront : (fileName path).reverse.dropWhile (fun byte => decide (byte≠dot)) with
    | nil =>
      rw [hfront] at h
      exact absurd (.inr (Nat.zero_le 1)) h
    | cons byte front =>
      have hdot : byte=dot := by
        have hhead := List.head?_dropWhile_not (fun byte => decide (byte≠dot)) (fileName path).reverse
        rw [hfront] at hhead
        simpa using hhead
      refine List.IsSuffix.trans ⟨front.reverse,?_⟩ hname
      rw [hfront,hdot] at hsplit
      have hr := congrArg List.reverse hsplit
      rw [List.reverse_append,List.reverse_cons,List.reverse_reverse,List.append_assoc] at hr
      exact hr

/-- The two files of a prefix have one stem. -/
theorem files_stem (path : Text) : ∃ stem,indexFileFromPrefix path=stem++".leann" ∧
    documentsFileFromPrefix path=stem++".docs" := by
  unfold indexFileFromPrefix documentsFileFromPrefix
  split
  · rename_i h
    refine ⟨withoutExtension path,?_,rfl⟩
    obtain ⟨front,hfront⟩ := extension_suffix path
    have hlength : path.length-(extension path).length=front.length := by
      rw [←hfront,List.length_append,hfront,Nat.add_sub_cancel]
    rw [withoutExtension,hlength,←h]
    nth_rewrite 2 [←hfront]
    rw [List.take_left,hfront]
  · exact ⟨path,rfl,rfl⟩

end Names

section Diagnoses

variable {index documents : Text}

/-- What a diagnosis keeps: it may be said of any files and locks, and it
survives the removal of a temporary, and of a backup while an index is live. -/
structure Durable (index documents : Text) (assertion : World → Prop) : Prop where
  /-- It says nothing about locks. -/
  locks : ∀ world after : World,assertion world → after.disk=world.disk → after.notes=world.notes →
    after.committed=world.committed → assertion after
  /-- It survives the loss of a file that no live pair needs. -/
  remove : ∀ (world after : World) (path : Text),assertion world →
    Temporary index documents path ∨
      Backup index documents path ∧ (world.disk index).isSome →
    after.disk=place world.disk path none → after.notes=world.notes →
    after.committed=world.committed → assertion after

variable {assertion : World → Prop} {world : World} {α β : Type}

/-- A call that changes nothing. -/
theorem diagnosing_quiet {op : HostOp} (h : Quiet op) {before after : World} {answer : op.Answer}
    (effect : diagnosing op before answer after) : after=before := by
  obtain ⟨hm,hn,hc⟩ := effect
  obtain ⟨machine,notes,committed⟩ := before
  obtain ⟨machine',notes',committed'⟩ := after
  have hmachine : machine'=machine := quiet_machine h hm
  cases hmachine
  cases hn
  cases hc
  rfl

/-- Programs that change nothing. -/
theorem preserves_quiet (returns : α → Prop) {program : HostProgram α} (h : program.All Quiet returns)
    (here : assertion world) :
    Preserves diagnosing assertion program (fun value after => returns value ∧ after=world) world := by
  refine h.keeps rfl (fun _ _ h moved => moved.symm.trans h) (fun op before answer after hq hs effect => ?_)
  have same := (diagnosing_quiet hq effect).trans hs
  exact ⟨same ▸ here,same⟩

/-- A program whose calls throw nothing, in front of one that may throw. -/
theorem lifted_bind (program : HostProgram α) (rest : α → Throwing β) :
    (((monadLift program : Throwing α)>>=rest) : Throwing β).run=program.bind (fun value => (rest value).run) := by
  change Program.bind (Program.bind program _) _=_
  rw [Program.bind_assoc]
  rfl

/-- The load path reads and computes. -/
theorem checkPair_quiet (index documents : Text) :
    Issues Quiet (fun _ => True) (checkPair index documents) := by
  have hread : ∀ {γ : Type} (path : Text) (opened : Text → Except Fault γ),
      Issues Quiet (fun _ => True) ((rethrow (perform (.readFile path)) : Throwing Text)>>=fun file =>
        computed (opened file)) := fun path opened =>
    (Issues.rethrow (Program.all_perform trivial)).bind (fun _ _ => Issues.computed (fun _ _ => trivial))
  exact (hread index (IndexFile.load index)).bind (fun _ _ =>
    (hread documents (Documents.openStore documents)).bind (fun _ _ =>
      (Issues.computed (fun _ _ => trivial)).bind (fun _ _ => Issues.pure trivial)))

/-- The pair is found valid only when an index is live. -/
theorem inspectPair_spec (here : assertion world) :
    Preserves diagnosing assertion (inspectPair index documents) (fun report after =>
      (report.pairValid=true → (world.disk index).isSome) ∧ after=world) world := by
  intro seen same answer after effect
  subst same
  have hsame := @diagnosing_quiet (.isRegularFile index) trivial _ _ _ effect
  subst hsame
  refine ⟨here,?_⟩
  have hpresent : answer=.ok true → (after.disk index).isSome := effect.1.2
  refine (preserves_quiet (fun report : DoctorReport => report.pairValid=true → answer=.ok true) ?_
    here).mono (fun _ _ _ _ h => h) (fun report last h => ⟨fun hv => hpresent (h.1 hv),h.2⟩)
  refine ⟨trivial,fun present => ?_⟩
  match answer,present with
  | .ok true,.ok true =>
    change Program.All Quiet _ (Program.bind (checkPair index documents).run _)
    refine Program.All.bind (checkPair_quiet index documents) (fun result _ => ?_)
    cases result with
    | error fault => exact fun _ => rfl
    | ok loaded =>
      refine ⟨trivial,fun size => ?_⟩
      cases size with
      | error reason => exact fun _ => rfl
      | ok size => exact fun _ => rfl
  | .ok true,.ok false => exact fun _ => rfl
  | .ok true,.error reason => exact fun _ => rfl
  | .ok false,.ok true => exact fun h => nomatch h
  | .ok false,.ok false => exact fun h => nomatch h
  | .ok false,.error reason => exact fun h => nomatch h
  | .error reason',.ok true => exact fun h => nomatch h
  | .error reason',.ok false => exact fun h => nomatch h
  | .error reason',.error reason => exact fun h => nomatch h

/-- An owner is looked for. -/
theorem ownerLiveness_quiet (owner : Option LockOwner.Owner) :
    (LockOwner.ownerLiveness owner).All Quiet (fun _ => True) := by
  cases owner with
  | none => trivial
  | some owner =>
    refine ⟨trivial,fun host => ?_⟩
    dsimp only [Program.bind]
    split
    · trivial
    · unfold LockOwner.processExists
      split
      · trivial
      · exact ⟨trivial,fun _ => trivial⟩

/-- A lock is inspected. -/
theorem inspectLock_quiet (target : Text) : (inspectLock target).All Quiet (fun _ => True) := by
  refine ⟨trivial,fun present => ?_⟩
  cases present with
  | false => trivial
  | true =>
    refine ⟨trivial,fun bytes => ?_⟩
    exact (ownerLiveness_quiet _).bind (fun _ _ => trivial)

/-- What a leftover is says how it is named. -/
def Named (index documents : Text) (leftover : Leftover) : Prop :=
  (leftover.kind=.temporary → Temporary index documents leftover.path) ∧
    (leftover.kind=.backup → Backup index documents leftover.path)

/-- A leftover is measured. -/
theorem measure_quiet (leftover : Leftover) : (measure leftover).All Quiet (fun measured =>
    measured.kind=leftover.kind ∧ measured.path=leftover.path) := by
  refine ⟨trivial,fun size => ?_⟩
  cases size with
  | error reason => exact ⟨rfl,rfl⟩
  | ok size => exact ⟨rfl,rfl⟩

/-- The directory is scanned. -/
theorem collectLeftovers_spec (separate : Separate index documents) (here : assertion world) :
    Preserves diagnosing assertion (collectLeftovers index documents).run (fun result after =>
      after=world ∧ ∀ leftovers,result=.ok leftovers → ∀ leftover∈leftovers,
        Named index documents leftover) world := by
  intro seen same present after effect
  subst same
  have hsame := @diagnosing_quiet (.isDirectory (parentPath index)) trivial _ _ _ effect
  subst hsame
  refine ⟨here,?_⟩
  cases present with
  | false =>
    intro seen same
    subst same
    refine ⟨rfl,fun leftovers hl leftover hm => ?_⟩
    rw [←Except.ok.inj hl] at hm
    cases hm
  | true =>
    intro seen same answer last effect
    subst same
    have hlast := @diagnosing_quiet (.listDirectory (parentPath index)) trivial _ _ _ effect
    subst hlast
    refine ⟨here,?_⟩
    cases answer with
    | error reason =>
      intro seen same
      subst same
      exact ⟨rfl,fun leftovers hl => nomatch hl⟩
    | ok paths =>
      have hmeasured := @Program.All.mapM _ _ _ _ _ measure _ (paths.filterMap (leftoverOf
        [fileName index,fileName documents])) (fun leftover _ => measure_quiet leftover)
      change Keeps _ _ _ (ExceptT.run (_>>=_)) _ _
      rw [lifted_bind]
      refine Keeps.bind _ (fun _ => rfl) (preserves_quiet _ hmeasured here) (fun measured after h => ?_)
      obtain ⟨hall,rfl⟩ := h
      intro seen same
      subst same
      refine ⟨rfl,fun leftovers hl leftover hm => ?_⟩
      rw [←Except.ok.inj hl] at hm
      have hfound := (List.perm_insertionSort _ _).mem_iff.mp hm
      obtain ⟨found,hf,hkind,hpath⟩ := hall leftover hfound
      obtain ⟨path,hp,hleftover⟩ := List.mem_filterMap.mp hf
      have hdirectory := (((effect.1.2 paths rfl).2 path).mp hp).1
      have hnamed := leftoverOf_named separate.directory hdirectory hleftover
      unfold Named
      rw [hkind,hpath,hnamed.1]
      exact hnamed.2

variable (durable : Durable index documents assertion) (separate : Separate index documents)

include durable separate

/-- A leftover is removed, or that fails. -/
theorem removePath_spec {path reason : Text} {report : DoctorReport} (here : assertion world)
    (valid : report.pairValid=true → (world.disk index).isSome)
    (named : Temporary index documents path ∨
      Backup index documents path ∧ (world.disk index).isSome) :
    Preserves diagnosing assertion (removePath (perform (.remove path)) path reason report)
      (fun after' after => assertion after ∧ (after'.pairValid=true → (after.disk index).isSome))
      world := by
  intro seen same answer after effect
  subst same
  obtain ⟨⟨hfiles,-⟩,hnotes,hcommitted⟩ := effect
  have hne : index≠path := ((separate.live path (named.imp_right And.left)).1).symm
  rcases remove_cases hfiles with ⟨error,rfl,hdisk⟩|⟨rfl,hdisk⟩
  · have hafter := durable.locks world after here hdisk hnotes hcommitted
    refine ⟨hafter,?_⟩
    intro seen same
    subst same
    refine ⟨hafter,fun hv => ?_⟩
    rw [hdisk]
    exact valid hv
  · have hafter := durable.remove world after path here named hdisk hnotes hcommitted
    refine ⟨hafter,?_⟩
    intro seen same
    subst same
    refine ⟨hafter,fun hv => ?_⟩
    rw [hdisk,place_apply,if_neg hne]
    exact valid hv

/-- One round of `--repair`. -/
theorem repairLeftover_spec {locked : Bool} {report : DoctorReport} {leftover : Leftover}
    (here : assertion world) (valid : report.pairValid=true → (world.disk index).isSome)
    (named : Named index documents leftover) :
    Preserves diagnosing assertion (repairLeftover locked report leftover)
      (fun after' after => assertion after ∧ (after'.pairValid=true → (after.disk index).isSome))
      world := by
  have hnothing : ∀ {report' : DoctorReport},report'.pairValid=report.pairValid →
      Preserves diagnosing assertion (pure report' : HostProgram DoctorReport) (fun after' after =>
        assertion after ∧ (after'.pairValid=true → (after.disk index).isSome)) world := by
    intro report' hv seen same
    subst same
    exact ⟨here,fun h => valid (hv ▸ h)⟩
  unfold repairLeftover
  split
  · exact hnothing rfl
  · split
    · rename_i hkind
      exact removePath_spec durable separate here valid (.inl (named.1 hkind))
    · rename_i hkind
      split
      · rename_i hvalid
        exact removePath_spec durable separate here valid (.inr ⟨named.2 hkind,valid hvalid⟩)
      · exact hnothing rfl

/-- The loop of `--repair`. -/
theorem repair_spec {locked : Bool} {leftovers : List Leftover} {report : DoctorReport}
    (here : assertion world) (valid : report.pairValid=true → (world.disk index).isSome)
    (named : ∀ leftover∈leftovers,Named index documents leftover) :
    Preserves diagnosing assertion (leftovers.foldlM (repairLeftover locked) report)
      (fun _ after => assertion after) world := by
  induction leftovers generalizing report world with
  | nil =>
    intro seen same
    subst same
    exact here
  | cons leftover leftovers ih =>
    rw [List.foldlM_cons]
    refine Keeps.bind _ (fun _ => rfl) (repairLeftover_spec durable separate here valid
      (named leftover List.mem_cons_self)) (fun report' after h => ?_)
    exact ih h.1 h.2 (fun other ho => named other (List.mem_cons_of_mem _ ho))

omit separate in
/-- A call on a lock changes no file. -/
theorem diagnosing_lock {op : LockOp} {after : World} {answer : op.Answer} (here : assertion world)
    (effect : diagnosing (.lock op) world answer after) : assertion after :=
  durable.locks world after here effect.1.2 effect.2.1 effect.2.2

omit separate in
/-- The loop of `--force-unlock`. -/
theorem forceUnlock_spec {locks : List LockReport} {report : DoctorReport} (here : assertion world) :
    Preserves diagnosing assertion (locks.foldlM forceUnlock report) (fun _ after => assertion after)
      world := by
  induction locks generalizing report world with
  | nil =>
    intro seen same
    subst same
    exact here
  | cons lock locks ih =>
    rw [List.foldlM_cons]
    refine Keeps.bind (fun _ after => assertion after) (fun _ => rfl) ?_ (fun report' after h => ih h)
    unfold forceUnlock
    split
    · intro seen same answer middle effect
      subst same
      have hmiddle := diagnosing_lock durable here effect
      refine ⟨hmiddle,?_⟩
      intro seen same answer after effect
      subst same
      have hafter := diagnosing_lock durable hmiddle effect
      refine ⟨hafter,?_⟩
      cases answer with
      | none =>
        intro seen same
        subst same
        exact hafter
      | some error =>
        intro seen same
        subst same
        exact hafter
    · intro seen same
      subst same
      exact here

/-- A diagnosis keeps what is durable. -/
theorem doctor_preserves (arguments : DoctorArguments) (here : assertion world) :
    Preserves diagnosing assertion (doctor arguments index documents).run (fun _ after =>
      assertion after) world := by
  unfold doctor
  rw [lifted_bind]
  refine Keeps.bind _ (fun _ => rfl) (inspectPair_spec here) (fun report after h => ?_)
  obtain ⟨hvalid,rfl⟩ := h
  rw [lifted_bind]
  refine Keeps.bind _ (fun _ => rfl) (preserves_quiet _ (inspectLock_quiet index) here)
    (fun first same h => ?_)
  obtain ⟨-,rfl⟩ := h
  rw [lifted_bind]
  refine Keeps.bind _ (fun _ => rfl) (preserves_quiet _ (inspectLock_quiet documents) here)
    (fun second same h => ?_)
  obtain ⟨-,rfl⟩ := h
  refine Keeps.bind _ (fun _ => rfl) (collectLeftovers_spec separate here) (fun result same h => ?_)
  obtain ⟨rfl,hnamed⟩ := h
  cases result with
  | error fault =>
    intro seen same
    subst same
    exact here
  | ok leftovers =>
    dsimp only [ExceptT.bindCont]
    split
    · intro seen same
      subst same
      exact here
    · change Keeps _ _ _ (ExceptT.run _) _ _
      rw [lifted_bind]
      refine Keeps.bind (fun _ after => assertion after) (fun _ => rfl) ?_ (fun report' after h => ?_)
      · split
        · exact repair_spec durable separate here hvalid (hnamed leftovers rfl)
        · intro seen same
          subst same
          exact here
      · refine Keeps.bind (fun _ after => assertion after) (fun _ => rfl) ?_ (fun report'' last h' => ?_)
        · split
          · exact forceUnlock_spec durable h
          · intro seen same
            subst same
            exact h
        · intro seen same
          subst same
          exact h'

end Diagnoses

section Reachable

/-- A build begins, with nothing noted about it but its number. -/
def begin (world : World) (corpus : List Text) (documents : Text) : World :=
  {world with notes := {corpus := corpus,build := world.notes.build+1,documents := documents}}

/-- What can be seen at a prefix when builds of some corpora and diagnoses
take place one after the other, each killed anywhere or not at all. -/
inductive Reachable (tokens : Set Text) (corpora : Set (List Text)) (index documents : Text)
    (first : World) : World → Prop where
  /-- At the beginning. -/
  | first : Reachable tokens corpora index documents first first
  /-- During a build or behind it. -/
  | build {world after : World} {request : BuildRequest} {rest : HostProgram (Except Fault Unit)}
      (before : Reachable tokens corpora index documents first world)
      (given : request.documents∈corpora)
      (path : Run (Host.building tokens) (begin world request.documents documents,
        build request index documents) (after,rest)) :
      Reachable tokens corpora index documents first after
  /-- During a diagnosis or behind it. -/
  | doctor {world after : World} {arguments : DoctorArguments}
      {rest : HostProgram (Except Fault DoctorReport)}
      (before : Reachable tokens corpora index documents first world)
      (path : Run diagnosing (world,(doctor arguments index documents).run) (after,rest)) :
      Reachable tokens corpora index documents first after

/-- Every file was created by a build that has begun. -/
def Counted (world : World) : Prop :=
  ∀ path artifact,world.disk path=some artifact → artifact.build≤world.notes.build

/-- Nothing changes the number of a build. -/
theorem record_build (notes : Notes) (op : HostOp) (answer : op.Answer) :
    (notes.record op answer).build=notes.build := by
  cases op with
  | artifact op =>
    cases op with
    | pathExists path => rfl
    | rename source target operation => rfl
    | remove path =>
      cases answer with
      | none => rfl
      | some reason => rfl
  | remove path =>
    cases answer with
    | none => rfl
    | some reason => rfl
  | _ => rfl

/-- A call creates files for its own build only. -/
theorem counted_step {tokens : Set Text} {op : HostOp} {before after : World} {answer : op.Answer}
    (counted : Counted before) (effect : Host.building tokens op before answer after) :
    Counted after := by
  obtain ⟨hmachine,hnotes,-⟩ := effect
  have hbuild : after.notes.build=before.notes.build := by rw [hnotes,record_build]
  have hfrom : (∀ path artifact,after.disk path=some artifact →
      (∃ other artifact',before.disk other=some artifact' ∧ artifact.build=artifact'.build) ∨
        artifact.build=before.notes.build) → Counted after := by
    intro h path artifact ha
    rw [hbuild]
    rcases h path artifact ha with ⟨other,artifact',ho,hb⟩|hb
    · rw [hb]
      exact counted other artifact' ho
    · exact hb.le
  have hsame : after.disk=before.disk → Counted after := fun h =>
    hfrom (fun path artifact ha => .inl ⟨path,artifact,h ▸ ha,rfl⟩)
  have hplaced : ∀ {target : Text},after.disk=place before.disk target none → Counted after := by
    intro target h
    refine hfrom (fun path artifact ha => .inl ⟨path,artifact,?_,rfl⟩)
    rw [h,place_apply] at ha
    split at ha
    · cases ha
    · exact ha
  by_cases quiet : Quiet op
  · exact hsame (congrArg Machine.disk (quiet_machine quiet hmachine))
  cases op with
  | artifact op =>
    obtain ⟨hfiles,-⟩ := hmachine
    cases op with
    | pathExists path => exact hsame (pathExists_cases hfiles).1
    | rename source target operation =>
      rcases rename_cases hfiles with ⟨reason,-,h⟩|⟨-,-,h⟩
      · exact hsame h
      · refine hfrom (fun path artifact ha => ?_)
        rw [h,moved_apply] at ha
        split at ha
        · exact .inl ⟨source,artifact,ha,rfl⟩
        · split at ha
          · cases ha
          · exact .inl ⟨path,artifact,ha,rfl⟩
    | remove path =>
      rcases remove_cases hfiles with ⟨reason,-,h⟩|⟨-,h⟩
      · exact hsame h
      · exact hplaced h
  | lock op => exact hsame hmachine.2
  | remove path =>
    rcases remove_cases hmachine.1 with ⟨reason,-,h⟩|⟨-,h⟩
    · exact hsame h
    · exact hplaced h
  | openFile path truncate =>
    obtain ⟨-,h⟩ := hmachine
    split at h
    · refine hfrom (fun other artifact ha => ?_)
      rw [h,place_apply] at ha
      split at ha
      · split at ha
        · rw [←Option.some.inj ha]
          exact .inr rfl
        · cases hd : before.disk path with
          | none =>
            rw [hd] at ha
            rw [←Option.some.inj ha]
            exact .inr rfl
          | some old =>
            rw [hd] at ha
            rw [←Option.some.inj ha]
            exact .inl ⟨path,old,hd,rfl⟩
      · exact .inl ⟨other,artifact,ha,rfl⟩
    · exact hsame h
  | write path bytes =>
    obtain ⟨-,part,-,-,h⟩ := hmachine
    refine hfrom (fun other artifact ha => ?_)
    rw [h,place_apply] at ha
    split at ha
    · obtain ⟨old,hold,ho⟩ := Option.map_eq_some_iff.mp ha
      exact .inl ⟨path,old,hold,by rw [←ho]⟩
    · exact .inl ⟨other,artifact,ha,rfl⟩
  | _ => exact (quiet trivial).elim

variable {tokens : Set Text} {corpora : Set (List Text)} {index documents : Text}
variable {first world : World}

/-- The numbers say nothing about locks, and files that are removed have none. -/
theorem counted_durable : Durable index documents Counted where
  locks world after h disk notes _ := by
    intro path artifact ha
    rw [notes]
    exact h path artifact (disk ▸ ha)
  remove world after path h _ disk notes _ := by
    intro other artifact ha
    rw [disk,place_apply] at ha
    rw [notes]
    split at ha
    · cases ha
    · exact h other artifact ha

/-- It has begun then. -/
theorem begin_begun (world : World) (corpus : List Text) :
    Begun (begin world corpus documents) corpus documents := rfl

/-- A build that begins is the last one. -/
theorem begin_numbered (counted : Counted world) (corpus : List Text) :
    Numbered (begin world corpus documents) :=
  fun path artifact h => Nat.lt_succ_of_le (counted path artifact h)

/-- What every build and every diagnosis keeps holds at any time. -/
theorem Reachable.invariant {assertion : World → Prop} (separate : Separate index documents)
    (durable : Durable index documents assertion) (counted : Counted first) (start : assertion first)
    (builds : ∀ {world after : World} {request : BuildRequest} {rest : HostProgram (Except Fault Unit)},
      Counted world → assertion world → request.documents∈corpora →
      Run (Host.building tokens) (begin world request.documents documents,
        BuildProgram.build request index documents) (after,rest) → assertion after)
    (reachable : Reachable tokens corpora index documents first world) :
    Counted world ∧ assertion world := by
  induction reachable with
  | first => exact ⟨counted,start⟩
  | @build world after request rest before given path ih =>
    refine ⟨?_,builds ih.1 ih.2 given path⟩
    have hbegin : Counted (begin world request.documents documents) :=
      fun path artifact h => (ih.1 path artifact h).trans (Nat.le_succ _)
    have hall : ∀ {there : World×HostProgram (Except Fault Unit)},Run (Host.building tokens)
        (begin world request.documents documents,BuildProgram.build request index documents) there →
        Counted there.1 := by
      intro there path
      induction path with
      | refl => exact hbegin
      | tail _ step ih =>
        cases step with
        | call effect => exact counted_step ih effect
    exact hall path
  | doctor before path ih =>
    exact ⟨((doctor_preserves counted_durable separate _ ih.1).run ih.1 path).1,
      ((doctor_preserves durable separate _ ih.2).run ih.2 path).1⟩

end Reachable

end Leann.Histories
