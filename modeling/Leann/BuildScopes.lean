import Leann.BuildArtifacts

/-!
# The scopes of a build: names and locks

The four names a build chooses differ from each other and from the targets.
A build releases the locks it created and no others, and it does so only
when its temporaries are gone.
-/

namespace Leann.BuildScopes

open Effects Exceptions ArtifactPublisher Host BuildProgram BuildSteps BuildArtifacts
open BuildLocks hiding World building ofLocks

section Names

/-- What is assumed of `unique_token`: hexadecimal digits that end neither
target. -/
structure UniqueTokens (tokens : Set Text) (index documents : Text) : Prop where
  /-- A token is printed in hexadecimal. -/
  hex : ∀ token∈tokens,∀ byte∈token,IsHexDigit byte
  /-- The index was not named with it. -/
  index_fresh : ∀ token∈tokens,¬token<:+index
  /-- Neither was the document store. -/
  documents_fresh : ∀ token∈tokens,¬token<:+documents

/-- The separator in front of a token. -/
def dot : UInt8 := 46

/-- The first separator cuts a string. -/
theorem split_at_dot {front front' token token' : Text} (ht : dot∉token) (ht' : dot∉token')
    (h : token++dot::front=token'++dot::front') : token=token' ∧ front=front' := by
  induction token generalizing token' with
  | nil =>
    cases token' with
    | nil => exact ⟨rfl,(List.cons.inj h).2⟩
    | cons byte token' => exact absurd ((List.cons.inj h).1 ▸ List.mem_cons_self) ht'
  | cons byte token ih =>
    cases token' with
    | nil => exact absurd ((List.cons.inj h).1 ▸ List.mem_cons_self) ht
    | cons byte' token' =>
      obtain ⟨hbyte,hrest⟩ := List.cons.inj h
      obtain ⟨htokens,hfronts⟩ := ih (fun hd => ht (List.mem_cons_of_mem _ hd))
        (fun hd => ht' (List.mem_cons_of_mem _ hd)) hrest
      rw [hbyte,htokens]
      exact ⟨rfl,hfronts⟩

/-- A name is cut at the separator in front of its token. -/
theorem adjacent_inj {front front' token token' : Text} (ht : dot∉token) (ht' : dot∉token')
    (h : front++dot::token=front'++dot::token') : front=front' ∧ token=token' := by
  have hr := congrArg List.reverse h
  rw [List.reverse_append,List.reverse_append,List.reverse_cons,List.reverse_cons,
    List.append_assoc,List.append_assoc,List.singleton_append,List.singleton_append] at hr
  rw [←List.mem_reverse] at ht ht'
  obtain ⟨htokens,hfronts⟩ := split_at_dot ht ht' hr
  exact ⟨List.reverse_injective hfronts,List.reverse_injective htokens⟩

variable {tokens : Set Text} {index documents : Text}

/-- A token has no separator. -/
theorem UniqueTokens.dot_free (h : UniqueTokens tokens index documents) {token : Text}
    (ht : token∈tokens) : dot∉token := by
  intro hd
  have hh := h.hex token ht dot hd
  unfold IsHexDigit dot at hh
  revert hh
  decide

/-- A temporary is beside its target. -/
theorem temporary_eq (target token : Text) :
    target++(".tmp." : Text)++token=target++[46,116,109,112]++dot::token := by
  have hmarker : (text ".tmp.")=[46,116,109,112]++[dot] := by decide
  rw [hmarker,List.append_assoc,List.append_assoc,List.append_assoc]
  rfl

/-- So is a backup. -/
theorem backup_eq (target token : Text) :
    target++(".bak." : Text)++token=target++[46,98,97,107]++dot::token := by
  have hmarker : (text ".bak.")=[46,98,97,107]++[dot] := by decide
  rw [hmarker,List.append_assoc,List.append_assoc,List.append_assoc]
  rfl

/-- The names are distinct. -/
theorem names_distinct (h : UniqueTokens tokens index documents) (hne : index≠documents)
    {first second third fourth : Text} (h1 : first∈tokens) (h2 : second∈tokens) (h3 : third∈tokens)
    (h4 : fourth∈tokens) : ArtifactPaths.Distinct ⟨index++".tmp."++first,documents++".tmp."++second,
      index,documents,index++".bak."++third,documents++".bak."++fourth⟩ := by
  have hmarkers : ∀ {front front' token token' : Text},token∈tokens → token'∈tokens →
      front++[46,116,109,112]++dot::token≠front'++[46,98,97,107]++dot::token' := by
    intro front front' token token' ht ht' heq
    have hfronts := (adjacent_inj (h.dot_free ht) (h.dot_free ht') heq).1
    have hlast := List.append_inj_right' hfronts rfl
    revert hlast
    decide
  have htargets : ∀ {marker token token' : Text},token∈tokens → token'∈tokens →
      index++marker++dot::token≠documents++marker++dot::token' := by
    intro marker token token' ht ht' heq
    have hfronts := (adjacent_inj (h.dot_free ht) (h.dot_free ht') heq).1
    exact hne (List.append_cancel_right hfronts)
  have hindex : ∀ {front token : Text},token∈tokens → front++token≠index := by
    intro front token ht heq
    exact h.index_fresh token ht (heq ▸ List.suffix_append _ _)
  have hdocuments : ∀ {front token : Text},token∈tokens → front++token≠documents := by
    intro front token ht heq
    exact h.documents_fresh token ht (heq ▸ List.suffix_append _ _)
  have hlive : ∀ {front token : Text},token∈tokens → front++token≠index ∧ front++token≠documents :=
    fun ht => ⟨hindex ht,hdocuments ht⟩
  have hpair : ∀ {front front' token token' : Text},token∈tokens → token'∈tokens →
      front++(".tmp." : Text)++token≠front'++(".bak." : Text)++token' := by
    intro front front' token token' ht ht'
    rw [temporary_eq,backup_eq]
    exact hmarkers ht ht'
  have htemporaries : index++(".tmp." : Text)++first≠documents++(".tmp." : Text)++second := by
    rw [temporary_eq,temporary_eq]
    exact htargets h1 h2
  have hbackups : index++(".bak." : Text)++third≠documents++(".bak." : Text)++fourth := by
    rw [backup_eq,backup_eq]
    exact htargets h3 h4
  unfold ArtifactPaths.Distinct ArtifactPaths.all
  simp only [List.nodup_cons,List.mem_cons,List.not_mem_nil,or_false,not_or,List.nodup_nil,
    not_false_eq_true,and_true]
  exact ⟨⟨htemporaries,(hlive h1).1,(hlive h1).2,hpair h1 h3,hpair h1 h4⟩,
    ⟨(hlive h2).1,(hlive h2).2,hpair h2 h3,hpair h2 h4⟩,
    ⟨hne,(hlive h3).1.symm,(hlive h4).1.symm⟩,⟨(hlive h3).2.symm,(hlive h4).2.symm⟩,hbackups⟩

/-- A build that has its locks has shown nothing. -/
theorem entered_phase {start entered : World} {corpus : List Text} (hb : Begun start corpus documents)
    (he : Entered start entered) :
    entered.notes.publishing=false ∧ Phase start index documents entered := by
  have before : entered.notes.publishing=false := by rw [he.notes,hb]
  exact ⟨before,.preparing before (fun path _ => by rw [he.disk]) he.committed⟩

variable {start entered : World} {corpus : List Text}

/-- A name that is chosen is unused. -/
theorem uniqueAdjacentPath_spec (before : entered.notes.publishing=false)
    (phase : Phase start index documents entered) (target marker : Text) (attempts : ℕ) :
    Attempts tokens start index documents (uniqueAdjacentPath target marker attempts)
      (fun result after => after=entered ∧ ∀ candidate,result=.ok candidate →
        entered.disk candidate=none ∧ ∃ token∈tokens,candidate=target++marker++token) entered := by
  induction attempts with
  | zero =>
    intro seen same
    subst same
    exact ⟨rfl,fun _ h => nomatch h⟩
  | succ attempts ih =>
    rw [uniqueAdjacentPath]
    refine attempts_ask trivial before phase (fun token htoken => ?_)
    refine attempts_ask trivial before phase (fun answer hanswer => ?_)
    rcases hanswer.2 with ⟨reason,rfl⟩|rfl
    · intro seen same
      subst same
      exact ⟨rfl,fun _ h => nomatch h⟩
    · cases hd : entered.disk (target++marker++token) with
      | none =>
        intro seen same
        subst same
        refine ⟨rfl,fun candidate hc => ?_⟩
        rw [←Except.ok.inj hc]
        exact ⟨hd,token,htoken.2,rfl⟩
      | some artifact => exact ih

/-- The names that are chosen. -/
theorem chooseNames_spec (tokens_unique : UniqueTokens tokens index documents)
    (hne : index≠documents) (hb : Begun start corpus documents) (he : Entered start entered) :
    Attempts tokens start index documents (chooseNames index documents) (fun result after =>
      after=entered ∧ ∀ paths,result=.ok paths → Fresh start index documents paths) entered := by
  have hphase : entered.notes.publishing=false ∧ Phase start index documents entered :=
    entered_phase hb he
  obtain ⟨before,phase⟩ := hphase
  have hregular : ∀ path,Issues Quiet (fun _ => True) (requireRegularOrMissing path) := by
    intro path
    unfold requireRegularOrMissing
    refine Issues.bind (Issues.perform trivial) (fun answer _ => ?_)
    split
    · exact .throw _
    · exact .pure trivial
    · refine Issues.bind (Issues.perform trivial) (fun answer _ => ?_)
      split
      · exact .pure trivial
      · exact .throw _
  have hrequire : ∀ {path : Text} {rest : Unit → Throwing ArtifactPaths},
      Attempts tokens start index documents (rest ()) (fun result after =>
        after=entered ∧ ∀ paths,result=.ok paths → Fresh start index documents paths) entered →
      Attempts tokens start index documents (requireRegularOrMissing path>>=rest) (fun result after =>
        after=entered ∧ ∀ paths,result=.ok paths → Fresh start index documents paths) entered := by
    intro path rest hrest
    refine attempts_bind (fun _ after => after=entered) ((attempts_quiet (hregular path) before
      phase).mono (fun _ _ _ _ h => h) (fun result after h => ⟨fun _ _ => h.1,
        fun fault _ => ⟨h.1,fun _ hp => nomatch hp⟩⟩)) (fun _ after h => ?_)
    subst h
    exact hrest
  have hname : ∀ {target marker : Text} {rest : Text → Throwing ArtifactPaths},
      (∀ token∈tokens,start.disk (target++marker++token)=none →
        Attempts tokens start index documents (rest (target++marker++token)) (fun result after =>
          after=entered ∧ ∀ paths,result=.ok paths → Fresh start index documents paths) entered) →
      Attempts tokens start index documents (uniqueAdjacentPath target marker 32>>=rest)
        (fun result after => after=entered ∧ ∀ paths,result=.ok paths →
          Fresh start index documents paths) entered := by
    intro target marker rest hrest
    refine attempts_bind (fun candidate after => after=entered ∧ entered.disk candidate=none ∧
      ∃ token∈tokens,candidate=target++marker++token) ((uniqueAdjacentPath_spec before phase target
        marker 32).mono (fun _ _ _ _ h => h) (fun result after h => ⟨fun value hv => ⟨h.1,h.2 value hv⟩,
          fun fault _ => ⟨h.1,fun _ hp => nomatch hp⟩⟩)) (fun candidate after h => ?_)
    obtain ⟨rfl,hd,token,ht,rfl⟩ := h
    rw [he.disk] at hd
    exact hrest token ht hd
  unfold chooseNames
  refine hrequire (hrequire (hname (fun first h1 hd1 => hname (fun second h2 hd2 =>
    hname (fun third h3 hd3 => hname (fun fourth h4 hd4 => ?_))))))
  intro seen same
  subst same
  refine ⟨rfl,fun paths hp => ?_⟩
  rw [←Except.ok.inj hp]
  exact ⟨rfl,rfl,names_distinct tokens_unique hne h1 h2 h3 h4,hd1,hd2,hd3,hd4,⟨first,second,rfl,rfl⟩,
    ⟨third,fourth,rfl,rfl⟩⟩

end Names

section Locks

/-- What is left to do about the locks: those pending were created by this
build and are still to be released, and all others are as they were, unless
their removal failed. -/
structure Releasing (start world : World) (pending : List Text) : Prop where
  /-- What the build created was not there. -/
  absent : ∀ lock∈world.notes.locks.created,start.locks lock=none
  /-- It created the pending locks. -/
  pending_created : ∀ lock∈pending,lock∈world.notes.locks.created
  /-- It failed to remove only what it created. -/
  kept_created : ∀ lock∈world.notes.locks.kept,lock∈world.notes.locks.created
  /-- The other locks are as they were. -/
  others : ∀ lock,world.locks lock=start.locks lock ∨ lock∈pending ∨ lock∈world.notes.locks.kept

/-- What is known of files does not depend on locks. -/
def LockStable (files : World → Prop) : Prop := ∀ world after : World,files world →
  after.disk=world.disk → after.committed=world.committed →
  after.notes={world.notes with locks := after.notes.locks} → files after

variable {tokens : Set Text} {start world : World} {index documents : Text} {files : World → Prop}

/-- A call on a lock leaves the files alone. -/
theorem lock_step {op : LockOp} {before after : World} {answer : op.Answer}
    (effect : Host.building tokens (.lock op) before answer after) :
    after.disk=before.disk ∧ after.committed=before.committed ∧
      after.notes={before.notes with locks := before.notes.locks.record (.lock op) answer} ∧
      ∃ fault owner,op.effect before.locks fault owner=(answer,after.locks) :=
  ⟨effect.1.2,effect.2.2,effect.2.1,effect.1.1⟩

/-- The same is left to do about locks when no call on one was made. -/
theorem Releasing.agree {after : World} {pending : List Text} (hr : Releasing start world pending)
    (hlocks : after.locks=world.locks) (history : after.notes.locks=world.notes.locks) :
    Releasing start after pending := by
  refine ⟨?_,?_,?_,?_⟩
  · rw [history]
    exact hr.absent
  · rw [history]
    exact hr.pending_created
  · rw [history]
    exact hr.kept_created
  · rw [history,hlocks]
    exact hr.others

/-- A call that changes a pending lock at most leaves the same to do. -/
theorem Releasing.touch {after : World} {pending : List Text} (hr : Releasing start world pending)
    {lock : Text} (hp : lock∈pending) (locks : after.notes.locks=world.notes.locks)
    (others : ∀ other,other≠lock → after.locks other=world.locks other) :
    Releasing start after pending where
  absent other ho := hr.absent other (locks ▸ ho)
  pending_created other ho := locks ▸ hr.pending_created other ho
  kept_created other ho := by
    rw [locks] at ho ⊢
    exact hr.kept_created other ho
  others other := by
    by_cases same : other=lock
    · rw [same]
      exact .inr (.inl hp)
    · rw [others other same,locks]
      exact hr.others other

/-- An owner file is written or removed in one lock. -/
theorem owner_effect {op : LockOp} {lock : Text} (h : op=.writeOwner lock ∨ op=.removeOwner lock)
    {before after : Locks} {answer : op.Answer} {fault owner : Option Text}
    (effect : op.effect before fault owner=(answer,after)) :
    ∀ other,other≠lock → after other=before other := by
  intro other hne
  rcases h with rfl|rfl
  · cases fault with
    | some reason => rw [←(Prod.mk.inj effect).2]
    | none => rw [←(Prod.mk.inj effect).2,Function.update_of_ne hne]
  · cases fault with
    | some reason => rw [←(Prod.mk.inj effect).2]
    | none => rw [←(Prod.mk.inj effect).2,Function.update_of_ne hne]

/-- A directory is removed, or an error says why not. -/
theorem removeDirectory_effect {lock : Text} {before after : Locks} {answer : Option Text}
    {fault owner : Option Text}
    (effect : (LockOp.removeDirectory lock).effect before fault owner=(answer,after)) :
    (∃ reason,answer=some reason ∧ after=before) ∨
      answer=none ∧ after=Function.update before lock none := by
  cases fault with
  | some reason => exact .inl ⟨reason,(Prod.mk.inj effect).1.symm,(Prod.mk.inj effect).2.symm⟩
  | none =>
    simp only [LockOp.effect] at effect
    split at effect
    · exact .inl ⟨_,(Prod.mk.inj effect).1.symm,(Prod.mk.inj effect).2.symm⟩
    · exact .inr ⟨(Prod.mk.inj effect).1.symm,(Prod.mk.inj effect).2.symm⟩

/-- A directory is created where there was none, or nothing happens. -/
theorem createDirectory_effect {lock : Text} {before after : Locks} {answer : Bool×Option Text}
    {fault owner : Option Text}
    (effect : (LockOp.createDirectory lock).effect before fault owner=(answer,after)) :
    answer.1=false ∧ after=before ∨
      answer.1=true ∧ before lock=none ∧ ∀ other,other≠lock → after other=before other := by
  cases fault with
  | some reason =>
    obtain ⟨hanswer,hafter⟩ := Prod.mk.inj effect
    rw [←hanswer]
    exact .inl ⟨rfl,hafter.symm⟩
  | none =>
    simp only [LockOp.effect] at effect
    split at effect
    · obtain ⟨hanswer,hafter⟩ := Prod.mk.inj effect
      rw [←hanswer]
      exact .inl ⟨rfl,hafter.symm⟩
    · rename_i absent
      obtain ⟨hanswer,hafter⟩ := Prod.mk.inj effect
      rw [←hanswer]
      refine .inr ⟨rfl,Option.not_isSome_iff_eq_none.mp absent,fun other hne => ?_⟩
      rw [←hafter,Function.update_of_ne hne]

/-- A lock that was created is pending. -/
theorem Releasing.create {after : World} {pending : List Text} (hr : Releasing start world pending)
    {lock : Text} (absent : world.locks lock=none)
    (history : after.notes.locks={world.notes.locks with created := world.notes.locks.created++[lock]})
    (others : ∀ other,other≠lock → after.locks other=world.locks other) :
    Releasing start after (pending++[lock]) where
  absent other ho := by
    rw [history] at ho
    rcases List.mem_append.mp ho with ho|ho
    · exact hr.absent other ho
    · rw [List.mem_singleton.mp ho]
      rcases hr.others lock with h|h|h
      · rw [←h,absent]
      · exact hr.absent lock (hr.pending_created lock h)
      · exact hr.absent lock (hr.kept_created lock h)
  pending_created other ho := by
    rw [history]
    rcases List.mem_append.mp ho with ho|ho
    · exact List.mem_append_left _ (hr.pending_created other ho)
    · exact List.mem_append_right _ ho
  kept_created other ho := by
    rw [history] at ho ⊢
    exact List.mem_append_left _ (hr.kept_created other ho)
  others other := by
    by_cases same : other=lock
    · rw [same]
      exact .inr (.inl (List.mem_append_right _ List.mem_cons_self))
    · rw [others other same,history]
      exact (hr.others other).imp_right (Or.imp_left (List.mem_append_left _))

variable (stable : LockStable files) (phase : ∀ world,files world → Phase start index documents world)
variable (gone : ∀ world,files world → TemporariesGone world)

include stable phase gone

/-- A lock that is released is as it was, or its removal failed. -/
theorem removeLock_spec {lock : Text} {rest : List Text} (hf : files world)
    (hr : Releasing start world (lock::rest)) :
    Builds tokens start index documents (ofLocks (removeLock lock))
      (fun _ after => files after ∧ Releasing start after rest) world := by
  have hcreated := hr.pending_created lock List.mem_cons_self
  intro seen same answer middle effect
  subst same
  obtain ⟨hdisk,hcommitted,hnotes,fault,owner,he⟩ := lock_step effect
  have hlocks : middle.notes.locks=world.notes.locks := by
    rw [hnotes]
    rfl
  have hfiles := stable world middle hf hdisk hcommitted (by rw [hnotes])
  have hr' := hr.touch List.mem_cons_self hlocks (owner_effect (.inr rfl) he)
  refine ⟨⟨hcreated,phase middle hfiles⟩,?_⟩
  intro seen same error after effect
  subst same
  obtain ⟨hdisk,hcommitted,hnotes,fault,owner,he⟩ := lock_step effect
  have hfiles' := stable middle after hfiles hdisk hcommitted (by rw [hnotes])
  refine ⟨⟨⟨hr'.pending_created lock List.mem_cons_self,gone middle hfiles⟩,phase after hfiles'⟩,?_⟩
  intro seen same
  subst same
  refine ⟨hfiles',?_⟩
  rcases removeDirectory_effect he with ⟨reason,rfl,hafter⟩|⟨rfl,hafter⟩
  · have hhistory : after.notes.locks=
        {middle.notes.locks with kept := middle.notes.locks.kept++[lock]} := by
      rw [hnotes]
      rfl
    refine ⟨fun other ho => ?_,fun other ho => ?_,fun other ho => ?_,fun other => ?_⟩
    · rw [hhistory] at ho
      exact hr'.absent other ho
    · rw [hhistory]
      exact hr'.pending_created other (List.mem_cons_of_mem _ ho)
    · rw [hhistory] at ho ⊢
      rcases List.mem_append.mp ho with ho|ho
      · exact hr'.kept_created other ho
      · rw [List.mem_singleton.mp ho]
        exact hr'.pending_created lock List.mem_cons_self
    · rw [hhistory,hafter]
      rcases hr'.others other with h|h|h
      · exact .inl h
      · rcases List.mem_cons.mp h with h|h
        · rw [h]
          exact .inr (.inr (List.mem_append_right _ List.mem_cons_self))
        · exact .inr (.inl h)
      · exact .inr (.inr (List.mem_append_left _ h))
  · have hhistory : after.notes.locks=
        {middle.notes.locks with removed := middle.notes.locks.removed++[lock]} := by
      rw [hnotes]
      rfl
    refine ⟨fun other ho => ?_,fun other ho => ?_,fun other ho => ?_,fun other => ?_⟩
    · rw [hhistory] at ho
      exact hr'.absent other ho
    · rw [hhistory]
      exact hr'.pending_created other (List.mem_cons_of_mem _ ho)
    · rw [hhistory] at ho ⊢
      exact hr'.kept_created other ho
    · rw [hhistory,hafter]
      by_cases same : other=lock
      · rw [same,Function.update_self,
          hr'.absent lock (hr'.pending_created lock List.mem_cons_self)]
        exact .inl rfl
      · rw [Function.update_of_ne same]
        rcases hr'.others other with h|h|h
        · exact .inl h
        · exact .inr (.inl ((List.mem_cons.mp h).resolve_left same))
        · exact .inr (.inr h)

/-- So with several locks. -/
theorem releaseEach_spec {locks : List Text} (hf : files world) (hr : Releasing start world locks) :
    Builds tokens start index documents (ofLocks (releaseEach locks))
      (fun _ after => files after ∧ Releasing start after []) world := by
  induction locks generalizing world with
  | nil =>
    intro seen same
    subst same
    exact ⟨hf,hr⟩
  | cons lock rest ih =>
    have hlift : ofLocks (releaseEach (lock::rest))=(ofLocks (removeLock lock)).bind
        (fun _ => ofLocks (releaseEach rest)) := Program.lift_bind _ _ _ _
    rw [hlift]
    exact Keeps.bind _ (fun _ => rfl) (removeLock_spec stable phase gone hf hr)
      (fun _ after h => ih h.1 h.2)

/-- `release_noexcept`. -/
theorem releaseNoexcept_spec {locks : List Text} (hf : files world) (hr : Releasing start world locks) :
    Builds tokens start index documents (ofLocks (releaseNoexcept locks))
      (fun _ after => files after ∧ Releasing start after []) world :=
  releaseEach_spec stable phase gone hf ⟨hr.absent,
    fun lock hl => hr.pending_created lock (List.mem_reverse.mp hl),hr.kept_created,
    fun lock => (hr.others lock).imp_right (Or.imp_left List.mem_reverse.mpr)⟩

/-- `release_checked`. -/
theorem releaseChecked_spec {locks : List Text} (hf : files world) (hr : Releasing start world locks) :
    Builds tokens start index documents (ofLocks (releaseChecked locks))
      (fun _ after => files after ∧ Releasing start after []) world := by
  have hnoting : ∀ (locks : List Text) (failures : Text) (world : World),files world →
      Releasing start world locks → Builds tokens start index documents
        (ofLocks (releaseNoting failures locks)) (fun _ after => files after ∧ Releasing start after [])
        world := by
    intro locks
    induction locks with
    | nil =>
      intro failures world hf hr seen same
      subst same
      exact ⟨hf,hr⟩
    | cons lock rest ih =>
      intro failures world hf hr
      change Builds tokens start index documents
        (ofLocks (Program.bind (removeLock lock) (fun error => _))) _ world
      rw [ofLocks,Program.lift_bind]
      refine Keeps.bind _ (fun _ => rfl) (removeLock_spec stable phase gone hf hr)
        (fun error after h => ?_)
      cases error with
      | none => exact ih _ after h.1 h.2
      | some reason => exact ih _ after h.1 h.2
  have hlift : ofLocks (releaseChecked locks)=(ofLocks (releaseNoting [] locks.reverse)).bind
      (fun failures => ofLocks (Program.done (if failures.isEmpty then .ok ()
        else .error ("artifact pair committed; build lock cleanup required: "++failures)))) :=
    Program.lift_bind _ _ _ _
  rw [hlift]
  refine Keeps.bind _ (fun _ => rfl) (hnoting locks.reverse [] world hf ⟨hr.absent,
    fun lock hl => hr.pending_created lock (List.mem_reverse.mp hl),hr.kept_created,
    fun lock => (hr.others lock).imp_right (Or.imp_left List.mem_reverse.mpr)⟩) (fun _ after h => ?_)
  intro seen same
  subst same
  exact h

/-- The constructor takes locks, or it releases those it took. -/
theorem acquireEach_spec (targets : List Text) {locks : List Text} (hf : files world)
    (hr : Releasing start world locks) :
    Builds tokens start index documents (ofLocks (acquireEach locks targets)) (fun result after =>
      files after ∧ (∀ held,result=.ok held → Releasing start after held) ∧
        ∀ message,result=.error message → Releasing start after []) world := by
  induction targets generalizing locks world with
  | nil =>
    intro seen same
    subst same
    refine ⟨hf,fun held hh => ?_,fun _ h => by cases h⟩
    rw [←Except.ok.inj hh]
    exact hr
  | cons target targets ih =>
    rw [acquireEach]
    split
    · exact ih hf hr
    · intro seen same answer created effect
      subst same
      obtain ⟨hdisk,hcommitted,hnotes,fault,owner,he⟩ := lock_step effect
      have hfiles := stable world created hf hdisk hcommitted (by rw [hnotes])
      refine ⟨⟨trivial,phase created hfiles⟩,?_⟩
      obtain ⟨did,error⟩ := answer
      rcases createDirectory_effect he with ⟨hdid,hafter⟩|⟨hdid,habsent,hothers⟩
      · have hanswer : did=false := hdid
        subst hanswer
        have hhistory : created.notes.locks={world.notes.locks with
            refused := world.notes.locks.refused++[lockPathFor target]} := by
          rw [hnotes]
          rfl
        have hr' : Releasing start created locks := by
          refine ⟨fun other ho => ?_,fun other ho => ?_,fun other ho => ?_,fun other => ?_⟩
          · rw [hhistory] at ho
            exact hr.absent other ho
          · rw [hhistory]
            exact hr.pending_created other ho
          · rw [hhistory] at ho ⊢
            exact hr.kept_created other ho
          · rw [hhistory,hafter]
            exact hr.others other
        have hlift : ofLocks ((releaseNoexcept locks).bind (fun _ => Program.done
            (Except.error (refusal (lockPathFor target) error))))=(ofLocks (releaseNoexcept locks)).bind
              (fun _ => ofLocks (.done (.error (refusal (lockPathFor target) error) :
                Except Text (List Text)))) := Program.lift_bind _ _ _ _
        change Builds tokens start index documents (ofLocks ((releaseNoexcept locks).bind (fun _ =>
          Program.done (Except.error (refusal (lockPathFor target) error))))) _ created
        rw [hlift]
        refine Keeps.bind _ (fun _ => rfl) (releaseNoexcept_spec stable phase gone hfiles hr')
          (fun _ after h => ?_)
        intro seen same
        subst same
        exact ⟨h.1,fun _ hh => (by cases hh),fun _ _ => h.2⟩
      · have hanswer : did=true := hdid
        subst hanswer
        have hhistory : created.notes.locks={world.notes.locks with
            created := world.notes.locks.created++[lockPathFor target]} := by
          rw [hnotes]
          rfl
        have hr' := hr.create habsent hhistory hothers
        change Builds tokens start index documents (ofLocks ((writeLockOwner (lockPathFor target)).bind
          (fun _ => acquireEach (locks++[lockPathFor target]) targets))) _ created
        intro seen same answer owned effect
        subst same
        obtain ⟨hdisk,hcommitted,hnotes,fault,owner,he⟩ := lock_step effect
        have hfiles' := stable created owned hfiles hdisk hcommitted (by rw [hnotes])
        have hmem : lockPathFor target∈locks++[lockPathFor target] :=
          List.mem_append_right _ List.mem_cons_self
        have hsame : owned.notes.locks=created.notes.locks := by
          rw [hnotes]
          rfl
        have hr'' := hr'.touch hmem hsame (owner_effect (.inl rfl) he)
        exact ⟨⟨hr'.pending_created _ hmem,phase owned hfiles'⟩,ih hfiles' hr''⟩

end Locks

end Leann.BuildScopes
