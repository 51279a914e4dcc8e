import Leann.Histories

/-!
# The pair committed last is never destroyed

Whatever builds and diagnoses leave unfinished, an index that is live is the
one committed last, next to its own document store, and as long as none is
live both are kept beside their targets.
-/

namespace Leann.CommittedPair

open Effects Exceptions ArtifactPublisher Host BuildProgram BuildArtifacts BuildScopes BuildFailure
  Doctor Histories

section Survival

/-- A file is beside its target, parked there by a build. -/
def Parked (target : Text) (disk : Disk Artifact) (artifact : Artifact) : Prop :=
  ∃ token,disk (target++".bak."++token)=some artifact

/-- The pair committed last is live, or no index is live and both of its
files exist. -/
def Survives (index documents : Text) (world : World) : Prop :=
  ∀ newIndex newDocuments,world.committed=some (newIndex,newDocuments) →
    world.disk index=some newIndex ∧ world.disk documents=some newDocuments ∨
      world.disk index=none ∧ Parked index world.disk newIndex ∧
        (world.disk documents=some newDocuments ∨ Parked documents world.disk newDocuments)

variable {index documents : Text}

/-- A diagnosis does not destroy it. -/
theorem survives_durable (separate : Separate index documents) :
    Durable index documents (Survives index documents) where
  locks world after h disk _ committed := by
    intro newIndex newDocuments hc
    rw [disk]
    exact h newIndex newDocuments (committed ▸ hc)
  remove world after path h named disk _ committed := by
    intro newIndex newDocuments hc
    have hlive := separate.live path (named.imp_right And.left)
    have hkept : ∀ {other : Text},other≠path → after.disk other=world.disk other := by
      intro other hne
      rw [disk,place_apply,if_neg hne]
    have hindex := hkept hlive.1.symm
    have hdocuments := hkept hlive.2.symm
    rcases h newIndex newDocuments (committed ▸ hc) with ⟨hi,hd⟩|⟨hi,hparked,hd⟩
    · exact .inl ⟨hindex.trans hi,hdocuments.trans hd⟩
    · rcases named with htemporary|⟨-,hpresent⟩
      · -- Only a temporary goes while no index is live, and no backup is one.
        have hbackup : ∀ {target : Text} {artifact : Artifact},target=index ∨ target=documents →
            Parked target world.disk artifact → Parked target after.disk artifact := by
          intro target artifact htarget hp
          obtain ⟨token,htoken⟩ := hp
          refine ⟨token,(hkept ?_).trans htoken⟩
          intro same
          refine separate.apart path htemporary ⟨token,?_⟩
          rcases htarget with ht|ht
          · exact .inl (by rw [←same,ht])
          · exact .inr (by rw [←same,ht])
        exact .inr ⟨hindex.trans hi,hbackup (.inl rfl) hparked,
          hd.imp hdocuments.trans (hbackup (.inr rfl))⟩
      · rw [hi] at hpresent
        cases hpresent

variable {start world : World} {paths : ArtifactPaths} {writtenIndex writtenDocuments : Artifact}
variable {before : Disk Artifact}

/-- Before the commit the live pair is the previous one, or no index is live. -/
theorem live_kept (ready : BuildArtifacts.Ready start index documents paths writtenIndex
    writtenDocuments before) (shape : Uncommitted paths before world.disk) :
    world.disk index=start.disk index ∧ world.disk documents=start.disk documents ∨
      world.disk index=none := by
  obtain ⟨hindex,hdocuments⟩ := ready.live
  have hpair := shape.pair
  rw [hindex,hdocuments,ready.fresh.index_eq,ready.fresh.documents_eq] at hpair
  exact hpair

/-- The previous index is parked while none is live. -/
theorem index_kept (ready : BuildArtifacts.Ready start index documents paths writtenIndex
    writtenDocuments before) (shape : Uncommitted paths before world.disk) {previous : Artifact}
    (h : start.disk index=some previous) (absent : world.disk index=none) :
    Parked index world.disk previous := by
  obtain ⟨hindex,-⟩ := ready.live
  have hkept := shape.indexKept
  rw [hindex,ready.fresh.index_eq,h,absent] at hkept
  rcases hkept with hk|hk|hk
  · cases hk
  · cases hk
  · obtain ⟨first,second,hfirst,-⟩ := ready.fresh.backup
    exact ⟨first,hfirst ▸ hk⟩

/-- The previous document store is live or parked. -/
theorem documents_kept (ready : BuildArtifacts.Ready start index documents paths writtenIndex
    writtenDocuments before) (shape : Uncommitted paths before world.disk) {previous : Artifact}
    (h : start.disk documents=some previous) :
    world.disk documents=some previous ∨ Parked documents world.disk previous := by
  obtain ⟨-,hdocuments⟩ := ready.live
  have hkept := shape.documentsKept
  rw [hdocuments,ready.fresh.documents_eq,h] at hkept
  rcases hkept with hk|hk|hk
  · cases hk
  · exact .inl hk
  · obtain ⟨first,second,-,hsecond⟩ := ready.fresh.backup
    exact .inr ⟨second,hsecond ▸ hk⟩

/-- What was parked when the build began stays so. -/
theorem parked_kept (separate : Separate index documents) (ready : BuildArtifacts.Ready start index
    documents paths writtenIndex writtenDocuments before)
    (shape : Uncommitted paths before world.disk) {target : Text} {artifact : Artifact}
    (htarget : target=index ∨ target=documents) (h : Parked target start.disk artifact) :
    Parked target world.disk artifact := by
  obtain ⟨token,htoken⟩ := h
  have hbackup : Backup index documents (target++".bak."++token) := by
    refine ⟨token,?_⟩
    rcases htarget with ht|ht
    · exact .inl (by rw [ht])
    · exact .inr (by rw [ht])
  obtain ⟨hindex,hdocuments⟩ := separate.live _ (.inr hbackup)
  have hunused : ∀ {path : Text},start.disk path=none → target++".bak."++token≠path := by
    intro path hnone same
    rw [same,hnone] at htoken
    cases htoken
  have fresh := ready.fresh
  have h1 := hunused fresh.temporaryIndex
  have h2 := hunused fresh.temporaryDocuments
  have hall : target++".bak."++token∉paths.all := by
    rw [ArtifactPaths.mem_all,fresh.index_eq,fresh.documents_eq]
    exact not_or.mpr ⟨h1,not_or.mpr ⟨h2,not_or.mpr ⟨hindex,not_or.mpr ⟨hdocuments,
      not_or.mpr ⟨hunused fresh.indexBackup,hunused fresh.documentsBackup⟩⟩⟩⟩⟩
  exact ⟨token,(shape.frame _ hall).trans ((ready.others _ h1 h2).trans htoken)⟩

/-- Nor does a build. -/
theorem survives_phase (separate : Separate index documents)
    (phase : Phase start index documents world) (h : Survives index documents start) :
    Survives index documents world := by
  intro newIndex newDocuments hc
  cases phase with
  | preparing before kept committed =>
    have hparked : ∀ {target : Text} {artifact : Artifact},Parked target start.disk artifact →
        Parked target world.disk artifact := by
      intro target artifact hp
      obtain ⟨token,htoken⟩ := hp
      exact ⟨token,(kept _ (.inr (.inr (by rw [htoken]; rfl)))).trans htoken⟩
    have hindex := kept index (.inl rfl)
    have hdocuments := kept documents (.inr (.inl rfl))
    rcases h newIndex newDocuments (committed ▸ hc) with ⟨hi,hd⟩|⟨hi,hp,hd⟩
    · exact .inl ⟨hindex.trans hi,hdocuments.trans hd⟩
    · exact .inr ⟨hindex.trans hi,hparked hp,hd.imp hdocuments.trans hparked⟩
  | uncommitted publishing ready shape stored committed =>
    rcases h newIndex newDocuments (committed ▸ hc) with ⟨hi,hd⟩|⟨hi,hp,hd⟩
    · rcases live_kept ready shape with ⟨hsame,hstore⟩|hnone
      · exact .inl ⟨hsame.trans hi,hstore.trans hd⟩
      · exact .inr ⟨hnone,index_kept ready shape hi hnone,documents_kept ready shape hd⟩
    · have hparked : ∀ {target : Text} {artifact : Artifact},target=index ∨ target=documents →
          Parked target start.disk artifact → Parked target world.disk artifact := fun htarget hp =>
        parked_kept separate ready shape htarget hp
      have hnone : world.disk index=none := by
        rcases live_kept ready shape with ⟨hsame,-⟩|hnone
        · exact hsame.trans hi
        · exact hnone
      refine .inr ⟨hnone,hparked (.inl rfl) hp,?_⟩
      rcases hd with hd|hd
      · exact documents_kept ready shape hd
      · exact .inr (hparked (.inr rfl) hd)
  | @committed paths writtenIndex writtenDocuments before publishing ready shape committed =>
    rw [hc] at committed
    obtain ⟨hi,hd⟩ := Prod.mk.inj (Option.some.inj committed)
    refine .inl ⟨?_,?_⟩
    · rw [hi,←ready.index_at,←shape.index,ready.fresh.index_eq]
    · rw [hd,←ready.documents_at,←shape.documents,ready.fresh.documents_eq]

/-- At every moment of every sequence of builds and diagnoses at a prefix, each
of which may have been killed anywhere, both files of the pair committed last
exist, live or parked beside their targets. -/
theorem committed_pair_survives {tokens : Set Text} {corpora : Set (List Text)} {path : Text}
    {first world : World} {newIndex newDocuments : Artifact} (hex : HexTokens tokens)
    (counted : Counted first) (start : ∀ pair,first.committed=some pair →
      first.disk (indexFileFromPrefix path)=some pair.1 ∧
        first.disk (documentsFileFromPrefix path)=some pair.2)
    (reachable : Reachable tokens corpora (indexFileFromPrefix path) (documentsFileFromPrefix path)
      first world)
    (committed : world.committed=some (newIndex,newDocuments)) :
    (world.disk (indexFileFromPrefix path)=some newIndex ∨
      Parked (indexFileFromPrefix path) world.disk newIndex) ∧
    (world.disk (documentsFileFromPrefix path)=some newDocuments ∨
      Parked (documentsFileFromPrefix path) world.disk newDocuments) := by
  obtain ⟨stem,hindex,hdocuments⟩ := files_stem path
  rw [hindex,hdocuments] at start reachable ⊢
  have separate := separate_files stem
  have hstart : Survives (stem++".leann") (stem++".docs") first :=
    fun newIndex newDocuments hc => .inl (start _ hc)
  have hsurvives := (reachable.invariant separate (survives_durable separate) counted hstart
    (fun counted h _ path => survives_phase separate (build_phase (begin_begun _ _) (begin_numbered counted _)
      (unique_tokens hex stem) path) h)).2
  rcases hsurvives newIndex newDocuments committed with ⟨hi,hd⟩|⟨-,hi,hd⟩
  · exact ⟨.inl hi,.inl hd⟩
  · exact ⟨.inr hi,hd⟩

end Survival

/-- A pair was committed at a prefix. -/
def committedWorld : World := {sampleWorld with
  notes := {corpus := [],build := 0,documents := []}
  committed := some (⟨[1],[],0⟩,⟨[2],[],0⟩)}

/-- A build has taken its locks and chosen its names, and is killed. -/
def killed : World×HostProgram (Except Fault Unit) :=
  replay (respond "0") (List.replicate 16 none)
    (begin committedWorld ["a"] (documentsFileFromPrefix "corpus"),
      build sampleRequest (indexFileFromPrefix "corpus") (documentsFileFromPrefix "corpus"))

/-- The pair exists when the build was killed. -/
theorem committed_pair_survives_killed :
    (killed.1.disk (indexFileFromPrefix "corpus")=some ⟨[1],[],0⟩ ∨
      Parked (indexFileFromPrefix "corpus") killed.1.disk ⟨[1],[],0⟩) ∧
    (killed.1.disk (documentsFileFromPrefix "corpus")=some ⟨[2],[],0⟩ ∨
      Parked (documentsFileFromPrefix "corpus") killed.1.disk ⟨[2],[],0⟩) := by
  have hex : HexTokens {text "0"} := by
    simp only [HexTokens,Set.mem_singleton_iff,forall_eq]
    unfold IsHexDigit
    decide
  have counted : Counted committedWorld := by
    intro path artifact h
    simp only [committedWorld,sampleWorld,place_apply] at h
    split at h
    · rw [←Option.some.inj h]
      exact Nat.le_refl 0
    · split at h
      · rw [←Option.some.inj h]
        exact Nat.le_refl 0
      · cases h
  have start : ∀ pair,committedWorld.committed=some pair →
      committedWorld.disk (indexFileFromPrefix "corpus")=some pair.1 ∧
        committedWorld.disk (documentsFileFromPrefix "corpus")=some pair.2 := by
    intro pair hp
    rw [←Option.some.inj hp]
    decide
  have path : Run (building {text "0"}) (begin committedWorld sampleRequest.documents
      (documentsFileFromPrefix "corpus"),build sampleRequest (indexFileFromPrefix "corpus")
        (documentsFileFromPrefix "corpus")) (killed.1,killed.2) :=
    replay_run (respond_allowed (Set.mem_singleton _)) (List.replicate 16 none) _
  have reachable : Reachable {text "0"} Set.univ (indexFileFromPrefix "corpus")
      (documentsFileFromPrefix "corpus") committedWorld killed.1 :=
    .build .first (Set.mem_univ _) path
  have committed : killed.1.committed=some (⟨[1],[],0⟩,⟨[2],[],0⟩) := by decide +kernel
  exact committed_pair_survives hex counted start reachable committed

end Leann.CommittedPair
