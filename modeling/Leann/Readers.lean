import Leann.Histories
import Leann.PairIdentity

/-!
# No reader pairs an index with another corpus

A reader opens the two files of a prefix at two moments, with any part of any
number of builds in between. Each file names the identity of the documents it
was made from, so files that are accepted together have the same documents.
-/

namespace Leann.Readers

open Effects Exceptions Checksum Documents IndexFile Search ArtifactPublisher Host BuildProgram
  BuildArtifacts BuildScopes BuildFailure Doctor Histories PairIdentity

section Genuine

variable {corpora : Set (List Text)} {index documents : Text}

/-- An index that a build made from its documents. -/
def GenuineIndex (corpora : Set (List Text)) (artifact : Artifact) : Prop :=
  artifact.corpus∈corpora ∧ ∃ path loaded,load path artifact.bytes=.ok loaded ∧
    makePairIdentity artifact.corpus=.ok loaded.pairIdentity

/-- A document store that a build wrote from its documents. -/
def GenuineStore (corpora : Set (List Text)) (artifact : Artifact) : Prop :=
  artifact.corpus∈corpora ∧ ∃ path identity,makePairIdentity artifact.corpus=.ok identity ∧
    Documents.write path artifact.corpus identity=.ok artifact.bytes

/-- Builds made what is live. -/
structure Genuine (corpora : Set (List Text)) (index documents : Text) (world : World) : Prop where
  /-- The index. -/
  index : ∀ artifact,world.disk index=some artifact → GenuineIndex corpora artifact
  /-- The document store. -/
  documents : ∀ artifact,world.disk documents=some artifact → GenuineStore corpora artifact

/-- What was verified is genuine. -/
theorem verified_genuine {corpus : List Text} (given : corpus∈corpora) {newIndex newDocuments : Artifact}
    (verified : Verified corpus newIndex newDocuments) :
    GenuineIndex corpora newIndex ∧ GenuineStore corpora newDocuments := by
  obtain ⟨hindex,hdocuments,path,documentsPath,loaded,store,hload,-,-,hidentity,hwrite⟩ := verified
  refine ⟨⟨hindex ▸ given,path,loaded,hload,?_⟩,
    ⟨hdocuments ▸ given,documentsPath,loaded.pairIdentity,?_,?_⟩⟩
  · rw [hindex]
    exact hidentity
  · rw [hdocuments]
    exact hidentity
  · rw [hdocuments]
    exact hwrite

/-- A diagnosis removes no live file. -/
theorem genuine_durable (separate : Separate index documents) :
    Durable index documents (Genuine corpora index documents) where
  locks world after h disk _ _ := ⟨fun artifact ha => h.index artifact (disk ▸ ha),
    fun artifact ha => h.documents artifact (disk ▸ ha)⟩
  remove world after path h named disk _ _ := by
    have hlive := separate.live path (named.imp_right And.left)
    constructor
    · intro artifact ha
      rw [disk,place_apply,if_neg hlive.1.symm] at ha
      exact h.index artifact ha
    · intro artifact ha
      rw [disk,place_apply,if_neg hlive.2.symm] at ha
      exact h.documents artifact ha

/-- A build puts only what it verified in their place, or what was there. -/
theorem genuine_phase {start world : World} (given : start.notes.corpus∈corpora)
    (phase : Phase start index documents world) (h : Genuine corpora index documents start) :
    Genuine corpora index documents world := by
  cases phase with
  | preparing before kept committed =>
    constructor
    · intro artifact ha
      rw [kept index (.inl rfl)] at ha
      exact h.index artifact ha
    · intro artifact ha
      rw [kept documents (.inr (.inl rfl))] at ha
      exact h.documents artifact ha
  | uncommitted publishing ready shape stored committed =>
    obtain ⟨-,hstore⟩ := verified_genuine given ready.verified
    obtain ⟨hindex,hdocuments⟩ := ready.live
    constructor
    · intro artifact ha
      rw [←ready.fresh.index_eq] at ha
      rcases shape.pair with hp|hp
      · rw [hp.1,hindex] at ha
        exact h.index artifact ha
      · rw [hp] at ha
        cases ha
    · intro artifact ha
      rw [←ready.fresh.documents_eq] at ha
      rcases stored _ (.inr (.inl rfl)) with hp|hp|hp
      · rw [hp] at ha
        cases ha
      · rw [hp,ready.documents_at] at ha
        rw [←Option.some.inj ha]
        exact hstore
      · rw [hp,hdocuments] at ha
        exact h.documents artifact ha
  | committed publishing ready shape committed =>
    obtain ⟨hindex,hstore⟩ := verified_genuine given ready.verified
    constructor
    · intro artifact ha
      rw [←ready.fresh.index_eq,shape.index,ready.index_at] at ha
      rw [←Option.some.inj ha]
      exact hindex
    · intro artifact ha
      rw [←ready.fresh.documents_eq,shape.documents,ready.documents_at] at ha
      rw [←Option.some.inj ha]
      exact hstore

end Genuine

section Reading

variable {corpora : Set (List Text)}

/-- Genuine files that are accepted together have the same documents. -/
theorem accepted_corpus (collision_free : Set.InjOn digest (identityPreimage '' corpora))
    {index documents : Artifact} (hindex : GenuineIndex corpora index)
    (hdocuments : GenuineStore corpora documents) {indexPath documentsPath : Text} {loaded : Index}
    {store : DocumentStore} (hload : load indexPath index.bytes=.ok loaded)
    (hopen : openStore documentsPath documents.bytes=.ok store)
    (accepted : validateDocumentStore loaded store=.ok ()) : documents.corpus=index.corpus := by
  obtain ⟨hi,path,loaded',hload',hidentity⟩ := hindex
  obtain ⟨hd,path',identity,hidentity',hwrite⟩ := hdocuments
  simp only [validateDocumentStore,bind_eq_ok,throwIf_ok,not_not,exists_and_left] at accepted
  have hsame : identity=loaded'.pairIdentity := by
    calc identity=store.pairIdentity := (written_identity hwrite hopen).symm
      _=loaded.pairIdentity := accepted.1
      _=loaded'.pairIdentity := load_identity hload hload'
  exact makePairIdentity_inj collision_free hd hi (hsame ▸ hidentity') hidentity

/-- A reader that opens the index at one moment and the document store at
another, in either order, accepts them only when the store was written from
exactly the documents the index was built from. The identity they share is
the digest of an encoding that can be decoded in one way only. -/
theorem reader_never_mixes {tokens : Set Text} {path : Text} {first seen seen' : World}
    {index documents : Artifact} {loaded : Index} {store : DocumentStore} (hex : HexTokens tokens)
    (counted : Counted first) (genuine : Genuine corpora (indexFileFromPrefix path)
      (documentsFileFromPrefix path) first)
    (collision_free : Set.InjOn digest (identityPreimage '' corpora))
    (reachable : Reachable tokens corpora (indexFileFromPrefix path) (documentsFileFromPrefix path)
      first seen)
    (reachable' : Reachable tokens corpora (indexFileFromPrefix path) (documentsFileFromPrefix path)
      first seen')
    (hindex : seen.disk (indexFileFromPrefix path)=some index)
    (hdocuments : seen'.disk (documentsFileFromPrefix path)=some documents)
    (hload : load (indexFileFromPrefix path) index.bytes=.ok loaded)
    (hopen : openStore (documentsFileFromPrefix path) documents.bytes=.ok store)
    (accepted : validateDocumentStore loaded store=.ok ()) :
    documents.corpus=index.corpus ∧
      (∃ path identity,makePairIdentity documents.corpus=.ok identity ∧
        Documents.write path documents.corpus identity=.ok documents.bytes) ∧
      (∀ (list : List Text) (identity : PairIdentity),makePairIdentity list=.ok identity →
        identity=digest (identityPreimage list)) ∧
      ∀ list other : List Text,Fits list → Fits other →
        identityPreimage list=identityPreimage other → list=other := by
  obtain ⟨stem,hi,hd⟩ := files_stem path
  rw [hi] at genuine reachable reachable' hindex
  rw [hd] at genuine reachable reachable' hdocuments
  have separate := separate_files stem
  have hgenuine : ∀ {world : World},Reachable tokens corpora (stem++".leann") (stem++".docs") first
      world → Genuine corpora (stem++".leann") (stem++".docs") world := fun reachable =>
    (reachable.invariant separate (genuine_durable separate) counted genuine
      (fun counted h given path => genuine_phase given (build_phase (begin_begun _ _)
        (begin_numbered counted _) (unique_tokens hex stem) path) ⟨h.index,h.documents⟩)).2
  have hstore := (hgenuine reachable').documents documents hdocuments
  exact ⟨accepted_corpus collision_free ((hgenuine reachable).index index hindex) hstore hload hopen
    accepted,hstore.2,fun list identity h => ((makePairIdentity_ok list).mp h).2,
    fun _ _ => identityPreimage_inj⟩

end Reading

section Sample

/-- Two documents. -/
def sampleCorpus : List Text := ["a","b"]

/-- Their identity. -/
def sampleIdentity : PairIdentity := digest (identityPreimage sampleCorpus)

theorem sampleIdentity_nonzero : isZeroIdentity sampleIdentity=false := by
  decide +kernel

/-- An index with this identity. -/
def sampleIndex : Index := {pairIndex with path := "corpus.leann",pairIdentity := sampleIdentity}

theorem sampleIndex_loadable : Loadable sampleIndex where
  identity_nonzero := sampleIdentity_nonzero
  dimension_pos := pairIndex_loadable.dimension_pos
  entry_lt := pairIndex_loadable.entry_lt
  level_le := pairIndex_loadable.level_le
  layers_length := pairIndex_loadable.layers_length
  rows := pairIndex_loadable.rows
  layers := pairIndex_loadable.layers
  fingerprint_lt := pairIndex_loadable.fingerprint_lt
  sketched h := absurd h (by decide)
  quantized _ := by
    obtain ⟨codec,h1,h2,h3,h4⟩ := pairIndex_loadable.quantized rfl
    exact ⟨codec,h1,h2,h3,h4⟩

/-- The document store of the two documents. -/
def sampleImage : StoreImage :=
  imageOf sampleCorpus sampleIdentity sampleIdentity_nonzero (by decide) (by decide)

/-- The live index. -/
def liveIndex : Artifact := ⟨sealBytes (indexBytes sampleIndex sampleIndex.size),sampleCorpus,0⟩

/-- The live document store. -/
def liveDocuments : Artifact := ⟨sampleImage.bytes,sampleCorpus,0⟩

/-- Both files are live. -/
def publishedWorld : World where
  disk := place (place (fun _ => none) "corpus.leann" (some liveIndex)) "corpus.docs"
    (some liveDocuments)
  locks := fun _ => none
  notes := {corpus := [],build := 0,documents := []}
  committed := none

/-- What is live was made by a build. -/
theorem published_genuine : Genuine {sampleCorpus} (indexFileFromPrefix "corpus")
    (documentsFileFromPrefix "corpus") publishedWorld := by
  have hidentity : makePairIdentity sampleCorpus=.ok sampleIdentity :=
    (makePairIdentity_ok sampleCorpus).mpr ⟨by decide,rfl⟩
  have hindex : publishedWorld.disk (indexFileFromPrefix "corpus")=some liveIndex := by rfl
  have hdocuments : publishedWorld.disk (documentsFileFromPrefix "corpus")=some liveDocuments := by rfl
  constructor
  · intro artifact ha
    rw [←Option.some.inj (hindex.symm.trans ha)]
    exact ⟨rfl,"corpus.leann",sampleIndex,sampleIndex_loadable.load_sealed
      (by rw [indexBytes_length]; decide),hidentity⟩
  · intro artifact ha
    rw [←Option.some.inj (hdocuments.symm.trans ha)]
    exact ⟨rfl,"corpus.docs",sampleIdentity,hidentity,(write_ok _ _ _ _).mpr
      ⟨sampleIdentity_nonzero,by decide,by decide,rfl⟩⟩

/-- A reader of this pair accepts it, and it was made from one corpus. -/
theorem reader_never_mixes_published : liveDocuments.corpus=liveIndex.corpus ∧
    ∃ path identity,makePairIdentity liveDocuments.corpus=.ok identity ∧
      Documents.write path liveDocuments.corpus identity=.ok liveDocuments.bytes := by
  have hex : HexTokens {text "0"} := by
    simp only [HexTokens,Set.mem_singleton_iff,forall_eq]
    unfold IsHexDigit
    decide
  have counted : Counted publishedWorld := by
    intro path artifact h
    simp only [publishedWorld,place_apply] at h
    split at h
    · rw [←Option.some.inj h]
      exact Nat.le_refl 0
    · split at h
      · rw [←Option.some.inj h]
        exact Nat.le_refl 0
      · cases h
  have collision_free : Set.InjOn digest (identityPreimage '' {sampleCorpus}) := by
    rw [Set.image_singleton]
    exact Set.injOn_singleton _ _
  have reachable : Reachable {text "0"} {sampleCorpus} (indexFileFromPrefix "corpus")
      (documentsFileFromPrefix "corpus") publishedWorld publishedWorld := .first
  have hload : load (indexFileFromPrefix "corpus") liveIndex.bytes=.ok sampleIndex :=
    sampleIndex_loadable.load_sealed (by rw [indexBytes_length]; decide)
  have hopen : openStore (documentsFileFromPrefix "corpus") liveDocuments.bytes=.ok sampleImage.store :=
    (openStore_ok _ _ _).mpr ⟨sampleImage,rfl,rfl⟩
  have accepted : validateDocumentStore sampleIndex sampleImage.store=.ok () := by
    simp only [validateDocumentStore,bind_eq_ok,throwIf_ok,not_not,exists_and_left]
    exact ⟨rfl,(),by decide⟩
  have hmixed := reader_never_mixes hex counted published_genuine collision_free reachable reachable rfl
    rfl hload hopen accepted
  exact ⟨hmixed.1,hmixed.2.1⟩

end Sample

end Leann.Readers
