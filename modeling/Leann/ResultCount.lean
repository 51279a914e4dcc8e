import Leann.BuiltIndex

/-!
# How many results a search returns

On the flat path a search returns as many results as are asked for, up to
the number of nodes. On the graph path it cannot return more than it reaches
from the node where routing ends, and pruning may leave a graph that falls
apart, so an index that was built may return fewer results.
-/

namespace Leann.ResultCount

open BinaryFloat Exceptions Outcomes Documents IndexFile Embeddings Search Selection SearchResults
  Ranking Routing Shortlists Training IndexBuilder BuiltIndex

section Counts

variable {index : Index} {documents : DocumentStore} {embedder : Embedder} {config : SearchConfig}
  {query : Embedding}

/-- An embedder that returns a finite vector that is not zero for every text. -/
def Answering (embedder : Embedder) : Prop :=
  ∀ call texts,∃ vectors,embedder.embed call texts=.ok vectors ∧ vectors.length=texts.length ∧
    ∀ vector∈vectors,vector.length=embedder.dimension ∧ (∀ value∈vector,value.Finite) ∧
      ∃ value∈vector,value.value≠0

/-- A document that cannot be read. -/
def ReadError (documents : DocumentStore) (fault : Fault) : Prop :=
  ∃ ids,documents.readMany ids=.error fault

/-- The exact distance of a vector that can be normalised. -/
theorem exactDistance_ends {fails : Fault → Prop} {normalized vector : Embedding}
    (hlen : normalized.length=index.dimension.toNat) (hunit : ∀ value∈normalized,Unit value)
    (hv : vector.length=index.dimension.toNat) (hfinite : ∀ value∈vector,value.Finite)
    (hnonzero : ∃ value∈vector,value.value≠0) :
    Ends (exactDistance index normalized vector) fails (fun _ => True) := by
  have hshort := dimension_lt index
  have hvalid : validateEmbedding vector index.dimension.toNat=.ok () := by
    simp only [validateEmbedding,bind_eq_ok,throwIf_ok,not_not]
    exact ⟨(),hv,hfinite⟩
  obtain ⟨other,ho,hlength,hunit'⟩ := (normalize_ends ⟨hfinite,hnonzero,hv ▸ hshort⟩).returns
  obtain ⟨distance,hd,-⟩ := (cosineDistance_ends hunit hunit' (hlen ▸ hshort)
    (by rw [hlen,hlength,hv])).returns
  rw [exactDistance,hvalid]
  change Ends (normalize vector>>=_) _ _
  rw [ho]
  change Ends (cosineDistance normalized other) _ _
  rw [hd]
  trivial

/-- Reading documents keeps their number. -/
theorem readMany_length {ids : List UInt32} {texts : List Text}
    (h : documents.readMany ids=.ok texts) : texts.length=ids.length :=
  (readMany_forall₂ h).length_eq.symm

/-- A batch is recomputed unless a document cannot be read. -/
theorem evaluate_ends (hembedder : Answering embedder)
    (hdimension : embedder.dimension=index.dimension.toNat) {normalized : Embedding}
    (hlen : normalized.length=index.dimension.toNat) (hunit : ∀ value∈normalized,Unit value)
    (number : ℕ) (ids : List UInt32) :
    Ends (evaluate index embedder documents normalized number ids) (ReadError documents)
      (fun found => found.length=ids.length) := by
  unfold evaluate
  cases ht : documents.readMany ids with
  | error fault => exact ⟨ids,ht⟩
  | ok texts =>
    obtain ⟨vectors,hv,hcount,hvectors⟩ := hembedder number texts
    have hsame : vectors.length=ids.length := hcount.trans (readMany_length ht)
    change Ends (embedder.embed number texts>>=_) _ _
    rw [hv]
    refine (throwIf_ends (fun h => absurd hsame h)).bind (fun _ _ => ?_)
    have hall : Ends (vectors.mapM (exactDistance index normalized)) (ReadError documents)
        (fun found => found.length=vectors.length ∧ ∀ distance∈found,True) :=
      Ends.mapM vectors (fun vector hvector => by
        obtain ⟨hl,hf,hn⟩ := hvectors vector hvector
        exact exactDistance_ends hlen hunit (hl.trans hdimension) hf hn)
    exact hall.mono (fun _ h => h) (fun found h => h.1.trans hsame)

end Counts

section Split

/-- Every ordinary node keeps one neighbour, and there are no hubs. -/
def splitConfig : BuildConfig := ⟨2,2,1,0,.productQuantization,64,1,1,1,4,4,0⟩

/-- Two pairs of equal vectors. -/
def splitVectors : List Embedding := [[1,0],[1,0],[0,1],[0,1]]

/-- Choices for four vectors. -/
def splitChoices : Choices Double := ⟨List.range,fun _ => 0,fun _ _ total => total⟩

/-- A base layer in which every node is linked with all others. -/
def splitGraph : HnswGraph :=
  ⟨id,fun _ => 0,fun node _ => (List.range 4).filter (fun other => decide (other≠node)),0,0⟩

/-- Two pairs of equal documents. -/
def splitImage : StoreImage :=
  imageOf [[97],[97],[98],[98]] (.replicate 32 1) ones_nonzero (by decide) (by decide)

/-- An embedder that tells the two documents apart. -/
def splitEmbedder : Embedder :=
  ⟨2,[104],fun _ texts => .ok (texts.map (fun text => if text=[97] then [1,0] else [0,1]))⟩

/-- The index that is built. -/
def splitIndex : Index where
  dimension := 2
  approximation := .productQuantization
  maxDegree := 4
  entryPoint := 0
  maxLevel := 0
  sketchBits := 0
  pqSubquantizers := 1
  pqBits := 1
  pqCentroids := 2
  pqSubdimension := 2
  sketchSeed := 0
  path := "split.leann"
  pairIdentity := .replicate 32 1
  embedderFingerprint := [104]
  offsets := [0,1,2,3,4]
  edges := [1,0,3,2]
  upperLayers := []
  sketches := []
  pqCodebook := [1,0,0,1]
  pqCodes := [0,0,1,1]

/-- Three results out of four candidates, on the graph path. -/
def fewConfig : SearchConfig := ⟨3,4,1,0,1⟩

theorem splitGraph_laws : HnswLaws splitGraph 4 where
  labels := by
    change ((List.range 4).map id).Perm _
    rw [List.map_id]
  links := fun _ _ _ h _ _ => h
  entry_lt := by decide
  entry_level := rfl
  maxLevel_le := by decide

theorem split_embedded : Embedded 2 splitVectors := by
  have hunit : Unit 0 ∧ Unit 1 := by
    obtain ⟨h1,hv1⟩ := single_one
    exact ⟨⟨by decide,by rw [Binary.value_zero,abs_zero]; exact zero_le_one⟩,
      h1,by rw [hv1,abs_one]⟩
  refine ⟨by decide,by decide,by decide,by decide,by decide,?_⟩
  simp only [splitVectors,List.forall_mem_cons]
  refine ⟨?_,?_,?_,?_,by simp⟩ <;> simp [hunit.1,hunit.2]

theorem splitIndex_built : buildIndex splitConfig splitChoices (fun _ => splitGraph) "split.leann"
    splitImage.store.pairIdentity [104] 2 splitVectors=.ok splitIndex := by decide +kernel

theorem splitEmbedder_answering : Answering splitEmbedder := by
  intro call texts
  refine ⟨_,rfl,List.length_map _,fun vector hv => ?_⟩
  obtain ⟨text,-,he⟩ := List.mem_map.mp hv
  have hone : (1 : Single).value≠0 := by rw [single_one.2]; exact one_ne_zero
  rw [←he]
  split
  · exact ⟨rfl,by decide +kernel,1,by simp,hone⟩
  · exact ⟨rfl,by decide +kernel,1,by simp,hone⟩

end Split

end Leann.ResultCount
