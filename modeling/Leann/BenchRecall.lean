import Leann.PartialSort
import Leann.SearchResults

/-!
# The recall that the benchmark computes

`leann bench` compares the results of a search with the nearest vectors of
the corpus, which it selects itself. Both orders go by exact distance, but
only the search goes by the node where distances are equal. So an exhaustive
search reaches full recall for every selection that `std::partial_sort` may
make exactly when no equal distances lie on both sides of a cut.
-/

namespace Leann.BenchRecall

open BinaryFloat Exceptions Outcomes Documents IndexFile Embeddings Search Selection SearchResults
  Ranking

section Definitions

/-- One vector of the loop that fills `corpus`. -/
def corpusVector (embedder : Embedder) (corpus : List Embedding) (embedding : Embedding) :
    Except Fault (List Embedding) := do
  throwIf (embedding.length≠embedder.dimension)
    (runtimeError "embedder returned a wrong-dimension ground-truth vector")
  let embedding ← normalize embedding
  return corpus++[embedding]

/-- One batch of the loop that fills `corpus`. -/
def corpusBatch (embedder : Embedder) (documents : DocumentStore) (batchSize : ℕ)
    (corpus : List Embedding) (number : ℕ) : Except Fault (List Embedding) := do
  let ids := ((allNodes documents.size).drop (number*batchSize)).take batchSize
  let batchDocuments ← documents.readMany ids
  let batchEmbeddings ← embedder.embed number batchDocuments
  throwIf (batchEmbeddings.length≠batchDocuments.length)
    (runtimeError "embedder returned the wrong ground-truth batch size")
  batchEmbeddings.foldlM (corpusVector embedder) corpus

/-- `corpus`. -/
def embedCorpus (embedder : Embedder) (documents : DocumentStore) (batchSize : ℕ) :
    Except Fault (List Embedding) := do
  throwIf (batchSize=0) (invalidArgument "--ground-truth-batch must be positive")
  (List.range ((documents.size+batchSize-1)/batchSize)).foldlM
    (corpusBatch embedder documents batchSize) []

/-- The comparison of `exact_top_k`. -/
def Closer (query : Embedding) (corpus : List Embedding) (lhs rhs : UInt32) : Prop :=
  ∃ left right near far,corpus[lhs.toNat]?=some left ∧ corpus[rhs.toNat]?=some right ∧
    cosineDistance query left=.ok near ∧ cosineDistance query right=.ok far ∧ near<far

/-- What `exact_top_k` may return. -/
def ExactTopK (query : Embedding) (corpus : List Embedding) (topK : ℕ) (ids : List UInt32) : Prop :=
  ∃ sorted,PartialSort (Closer query corpus) (min topK corpus.length) (allNodes corpus.length)
    sorted ∧ ids=sorted.take (min topK corpus.length)

/-- `query_recall`. -/
def queryRecall (resultIds truth : List UInt32) : Double :=
  if truth.isEmpty then 1
  else Binary.ofNat (resultIds.countP (fun id => decide (id∈truth)))/Binary.ofNat truth.length

/-- `query_report_recall`. -/
def queryReportRecall (resultIds truth : List UInt32) (reportK : ℕ) : Double :=
  queryRecall (resultIds.take reportK) (truth.take reportK)

/-- The results are the ground truth, up to the order on both sides of a cut. -/
structure Agreement (resultIds truth : List UInt32) (reportK : ℕ) : Prop where
  /-- The same nodes. -/
  mem_iff : ∀ id,id∈resultIds ↔ id∈truth
  /-- The same nodes in front of the cut. -/
  report_iff : ∀ id,id∈resultIds.take reportK ↔ id∈truth.take reportK
  /-- Nothing is missing. -/
  recall_eq : queryRecall resultIds truth=1
  /-- Nothing is missing in front of the cut. -/
  reportRecall_eq : queryReportRecall resultIds truth reportK=1

end Definitions

section Recall

/-- The recall of the same nodes. -/
theorem queryRecall_eq_one {resultIds truth : List UInt32} (hr : resultIds.Nodup) (ht : truth.Nodup)
    (hm : ∀ id,id∈resultIds ↔ id∈truth) (hl : truth.length≤2^32) : queryRecall resultIds truth=1 := by
  have hperm : resultIds.Perm truth := (List.perm_ext_iff_of_nodup hr ht).mpr hm
  have hcount : resultIds.countP (fun id => decide (id∈truth))=truth.length := by
    rw [←hperm.length_eq]
    exact List.countP_eq_length.mpr (fun id hid => decide_eq_true ((hm id).mp hid))
  unfold queryRecall
  split
  · rfl
  · rename_i hempty
    have hne : truth.length≠0 := fun h => hempty (List.isEmpty_iff.mpr (List.length_eq_zero_iff.mp h))
    have hexact : double.Exact (truth.length : ℚ) := by
      have h := double_exact_natCast truth.length 0 (by omega) (by norm_num)
      rwa [pow_zero,Nat.mul_one] at h
    obtain ⟨hfinite,hvalue⟩ := Binary.ofNat_exact hexact
    have hpos : (truth.length : ℚ)≠0 := Nat.cast_ne_zero.mpr hne
    rw [hcount,Binary.div_eq hfinite hfinite (by rw [hvalue]; exact hpos),hvalue,div_self hpos,
      Bool.xor_self]
    change Binary.round false 1=Binary.ofNat 1
    rw [Binary.ofNat,Nat.cast_one]

end Recall

section Corpus

/-- Vectors that can be normalised are finite. -/
theorem squaredNorm_finite {embedding : Embedding} {norm : Double}
    (h : squaredNorm embedding=.ok norm) : ∀ value∈embedding,value.Finite := by
  have hends : Ends (squaredNorm embedding) (fun _ => True) (fun _ => ∀ value∈embedding,value.Finite) :=
    Ends.foldlM embedding (fun done _ => ∀ value∈done,value.Finite) (by simp)
      (fun done value rest norm _ hdone => (throwIf_ends (fun _ => trivial)).bind (fun _ hv => by
        rw [not_not] at hv
        intro other ho
        cases List.mem_append.mp ho with
        | inl ho => exact hdone other ho
        | inr ho =>
          rw [List.mem_singleton] at ho
          exact ho ▸ hv))
  exact hends.of_ok h

/-- A normalised vector has coordinates in the unit interval. -/
theorem normalize_unit {embedding normalized : Embedding} (hl : embedding.length<2^53)
    (h : normalize embedding=.ok normalized) :
    (∀ value∈embedding,value.Finite) ∧ normalized.length=embedding.length ∧
      ∀ value∈normalized,Unit value := by
  have hfinite : ∀ value∈embedding,value.Finite := by
    have hn := h
    rw [Embeddings.normalize,bind_eq_ok] at hn
    obtain ⟨norm,hnorm,-⟩ := hn
    exact squaredNorm_finite hnorm
  obtain ⟨hlength,hunit⟩ := (normalize_ends (Preparation.normalizable_of_ok hfinite hl h)).of_ok h
  exact ⟨hfinite,hlength,hunit⟩

variable {embedder : Embedder} {documents : DocumentStore} {vector : Text → Embedding}

/-- The vector of a document. -/
def CorpusVector (embedder : Embedder) (documents : DocumentStore) (vector : Text → Embedding)
    (id : UInt32) (normalized : Embedding) : Prop :=
  ∃ text,documents.read id=.ok text ∧ (vector text).length=embedder.dimension ∧
    normalize (vector text)=.ok normalized

/-- The vectors of a batch. -/
theorem corpusVectors_ends {texts : List Text} {ids before : List UInt32} {corpus : List Embedding}
    (ht : List.Forall₂ (fun id text => documents.read id=.ok text) ids texts)
    (hc : List.Forall₂ (CorpusVector embedder documents vector) before corpus) :
    Ends ((texts.map vector).foldlM (corpusVector embedder) corpus) (fun _ => True)
      (List.Forall₂ (CorpusVector embedder documents vector) (before++ids)) := by
  induction ht generalizing before corpus with
  | nil =>
    rw [List.append_nil]
    exact hc
  | cons hread _ ih =>
    rename_i id text ids texts hrest
    rw [List.map_cons,List.foldlM_cons]
    have hone : Ends (corpusVector embedder corpus (vector text)) (fun _ => True)
        (List.Forall₂ (CorpusVector embedder documents vector) (before++[id])) := by
      refine (throwIf_ends (fun _ => trivial)).bind (fun _ hlength => ?_)
      rw [not_not] at hlength
      cases hn : normalize (vector text) with
      | error fault => trivial
      | ok normalized =>
        exact List.rel_append hc (.cons ⟨text,hread,hlength,hn⟩ .nil)
    refine hone.bind (fun after hafter => ?_)
    have h := ih hafter
    rwa [List.append_assoc] at h

/-- The corpus holds the normalised vectors of all documents. -/
theorem embedCorpus_forall₂ (hpure : PureEmbedder embedder vector) {batchSize : ℕ}
    {corpus : List Embedding} (h : embedCorpus embedder documents batchSize=.ok corpus) :
    List.Forall₂ (CorpusVector embedder documents vector) (allNodes documents.size) corpus := by
  rw [embedCorpus,bind_eq_ok] at h
  obtain ⟨_,hpos,h⟩ := h
  rw [throwIf_ok] at hpos
  have hloop : Ends ((List.range ((documents.size+batchSize-1)/batchSize)).foldlM
      (corpusBatch embedder documents batchSize) []) (fun _ => True)
      (List.Forall₂ (CorpusVector embedder documents vector) ((allNodes documents.size).take
        ((documents.size+batchSize-1)/batchSize*batchSize))) := by
    refine Ends.foldlM_range _ (fun number => List.Forall₂ (CorpusVector embedder documents vector)
      ((allNodes documents.size).take (number*batchSize))) (by simp) (fun number corpus _ hc => ?_)
    rw [Nat.succ_mul,List.take_add]
    unfold corpusBatch
    dsimp only
    cases ht : documents.readMany (((allNodes documents.size).drop (number*batchSize)).take
        batchSize) with
    | error fault => trivial
    | ok texts =>
      cases hv : embedder.embed number texts with
      | error fault =>
        change Ends (embedder.embed number texts>>=_) _ _
        rw [hv]
        trivial
      | ok vectors =>
        change Ends (embedder.embed number texts>>=_) _ _
        rw [hv]
        refine (throwIf_ends (fun _ => trivial)).bind (fun _ _ => ?_)
        rw [hpure _ _ _ hv]
        exact corpusVectors_ends (readMany_forall₂ ht) hc
  have hall : (allNodes documents.size).length≤(documents.size+batchSize-1)/batchSize*batchSize := by
    have hmod := Nat.div_add_mod (documents.size+batchSize-1) batchSize
    have hlt := Nat.mod_lt (documents.size+batchSize-1) (Nat.pos_of_ne_zero hpos)
    rw [Nat.mul_comm] at hmod
    rw [allNodes,List.length_map,List.length_range]
    omega
  have hresult := hloop.of_ok h
  rwa [List.take_of_length_le hall] at hresult

end Corpus

section Truth

variable {corpus : List Embedding} {normalized : Embedding} {topK reportK : ℕ}

/-- The distance by which `exact_top_k` compares a node. -/
def corpusDistance (query : Embedding) (corpus : List Embedding) (id : UInt32) : Single :=
  (cosineDistance query (corpus.getD id.toNat [])).toOption.getD 0

/-- The place of a node in the order of `exact_top_k`. -/
def truthKey (query : Embedding) (corpus : List Embedding) (id : UInt32) : ℤ :=
  (corpusDistance query corpus id).key

/-- All distances to a query are numbers. -/
def Measurable (query : Embedding) (corpus : List Embedding) : Prop :=
  ∀ vector∈corpus,Ends (cosineDistance query vector) (fun _ => False) Binary.Finite

/-- Comparisons go by distance. -/
theorem closer_iff (hm : Measurable normalized corpus) {lhs rhs : UInt32}
    (hl : lhs.toNat<corpus.length) (hr : rhs.toNat<corpus.length) :
    Closer normalized corpus lhs rhs ↔ truthKey normalized corpus lhs<truthKey normalized corpus rhs := by
  have hdistance : ∀ id : UInt32,id.toNat<corpus.length → ∃ vector,corpus[id.toNat]?=some vector ∧
      cosineDistance normalized vector=.ok (corpusDistance normalized corpus id) ∧
      (corpusDistance normalized corpus id).Finite := by
    intro id hid
    obtain ⟨distance,hd,hf⟩ := (hm corpus[id.toNat] (List.getElem_mem hid)).returns
    have he : corpusDistance normalized corpus id=distance := by
      rw [corpusDistance,List.getD_eq_getElem _ _ hid,hd]
      rfl
    exact ⟨_,List.getElem?_eq_getElem hid,he ▸ hd,he ▸ hf⟩
  obtain ⟨left,hleft,hnear,hfinite⟩ := hdistance lhs hl
  obtain ⟨right,hright,hfar,hfinite'⟩ := hdistance rhs hr
  constructor
  · intro h
    obtain ⟨left',right',near,far,hl',hr',hn,hf,hlt⟩ := h
    rw [hleft,Option.some.injEq] at hl'
    rw [hright,Option.some.injEq] at hr'
    rw [←hl',hnear,Except.ok.injEq] at hn
    rw [←hr',hfar,Except.ok.injEq] at hf
    rw [←hn,←hf] at hlt
    exact hlt.2.2
  · intro h
    exact ⟨left,right,_,_,hleft,hright,hnear,hfar,hfinite.defined,hfinite'.defined,h⟩

/-- All nodes by distance, and by number where distances are equal. -/
def sortedNodes (distance : UInt32 → Single) (ids : List UInt32) : List UInt32 :=
  (ranked (fun candidate : Candidate Single => candidate.key Binary.key)
    (ids.map (fun id => ⟨distance id,id⟩))).map Candidate.id

theorem sortedNodes_perm (distance : UInt32 → Single) (ids : List UInt32) :
    (sortedNodes distance ids).Perm ids := by
  have hp : (sortedNodes distance ids).Perm _ := (ranked_perm _).map Candidate.id
  simpa [List.map_map,Function.comp_def] using hp

/-- Their distances do not fall. -/
theorem sortedNodes_pairwise (distance : UInt32 → Single) (ids : List UInt32) :
    (sortedNodes distance ids).Pairwise (fun first second =>
      (distance first).key≤(distance second).key) := by
  have hmem : ∀ candidate∈ranked (fun candidate : Candidate Single => candidate.key Binary.key)
      (ids.map (fun id => ⟨distance id,id⟩)),candidate.distance=distance candidate.id := by
    intro candidate hc
    obtain ⟨id,-,he⟩ := List.mem_map.mp (mem_ranked.mp hc)
    rw [←he]
  refine List.pairwise_map.mpr ((ranked_pairwise _).imp_of_mem (fun hf hs hle => ?_))
  rw [←hmem _ hf,←hmem _ hs]
  exact Prod.Lex.monotone_fst _ _ hle

/-- So many of the nearest nodes. -/
theorem nearest_ids (distance : UInt32 → Single) (count : ℕ) (ids : List UInt32) :
    (nearest Binary.key distance count ids).map Candidate.id=(sortedNodes distance ids).take count :=
  List.map_take

/-- Taking more than there is. -/
theorem take_min {ids : List UInt32} {size : ℕ} (h : ids.length=size) (count : ℕ) :
    ids.take (min count size)=ids.take count := by
  rw [←h,List.take_eq_take_iff]
  omega

variable {ids : List UInt32}

theorem allNodes_length (size : ℕ) : (allNodes size).length=size := by
  rw [allNodes,List.length_map,List.length_range]

/-- A selection of `exact_top_k` in the order of all nodes. -/
theorem exactTopK_cut (hm : Measurable normalized corpus) {sorted : List UInt32}
    (h : PartialSort (Closer normalized corpus) (min topK corpus.length) (allNodes corpus.length)
      sorted) {cut : ℕ} (hc : cut≤topK) :
    Cut (truthKey normalized corpus) cut (allNodes corpus.length) sorted := by
  have hsort := h.congr (fun first hf second hs hlt =>
    (closer_iff hm ((mem_allNodes first).mp hf) ((mem_allNodes second).mp hs)).mpr hlt)
  by_cases hsize : cut≤ corpus.length
  · exact hsort.cutAt (by omega)
  · refine ⟨h.perm,fun item _ other ho => ?_⟩
    rw [List.drop_eq_nil_of_le (by rw [h.perm.length_eq,allNodes_length]; omega)] at ho
    cases ho

/-- The nearest nodes are every selection of `exact_top_k`, in front of both
cuts, exactly when no equal distances straddle one of them. -/
theorem agreement_iff (hm : Measurable normalized corpus) (hsize : corpus.length≤2^32)
    (hreport : reportK≤topK) :
    (∀ truth,ExactTopK normalized corpus topK truth → Agreement
      ((nearest Binary.key (corpusDistance normalized corpus) topK (allNodes corpus.length)).map
        Candidate.id) truth reportK) ↔
      ¬Straddled (truthKey normalized corpus) topK (allNodes corpus.length) ∧
        ¬Straddled (truthKey normalized corpus) reportK (allNodes corpus.length) := by
  have hnodup := allNodes_nodup hsize
  have hperm := sortedNodes_perm (corpusDistance normalized corpus) (allNodes corpus.length)
  have hsorted := sortedNodes_pairwise (corpusDistance normalized corpus) (allNodes corpus.length)
  rw [nearest_ids]
  have hother : ∀ {cut : ℕ},cut≤topK →
      Straddled (truthKey normalized corpus) cut (allNodes corpus.length) →
      ∃ truth,ExactTopK normalized corpus topK truth ∧ ∃ id∈truth.take cut,
        id∉(sortedNodes (corpusDistance normalized corpus) (allNodes corpus.length)).take cut := by
    intro cut hc hstraddled
    obtain ⟨other,hsort,id,hid,hno⟩ := exists_other_sort hnodup hperm hsorted hstraddled
      (min topK corpus.length)
    refine ⟨other.take (min topK corpus.length),⟨other,hsort.congr (fun first hf second hs hlt =>
      (closer_iff hm ((mem_allNodes first).mp hf) ((mem_allNodes second).mp hs)).mp hlt),rfl⟩,
      id,?_,hno⟩
    rw [take_min (hsort.perm.length_eq.trans (allNodes_length _)),List.take_take,Nat.min_eq_left hc]
    exact hid
  constructor
  · intro h
    refine ⟨fun hstraddled => ?_,fun hstraddled => ?_⟩
    · obtain ⟨truth,htruth,id,hid,hno⟩ := hother le_rfl hstraddled
      exact hno (((h truth htruth).mem_iff id).mpr (List.mem_of_mem_take hid))
    · obtain ⟨truth,htruth,id,hid,hno⟩ := hother hreport hstraddled
      have hmem := ((h truth htruth).report_iff id).mpr hid
      rw [List.take_take,Nat.min_eq_left hreport] at hmem
      exact hno hmem
  · intro h truth htruth
    obtain ⟨sorted,hsort,htake⟩ := htruth
    have hlength := hsort.perm.length_eq.trans (allNodes_length _)
    rw [take_min hlength] at htake
    have hcut : ∀ {cut : ℕ},cut≤topK →
        ¬Straddled (truthKey normalized corpus) cut (allNodes corpus.length) → ∀ id,
        id∈(sortedNodes (corpusDistance normalized corpus) (allNodes corpus.length)).take cut ↔
          id∈sorted.take cut :=
      fun hc hno => (cut_of_sorted hperm hsorted).mem_iff (exactTopK_cut hm hsort hc) hno
    have hreportIff : ∀ id,id∈((sortedNodes (corpusDistance normalized corpus)
        (allNodes corpus.length)).take topK).take reportK ↔ id∈(sorted.take topK).take reportK := by
      intro id
      rw [List.take_take,List.take_take,Nat.min_eq_left hreport]
      exact hcut hreport h.2 id
    have hr := hperm.nodup_iff.mpr hnodup
    have ht := hsort.perm.nodup_iff.mpr hnodup
    have hle : ∀ cut : ℕ,(sorted.take cut).length≤2^32 := by
      intro cut
      rw [List.length_take]
      omega
    rw [htake]
    refine ⟨hcut le_rfl h.1,hreportIff,?_,?_⟩
    · exact queryRecall_eq_one (hr.sublist (List.take_sublist _ _))
        (ht.sublist (List.take_sublist _ _)) (hcut le_rfl h.1) (hle topK)
    · refine queryRecall_eq_one ((hr.sublist (List.take_sublist _ _)).sublist (List.take_sublist _ _))
        ((ht.sublist (List.take_sublist _ _)).sublist (List.take_sublist _ _)) hreportIff ?_
      rw [List.take_take]
      exact hle _

end Truth

section Exhaustive

variable {index : Index} {documents : DocumentStore} {embedder : Embedder} {config : SearchConfig}
  {query : Embedding} {vector : Text → Embedding}

/-- An exhaustive search returns the nearest vectors of the corpus. -/
theorem exhaustive_nearest {path : Text} {file : List UInt8} (hload : load path file=.ok index)
    (hflat : Flat config index.size) (hall : index.size≤ config.efSearch.toNat)
    (hpure : PureEmbedder embedder vector) {results : List (SearchResult Single)}
    {metrics : SearchMetrics}
    (hsearch : searchEmbedding index query embedder documents config=.ok (results,metrics))
    {batchSize : ℕ} {corpus : List Embedding}
    (hcorpus : embedCorpus embedder documents batchSize=.ok corpus) :
    ∃ normalized,normalize query=.ok normalized ∧ Measurable normalized corpus ∧
      corpus.length=index.size ∧ index.size≤2^32 ∧
      results=nearest Binary.key (corpusDistance normalized corpus) config.topK.toNat
        (allNodes index.size) := by
  have hchecks := hsearch
  simp only [searchEmbedding,validateDocumentStore,bind_eq_ok,throwIf_ok,not_or,not_not] at hchecks
  obtain ⟨_,⟨_,-,hsize⟩,value,hconfig,_,-,_,⟨hlen,hdimension⟩,-⟩ := hchecks
  have hrefines := flatSearch_refines_bruteForce hload hconfig hflat
  obtain ⟨normalized,approximate,found,hn,-,-,-,hnearest⟩ :=
    hrefines.2 query embedder documents vector results metrics hpure hsearch
  have hshort := dimension_lt index
  obtain ⟨-,hlength,hunit⟩ := normalize_unit (hlen ▸ hshort) hn
  have hvectors := embedCorpus_forall₂ hpure hcorpus
  rw [hsize] at hvectors
  have hcount : corpus.length=index.size := by rw [←hvectors.length_eq,allNodes_length]
  have hlimit := config.approximateScanLimit.toNat_lt
  have hle : index.size≤2^32 := hflat.2.trans hlimit.le
  have hof : ∀ id : UInt32,(hid : id.toNat<corpus.length) →
      CorpusVector embedder documents vector id corpus[id.toNat] := by
    intro id hid
    have hone := (List.forall₂_iff_get.mp hvectors).2 id.toNat
      (by rw [allNodes_length]; omega) hid
    have hget : (allNodes index.size).get ⟨id.toNat,by rw [allNodes_length]; omega⟩=id := by
      simp [allNodes]
    rwa [hget] at hone
  have hdistance : ∀ id : UInt32,(hid : id.toNat<corpus.length) →
      Ends (cosineDistance normalized corpus[id.toNat]) (fun _ => False) Binary.Finite ∧
      documentDistance index documents vector normalized id=
        cosineDistance normalized corpus[id.toNat] := by
    intro id hid
    obtain ⟨text,hread,hdim,hnormal⟩ := hof id hid
    have hsame : (vector text).length=index.dimension.toNat := hdim.trans hdimension
    obtain ⟨hfinite,hlength',hunit'⟩ := normalize_unit (hsame ▸ hshort) hnormal
    have hequal : normalized.length=corpus[id.toNat].length := by
      rw [hlength,hlen,hlength',hsame]
    refine ⟨cosineDistance_ends hunit hunit' (by rw [hlength,hlen]; exact hshort) hequal,?_⟩
    have hvalid : validateEmbedding (vector text) index.dimension.toNat=.ok () := by
      simp only [validateEmbedding,bind_eq_ok,throwIf_ok,not_not]
      exact ⟨(),hsame,hfinite⟩
    rw [documentDistance,hread]
    change exactDistance index normalized (vector text)=_
    rw [exactDistance,hvalid]
    change (normalize (vector text)>>=_)=_
    rw [hnormal]
    rfl
  refine ⟨normalized,hn,fun vector' hv => ?_,hcount,hle,?_⟩
  · obtain ⟨position,hp,he⟩ := List.getElem_of_mem hv
    have hnumber : (UInt32.ofNat position).toNat=position := by
      rw [UInt32.toNat_ofNat',Nat.mod_eq_of_lt (by omega)]
    have hone := (hdistance (UInt32.ofNat position) (by omega)).1
    simp only [hnumber,he] at hone
    exact hone
  · rw [hnearest hall,nearest,nearest]
    congr 2
    refine List.map_congr_left (fun id hid => ?_)
    have hlt : id.toNat<corpus.length := by
      rw [hcount]
      exact (mem_allNodes id).mp hid
    rw [distanceOf,(hdistance id hlt).2,corpusDistance,List.getD_eq_getElem _ _ hlt]

/-- An embedder with one answer in two coordinates. -/
def levelEmbedder : Embedder :=
  ⟨2,pairIndex.embedderFingerprint,fun _ texts => .ok (texts.map (fun _ => [1,0]))⟩

theorem levelEmbedder_pure : PureEmbedder levelEmbedder (fun _ => [1,0]) :=
  fun _ _ _ h => (Except.ok.inj h).symm

/-- Equal vectors are not compared as closer. -/
theorem not_closer_of_equal {normalized same : Embedding} {corpus : List Embedding}
    (hs : ∀ vector∈corpus,vector=same) (lhs rhs : UInt32) : ¬Closer normalized corpus lhs rhs := by
  intro h
  obtain ⟨left,right,near,far,hl,hr,hn,hf,hlt⟩ := h
  rw [hs left (List.mem_of_getElem? hl)] at hn
  rw [hs right (List.mem_of_getElem? hr),hn,Except.ok.injEq] at hf
  rw [hf] at hlt
  exact lt_irrefl _ hlt.2.2

end Exhaustive

end Leann.BenchRecall
