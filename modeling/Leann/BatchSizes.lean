import Leann.SearchResults

/-!
# Results and the size of the batches

The results of a search are different nodes in the order of their exact
distances, which are those of the stored texts. The candidates are recomputed
once, in as few batches as their number allows, and cutting them into batches
of another size changes neither them nor the results.
-/

namespace Leann.BatchSizes

open Exceptions Outcomes Documents IndexFile Search Routing Shortlists Ranking SearchResults Selection
open BinaryFloat
open Embeddings hiding Unit

section Counters

variable {α β : Type}

/-- Whatever it returns, it counts no recomputation and no batch. -/
def Uncounted (x : Searching α) : Prop :=
  ∀ start value after,x start=.ok (value,after) →
    after.exactRecomputations=start.exactRecomputations ∧
      after.embeddingBatches=start.embeddingBatches

namespace Uncounted

theorem returned (value : α) : Uncounted (pure value : Searching α) := by
  intro start found after h
  cases h
  exact ⟨rfl,rfl⟩

theorem lift (x : Except Fault α) : Uncounted (StateT.lift x : Searching α) := by
  intro start found after h
  cases x with
  | error fault => cases h
  | ok value =>
    cases h
    exact ⟨rfl,rfl⟩

theorem updated (update : SearchMetrics → SearchMetrics)
    (h : ∀ metrics,(update metrics).exactRecomputations=metrics.exactRecomputations ∧
      (update metrics).embeddingBatches=metrics.embeddingBatches) :
    Uncounted (modify update : Searching PUnit) := by
  intro start found after hrun
  cases hrun
  exact h start

theorem bind {x : Searching α} {next : α → Searching β} (h : Uncounted x)
    (hn : ∀ value,Uncounted (next value)) : Uncounted (x>>=next) := by
  intro start found after hrun
  obtain ⟨⟨value,middle⟩,hx,hnext⟩ := (bind_eq_ok _ _ _).mp hrun
  have hfirst := h start value middle hx
  have hsecond := hn value middle found after hnext
  exact ⟨hsecond.1.trans hfirst.1,hsecond.2.trans hfirst.2⟩

theorem foldlM {step : β → α → Searching β} (h : ∀ value item,Uncounted (step value item))
    (items : List α) (first : β) : Uncounted (items.foldlM step first) := by
  induction items generalizing first with
  | nil => exact returned first
  | cons item items ih =>
    rw [List.foldlM_cons]
    exact (h first item).bind ih

end Uncounted

variable {δ κ : Type} [LinearOrder κ] {rank : δ → κ} {distances : Distances δ} {index : Index}

theorem approximateDistance_uncounted (node : UInt32) :
    Uncounted (approximateDistance distances node) := by
  refine Uncounted.bind (Uncounted.updated _ ?_) (fun _ => Uncounted.lift _)
  exact fun _ => ⟨rfl,rfl⟩

/-- Routing. -/
theorem route_uncounted : Uncounted (route rank distances index) := by
  refine (approximateDistance_uncounted _).bind (fun distance => Uncounted.foldlM ?_ _ _)
  intro routed layer
  generalize layer.nodes.length+1=turns
  induction turns generalizing routed with
  | zero => exact Uncounted.lift _
  | succ turns ih =>
    refine Uncounted.bind ?_ (fun best => ?_)
    · refine (Uncounted.lift _).bind (fun _ => (Uncounted.lift _).bind (fun _ =>
        (Uncounted.lift _).bind (fun _ => Uncounted.foldlM (fun _ _ => ?_) _ _)))
      exact (Uncounted.lift _).bind (fun neighbor =>
        (approximateDistance_uncounted neighbor).bind (fun _ => Uncounted.returned _))
    · split
      · exact Uncounted.returned _
      · refine Uncounted.bind (Uncounted.updated _ ?_) (fun _ => ih best)
        exact fun _ => ⟨rfl,rfl⟩

/-- One edge of the base graph. -/
theorem visit_uncounted (beam : ℕ) (state : BeamState δ) (edge : ℕ) :
    Uncounted (visit rank distances index beam state edge) := by
  refine (Uncounted.lift _).bind (fun neighbor => (Uncounted.lift _).bind (fun met => ?_))
  split
  · exact Uncounted.returned _
  · refine (Uncounted.lift _).bind (fun visited =>
      (approximateDistance_uncounted neighbor).bind (fun distance =>
        (Uncounted.lift _).bind (fun entered => ?_)))
    split <;> exact Uncounted.returned _

/-- The best-first loop. -/
theorem beamSearch_uncounted (beam turns : ℕ) (state : BeamState δ) :
    Uncounted (beamSearch rank distances index beam turns state) := by
  induction turns generalizing state with
  | zero => exact Uncounted.lift _
  | succ turns ih =>
    unfold beamSearch
    split
    · exact Uncounted.returned _
    · next current frontier _ =>
      refine (Uncounted.lift _).bind (fun ended => ?_)
      split
      · exact Uncounted.returned _
      · refine Uncounted.bind ?_ ih
        refine Uncounted.bind (Uncounted.updated _ ?_) (fun _ => (Uncounted.lift _).bind
          (fun _ => (Uncounted.lift _).bind (fun _ => Uncounted.foldlM ?_ _ _)))
        · exact fun _ => ⟨rfl,rfl⟩
        · exact visit_uncounted beam

/-- The scan. -/
theorem flatScan_uncounted (beam : ℕ) (routed : Candidate δ) :
    Uncounted (flatScan rank distances index beam routed) := by
  refine Uncounted.bind (Uncounted.foldlM (fun shortlist node => Uncounted.bind ?_
    (fun _ => Uncounted.returned _)) _ _) (fun _ => Uncounted.bind (Uncounted.updated _ ?_)
      (fun _ => Uncounted.returned _))
  · unfold scanDistance
    split
    · exact Uncounted.returned _
    · exact approximateDistance_uncounted _
  · exact fun _ => ⟨rfl,rfl⟩

/-- Selecting the candidates. -/
theorem candidates_uncounted (config : SearchConfig) (routed : Candidate δ) :
    Uncounted (candidates rank distances index config routed) := by
  refine Uncounted.bind ((Uncounted.lift _).bind (fun _ => ?_)) (fun _ => Uncounted.returned _)
  split
  · exact flatScan_uncounted _ _
  · exact beamSearch_uncounted _ _ _

end Counters

section Candidates

variable {δ κ : Type} [LinearOrder κ] {rank : δ → κ} {distances : Distances δ} {index : Index}
  {config : SearchConfig}

/-- What is recomputed: different nodes, within the budget. -/
structure Selected (index : Index) (config : SearchConfig) (found : List (Candidate δ)) : Prop where
  /-- No node is selected twice. -/
  distinct : (found.map Candidate.id).Nodup
  /-- They are nodes. -/
  below : ∀ id∈found.map Candidate.id,id.toNat< index.size
  /-- There are not more of them than the budget. -/
  budget : found.length≤ min config.efSearch.toNat index.size

/-- The first entries of a listing. -/
theorem selected_take {nodes : List (Candidate δ)} (hn : (nodes.map Candidate.id).Nodup)
    (hlt : ∀ id∈nodes.map Candidate.id,id.toNat< index.size) :
    Selected index config ((ranked (fun candidate => candidate.key rank) nodes).take
      (exactBudget config index.size)) := by
  have hp : ((ranked (fun candidate => candidate.key rank) nodes).map Candidate.id).Perm
      (nodes.map Candidate.id) := (ranked_perm nodes).map _
  refine ⟨?_,fun id hid => hlt id ?_,?_⟩
  · rw [List.map_take]
    exact (hp.nodup_iff.mpr hn).sublist (List.take_sublist _ _)
  · rw [List.map_take] at hid
    exact hp.mem_iff.mp (List.mem_of_mem_take hid)
  · rw [List.length_take]
    exact Nat.min_le_left _ _

/-- Either path selects different nodes. -/
theorem selected_of_run (hl : Loadable index) (hc : ValidConfig config) {start : SearchMetrics}
    {found : List (Candidate δ)} {after : SearchMetrics}
    (hrun : (route rank distances index>>=candidates rank distances index config) start=
      .ok (found,after)) : Selected index config found := by
  have ha : Answers distances index.size (fun _ => True) := fun node hn => by
    cases distances.approximate node <;> trivial
  have hef : 0<config.efSearch.toNat := hc.topK_pos.trans_le hc.topK_le
  have hyields : Yields (route rank distances index>>=candidates rank distances index config)
      (fun _ => True) (Selected index config) := by
    refine (route_yields hl ha (fun _ => trivial)).bind (fun routed hr => ?_)
    by_cases hflat : Flat config index.size
    · refine (candidates_flat hflat ha hr.2 hr.1).mono (fun _ hf => hf) (fun found hfound => ?_)
      obtain ⟨nodes,hnodes,rfl⟩ := hfound
      exact selected_take hnodes.nodup (fun id hid => (hnodes.mem_iff id).mp hid)
    · refine (candidates_graph hl hflat hef ha hr.2 hr.1).mono (fun _ hf => hf)
        (fun found hfound => ?_)
      obtain ⟨seen,shortlist,hsettled,rfl⟩ := hfound
      have hnodup : (shortlist.map Candidate.id).Nodup :=
        hsettled.smallest.nodup.map_on (fun first hfirst second hsecond hid =>
          (hsettled.measured first (hsettled.smallest.subset first hfirst)).eq
            (hsettled.measured second (hsettled.smallest.subset second hsecond)) hid)
      refine selected_take hnodup (fun id hid => ?_)
      obtain ⟨candidate,hcandidate,rfl⟩ := List.mem_map.mp hid
      exact reachable_lt hl hr.1
        (hsettled.reached candidate (hsettled.smallest.subset candidate hcandidate))
  exact Ends.of_ok (hyields start) hrun

end Candidates

section Recomputing

variable {δ κ : Type} [LinearOrder κ] {rank : δ → κ} {distances : Distances δ}

/-- One batch with its distances. -/
theorem evaluateBatch_ok {exact : UInt32 → δ} {number : ℕ} {ids : List UInt32} (hne : ids≠[])
    (he : distances.evaluate number ids=.ok (ids.map exact)) (scored : List (SearchResult δ))
    (metrics : SearchMetrics) :
    evaluateBatch distances number scored ids metrics=
      .ok (scored++ids.map (fun id => ⟨exact id,id⟩),
        {metrics with
          embeddingBatches := metrics.embeddingBatches+1
          exactRecomputations := metrics.exactRecomputations+ids.length}) := by
  have hjoined : List.zipWith (fun id distance => (⟨distance,id⟩ : SearchResult δ)) ids
      (ids.map exact)=ids.map (fun id => ⟨exact id,id⟩) := by
    rw [List.zipWith_map_right,List.zipWith_self]
  rw [evaluateBatch,if_neg (by rwa [List.isEmpty_iff]),he,← hjoined]
  rfl

/-- Recomputing, where every batch of candidates has its distances. -/
theorem recompute_ok {exact : UInt32 → δ} {batchSize : ℕ} (hb : 0<batchSize)
    {found : List (Candidate δ)}
    (he : ∀ number ids,(∀ id∈ids,id∈found.map Candidate.id) →
      distances.evaluate number ids=.ok (ids.map exact)) (start : SearchMetrics) :
    recompute distances batchSize found start=
      .ok (found.map (fun candidate => ⟨exact candidate.id,candidate.id⟩),
        {start with
          embeddingBatches := start.embeddingBatches+(found.length+batchSize-1)/batchSize
          exactRecomputations := start.exactRecomputations+found.length}) := by
  have hloop : ∀ count≤(found.length+batchSize-1)/batchSize,
      (List.range count).foldlM (fun scored number => evaluateBatch distances number scored
        (((found.drop (number*batchSize)).take batchSize).map Candidate.id)) [] start=
      .ok ((found.take (count*batchSize)).map (fun candidate => ⟨exact candidate.id,candidate.id⟩),
        {start with
          embeddingBatches := start.embeddingBatches+count
          exactRecomputations := start.exactRecomputations+(found.take (count*batchSize)).length}) := by
    intro count hcount
    induction count with
    | zero => simp; rfl
    | succ count ih =>
      have hlow : count*batchSize<found.length := by
        have hmul := (Nat.le_div_iff_mul_le hb).mp hcount
        rw [Nat.succ_mul] at hmul
        omega
      have hslice : 0<((found.drop (count*batchSize)).take batchSize).length := by
        rw [List.length_take,List.length_drop]
        omega
      have hnext : found.take ((count+1)*batchSize)=
          found.take (count*batchSize)++(found.drop (count*batchSize)).take batchSize := by
        rw [Nat.succ_mul,List.take_add]
      have hmem : ∀ id∈((found.drop (count*batchSize)).take batchSize).map Candidate.id,
          id∈found.map Candidate.id := by
        intro id hid
        obtain ⟨candidate,hcandidate,rfl⟩ := List.mem_map.mp hid
        exact List.mem_map_of_mem (List.mem_of_mem_drop (List.mem_of_mem_take hcandidate))
      rw [List.range_succ,List.foldlM_append,hnext]
      generalize hpart : (found.drop (count*batchSize)).take batchSize=batch at *
      have hbatch : batch.map Candidate.id≠[] := by
        rw [← List.length_pos_iff,List.length_map]
        exact hslice
      refine (bind_eq_ok _ _ _).mpr ⟨_,ih (by omega),?_⟩
      simp only [List.foldlM_cons,List.foldlM_nil,hpart]
      refine (bind_eq_ok _ _ _).mpr ⟨_,evaluateBatch_ok hbatch (he _ _ hmem) _ _,?_⟩
      rw [List.map_map,List.map_append,List.length_append,List.length_map]
      simp only [Nat.add_assoc]
      rfl
  have hall : found.take ((found.length+batchSize-1)/batchSize*batchSize)=found := by
    apply List.take_of_length_le
    have hmod := Nat.div_add_mod (found.length+batchSize-1) batchSize
    have hlt := Nat.mod_lt (found.length+batchSize-1) hb
    rw [Nat.mul_comm] at hmod
    omega
  have hlast := hloop _ (le_refl _)
  rw [hall] at hlast
  exact hlast

end Recomputing

section Results

variable {index : Index} {config : SearchConfig} {documents : DocumentStore}
  {embedder : Embedder} {vector : Text → Embedding}

/-- Every text has its vector, in whatever batch it arrives. -/
def MapsTexts (embedder : Embedder) (vector : Text → Embedding) : Prop :=
  ∀ call texts,embedder.embed call texts=.ok (texts.map vector)

/-- What is promised of the results of a search and of what it counted. -/
structure WellFormed (index : Index) (documents : DocumentStore) (vector : Text → Embedding)
    (config : SearchConfig) (normalized : Embedding) (results : List (SearchResult Single))
    (metrics : SearchMetrics) : Prop where
  /-- No node is returned twice. -/
  distinct : (results.map Candidate.id).Nodup
  /-- The results are nodes. -/
  below : ∀ result∈results,result.id.toNat< index.size
  /-- They are in the order of their distances, equal ones in the order of the nodes. -/
  sorted : results.Pairwise (fun first second => first.key Binary.key<second.key Binary.key)
  /-- A distance is the exact one of the stored text of the node. -/
  exact : ∀ result∈results,
    documentDistance index documents vector normalized result.id=.ok result.distance
  /-- Not more is recomputed than the budget. -/
  budget : metrics.exactRecomputations≤ min config.efSearch.toNat index.size
  /-- The batches are as few as the recomputations allow. -/
  batches : metrics.embeddingBatches=
    (metrics.exactRecomputations+config.recomputeBatchSize.toNat-1)/config.recomputeBatchSize.toNat

/-- A batch of documents that all have a distance. -/
theorem evaluate_ok (hvector : MapsTexts embedder vector) {normalized : Embedding} (number : ℕ)
    {ids : List UInt32} (h : ∀ id∈ids,documentDistance index documents vector normalized id=
      .ok (distanceOf index documents vector normalized id)) :
    evaluate index embedder documents normalized number ids=
      .ok (ids.map (distanceOf index documents vector normalized)) := by
  have htexts : ∃ texts,documents.readMany ids=.ok texts ∧ texts.length=ids.length ∧
      (texts.map vector).mapM (exactDistance index normalized)=
        .ok (ids.map (distanceOf index documents vector normalized)) := by
    induction ids with
    | nil => exact ⟨[],rfl,rfl,rfl⟩
    | cons id ids ih =>
      rw [List.forall_mem_cons] at h
      obtain ⟨texts,hread,hlength,hdistances⟩ := ih h.2
      obtain ⟨text,htext,hdistance⟩ := (bind_eq_ok _ _ _).mp h.1
      refine ⟨text::texts,?_,by rw [List.length_cons,List.length_cons,hlength],?_⟩
      · rw [DocumentStore.readMany,htext]
        simp only [bind,Except.bind,hread]
        rfl
      · rw [List.map_cons,List.mapM_cons,hdistance,hdistances]
        rfl
  obtain ⟨texts,hread,hlength,hdistances⟩ := htexts
  have hcount : throwIf ((texts.map vector).length≠ids.length)
      (runtimeError "embedder returned the wrong batch size")=.ok () :=
    (throwIf_ok _ _ ()).mpr (not_not_intro (by rw [List.length_map,hlength]))
  rw [evaluate,hread]
  simp only [bind,Except.bind,hvector number texts,hcount,hdistances]

/-- What a search of the nodes did, once it has returned. -/
theorem searchNodes_run (hl : Loadable index) (hc : ValidConfig config)
    (hvector : MapsTexts embedder vector) {normalized : Embedding}
    {approximate : UInt32 → Except Fault Single} {results : List (SearchResult Single)}
    {metrics : SearchMetrics}
    (hrun : searchNodes Binary.key (searchDistances index embedder documents normalized approximate)
      index config {}=.ok (results,metrics)) :
    WellFormed index documents vector config normalized results metrics ∧
      ∀ size : UInt32,0<size.toNat → ∃ metrics',
        searchNodes Binary.key (searchDistances index embedder documents normalized approximate)
          index {config with recomputeBatchSize := size} {}=.ok (results,metrics') ∧
        metrics'.exactRecomputations=metrics.exactRecomputations := by
  have hpure : PureEmbedder embedder vector := by
    intro call texts vectors h
    rw [hvector call texts] at h
    exact (Except.ok.inj h).symm
  obtain ⟨⟨routed,routing⟩,hroute,hafter⟩ := (bind_eq_ok _ _ _).mp hrun
  obtain ⟨⟨found,selecting⟩,hselect,hrerank⟩ := (bind_eq_ok _ _ _).mp hafter
  obtain ⟨⟨scored,recomputing⟩,hrecompute,hreturn⟩ := (bind_eq_ok _ _ _).mp hrerank
  have hselected : Selected index config found :=
    selected_of_run hl hc ((bind_eq_ok _ _ _).mpr ⟨_,hroute,hselect⟩)
  have hcounts : selecting.exactRecomputations=0 ∧ selecting.embeddingBatches=0 := by
    have hrouting := route_uncounted _ _ _ hroute
    have hselecting := candidates_uncounted config routed _ _ _ hselect
    exact ⟨hselecting.1.trans hrouting.1,hselecting.2.trans hrouting.2⟩
  have hscored : Scored (fun id distance =>
      documentDistance index documents vector normalized id=.ok distance)
      (found.map Candidate.id) scored := by
    have hevaluates : Evaluates (searchDistances index embedder documents normalized approximate)
        (fun id distance => documentDistance index documents vector normalized id=.ok distance)
        (fun _ => True) := by
      intro number ids
      change Ends (evaluate index embedder documents normalized number ids) _ _
      cases h : evaluate index embedder documents normalized number ids with
      | ok distances => exact evaluate_documents hpure h
      | error fault => trivial
    exact Ends.of_ok (recompute_yields hevaluates hc.batch_pos found selecting) hrecompute
  have hdocuments : ∀ id∈found.map Candidate.id,documentDistance index documents vector normalized id=
      .ok (distanceOf index documents vector normalized id) := by
    intro id hid
    rw [← hscored.ids_eq] at hid
    obtain ⟨result,hresult,rfl⟩ := List.mem_map.mp hid
    have hdistance := hscored.scored result hresult
    rw [distanceOf,hdistance]
    rfl
  have hbatches : ∀ number ids,(∀ id∈ids,id∈found.map Candidate.id) →
      (searchDistances index embedder documents normalized approximate).evaluate number ids=
        .ok (ids.map (distanceOf index documents vector normalized)) :=
    fun number ids hids => evaluate_ok hvector number (fun id hid => hdocuments id (hids id hid))
  rw [recompute_ok hc.batch_pos hbatches selecting,Except.ok.injEq,Prod.mk.injEq] at hrecompute
  obtain ⟨hscores,hcounted⟩ := hrecompute
  cases hreturn
  constructor
  · have hids : (scored.map Candidate.id).Nodup := hscored.ids_eq.symm▸hselected.distinct
    have hmem : ∀ result∈(ranked (fun result => result.key Binary.key) scored).take
        config.topK.toNat,result∈scored :=
      fun result hresult => mem_ranked.mp (List.mem_of_mem_take hresult)
    refine ⟨?_,fun result hresult => ?_,?_,fun result hresult => ?_,?_,?_⟩
    · rw [List.map_take]
      exact (((ranked_perm scored).map _).nodup_iff.mpr hids).sublist (List.take_sublist _ _)
    · refine hselected.below _ ?_
      rw [← hscored.ids_eq]
      exact List.mem_map_of_mem (hmem result hresult)
    · exact (ranked_strict (keys_nodup Binary.key hids)).sublist (List.take_sublist _ _)
    · exact hscored.scored result (hmem result hresult)
    · rw [← hcounted,hcounts.1,Nat.zero_add]
      exact hselected.budget
    · rw [← hcounted,hcounts.1,hcounts.2,Nat.zero_add,Nat.zero_add]
  · intro size hsize
    refine ⟨{selecting with
      embeddingBatches := selecting.embeddingBatches+(found.length+size.toNat-1)/size.toNat
      exactRecomputations := selecting.exactRecomputations+found.length},?_,?_⟩
    · refine (bind_eq_ok _ _ _).mpr ⟨_,hroute,(bind_eq_ok _ _ _).mpr ⟨_,hselect,
        (bind_eq_ok _ _ _).mpr ⟨_,recompute_ok hsize hbatches selecting,?_⟩⟩⟩
      rw [← hscores]
      rfl
    · rw [← hcounted]

/-- Another size of the batches is as valid. -/
theorem validateSearchConfig_batch {size : UInt32} (hsize : size≠0)
    (h : validateSearchConfig config=.ok ()) :
    validateSearchConfig {config with recomputeBatchSize := size}=.ok () := by
  simp only [validateSearchConfig,bind_eq_ok,throwIf_ok] at h ⊢
  obtain ⟨_,htop,_,-,hratio⟩ := h
  exact ⟨(),htop,(),hsize,hratio⟩

/-- A search for an embedding. -/
theorem searchEmbedding_wellFormed (hl : Loadable index) (hvector : MapsTexts embedder vector)
    {query : Embedding} {results : List (SearchResult Single)} {metrics : SearchMetrics}
    (hrun : searchEmbedding index query embedder documents config=.ok (results,metrics)) :
    ∃ normalized,normalize query=.ok normalized ∧
      WellFormed index documents vector config normalized results metrics ∧
      ∀ size : UInt32,size≠0 → ∃ metrics',
        searchEmbedding index query embedder documents {config with recomputeBatchSize := size}=
          .ok (results,metrics') ∧ metrics'.exactRecomputations=metrics.exactRecomputations := by
  simp only [searchEmbedding,bind_eq_ok] at hrun ⊢
  obtain ⟨_,hstore,_,hconfig,_,hfingerprint,_,hdimension,_,hfinite,normalized,hnormalized,
    approximate,happroximate,hnodes⟩ := hrun
  obtain ⟨hformed,hsizes⟩ := searchNodes_run hl (validConfig_of_ok hconfig) hvector hnodes
  refine ⟨normalized,hnormalized,hformed,fun size hsize => ?_⟩
  have hpositive : 0<size.toNat :=
    Nat.pos_of_ne_zero (fun h => hsize (UInt32.toNat_inj.mp h))
  obtain ⟨metrics',hrun',hsame⟩ := hsizes size hpositive
  exact ⟨metrics',⟨_,hstore,_,validateSearchConfig_batch hsize hconfig,_,hfingerprint,_,hdimension,
    _,hfinite,normalized,hnormalized,approximate,happroximate,hrun'⟩,hsame⟩

/-- A search that returns has different nodes of the index for its results, in
the order of their distances and ids. Each distance is the exact one of the
text stored for the node, not more is recomputed than the budget, in as few
batches as that takes, and with batches of any other size the results and the
number of recomputations are the same. This holds for a query that is an
embedding and for one that is a text. -/
theorem search_wellFormed {path : Text} {file : List UInt8} (hload : load path file=.ok index)
    (hvector : MapsTexts embedder vector) {results : List (SearchResult Single)}
    {metrics : SearchMetrics} :
    (∀ query,searchEmbedding index query embedder documents config=.ok (results,metrics) →
      ∃ normalized,normalize query=.ok normalized ∧
        WellFormed index documents vector config normalized results metrics ∧
        ∀ size : UInt32,size≠0 → ∃ metrics',
          searchEmbedding index query embedder documents {config with recomputeBatchSize := size}=
            .ok (results,metrics') ∧ metrics'.exactRecomputations=metrics.exactRecomputations) ∧
    ∀ query,search index query embedder documents config=.ok (results,metrics) →
      ∃ embedding normalized,normalize (vector query)=.ok embedding ∧
        normalize embedding=.ok normalized ∧
        WellFormed index documents vector config normalized results metrics ∧
        ∀ size : UInt32,size≠0 → ∃ metrics',
          search index query embedder documents {config with recomputeBatchSize := size}=
            .ok (results,metrics') ∧ metrics'.exactRecomputations=metrics.exactRecomputations := by
  obtain ⟨hl,-,-,-⟩ := (load_ok _ _ _).mp hload
  refine ⟨fun query hrun => searchEmbedding_wellFormed hl hvector hrun,fun query hrun => ?_⟩
  simp only [search,bind_eq_ok] at hrun ⊢
  obtain ⟨_,hstore,_,hconfig,_,hfingerprint,_,hdimension,embeddings,hembed,_,hcount,embedding,helement,
    _,hvalid,normalized,hnormalized,hsearch⟩ := hrun
  have hshifted : MapsTexts {embedder with embed := fun call => embedder.embed (call+1)} vector :=
    fun call texts => hvector (call+1) texts
  obtain ⟨again,hagain,hformed,hsizes⟩ := searchEmbedding_wellFormed hl hshifted hsearch
  have hvectorOf : embedding=vector query := by
    rw [hvector 0 [query],Except.ok.injEq] at hembed
    rw [← hembed,element_ok] at helement
    exact (Option.some.inj helement).symm
  rw [hvectorOf] at hnormalized hvalid helement
  refine ⟨normalized,again,hnormalized,hagain,hformed,fun size hsize => ?_⟩
  obtain ⟨metrics',hrun',hsame⟩ := hsizes size hsize
  exact ⟨metrics',⟨_,hstore,_,validateSearchConfig_batch hsize hconfig,_,hfingerprint,_,hdimension,
    embeddings,hembed,_,hcount,vector query,helement,_,hvalid,normalized,hnormalized,hrun'⟩,hsame⟩

/-- An embedder with one vector for the index of two nodes. -/
def pairEmbedder : Embedder :=
  ⟨2,pairIndex.embedderFingerprint,fun _ texts => .ok (texts.map (fun _ => [1,0]))⟩

/-- Two results out of two candidates, on the graph path, one by one. -/
def pairBatches : SearchConfig := ⟨2,2,1,0,1⟩

/-- A search in the index of two nodes returns, with batches of any size. -/
theorem search_wellFormed_pair :
    ∃ results metrics embedding normalized,
      search pairIndex [] pairEmbedder pairDocuments pairBatches=.ok (results,metrics) ∧
      normalize [1,0]=.ok embedding ∧ normalize embedding=.ok normalized ∧
      WellFormed pairIndex pairDocuments (fun _ => [1,0]) pairBatches normalized results metrics ∧
      ∀ size : UInt32,size≠0 → ∃ metrics',
        search pairIndex [] pairEmbedder pairDocuments {pairBatches with recomputeBatchSize := size}=
          .ok (results,metrics') ∧ metrics'.exactRecomputations=metrics.exactRecomputations := by
  have hmaps : MapsTexts pairEmbedder (fun _ => [1,0]) := fun _ _ => rfl
  have hreturns : (search pairIndex [] pairEmbedder pairDocuments pairBatches).toOption.isSome=true := by
    decide +kernel
  cases hrun : search pairIndex [] pairEmbedder pairDocuments pairBatches with
  | error fault =>
    rw [hrun] at hreturns
    cases hreturns
  | ok outcome =>
    obtain ⟨embedding,normalized,hembedding,hnormalized,hformed,hsizes⟩ :=
      (search_wellFormed pairIndex_load hmaps).2 [] hrun
    exact ⟨outcome.1,outcome.2,embedding,normalized,rfl,hembedding,hnormalized,hformed,hsizes⟩

end Results

end Leann.BatchSizes
