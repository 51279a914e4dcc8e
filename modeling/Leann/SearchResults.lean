import Leann.Preparation
import Leann.Ranking

/-!
# What a search returns

The flat path lists the nearest recomputed candidates of the nearest
shortlisted ones, whatever the graph looks like. With a beam as long as the
index has nodes, the graph path shortlists exactly what is reachable, and
agrees with the flat path where that is everything.
-/

namespace Leann.SearchResults

open BinaryFloat Exceptions Outcomes Documents IndexFile Embeddings ProductQuantizer Search Routing
  Preparation Shortlists Ranking Selection

section Nearest

variable {δ κ : Type} [LinearOrder κ] {rank : δ → κ} {distances : Distances δ} {size : ℕ}

/-- The nodes of an index with so many. -/
def allNodes (size : ℕ) : List UInt32 := (List.range size).map UInt32.ofNat

/-- The nearest of some nodes by a distance, equal ones in the order of the
nodes. -/
def nearest (rank : δ → κ) (distance : UInt32 → δ) (count : ℕ) (ids : List UInt32) :
    List (Candidate δ) :=
  (ranked (fun candidate => candidate.key rank) (ids.map (fun id => ⟨distance id,id⟩))).take count

theorem mem_allNodes (node : UInt32) : node∈allNodes size ↔ node.toNat<size := by
  rw [allNodes,List.mem_map]
  constructor
  · intro hm
    obtain ⟨number,hn,he⟩ := hm
    rw [List.mem_range] at hn
    rw [←he,UInt32.toNat_ofNat']
    exact (Nat.mod_le _ _).trans_lt hn
  · intro hlt
    exact ⟨node.toNat,List.mem_range.mpr hlt,UInt32.ofNat_toNat⟩

theorem allNodes_nodup (hs : size≤2^32) : (allNodes size).Nodup := by
  refine List.Nodup.map_on (fun first hf second hl he => ?_) List.nodup_range
  rw [List.mem_range] at hf hl
  rw [←UInt32.toNat_inj,UInt32.toNat_ofNat',UInt32.toNat_ofNat'] at he
  omega

omit [LinearOrder κ] in
/-- The nodes of a list with their distances have different keys. -/
theorem keys_of_nodup (rank : δ → κ) (distance : UInt32 → δ) {ids : List UInt32} (h : ids.Nodup) :
    (((ids.map (fun id => (⟨distance id,id⟩ : Candidate δ))).map
      (fun candidate => candidate.key rank))).Nodup :=
  keys_nodup rank (by simpa [List.map_map,Function.comp_def] using h)

/-- The order of the same candidates does not matter. -/
theorem ranked_eq_of_perm {first second : List (Candidate δ)} (h : first.Perm second)
    (hn : (first.map (fun candidate => candidate.key rank)).Nodup) :
    ranked (fun candidate => candidate.key rank) first=
      ranked (fun candidate => candidate.key rank) second :=
  eq_of_perm ((ranked_perm first).trans (h.trans (ranked_perm second).symm)) (ranked_strict hn)
    (ranked_strict ((h.map _).nodup_iff.mp hn))

/-- The nearest nodes do not depend on the order they are listed in. -/
theorem nearest_eq_of_perm (distance : UInt32 → δ) (count : ℕ) {ids ids' : List UInt32}
    (h : ids.Perm ids') (hn : ids.Nodup) :
    nearest rank distance count ids=nearest rank distance count ids' := by
  rw [nearest,nearest,ranked_eq_of_perm (h.map _) (keys_of_nodup rank distance hn)]

/-- The nearest nodes are nodes of the list. -/
theorem nearest_ids_perm (distance : UInt32 → δ) {count : ℕ} {ids : List UInt32}
    (hc : ids.length≤ count) : ((nearest rank distance count ids).map Candidate.id).Perm ids := by
  have hl : (ranked (fun candidate => candidate.key rank)
      (ids.map (fun id => (⟨distance id,id⟩ : Candidate δ)))).length≤ count := by
    rw [ranked_length,List.length_map]
    exact hc
  have hp : ((ranked (fun candidate => candidate.key rank)
      (ids.map (fun id => (⟨distance id,id⟩ : Candidate δ)))).map Candidate.id).Perm _ :=
    (ranked_perm _).map Candidate.id
  rw [nearest,List.take_of_length_le hl]
  simpa [List.map_map,Function.comp_def] using hp

/-- The approximate distances of listed nodes are the values of a function. -/
theorem listing_distance {nodes : List (Candidate δ)} {among : UInt32 → Prop}
    (h : Listing distances nodes among) (default : δ) : ∃ approximate : UInt32 → δ,
      (∀ node,among node → distances.approximate node=.ok (approximate node)) ∧
      nodes=(nodes.map Candidate.id).map (fun id => ⟨approximate id,id⟩) := by
  have hall : ∀ node,∃ distance,among node → distances.approximate node=.ok distance := by
    intro node
    by_cases hn : among node
    · obtain ⟨candidate,hc,he⟩ := List.mem_map.mp ((h.mem_iff node).mpr hn)
      exact ⟨candidate.distance,fun _ => he ▸ h.measured candidate hc⟩
    · exact ⟨default,fun hn' => absurd hn' hn⟩
  choose approximate happroximate using hall
  refine ⟨approximate,happroximate,?_⟩
  rw [List.map_map]
  refine (List.map_id nodes).symm.trans (List.map_congr_left (fun candidate hc => ?_))
  have hmem := (h.mem_iff candidate.id).mp (List.mem_map_of_mem hc)
  have hsame : Measured distances ⟨approximate candidate.id,candidate.id⟩ :=
    happroximate candidate.id hmem
  exact (h.measured candidate hc).eq hsame rfl

/-- Results whose distances are the values of a function. -/
theorem scored_eq_map {exact : UInt32 → δ} {ids : List UInt32} {results : List (SearchResult δ)}
    (h : Scored (fun id distance => distance=exact id) ids results) :
    results=ids.map (fun id => ⟨exact id,id⟩) := by
  rw [←h.ids_eq,List.map_map]
  refine (List.map_id results).symm.trans (List.map_congr_left (fun result hr => ?_))
  change result=⟨exact result.id,result.id⟩
  rw [←h.scored result hr]

end Nearest

section BruteForce

variable {δ κ : Type} [LinearOrder κ] {rank : δ → κ} {distances : Distances δ} {index : Index}
  {config : SearchConfig}

/-- How the choice of candidates may fail: at a layer that misses a node, if
the layers are not nested, or as an approximate distance fails. -/
def SelectionFails (index : Index) (distances : Distances δ) (fault : Fault) : Prop :=
  fault=.thrown routeError ∧ ¬Nested index ∨
    ∃ node : UInt32,node.toNat< index.size ∧ distances.approximate node=.error fault

/-- How a search may fail: besides, as a batch fails. -/
def SearchFails (index : Index) (distances : Distances δ) (fault : Fault) : Prop :=
  SelectionFails index distances fault ∨ ∃ number ids,distances.evaluate number ids=.error fault

theorem selectionFails_route (hn : ¬Nested index) :
    SelectionFails index distances (.thrown routeError) := Or.inl ⟨rfl,hn⟩

/-- Approximate distances fail in an allowed way. -/
theorem answers_selectionFails : Answers distances index.size (SelectionFails index distances) := by
  intro node hn
  cases ha : distances.approximate node with
  | ok distance => trivial
  | error fault => exact Or.inr ⟨node,hn,ha⟩

theorem answers_searchFails : Answers distances index.size (SearchFails index distances) :=
  fun node hn => (answers_selectionFails node hn).mono (fun _ h => Or.inl h) (fun _ h => h)

/-- The distances of a batch are those of its nodes, or fail in an allowed
way. -/
theorem evaluates_searchFails {exact : UInt32 → δ}
    (hpure : ∀ number ids found,distances.evaluate number ids=.ok found → found=ids.map exact) :
    Evaluates distances (fun id distance => distance=exact id) (SearchFails index distances) := by
  intro number ids
  cases he : distances.evaluate number ids with
  | ok found =>
    change List.Forall₂ _ ids found
    rw [hpure number ids found he,List.forall₂_map_right_iff]
    exact List.forall₂_same.mpr (fun _ _ => rfl)
  | error fault => exact Or.inr ⟨number,ids,he⟩

/-- All approximate distances exist, and these are the nearest nodes. -/
def Shortlists (rank : δ → κ) (distances : Distances δ) (index : Index) (config : SearchConfig)
    (found : List (Candidate δ)) : Prop :=
  ∃ approximate : UInt32 → δ,
    (∀ node : UInt32,node.toNat< index.size → distances.approximate node=.ok (approximate node)) ∧
    found=nearest rank approximate (exactBudget config index.size) (allNodes index.size)

/-- What the flat path lists is a prefix of all nodes in their order. -/
theorem flatCandidates_shortlists {found : List (Candidate δ)} (hsize : index.size≤2^32)
    (hpos : 0< index.size) (h : FlatCandidates rank distances index config found) :
    Shortlists rank distances index config found := by
  obtain ⟨nodes,hnodes,hfound⟩ := h
  have hlen := ncard_below hnodes hsize
  cases hcase : nodes with
  | nil =>
    rw [hcase] at hlen
    simp at hlen
    omega
  | cons first rest =>
    obtain ⟨approximate,happroximate,heq⟩ := listing_distance hnodes first.distance
    refine ⟨approximate,happroximate,?_⟩
    have hperm : (nodes.map Candidate.id).Perm (allNodes index.size) :=
      (List.perm_ext_iff_of_nodup hnodes.nodup (allNodes_nodup hsize)).mpr
        (fun node => (hnodes.mem_iff node).trans (mem_allNodes node).symm)
    rw [hfound,←nearest_eq_of_perm approximate _ hperm hnodes.nodup,nearest,←heq]

/-- The nearest recomputed candidates of a shortlist. -/
def Results (rank : δ → κ) (exact : UInt32 → δ) (config : SearchConfig) (found : List (Candidate δ))
    (results : List (SearchResult δ)) : Prop :=
  results=nearest rank exact config.topK.toNat (found.map Candidate.id)

/-- The flat path refines brute force. The candidates it recomputes are the
nearest nodes by approximate distance, the results the nearest of these by
exact distance, and the nearest of all nodes when all are recomputed. -/
theorem flatSearch_refines (hl : Loadable index) (hc : validateSearchConfig config=.ok ())
    (hflat : Flat config index.size) {exact : UInt32 → δ}
    (hpure : ∀ number ids found,distances.evaluate number ids=.ok found → found=ids.map exact) :
    Yields (route rank distances index>>=candidates rank distances index config)
      (SelectionFails index distances) (Shortlists rank distances index config) ∧
    Yields (searchNodes rank distances index config) (SearchFails index distances) (fun results =>
      (∃ found,Shortlists rank distances index config found ∧
        Results rank exact config found results) ∧
      (index.size≤ config.efSearch.toNat →
        results=nearest rank exact config.topK.toNat (allNodes index.size))) := by
  have hvalid := validConfig_of_ok hc
  have hlt := config.approximateScanLimit.toNat_lt
  have hsize : index.size≤2^32 := hflat.2.trans hlt.le
  have hpos : 0< index.size := (Nat.zero_le _).trans_lt hl.entry_lt
  constructor
  · refine (route_yields hl answers_selectionFails selectionFails_route).bind (fun routed hr => ?_)
    exact (candidates_flat hflat answers_selectionFails hr.2 hr.1).mono (fun _ h => h)
      (fun found hf => flatCandidates_shortlists hsize hpos hf)
  · refine (searchNodes_flat hl hvalid hflat answers_searchFails (evaluates_searchFails hpure)
      (fun hn => Or.inl (selectionFails_route hn))).mono (fun _ h => h) (fun results hr => ?_)
    obtain ⟨found,scored,hf,hscored,hresults⟩ := hr
    have hshort := flatCandidates_shortlists hsize hpos hf
    have hnearest : Results rank exact config found results := by
      rw [Results,nearest,←scored_eq_map hscored]
      exact hresults
    refine ⟨⟨found,hshort,hnearest⟩,fun hall => ?_⟩
    obtain ⟨approximate,-,hfound⟩ := hshort
    have hlen : (allNodes index.size).length≤exactBudget config index.size := by
      rw [allNodes,List.length_map,List.length_range,exactBudget]
      omega
    have hperm : ((nearest rank approximate _ _).map Candidate.id).Perm _ :=
      nearest_ids_perm approximate hlen
    rw [←hfound] at hperm
    rw [hnearest]
    exact nearest_eq_of_perm exact _ hperm (hperm.nodup_iff.mpr (allNodes_nodup hsize))

end BruteForce

section Saturated

variable {δ κ : Type} [LinearOrder κ] {rank : δ → κ} {distances : Distances δ} {index : Index}
  {config : SearchConfig}

/-- An edge of the base graph. -/
def BaseEdge (index : Index) (node next : UInt32) : Prop :=
  ∃ first last edge,index.offsets[node.toNat]?=some first ∧
    index.offsets[node.toNat+1]?=some last ∧ first.toNat≤edge ∧ edge<last.toNat ∧
    index.edges[edge]?=some next

/-- A node at the end of a path in the base graph. -/
def BaseReachable (index : Index) (start node : UInt32) : Prop :=
  Relation.ReflTransGen (BaseEdge index) start node

/-- The loop reads the rows of the base graph when node numbers do not wrap
around. -/
theorem adjacent_iff (hl : Loadable index) (hsize : index.size<2^32) (node next : UInt32) :
    Adjacent index node next ↔ BaseEdge index node next := by
  have hlen := hl.rows.offsets_length
  by_cases hn : node.toNat+1<2^32
  · have hnext : (node+1).toNat=node.toNat+1 := by
      rw [UInt32.toNat_add]
      exact Nat.mod_eq_of_lt hn
    rw [Adjacent,BaseEdge,hnext]
  · have hlt := node.toNat_lt
    have hnext : (node+1).toNat=0 := by
      rw [UInt32.toNat_add,show node.toNat=2^32-1 by omega]
      rfl
    have hzero : index.offsets[0]?=some 0 := by
      rw [←List.head?_eq_getElem?]
      exact hl.rows.spanning.1
    constructor
    · intro h
      obtain ⟨_,last,_,-,hlast,-,hhigh,-⟩ := h
      rw [hnext,hzero,Option.some.injEq] at hlast
      rw [←hlast] at hhigh
      exact absurd hhigh (Nat.not_lt_zero _)
    · intro h
      obtain ⟨_,_,_,-,hlast,-⟩ := h
      obtain ⟨hin,-⟩ := List.getElem?_eq_some_iff.mp hlast
      omega

/-- So the loop reaches what the base graph does. -/
theorem reachable_iff (hl : Loadable index) (hsize : index.size<2^32) (start node : UInt32) :
    Reachable index start node ↔ BaseReachable index start node := by
  have heq : Adjacent index=BaseEdge index :=
    funext (fun first => funext (fun next => propext (adjacent_iff hl hsize first next)))
  rw [Reachable,BaseReachable,heq]

/-- A listing of the same nodes. -/
theorem listing_congr {nodes : List (Candidate δ)} {among among' : UInt32 → Prop}
    (h : Listing distances nodes among) (hiff : ∀ node,among node ↔ among' node) :
    Listing distances nodes among' :=
  ⟨h.measured,h.nodup,fun node => (h.mem_iff node).trans (hiff node)⟩

/-- Listed nodes have approximate distances. -/
theorem listing_answers {nodes : List (Candidate δ)} {size : ℕ}
    (h : Listing distances nodes (fun node => node.toNat<size)) :
    Answers distances size (fun _ => False) := by
  intro node hn
  obtain ⟨candidate,hc,he⟩ := List.mem_map.mp ((h.mem_iff node).mpr hn)
  have hm := h.measured candidate hc
  rw [Measured,he] at hm
  rw [hm]
  trivial

/-- A search with a beam as long as there are nodes ends with everything
reachable. -/
theorem settled_listing {start : UInt32} {seen found : List (Candidate δ)}
    (h : Settled rank distances index index.size start seen found) :
    Listing distances found (Reachable index start) :=
  h.listing (h.smallest.perm_seen (Or.inr h.length_le))

/-- The same search on the graph path. -/
def onGraph (config : SearchConfig) : SearchConfig := {config with approximateScanLimit := 0}

theorem not_flat_onGraph (config : SearchConfig) (size : ℕ) : ¬Flat (onGraph config) size :=
  fun h => absurd h.1 (lt_irrefl 0)

/-- With a saturated beam both paths recompute the same candidates. -/
theorem candidates_agree (hl : Loadable index) (hc : ValidConfig config)
    (hflat : Flat config index.size) (hbeam : approximateBeam config index.size=index.size)
    {failure : Fault} (ha : Answers distances index.size (fun fault => fault=failure))
    {routed : Candidate δ} (hm : Measured distances routed) (hlt : routed.id.toNat< index.size)
    (hreach : ∀ node : UInt32,node.toNat< index.size → Reachable index routed.id node) :
    Agree (candidates rank distances index config routed)
      (candidates rank distances index (onGraph config) routed) := by
  have hef : 0<(onGraph config).efSearch.toNat := hc.topK_pos.trans_le hc.topK_le
  have hgraph := not_flat_onGraph config index.size
  have hall : ∀ node,Reachable index routed.id node ↔ node.toNat< index.size :=
    fun node => ⟨reachable_lt hl hlt,hreach node⟩
  have hlisting : ∀ {found : List (Candidate δ)},
      GraphCandidates rank distances index (onGraph config) routed.id found →
      ∃ nodes,Listing distances nodes (fun node => node.toNat< index.size) ∧
        found=(ranked (fun candidate => candidate.key rank) nodes).take
          (exactBudget config index.size) := fun hfound => by
    obtain ⟨seen,nodes,hsettled,heq⟩ := hfound
    have hbeam' : approximateBeam (onGraph config) index.size=index.size := hbeam
    rw [hbeam'] at hsettled
    exact ⟨nodes,listing_congr (settled_listing hsettled) hall,heq⟩
  intro start start'
  have hrun : Meets (candidates rank distances index config routed) start _ _ :=
    candidates_flat hflat ha hm hlt start
  have hrun' : Meets (candidates rank distances index (onGraph config) routed) start' _ _ :=
    candidates_graph hl hgraph hef ha hm hlt start'
  cases h : candidates rank distances index config routed start with
  | ok result =>
    obtain ⟨nodes,hnodes,heq⟩ : FlatCandidates rank distances index config result.1 :=
      Ends.of_ok hrun h
    have hsure : Meets (candidates rank distances index (onGraph config) routed) start' _ _ :=
      candidates_graph hl hgraph hef (listing_answers hnodes) hm hlt start'
    obtain ⟨result',h',hfound'⟩ := hsure.returns
    obtain ⟨nodes',hnodes',heq'⟩ := hlisting hfound'
    have hperm := hnodes.perm hnodes'
    have hsame := ranked_eq_of_perm hperm (keys_nodup rank hnodes.nodup)
    rw [h']
    change Except.ok result.1=Except.ok result'.1
    rw [heq,heq',hsame]
  | error fault =>
    cases h' : candidates rank distances index (onGraph config) routed start' with
    | ok result' =>
      obtain ⟨nodes',hnodes',-⟩ := hlisting (Ends.of_ok hrun' h')
      have hsure : Meets (candidates rank distances index config routed) start _ _ :=
        candidates_flat hflat (listing_answers hnodes') hm hlt start
      obtain ⟨result,hok,-⟩ := hsure.returns
      rw [h] at hok
      cases hok
    | error fault' =>
      have hf : fault=failure := Ends.of_error hrun h
      have hf' : fault'=failure := Ends.of_error hrun' h'
      rw [hf,hf']

/-- With a saturated beam and everything in reach both paths agree. -/
theorem searchNodes_agree (hl : Loadable index) (hc : ValidConfig config)
    (hflat : Flat config index.size) (hbeam : approximateBeam config index.size=index.size)
    {failure : Fault} (ha : Answers distances index.size (fun fault => fault=failure))
    (hreach : ∀ routed,RoutesTo rank distances index routed → ∀ node : UInt32,
      node.toNat< index.size → BaseReachable index routed.id node) :
    Agree (searchNodes rank distances index config)
      (searchNodes rank distances index (onGraph config)) := by
  have hsize : index.size<2^32 := hflat.2.trans_lt config.approximateScanLimit.toNat_lt
  refine Agree.bind (route_oblivious index) (fun routed hrouted => ?_)
  obtain ⟨start,state,hrun⟩ := hrouted
  have hr : routed.id.toNat< index.size ∧ Measured distances routed :=
    Ends.of_ok (@route_yields _ _ _ rank _ _ (fun _ => True) hl
      (fun node hn => (ha node hn).mono (fun _ _ => trivial) (fun _ h => h)) (fun _ => trivial) start) hrun
  refine Agree.bind (candidates_agree hl hc hflat hbeam ha hr.2 hr.1 (fun node hn => ?_))
    (fun found _ => rerank_oblivious config found)
  exact (reachable_iff hl hsize _ _).mpr (hreach routed ⟨start,state,hrun⟩ node hn)

/-- What the graph path shortlists with a saturated beam. -/
theorem shortlist_saturated (hl : Loadable index) (hc : ValidConfig config)
    (hsize : index.size<2^32) (hgraph : ¬Flat config index.size)
    (hbeam : approximateBeam config index.size=index.size) :
    Yields (do
        let routed ← route rank distances index
        let found ← shortlist rank distances index config routed
        return (routed,found)) (SelectionFails index distances) (fun result =>
      RoutesTo rank distances index result.1 ∧
      ∀ node,node∈result.2.map Candidate.id ↔ BaseReachable index result.1.id node) := by
  have hef : 0<config.efSearch.toNat := hc.topK_pos.trans_le hc.topK_le
  refine (route_yields hl answers_selectionFails selectionFails_route).reached.bind
    (fun routed hr => ?_)
  obtain ⟨⟨hlt,hm⟩,hrun⟩ := hr
  refine (shortlist_graph hl hgraph hef answers_selectionFails hm hlt).bind
    (fun found hf => Yields.returned ⟨hrun,?_⟩)
  obtain ⟨seen,hsettled⟩ := hf
  rw [hbeam] at hsettled
  exact fun node => ((settled_listing hsettled).mem_iff node).trans (reachable_iff hl hsize _ _)

end Saturated

section Float

variable {index : Index} {documents : DocumentStore} {embedder : Embedder} {config : SearchConfig}
  {query : Embedding}

/-- The distances a search of the code asks for. -/
def searchDistances (index : Index) (embedder : Embedder) (documents : DocumentStore)
    (normalized : Embedding) (approximate : UInt32 → Except Fault Single) : Distances Single :=
  ⟨approximate,evaluate index embedder documents normalized⟩

/-- What stands before the search of the nodes. -/
theorem searchEmbedding_eq
    (hdocuments : validateDocumentStore index documents=.ok ())
    (hconfig : validateSearchConfig config=.ok ())
    (hfingerprint : embedder.fingerprint=index.embedderFingerprint)
    (hdimension : embedder.dimension=index.dimension.toNat)
    (hlen : query.length=index.dimension.toNat) (hfinite : ∀ value∈query,value.Finite) :
    searchEmbedding index query embedder documents config=(do
      let normalized ← normalize query
      let approximate ← prepareDistance index normalized
      searchNodes Binary.key (searchDistances index embedder documents normalized approximate) index
        config {}) := by
  have hf : throwIf (embedder.fingerprint≠index.embedderFingerprint)
      (fingerprintMismatch index embedder)=.ok () := (throwIf_ok _ _ _).mpr (not_not.mpr hfingerprint)
  have hd : throwIf (query.length≠index.dimension.toNat ∨ embedder.dimension≠index.dimension.toNat)
      (invalidArgument "query embedding dimension mismatch")=.ok () :=
    (throwIf_ok _ _ _).mpr (by rw [not_or,not_not,not_not]; exact ⟨hlen,hdimension⟩)
  have hq : throwIf (¬∀ value∈query,value.Finite)
      (invalidArgument "query embedding contains NaN or infinity")=.ok () :=
    (throwIf_ok _ _ _).mpr (not_not.mpr hfinite)
  rw [searchEmbedding,hdocuments,hconfig,hf,hd,hq]
  rfl

/-- A search that returns has passed its checks. -/
theorem searchEmbedding_checked {outcome : List (SearchResult Single)×SearchMetrics}
    (h : searchEmbedding index query embedder documents config=.ok outcome) :
    query.length=index.dimension.toNat ∧ (∀ value∈query,value.Finite) ∧
    ∃ normalized approximate,normalize query=.ok normalized ∧
      prepareDistance index normalized=.ok approximate ∧
      searchNodes Binary.key (searchDistances index embedder documents normalized approximate) index
        config {}=.ok outcome := by
  simp only [searchEmbedding,bind_eq_ok,throwIf_ok,not_or,not_not] at h
  obtain ⟨_,-,_,-,_,-,_,⟨hlen,-⟩,_,hfinite,normalized,hn,approximate,ha,hs⟩ := h
  exact ⟨hlen,hfinite,normalized,approximate,hn,ha,hs⟩

/-- Lists of the same length are related by what is always true. -/
theorem forall₂_of_length {α β : Type} {first : List α} {second : List β}
    (h : first.length=second.length) : List.Forall₂ (fun _ _ => True) first second :=
  List.forall₂_iff_zip.mpr ⟨h,fun _ => trivial⟩

/-- Transforming a list fails or keeps its length. -/
theorem mapM_length {α β : Type} {f : α → Except Fault β} {items : List α} {values : List β}
    (h : items.mapM f=.ok values) : values.length=items.length := by
  have hends : Ends (items.mapM f) (fun _ => True) _ :=
    Ends.mapM items (fun item _ => show Ends (f item) (fun _ => True) (fun _ => True) by
      cases f item <;> trivial)
  exact (hends.of_ok h).1

/-- A batch has as many distances as nodes. -/
theorem evaluate_length {normalized : Embedding} {number : ℕ} {ids : List UInt32}
    {found : List Single} (h : evaluate index embedder documents normalized number ids=.ok found) :
    found.length=ids.length := by
  simp only [evaluate,bind_eq_ok,throwIf_ok,not_not] at h
  obtain ⟨texts,-,embeddings,-,_,hlen,hm⟩ := h
  rw [mapM_length hm,hlen]

/-- The dimension is short enough for sums. -/
theorem dimension_lt (index : Index) : index.dimension.toNat<2^53 :=
  index.dimension.toNat_lt.trans (by norm_num)

/-- A finite query that can be normalised is prepared. -/
theorem prepare_ends (hl : Loadable index) (hn : Normalizable query)
    (hlen : query.length=index.dimension.toNat) :
    ∃ normalized approximate,normalize query=.ok normalized ∧
      prepareDistance index normalized=.ok approximate ∧ Prepared index approximate := by
  obtain ⟨normalized,hnormalized,hlength,hunit⟩ := (normalize_ends hn).returns
  have hprepared : Ends (prepareDistance index normalized) (fun _ => False) (Prepared index) :=
    prepareDistance_ends hl (hlength.trans hlen) hunit
  obtain ⟨approximate,happroximate,hap⟩ := hprepared.returns
  exact ⟨normalized,approximate,hnormalized,happroximate,hap⟩

/-- For an index that is loaded, a store that belongs to it, a valid
configuration and a finite query that is not zero, nothing is indexed outside
its bounds before documents are embedded again, and only the two explicit
errors are thrown. A whole search fails in no other way, unless a batch of
documents cannot be embedded. -/
theorem loaded_search_in_bounds {path : Text} {file : List UInt8}
    (hload : load path file=.ok index) 
    (hdocuments : validateDocumentStore index documents=.ok ())
    (hconfig : validateSearchConfig config=.ok ())
    (hlen : query.length=index.dimension.toNat) (hfinite : ∀ value∈query,value.Finite)
    (hnonzero : ∃ value∈query,value.value≠0) :
    ∃ normalized approximate,normalize query=.ok normalized ∧
      prepareDistance index normalized=.ok approximate ∧
      (∀ evaluate,Yields (do
          let routed ← route Binary.key ⟨approximate,evaluate⟩ index
          candidates Binary.key ⟨approximate,evaluate⟩ index config routed)
        (fun fault => fault=.thrown routeError ∨ fault=.thrown invalidCentroid) (fun _ => True)) ∧
      ∀ embedder : Embedder,embedder.fingerprint=index.embedderFingerprint →
        embedder.dimension=index.dimension.toNat →
        Ends (searchEmbedding index query embedder documents config)
          (fun fault => fault=.thrown routeError ∨ fault=.thrown invalidCentroid ∨
            ∃ number ids,evaluate index embedder documents normalized number ids=.error fault)
          (fun _ => True) := by
  obtain ⟨hl,-,-,-⟩ := (load_ok _ _ _).mp hload
  have hvalid := validConfig_of_ok hconfig
  have hnormalizable : Normalizable query := ⟨hfinite,hnonzero,hlen ▸ dimension_lt index⟩
  obtain ⟨normalized,approximate,hnormalized,happroximate,hap⟩ := prepare_ends hl hnormalizable hlen
  refine ⟨normalized,approximate,hnormalized,happroximate,fun evaluate => ?_,
    fun embedder hfingerprint hdimension => ?_⟩
  · have ha : Answers ⟨approximate,evaluate⟩ index.size
        (fun fault => fault=.thrown routeError ∨ fault=.thrown invalidCentroid) :=
      fun node hn => (hap.answers evaluate node hn).mono (fun _ hf => Or.inr hf) (fun _ h => h)
    refine (route_yields hl ha (fun _ => Or.inl rfl)).bind (fun routed hr => ?_)
    by_cases hflat : Flat config index.size
    · exact (candidates_flat hflat ha hr.2 hr.1).mono (fun _ h => h) (fun _ _ => trivial)
    · have hef : 0<config.efSearch.toNat := hvalid.topK_pos.trans_le hvalid.topK_le
      exact (candidates_graph hl hflat hef ha hr.2 hr.1).mono (fun _ h => h) (fun _ _ => trivial)
  · rw [searchEmbedding_eq hdocuments hconfig hfingerprint hdimension hlen hfinite,hnormalized]
    change Ends (prepareDistance index normalized>>=_) _ _
    rw [happroximate]
    have ha : Answers (searchDistances index embedder documents normalized approximate) index.size
        (fun fault => fault=.thrown routeError ∨ fault=.thrown invalidCentroid ∨
          ∃ number ids,evaluate index embedder documents normalized number ids=.error fault) :=
      fun node hn => (hap.answers _ node hn).mono (fun _ hf => Or.inr (Or.inl hf)) (fun _ h => h)
    have he : Evaluates (searchDistances index embedder documents normalized approximate)
        (fun _ _ => True) (fun fault => fault=.thrown routeError ∨ fault=.thrown invalidCentroid ∨
          ∃ number ids,evaluate index embedder documents normalized number ids=.error fault) := by
      intro number ids
      change Ends (evaluate index embedder documents normalized number ids) _ _
      cases h : evaluate index embedder documents normalized number ids with
      | ok found => exact forall₂_of_length (evaluate_length h).symm
      | error fault => exact Or.inr (Or.inr ⟨number,ids,h⟩)
    exact searchNodes_yields hl hvalid ha he (fun _ => Or.inl rfl) {}

/-- A store for two documents. -/
def pairDocuments : DocumentStore := ⟨[],.replicate 32 1,[0,0,0],[0,0],0,0⟩

/-- One result out of two candidates, on the graph path. -/
def pairConfig : SearchConfig := ⟨1,2,1,0,1⟩

/-- The file of the index of two nodes. -/
theorem pairIndex_load : load pairIndex.path (sealBytes (indexBytes pairIndex pairIndex.size))=
    .ok pairIndex := pairIndex_loadable.load_sealed (by rw [indexBytes_length]; decide)

/-- A search in the index of two nodes stays inside the bounds. -/
theorem loaded_search_in_bounds_pair :
    ∃ normalized approximate,normalize [1,0]=.ok normalized ∧
      prepareDistance pairIndex normalized=.ok approximate ∧
      (∀ evaluate,Yields (do
          let routed ← route Binary.key ⟨approximate,evaluate⟩ pairIndex
          candidates Binary.key ⟨approximate,evaluate⟩ pairIndex pairConfig routed)
        (fun fault => fault=.thrown routeError ∨ fault=.thrown invalidCentroid) (fun _ => True)) ∧
      ∀ embedder : Embedder,embedder.fingerprint=pairIndex.embedderFingerprint →
        embedder.dimension=pairIndex.dimension.toNat →
        Ends (searchEmbedding pairIndex [1,0] embedder pairDocuments pairConfig)
          (fun fault => fault=.thrown routeError ∨ fault=.thrown invalidCentroid ∨
            ∃ number ids,evaluate pairIndex embedder pairDocuments normalized number ids=.error fault)
          (fun _ => True) :=
  loaded_search_in_bounds pairIndex_load (by decide +kernel) (by decide +kernel) (by decide)
    (by decide +kernel) ⟨1,by simp,by rw [single_one.2]; exact one_ne_zero⟩

/-- A text and the embedding it has. -/
def PureEmbedder (embedder : Embedder) (vector : Text → Embedding) : Prop :=
  ∀ call texts vectors,embedder.embed call texts=.ok vectors → vectors=texts.map vector

/-- The exact distance of a document to a normalised query. -/
def documentDistance (index : Index) (documents : DocumentStore) (vector : Text → Embedding)
    (normalized : Embedding) (id : UInt32) : Except Fault Single := do
  let text ← documents.read id
  exactDistance index normalized (vector text)

/-- Its value, where there is one. -/
def distanceOf (index : Index) (documents : DocumentStore) (vector : Text → Embedding)
    (normalized : Embedding) (id : UInt32) : Single :=
  (documentDistance index documents vector normalized id).toOption.getD 0

/-- The texts of a batch are those of its nodes. -/
theorem readMany_forall₂ {ids : List UInt32} {texts : List Text}
    (h : documents.readMany ids=.ok texts) :
    List.Forall₂ (fun id text => documents.read id=.ok text) ids texts := by
  induction ids generalizing texts with
  | nil =>
    injection h with h
    rw [←h]
    exact .nil
  | cons id ids ih =>
    simp only [DocumentStore.readMany,bind_eq_ok,pure_eq_ok] at h
    obtain ⟨text,hread,rest,hrest,he⟩ := h
    rw [he]
    exact .cons hread (ih hrest)

/-- A transformed list holds the transformed elements. -/
theorem mapM_forall₂ {α β : Type} {f : α → Except Fault β} {items : List α} {values : List β}
    (h : items.mapM f=.ok values) : List.Forall₂ (fun item value => f item=.ok value) items values := by
  induction items generalizing values with
  | nil =>
    rw [List.mapM_nil,pure_eq_ok] at h
    rw [h]
    exact .nil
  | cons item items ih =>
    simp only [List.mapM_cons,bind_eq_ok,pure_eq_ok] at h
    obtain ⟨value,hv,rest,hrest,he⟩ := h
    rw [he]
    exact .cons hv (ih hrest)

/-- A batch is recomputed to the distances of its documents. -/
theorem evaluate_documents {vector : Text → Embedding} (hpure : PureEmbedder embedder vector)
    {normalized : Embedding} {number : ℕ} {ids : List UInt32} {found : List Single}
    (h : evaluate index embedder documents normalized number ids=.ok found) :
    List.Forall₂ (fun id distance => documentDistance index documents vector normalized id=
      .ok distance) ids found := by
  simp only [evaluate,bind_eq_ok,throwIf_ok,not_not] at h
  obtain ⟨texts,htexts,embeddings,hembeddings,_,-,hm⟩ := h
  have hdistances := mapM_forall₂ hm
  rw [hpure _ _ _ hembeddings,List.forall₂_map_left_iff] at hdistances
  have hreads := readMany_forall₂ htexts
  clear htexts hembeddings hm
  induction hreads generalizing found with
  | nil =>
    cases hdistances
    exact .nil
  | cons hread _ ih =>
    cases hdistances with
    | cons hd hrest =>
      refine .cons ?_ (ih hrest)
      rw [documentDistance,hread]
      exact hd

/-- So its distances are values of a function of the node. -/
theorem evaluate_pure {vector : Text → Embedding} (hpure : PureEmbedder embedder vector)
    {normalized : Embedding} {number : ℕ} {ids : List UInt32} {found : List Single}
    (h : evaluate index embedder documents normalized number ids=.ok found) :
    found=ids.map (distanceOf index documents vector normalized) := by
  have hf := evaluate_documents hpure h
  clear h
  induction hf with
  | nil => rfl
  | cons hd _ ih =>
    rw [List.map_cons,←ih,distanceOf,hd]
    rfl

/-- The flat path refines brute force, for distances in any linear order and
for the distances of the code. The candidates it recomputes are the nearest
nodes by approximate distance and node, and the results are the nearest of
these by exact distance and node, so the nearest of all nodes when all are
recomputed. A search may instead fail, at layers that are not nested or as
the distances it asks for do. -/
theorem flatSearch_refines_bruteForce {path : Text} {file : List UInt8}
    (hload : load path file=.ok index) (hc : validateSearchConfig config=.ok ())
    (hflat : Flat config index.size) :
    (∀ (δ κ : Type) [LinearOrder κ] (rank : δ → κ) (distances : Distances δ) (exact : UInt32 → δ),
      (∀ number ids found,distances.evaluate number ids=.ok found → found=ids.map exact) →
      Yields (route rank distances index>>=candidates rank distances index config)
        (SelectionFails index distances) (Shortlists rank distances index config) ∧
      Yields (searchNodes rank distances index config) (SearchFails index distances) (fun results =>
        (∃ found,Shortlists rank distances index config found ∧
          Results rank exact config found results) ∧
        (index.size≤ config.efSearch.toNat →
          results=nearest rank exact config.topK.toNat (allNodes index.size)))) ∧
    ∀ (query : Embedding) (embedder : Embedder) (documents : DocumentStore)
      (vector : Text → Embedding) (results : List (SearchResult Single)) (metrics : SearchMetrics),
      PureEmbedder embedder vector →
      searchEmbedding index query embedder documents config=.ok (results,metrics) →
      ∃ normalized approximate found,normalize query=.ok normalized ∧
        prepareDistance index normalized=.ok approximate ∧
        Shortlists Binary.key (searchDistances index embedder documents normalized approximate)
          index config found ∧
        Results Binary.key (distanceOf index documents vector normalized) config found results ∧
        (index.size≤ config.efSearch.toNat →
          results=nearest Binary.key (distanceOf index documents vector normalized)
            config.topK.toNat (allNodes index.size)) := by
  obtain ⟨hl,-,-,-⟩ := (load_ok _ _ _).mp hload
  refine ⟨fun δ κ _ rank distances exact hpure => flatSearch_refines hl hc hflat hpure,?_⟩
  intro query embedder documents vector results metrics hpure hsearch
  obtain ⟨-,-,normalized,approximate,hn,ha,hs⟩ := searchEmbedding_checked hsearch
  have hrun : Yields (searchNodes Binary.key
      (searchDistances index embedder documents normalized approximate) index config) _ _ :=
    (flatSearch_refines hl hc hflat (fun _ _ _ he => evaluate_pure hpure he)).2
  obtain ⟨⟨found,hshort,hresults⟩,hall⟩ := Ends.of_ok (hrun {}) hs
  exact ⟨normalized,approximate,found,hn,ha,hshort,hresults,hall⟩

/-- A layer that misses the node where the next higher one leads. -/
def forkedIndex : Index where
  dimension := 1
  approximation := .productQuantization
  maxDegree := 4
  entryPoint := 0
  maxLevel := 2
  sketchBits := 0
  pqSubquantizers := 1
  pqBits := 1
  pqCentroids := 2
  pqSubdimension := 1
  sketchSeed := 0
  path := "forked.leann"
  pairIdentity := .replicate 32 1
  embedderFingerprint := [104]
  offsets := [0,1,2,3]
  edges := [1,2,0]
  upperLayers := [⟨[0,1],[0,0,0],[]⟩,⟨[0,2],[0,1,1],[2]⟩]
  sketches := []
  pqCodebook := [-1,1]
  pqCodes := [0,0,1]

theorem forkedIndex_loadable : Loadable forkedIndex where
  identity_nonzero := by decide
  dimension_pos := by decide
  entry_lt := by decide
  level_le := by decide
  layers_length := by decide
  rows := ⟨by decide,by decide,by decide,by decide⟩
  layers := by
    intro layer hl
    have he : layer=⟨[0,1],[0,0,0],[]⟩ ∨ layer=⟨[0,2],[0,1,1],[2]⟩ := by
      simpa [forkedIndex] using hl
    cases he with
    | inl he => exact he ▸ ⟨by decide,by decide,⟨by decide,by decide,by decide,by decide⟩,by decide,by decide⟩
    | inr he => exact he ▸ ⟨by decide,by decide,⟨by decide,by decide,by decide,by decide⟩,by decide,by decide⟩
  fingerprint_lt := by decide
  sketched h := absurd h (by decide)
  quantized _ := ⟨⟨by decide,by decide,by decide,by decide,by decide,by decide,by decide,by decide⟩,
    by decide,by simp [forkedIndex,coordinates],by decide,rfl⟩

/-- An embedder with one answer. -/
def constantEmbedder : Embedder := ⟨1,[104],fun _ texts => .ok (texts.map (fun _ => [1]))⟩

/-- A store for three documents. -/
def forkedDocuments : DocumentStore := ⟨[],.replicate 32 1,[0,0,0,0],[0,0,0],0,0⟩

/-- One result out of three candidates, on the flat path. -/
def forkedConfig : SearchConfig := ⟨1,3,1,10,1⟩

/-- A loaded index with layers that are not nested has no results. -/
theorem flatSearch_without_results :
    (∃ file,load forkedIndex.path file=.ok forkedIndex) ∧
      validateSearchConfig forkedConfig=.ok () ∧ Flat forkedConfig forkedIndex.size ∧
      PureEmbedder constantEmbedder (fun _ => [1]) ∧
      searchEmbedding forkedIndex [1] constantEmbedder forkedDocuments forkedConfig=
        .error (.thrown routeError) := by
  refine ⟨⟨_,forkedIndex_loadable.load_sealed (by rw [indexBytes_length]; decide +kernel)⟩,
    by decide +kernel,by decide,fun call texts vectors h => ?_,by decide +kernel⟩
  injection h with h
  exact h.symm

/-- Distances that are numbers. -/
def plainDistances : Distances ℕ := ⟨fun node => .ok node.toNat,fun _ ids => .ok (ids.map UInt32.toNat)⟩

/-- One result out of two candidates, on the flat path. -/
def pairFlatConfig : SearchConfig := ⟨1,2,1,10,1⟩

/-- It is valid, and its beam has both nodes. -/
theorem pairFlatConfig_valid :
    validateSearchConfig pairFlatConfig=.ok () ∧ approximateBeam pairFlatConfig 2=2 := by
  decide +kernel

/-- The flat path on the index of two nodes. -/
theorem flatSearch_refines_bruteForce_pair :
    Yields (searchNodes id plainDistances pairIndex pairFlatConfig)
      (SearchFails pairIndex plainDistances) (fun results =>
        (∃ found,Shortlists id plainDistances pairIndex pairFlatConfig found ∧
          Results id UInt32.toNat pairFlatConfig found results) ∧
        (pairIndex.size≤pairFlatConfig.efSearch.toNat →
          results=nearest id UInt32.toNat pairFlatConfig.topK.toNat (allNodes pairIndex.size))) :=
  ((flatSearch_refines_bruteForce pairIndex_load pairFlatConfig_valid.1 (by decide)).1 ℕ ℕ id
    plainDistances UInt32.toNat (fun _ _ _ h => (Except.ok.inj h).symm)).2

end Float

section Paths

variable {index : Index} {config : SearchConfig}

/-- Equal continuations of a computation have equal results. -/
theorem map_bind_congr {α β γ : Type} {x : Except Fault α} {next next' : α → Except Fault β} {f : β → γ}
    (h : ∀ value,x=.ok value → (next value).map f=(next' value).map f) :
    (x>>=next).map f=(x>>=next').map f := by
  cases x with
  | ok value => exact h value rfl
  | error fault => rfl

/-- Where a query leads, every node is in reach. -/
def InReach (index : Index) (query : Embedding) (embedder : Embedder) (documents : DocumentStore) :
    Prop :=
  ∀ normalized approximate,normalize query=.ok normalized →
    prepareDistance index normalized=.ok approximate → ∀ routed,
    RoutesTo Binary.key (searchDistances index embedder documents normalized approximate) index routed →
    ∀ node : UInt32,node.toNat< index.size → BaseReachable index routed.id node

/-- A search of the code has the same results on both paths. -/
theorem searchEmbedding_agree (hl : Loadable index) (hc : ValidConfig config)
    (hflat : Flat config index.size) (hbeam : approximateBeam config index.size=index.size)
    {query : Embedding} {embedder : Embedder} {documents : DocumentStore}
    (hreach : InReach index query embedder documents) :
    (searchEmbedding index query embedder documents config).map Prod.fst=
      (searchEmbedding index query embedder documents (onGraph config)).map Prod.fst := by
  unfold searchEmbedding
  refine map_bind_congr (fun _ _ => map_bind_congr (fun _ _ => map_bind_congr (fun _ _ =>
    map_bind_congr (fun _ hlen => map_bind_congr (fun _ hfinite => map_bind_congr
    (fun normalized hn => map_bind_congr (fun approximate ha => ?_)))))))
  rw [throwIf_ok,not_or,not_not] at hlen
  rw [throwIf_ok,not_not] at hfinite
  have hshort : query.length<2^53 := hlen.1 ▸ dimension_lt index
  obtain ⟨normalized',approximate',hn',ha',hprepared⟩ :=
    prepare_ends hl (normalizable_of_ok hfinite hshort hn) hlen.1
  rw [hn,Except.ok.injEq] at hn'
  rw [←hn',ha,Except.ok.injEq] at ha'
  rw [←ha'] at hprepared
  exact searchNodes_agree hl hc hflat hbeam (hprepared.answers _)
    (fun routed hrun => hreach normalized approximate hn ha routed hrun) {} {}

/-- With a beam as long as the index has nodes, both paths have the same
results or fail alike when every node is in reach, and what the graph path
shortlists is what is in reach. A search may instead fail, at layers that are
not nested or as an approximate distance does. -/
theorem saturated_paths_agree {path : Text} {file : List UInt8} (hload : load path file=.ok index)
    (hc : validateSearchConfig config=.ok ())
    (hbeam : approximateBeam config index.size=index.size) :
    (Flat config index.size →
      (∀ query embedder documents,InReach index query embedder documents →
        (searchEmbedding index query embedder documents config).map Prod.fst=
          (searchEmbedding index query embedder documents (onGraph config)).map Prod.fst) ∧
      ∀ (δ κ : Type) [LinearOrder κ] (rank : δ → κ) (distances : Distances δ) (failure : Fault),
        Answers distances index.size (fun fault => fault=failure) →
        (∀ routed,RoutesTo rank distances index routed → ∀ node : UInt32,
          node.toNat< index.size → BaseReachable index routed.id node) →
        Agree (searchNodes rank distances index config)
          (searchNodes rank distances index (onGraph config))) ∧
    (¬Flat config index.size → index.size<2^32 →
      ∀ (δ κ : Type) [LinearOrder κ] (rank : δ → κ) (distances : Distances δ),
        Yields (do
            let routed ← route rank distances index
            let found ← shortlist rank distances index config routed
            return (routed,found)) (SelectionFails index distances) (fun result =>
          RoutesTo rank distances index result.1 ∧
          ∀ node,node∈result.2.map Candidate.id ↔ BaseReachable index result.1.id node)) := by
  obtain ⟨hl,-,-,-⟩ := (load_ok _ _ _).mp hload
  have hvalid := validConfig_of_ok hc
  refine ⟨fun hflat => ⟨fun query embedder documents hreach =>
      searchEmbedding_agree hl hvalid hflat hbeam hreach,
    fun δ κ _ rank distances failure ha hreach =>
      searchNodes_agree hl hvalid hflat hbeam ha hreach⟩,
    fun hgraph hsize δ κ _ rank distances => shortlist_saturated hl hvalid hsize hgraph hbeam⟩

/-- The first two nodes. -/
theorem pair_cases {node : UInt32} (hlt : node.toNat<2) : node=0 ∨ node=1 := by
  rw [←UInt32.toNat_inj,←UInt32.toNat_inj]
  have h0 : (0 : UInt32).toNat=0 := rfl
  have h1 : (1 : UInt32).toNat=1 := rfl
  omega

/-- Two nodes with edges to each other reach each other. -/
theorem pair_reachable (h01 : BaseEdge index 0 1) (h10 : BaseEdge index 1 0) {start node : UInt32}
    (hs : start.toNat<2) (hn : node.toNat<2) : BaseReachable index start node := by
  cases pair_cases hs with
  | inl hs =>
    cases pair_cases hn with
    | inl hn => exact hs ▸ hn ▸ Relation.ReflTransGen.refl
    | inr hn => exact hs ▸ hn ▸ Relation.ReflTransGen.single h01
  | inr hs =>
    cases pair_cases hn with
    | inl hn => exact hs ▸ hn ▸ Relation.ReflTransGen.single h10
    | inr hn => exact hs ▸ hn ▸ Relation.ReflTransGen.refl

/-- Routing in the index of two nodes ends at one of them. -/
theorem pair_routed {routed : Candidate ℕ} (h : RoutesTo id plainDistances pairIndex routed) :
    routed.id.toNat<pairIndex.size := by
  obtain ⟨start,state,hrun⟩ := h
  have ha : Answers plainDistances pairIndex.size (fun _ => True) := fun _ _ => trivial
  have hroute : Meets (route id plainDistances pairIndex) start (fun _ => True) _ :=
    route_yields pairIndex_loadable ha (fun _ => trivial) start
  exact (Ends.of_ok hroute hrun).1

/-- Both paths of a search in the index of two nodes. -/
theorem saturated_paths_agree_pair : Agree (searchNodes id plainDistances pairIndex pairFlatConfig)
    (searchNodes id plainDistances pairIndex (onGraph pairFlatConfig)) :=
  ((saturated_paths_agree pairIndex_load
    pairFlatConfig_valid.1 pairFlatConfig_valid.2).1
    (by decide)).2 ℕ ℕ id plainDistances .endless (fun _ _ => trivial)
    (fun _ hrun _ hn => pair_reachable ⟨0,1,0,rfl,rfl,by decide,by decide,rfl⟩
      ⟨1,2,1,rfl,rfl,by decide,by decide,rfl⟩ (pair_routed hrun) hn)

/-- A node whose packed code is beyond the centroids. -/
def strayIndex : Index where
  dimension := 1
  approximation := .productQuantization
  maxDegree := 4
  entryPoint := 0
  maxLevel := 0
  sketchBits := 0
  pqSubquantizers := 1
  pqBits := 1
  pqCentroids := 1
  pqSubdimension := 1
  sketchSeed := 0
  path := "stray.leann"
  pairIdentity := .replicate 32 1
  embedderFingerprint := [104]
  offsets := [0,1,2]
  edges := [1,0]
  upperLayers := []
  sketches := []
  pqCodebook := [1]
  pqCodes := [0,1]

theorem strayIndex_loadable : Loadable strayIndex where
  identity_nonzero := by decide
  dimension_pos := by decide
  entry_lt := by decide
  level_le := by decide
  layers_length := by decide
  rows := ⟨by decide,by decide,by decide,by decide⟩
  layers := by simp [strayIndex]
  fingerprint_lt := by decide
  sketched h := absurd h (by decide)
  quantized _ := ⟨⟨by decide,by decide,by decide,by decide,by decide,by decide,by decide,by decide⟩,
    by decide,by simp [strayIndex,coordinates],by decide,rfl⟩

/-- A store for two documents with an embedding of one coordinate. -/
def strayDocuments : DocumentStore := ⟨[],.replicate 32 1,[0,0,0],[0,0],0,0⟩

/-- An index of so many nodes, where only the last one has an edge. -/
def wideIndex (count : ℕ) : Index where
  dimension := 1
  approximation := .productQuantization
  maxDegree := 4
  entryPoint := UInt32.ofNat (count-1)
  maxLevel := 0
  sketchBits := 0
  pqSubquantizers := 1
  pqBits := 1
  pqCentroids := 1
  pqSubdimension := 1
  sketchSeed := 0
  path := "wide.leann"
  pairIdentity := .replicate 32 1
  embedderFingerprint := [104]
  offsets := List.replicate count 0++[1]
  edges := [0]
  upperLayers := []
  sketches := []
  pqCodebook := [1]
  pqCodes := List.replicate count 0

section Wide

variable {count : ℕ}

theorem wideIndex_size : (wideIndex count).size=count :=
  size_of_offsets (by simp [wideIndex])

theorem wideIndex_rows (hpos : 0<count) :
    Rows (wideIndex count).offsets (wideIndex count).edges count count := by
  have hne : List.replicate count (0 : UInt64)≠[] := by
    rw [ne_eq,List.replicate_eq_nil_iff]
    omega
  have hzero : UInt64.toNat 0≤1 := by decide
  have hone : UInt64.toNat 1≤1 := by decide
  have hlt : (0 : UInt64)≤1 := by decide
  refine ⟨by simp [wideIndex],⟨?_,by simp [wideIndex]⟩,⟨?_,?_⟩,?_⟩
  · change (List.replicate count (0 : UInt64)++[1]).head?=some 0
    rw [List.head?_append_of_ne_nil _ hne,List.head?_replicate,if_neg (by omega)]
  · refine List.isChain_iff_pairwise.mpr (List.pairwise_append.mpr ⟨?_,by simp,?_⟩)
    · exact List.pairwise_replicate.mpr (Or.inr (UInt64.le_refl 0))
    · intro low hlow high hhigh
      rw [List.eq_of_mem_replicate hlow,List.mem_singleton.mp hhigh]
      exact hlt
  · intro offset ho
    cases List.mem_append.mp (List.mem_of_mem_tail ho) with
    | inl hz => exact List.eq_of_mem_replicate hz ▸ hzero
    | inr ho => exact List.mem_singleton.mp ho ▸ hone
  · intro id hid
    rw [List.mem_singleton.mp hid]
    exact hpos

theorem wideIndex_quantized : QuantizedTables (wideIndex count) := by
  refine ⟨⟨rfl,?_,?_,?_,?_,?_,?_,rfl⟩,rfl,?_,?_,rfl⟩
  · change (1 : UInt32)≠0
    decide
  · change (1 : UInt32)≠0
    decide
  · change (1 : UInt32).toNat≤8
    decide
  · change (1 : UInt32)≠0
    decide
  · change (1 : UInt32).toNat≤2^(1 : UInt32).toNat
    decide
  · change (1 : UInt32)≠0
    decide
  · intro coordinate hc
    rw [List.mem_singleton.mp hc]
    exact coordinates.2.1
  · rw [wideIndex_size]
    simp [wideIndex,Parameters.bytesPerVector]

theorem wideIndex_loadable (hpos : 0<count) : Loadable (wideIndex count) where
  identity_nonzero := by rfl
  dimension_pos := by
    change (1 : UInt32)≠0
    decide
  entry_lt := by
    rw [wideIndex_size]
    change (UInt32.ofNat (count-1)).toNat<count
    rw [UInt32.toNat_ofNat']
    exact (Nat.mod_le _ _).trans_lt (by omega)
  level_le := Nat.zero_le _
  layers_length := rfl
  rows := by
    rw [wideIndex_size]
    exact wideIndex_rows hpos
  layers := by simp [wideIndex]
  fingerprint_lt := by
    change 1<2^32
    norm_num
  sketched h := absurd h (show ApproximationKind.productQuantization≠ApproximationKind.simHash by decide)
  quantized _ := wideIndex_quantized

/-- Node numbers wrap around behind the last of as many nodes as there are
node numbers, so its edge is not read. -/
theorem wideIndex_not_adjacent (hcount : count=2^32) (next : UInt32) :
    ¬Adjacent (wideIndex count) (wideIndex count).entryPoint next := by
  intro h
  obtain ⟨first,last,edge,-,hlast,-,hlt,-⟩ := h
  have hnext : ((wideIndex count).entryPoint+1).toNat=0 := by
    change (UInt32.ofNat (count-1)+1).toNat=0
    rw [UInt32.toNat_add,UInt32.toNat_ofNat',hcount]
    rfl
  have hzero : (wideIndex count).offsets[0]?=some 0 := by
    change (List.replicate count (0 : UInt64)++[1])[0]?=some 0
    rw [List.getElem?_append_left (by rw [List.length_replicate]; omega),
      List.getElem?_replicate_of_lt (by omega)]
  rw [hnext,hzero,Option.some.injEq] at hlast
  rw [←hlast] at hlt
  exact absurd hlt (Nat.not_lt_zero edge)

/-- The last node has an edge to the first one. -/
theorem wideIndex_reachable (hpos : 0<count) (hle : count≤2^32) :
    BaseReachable (wideIndex count) (wideIndex count).entryPoint 0 := by
  refine Relation.ReflTransGen.single ⟨0,1,0,?_,?_,Nat.zero_le _,Nat.zero_lt_one,rfl⟩
  · change (List.replicate count (0 : UInt64)++[1])[(UInt32.ofNat (count-1)).toNat]?=some 0
    rw [UInt32.toNat_ofNat',Nat.mod_eq_of_lt (by omega),
      List.getElem?_append_left (by rw [List.length_replicate]; omega),
      List.getElem?_replicate_of_lt (by omega)]
  · change (List.replicate count (0 : UInt64)++[1])[(UInt32.ofNat (count-1)).toNat+1]?=some 1
    rw [UInt32.toNat_ofNat',Nat.mod_eq_of_lt (by omega),Nat.sub_add_cancel hpos,
      List.getElem?_append_right (by rw [List.length_replicate]),List.length_replicate,Nat.sub_self]
    rfl

/-- So the graph path does not shortlist what the last edge leads to. -/
theorem wideIndex_shortlist (hcount : count=2^32) (hgraph : ¬Flat config count)
    (hbeam : approximateBeam config count=count) (hef : 0<config.efSearch.toNat) :
    Yields (do
        let routed ← route id plainDistances (wideIndex count)
        let found ← shortlist id plainDistances (wideIndex count) config routed
        return (routed,found)) (fun _ => False) (fun result =>
      result.1.id=(wideIndex count).entryPoint ∧ (0 : UInt32)∉result.2.map Candidate.id) := by
  have hl : Loadable (wideIndex count) := wideIndex_loadable (by omega)
  have ha : Answers plainDistances (wideIndex count).size (fun _ => False) := fun _ _ => trivial
  have hroute : Yields (route id plainDistances (wideIndex count)) (fun _ => False)
      (fun routed => routed.id=(wideIndex count).entryPoint ∧ Measured plainDistances routed) :=
    (approximateDistance_yields (ha _ hl.entry_lt)).bind (fun distance hd => Yields.returned ⟨rfl,hd⟩)
  refine hroute.bind (fun routed hr => ?_)
  have hlt : routed.id.toNat<(wideIndex count).size := hr.1 ▸ hl.entry_lt
  refine (shortlist_graph hl (by rwa [wideIndex_size]) hef ha hr.2 hlt).bind
    (fun found hf => Yields.returned ⟨hr.1,fun hmem => ?_⟩)
  obtain ⟨seen,hsettled⟩ := hf
  have hsame : approximateBeam config (wideIndex count).size=(wideIndex count).size := by
    rw [wideIndex_size,hbeam]
  rw [hsame] at hsettled
  have hreach := ((settled_listing hsettled).mem_iff 0).mp hmem
  rw [hr.1] at hreach
  cases hreach.cases_head with
  | inl he =>
    have hzero : (UInt32.ofNat (count-1)).toNat=0 := congrArg UInt32.toNat he
    rw [UInt32.toNat_ofNat',hcount] at hzero
    norm_num at hzero
  | inr hstep =>
    obtain ⟨next,hadjacent,-⟩ := hstep
    exact wideIndex_not_adjacent hcount next hadjacent

end Wide

/-- One result on the graph path, from as many nodes as there are. -/
def wideConfig : SearchConfig := ⟨1,1,1,0,⟨false,963*2^52,by decide⟩⟩

theorem wideConfig_valid :
    validateSearchConfig wideConfig=.ok () ∧ approximateBeam wideConfig (2^32)=2^32 := by
  decide +kernel

theorem wideIndex_load (hpos : 0<count) (hle : count≤2^32) :
    ∃ file,load (wideIndex count).path file=.ok (wideIndex count) := by
  refine ⟨_,(wideIndex_loadable hpos).load_sealed ?_⟩
  have hbytes : (tableBytes (wideIndex count)).length≤1+8*(count+1)+4+4+count := by
    simp [IndexFile.tableBytes,codesBytes,wideIndex]
    omega
  rw [indexBytes_length]
  unfold Format.uint64Max
  omega

/-- Both paths may fail, and the graph path misses an edge when there are as
many nodes as node numbers. -/
theorem saturated_paths_without_results :
    ((∃ file,load strayIndex.path file=.ok strayIndex) ∧
      validateSearchConfig pairFlatConfig=.ok () ∧ Flat pairFlatConfig strayIndex.size ∧
      approximateBeam pairFlatConfig strayIndex.size=strayIndex.size ∧
      (∀ start node : UInt32,start.toNat<strayIndex.size → node.toNat<strayIndex.size →
        BaseReachable strayIndex start node) ∧
      searchEmbedding strayIndex [1] constantEmbedder strayDocuments pairFlatConfig=
        .error (.thrown invalidCentroid) ∧
      searchEmbedding strayIndex [1] constantEmbedder strayDocuments (onGraph pairFlatConfig)=
        .error (.thrown invalidCentroid)) ∧
    (∃ file,load (wideIndex (2^32)).path file=.ok (wideIndex (2^32))) ∧
      validateSearchConfig wideConfig=.ok () ∧ ¬Flat wideConfig (wideIndex (2^32)).size ∧
      approximateBeam wideConfig (wideIndex (2^32)).size=(wideIndex (2^32)).size ∧
      BaseReachable (wideIndex (2^32)) (wideIndex (2^32)).entryPoint 0 ∧
      Yields (do
          let routed ← route id plainDistances (wideIndex (2^32))
          let found ← shortlist id plainDistances (wideIndex (2^32)) wideConfig routed
          return (routed,found)) (fun _ => False) (fun result =>
        result.1.id=(wideIndex (2^32)).entryPoint ∧ (0 : UInt32)∉result.2.map Candidate.id) := by
  have hpos : 0<2^32 := by norm_num
  have hgraph : ∀ size,¬Flat wideConfig size := fun size h => absurd h.1 (lt_irrefl 0)
  refine ⟨⟨⟨_,strayIndex_loadable.load_sealed (by rw [indexBytes_length]; decide +kernel)⟩,
    pairFlatConfig_valid.1,by decide,pairFlatConfig_valid.2,fun _ _ => pair_reachable
      ⟨0,1,0,rfl,rfl,by decide,by decide,rfl⟩ ⟨1,2,1,rfl,rfl,by decide,by decide,rfl⟩,by decide +kernel,
    by decide +kernel⟩,wideIndex_load hpos le_rfl,wideConfig_valid.1,hgraph _,?_,
    wideIndex_reachable hpos le_rfl,?_⟩
  · rw [wideIndex_size]
    exact wideConfig_valid.2
  · have hbeam := wideConfig_valid.2
    generalize hcount : 2^32=count at hbeam ⊢
    exact wideIndex_shortlist hcount.symm (hgraph _) hbeam (by decide)

end Paths

end Leann.SearchResults
