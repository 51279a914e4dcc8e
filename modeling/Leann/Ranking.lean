import Leann.Shortlists

/-!
# Recomputing and ranking the candidates

Every candidate is recomputed once, whatever the size of the batches, and the
results are the nearest ones by their recomputed distances. A whole search
returns as many results as the shortlist allows.
-/

namespace Leann.Ranking

open Exceptions Outcomes IndexFile Search Routing Shortlists Selection

section Batches

variable {δ κ : Type} [LinearOrder κ] {rank : δ → κ} {distances : Distances δ}
  {scores : UInt32 → δ → Prop} {fails : Fault → Prop}

/-- Every batch is answered with distances that its nodes may have. -/
def Evaluates (distances : Distances δ) (scores : UInt32 → δ → Prop) (fails : Fault → Prop) : Prop :=
  ∀ number ids,Ends (distances.evaluate number ids) fails (List.Forall₂ scores ids)

/-- Results for these nodes, each with a distance that its node may have. -/
structure Scored (scores : UInt32 → δ → Prop) (ids : List UInt32) (results : List (SearchResult δ)) :
    Prop where
  /-- The nodes, in their order. -/
  ids_eq : results.map Candidate.id=ids
  /-- The distances. -/
  scored : ∀ result∈results,scores result.id result.distance

theorem Scored.append {ids ids' : List UInt32} {results results' : List (SearchResult δ)}
    (h : Scored scores ids results) (h' : Scored scores ids' results') :
    Scored scores (ids++ids') (results++results') where
  ids_eq := by rw [List.map_append,h.ids_eq,h'.ids_eq]
  scored result hr := (List.mem_append.mp hr).elim (h.scored result) (h'.scored result)

/-- Nodes joined with their distances. -/
theorem scored_zipWith {ids : List UInt32} {exact : List δ} (h : List.Forall₂ scores ids exact) :
    Scored scores ids (List.zipWith (fun id distance => ⟨distance,id⟩) ids exact) := by
  induction h with
  | nil => exact ⟨rfl,by simp⟩
  | cons hd _ ih =>
    refine ⟨by rw [List.zipWith_cons_cons,List.map_cons,ih.ids_eq],?_⟩
    rw [List.zipWith_cons_cons,List.forall_mem_cons]
    exact ⟨hd,ih.scored⟩

/-- One batch. -/
theorem evaluateBatch_yields (he : Evaluates distances scores fails) {number : ℕ}
    {before ids : List UInt32} {scored : List (SearchResult δ)} (hs : Scored scores before scored) :
    Yields (evaluateBatch distances number scored ids) fails (Scored scores (before++ids)) := by
  unfold evaluateBatch
  by_cases hempty : ids.isEmpty
  · rw [if_pos hempty]
    rw [List.isEmpty_iff] at hempty
    rw [hempty,List.append_nil]
    exact Yields.returned hs
  · rw [if_neg hempty]
    refine (Yields.lift (he number ids)).bind (fun exact hexact => (Yields.updated _).bind
      (fun _ _ => Yields.returned (hs.append (scored_zipWith hexact))))

/-- All batches together recompute every candidate. -/
theorem recompute_yields (he : Evaluates distances scores fails) {batchSize : ℕ}
    (hb : 0<batchSize) (found : List (Candidate δ)) :
    Yields (recompute distances batchSize found) fails (Scored scores (found.map Candidate.id)) := by
  have hloop : Yields (recompute distances batchSize found) fails
      (Scored scores ((found.take ((found.length+batchSize-1)/batchSize*batchSize)).map Candidate.id)) :=
    Yields.foldlM_range _
      (fun number => Scored scores ((found.take (number*batchSize)).map Candidate.id))
      ⟨by simp,by simp⟩ (fun number scored _ hs => by
        have hsplit : (found.take ((number+1)*batchSize)).map Candidate.id=
            (found.take (number*batchSize)).map Candidate.id++
              ((found.drop (number*batchSize)).take batchSize).map Candidate.id := by
          rw [Nat.succ_mul,List.take_add,List.map_append]
        rw [hsplit]
        exact evaluateBatch_yields he hs)
  have hall : found.length≤(found.length+batchSize-1)/batchSize*batchSize := by
    have hmod := Nat.div_add_mod (found.length+batchSize-1) batchSize
    have hlt := Nat.mod_lt (found.length+batchSize-1) hb
    rw [Nat.mul_comm] at hmod
    omega
  rwa [List.take_of_length_le hall] at hloop

/-- The results are the nearest of the recomputed candidates. -/
theorem rerank_yields (he : Evaluates distances scores fails) {config : SearchConfig}
    (hb : 0<config.recomputeBatchSize.toNat) (found : List (Candidate δ)) :
    Yields (rerank rank distances config found) fails (fun results => ∃ scored,
      Scored scores (found.map Candidate.id) scored ∧
      results=(ranked (fun result => result.key rank) scored).take config.topK.toNat) :=
  (recompute_yields he hb found).bind (fun scored hs => Yields.returned ⟨scored,hs,rfl⟩)

/-- The results do not depend on what was counted before. -/
theorem rerank_oblivious (config : SearchConfig) (found : List (Candidate δ)) :
    Oblivious (rerank rank distances config found) := by
  refine Oblivious.bind (Oblivious.foldlM _ (fun scored number => ?_) _)
    (fun scored => Oblivious.returned _)
  unfold evaluateBatch
  split
  · exact Oblivious.returned _
  · exact (Oblivious.lift _).bind (fun exact => (Oblivious.updated _).bind
      (fun _ => Oblivious.returned _))

end Batches

section Config

/-- What `validate_search_config` accepts. -/
structure ValidConfig (config : SearchConfig) : Prop where
  /-- A result is asked for. -/
  topK_pos : 0<config.topK.toNat
  /-- Not more results are asked for than are recomputed. -/
  topK_le : config.topK.toNat≤ config.efSearch.toNat
  /-- A batch has a text. -/
  batch_pos : 0<config.recomputeBatchSize.toNat

/-- A configuration that passes its checks. -/
theorem validConfig_of_ok {config : SearchConfig} {value : Unit}
    (h : validateSearchConfig config=.ok value) : ValidConfig config := by
  simp only [validateSearchConfig,bind_eq_ok,throwIf_ok,exists_and_left] at h
  obtain ⟨htop,hbatch,-⟩ := h
  rw [not_or,UInt32.lt_iff_toNat_lt,not_lt,←UInt32.toNat_inj] at htop
  rw [←UInt32.toNat_inj] at hbatch
  exact ⟨Nat.pos_of_ne_zero htop.1,htop.2,Nat.pos_of_ne_zero hbatch⟩

end Config

section Counts

variable {δ κ : Type} [LinearOrder κ] {rank : δ → κ} {distances : Distances δ}
  {scores : UInt32 → δ → Prop} {index : Index} {config : SearchConfig} {fails : Fault → Prop}

/-- The number of results that a number of shortlisted nodes allows. -/
theorem results_length {found : List (Candidate δ)} {scored : List (SearchResult δ)}
    (hs : Scored scores (found.map Candidate.id) scored) (count : ℕ) :
    ((ranked (fun result => result.key rank) scored).take count).length=min count found.length := by
  have hlen := congrArg List.length hs.ids_eq
  rw [List.length_map,List.length_map] at hlen
  rw [List.length_take,ranked_length,hlen]

/-- The nodes below a bound. -/
theorem ncard_below {size : ℕ} {nodes : List (Candidate δ)}
    (h : Listing distances nodes (fun node => node.toNat<size)) (hsize : size≤2^32) :
    nodes.length=size := by
  have hp : ((nodes.map Candidate.id).map UInt32.toNat).Perm (List.range size) := by
    have hn : ((nodes.map Candidate.id).map UInt32.toNat).Nodup :=
      h.nodup.map (fun _ _ he => UInt32.toNat_inj.mp he)
    refine (List.perm_ext_iff_of_nodup hn List.nodup_range).mpr (fun node => ?_)
    rw [List.mem_map,List.mem_range]
    constructor
    · intro hm
      obtain ⟨id,hid,he⟩ := hm
      exact he ▸ (h.mem_iff id).mp hid
    · intro hlt
      have hid : (UInt32.ofNat node).toNat=node :=
        UInt32.toNat_ofNat_of_lt' (by rw [UInt32.size]; omega)
      exact ⟨UInt32.ofNat node,(h.mem_iff _).mpr (by rwa [hid]),hid⟩
  have hlen := hp.length_eq
  rwa [List.length_map,List.length_map,List.length_range] at hlen

/-- The flat path returns as many results as are asked for, up to the number
of nodes. -/
theorem searchNodes_flat (hl : Loadable index) (hc : ValidConfig config)
    (hflat : Flat config index.size) (ha : Answers distances index.size fails)
    (he : Evaluates distances scores fails) (hroute : ¬Nested index → fails (.thrown routeError)) :
    Yields (searchNodes rank distances index config) fails (fun results => ∃ found scored,
      FlatCandidates rank distances index config found ∧
      Scored scores (found.map Candidate.id) scored ∧
      results=(ranked (fun result => result.key rank) scored).take config.topK.toNat) := by
  refine (route_yields hl ha hroute).bind (fun routed hr => ?_)
  refine (candidates_flat hflat ha hr.2 hr.1).bind (fun found hf => ?_)
  refine (rerank_yields he hc.batch_pos found).mono (fun _ h => h) (fun results hs => ?_)
  obtain ⟨scored,hscored,hresults⟩ := hs
  exact ⟨found,scored,hf,hscored,hresults⟩

/-- The flat path fills the result list. -/
theorem searchNodes_flat_length (hl : Loadable index) (hc : ValidConfig config)
    (hflat : Flat config index.size) (ha : Answers distances index.size fails)
    (he : Evaluates distances scores fails) (hroute : ¬Nested index → fails (.thrown routeError)) :
    Yields (searchNodes rank distances index config) fails (fun results =>
      results.length=min config.topK.toNat index.size) := by
  refine (searchNodes_flat hl hc hflat ha he hroute).mono (fun _ h => h) (fun results hr => ?_)
  obtain ⟨found,scored,⟨nodes,hnodes,hfound⟩,hscored,hresults⟩ := hr
  have hlt := config.approximateScanLimit.toNat_lt
  have hlen := ncard_below hnodes (by have hle := hflat.2; omega)
  have htop := hc.topK_le
  rw [hresults,results_length hscored,hfound,List.length_take,ranked_length,hlen,exactBudget]
  omega

/-- A node where the descent from the entry point may end. -/
def RoutesTo (rank : δ → κ) (distances : Distances δ) (index : Index) (routed : Candidate δ) : Prop :=
  ∃ start state,route rank distances index start=.ok (routed,state)

/-- The graph path ranks what the best-first search from the routed node
shortlisted. -/
theorem searchNodes_graph (hl : Loadable index) (hc : ValidConfig config)
    (hflat : ¬Flat config index.size) (ha : Answers distances index.size fails)
    (he : Evaluates distances scores fails) (hroute : ¬Nested index → fails (.thrown routeError)) :
    Yields (searchNodes rank distances index config) fails (fun results => ∃ routed found scored,
      RoutesTo rank distances index routed ∧ routed.id.toNat< index.size ∧
      GraphCandidates rank distances index config routed.id found ∧
      Scored scores (found.map Candidate.id) scored ∧
      results=(ranked (fun result => result.key rank) scored).take config.topK.toNat) := by
  have hef : 0<config.efSearch.toNat := hc.topK_pos.trans_le hc.topK_le
  refine (route_yields hl ha hroute).reached.bind (fun routed hr => ?_)
  obtain ⟨⟨hlt,hm⟩,hrun⟩ := hr
  refine (candidates_graph hl hflat hef ha hm hlt).bind (fun found hf => ?_)
  refine (rerank_yields he hc.batch_pos found).mono (fun _ h => h) (fun results hs => ?_)
  obtain ⟨scored,hscored,hresults⟩ := hs
  exact ⟨routed,found,scored,hrun,hlt,hf,hscored,hresults⟩

/-- Edges lead to nodes. -/
theorem reachable_lt (hl : Loadable index) {first node : UInt32} (hf : first.toNat< index.size)
    (hr : Reachable index first node) : node.toNat< index.size := by
  induction hr with
  | refl => exact hf
  | tail _ hadjacent _ =>
    obtain ⟨_,_,_,-,-,-,-,hedge⟩ := hadjacent
    exact hl.rows.edges_lt _ (List.mem_of_getElem? hedge)

/-- Not more nodes can be reached than there are. -/
theorem reachable_ncard_le (hl : Loadable index) {first : UInt32} (hf : first.toNat< index.size) :
    Set.ncard {node | Reachable index first node}≤ index.size := by
  have himage := Set.ncard_image_of_injective {node | Reachable index first node}
    (fun _ _ he => UInt32.toNat_inj.mp he : Function.Injective UInt32.toNat)
  have hsub : UInt32.toNat '' {node | Reachable index first node}⊆(Finset.range index.size : Set ℕ) := by
    intro number hn
    obtain ⟨node,hnode,he⟩ := hn
    rw [Finset.coe_range,Set.mem_Iio,←he]
    exact reachable_lt hl hf hnode
  have hle := Set.ncard_le_ncard hsub (Finset.finite_toSet _)
  rw [himage,Set.ncard_coe_finset,Finset.card_range] at hle
  exact hle

/-- The graph path returns as many results as are asked for, up to the number
of nodes that can be reached from the routed node. -/
theorem searchNodes_graph_length (hl : Loadable index) (hc : ValidConfig config)
    (hflat : ¬Flat config index.size) (ha : Answers distances index.size fails)
    (he : Evaluates distances scores fails) (hroute : ¬Nested index → fails (.thrown routeError)) :
    Yields (searchNodes rank distances index config) fails (fun results => ∃ routed,
      RoutesTo rank distances index routed ∧
      results.length=min config.topK.toNat (Set.ncard {node | Reachable index routed.id node})) := by
  refine (searchNodes_graph hl hc hflat ha he hroute).mono (fun _ h => h) (fun results hr => ?_)
  obtain ⟨routed,found,scored,hrun,hlt,⟨seen,shortlist,hsettled,hfound⟩,hscored,hresults⟩ := hr
  refine ⟨routed,hrun,?_⟩
  have hbudget := exactBudget_le_beam config index.size
  have hlen := hsettled.length_eq
  have hreach := reachable_ncard_le hl hlt
  have htop := hc.topK_le
  unfold exactBudget at hbudget
  rw [hresults,results_length hscored,hfound,List.length_take,ranked_length,exactBudget]
  omega

/-- A search fails only as the parts of it do. -/
theorem searchNodes_yields (hl : Loadable index) (hc : ValidConfig config)
    (ha : Answers distances index.size fails) (he : Evaluates distances scores fails)
    (hroute : ¬Nested index → fails (.thrown routeError)) :
    Yields (searchNodes rank distances index config) fails (fun _ => True) := by
  by_cases hflat : Flat config index.size
  · exact (searchNodes_flat hl hc hflat ha he hroute).mono (fun _ h => h) (fun _ _ => trivial)
  · exact (searchNodes_graph hl hc hflat ha he hroute).mono (fun _ h => h) (fun _ _ => trivial)

end Counts

end Leann.Ranking
