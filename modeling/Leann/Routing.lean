import Leann.Search

/-!
# Routing through the upper layers

The descent through the layers of a loadable index indexes nothing outside
its bounds and comes to an end, because every move inside a layer leads to a
strictly nearer node. It fails only at a layer that misses the node it
arrives at, and layers that are nested miss none.
-/

namespace Leann.Routing

open Exceptions Outcomes IndexFile Search

section Order

variable {δ κ : Type} [LinearOrder κ] {rank : δ → κ}

/-- The comparison of the loops is the order of the keys. -/
theorem nearer_iff (first second : Candidate δ) :
    first.Nearer rank second ↔ first.key rank<second.key rank := by
  rw [Candidate.Nearer,Candidate.key,Candidate.key,Prod.Lex.toLex_lt_toLex,UInt32.lt_iff_toNat_lt]

omit [LinearOrder κ] in
/-- Different nodes have different keys. -/
theorem key_ne {first second : Candidate δ} (h : first.id≠second.id) :
    first.key rank≠second.key rank := fun he =>
  h (UInt32.toNat_inj.mp (Prod.ext_iff.mp (toLex.injective he)).2)

end Order

section Measures

variable {δ : Type} (distances : Distances δ)

/-- A candidate with the approximate distance of its node. -/
def Measured (candidate : Candidate δ) : Prop :=
  distances.approximate candidate.id=.ok candidate.distance

variable {distances}

/-- A node has one approximate distance. -/
theorem Measured.eq {first second : Candidate δ} (hf : Measured distances first)
    (hs : Measured distances second) (h : first.id=second.id) : first=second := by
  have hd : distances.approximate first.id=.ok second.distance := h ▸ hs
  obtain ⟨distance,id⟩ := first
  obtain ⟨distance',id'⟩ := second
  have he := hf.symm.trans hd
  injection he with he
  subst he
  subst h
  rfl

/-- Asking for a distance. -/
theorem approximateDistance_yields {fails : Fault → Prop} {node : UInt32}
    (h : Ends (distances.approximate node) fails (fun _ => True)) :
    Yields (approximateDistance distances node) fails
      (fun distance => Measured distances ⟨distance,node⟩) := by
  refine (Yields.updated _).bind (fun _ _ => Yields.lift ?_)
  cases ha : distances.approximate node with
  | ok distance => exact ha
  | error fault =>
    rw [ha] at h
    exact h

end Measures

section Rows

variable {offsets : List UInt64} {edges : List UInt32} {rows count : ℕ}

/-- Every entry of the offsets lies inside the edges. -/
theorem offset_le (h : Rows offsets edges rows count) {i : ℕ} {offset : UInt64}
    (ho : offsets[i]?=some offset) : offset.toNat≤edges.length := by
  cases offsets with
  | nil => simp at ho
  | cons first rest =>
    cases i with
    | zero =>
      have hf : first=0 := by simpa [Spanning] using h.spanning.1
      have he : first=offset := by simpa using ho
      rw [←he,hf]
      exact Nat.zero_le _
    | succ i =>
      rw [List.getElem?_cons_succ] at ho
      exact h.rising.2 offset (List.mem_of_getElem? ho)

/-- The nodes of a layer are found where they are. -/
theorem findIdx_node {nodes : List UInt32} (hc : nodes.IsChain (·<·)) {id : UInt32}
    (hid : id∈nodes) : nodes[nodes.findIdx (fun node => decide (id≤node))]?=some id := by
  obtain ⟨i,hi,he⟩ := List.getElem_of_mem hid
  have hp : nodes.Pairwise (fun first second => first.toNat<second.toNat) :=
    List.pairwise_map.mp (List.isChain_iff_pairwise.mp ((List.isChain_map UInt32.toNat).mpr
      (hc.imp (fun _ _ h => UInt32.lt_iff_toNat_lt.mp h))))
  have hidx : nodes.findIdx (fun node => decide (id≤node))=i := by
    rw [List.findIdx_eq hi]
    refine ⟨by simp [he],fun j hj => decide_eq_false ?_⟩
    have hlt := List.pairwise_iff_getElem.mp hp j i (by omega) hi hj
    rw [he] at hlt
    rw [UInt32.le_iff_toNat_le]
    omega
  rw [hidx,List.getElem?_eq_getElem hi,he]

end Rows

section Descent

variable {δ κ : Type} [LinearOrder κ] {rank : δ → κ} {distances : Distances δ} {index : Index}
  {fails : Fault → Prop} {layer : UpperLayer}

/-- The nodes up to a size can be asked for their distances. -/
def Answers (distances : Distances δ) (size : ℕ) (fails : Fault → Prop) : Prop :=
  ∀ node : UInt32,node.toNat<size → Ends (distances.approximate node) fails (fun _ => True)

/-- What is kept while the edges of a node are followed: the best node is a
node of the layer, and either the node itself or a nearer one. -/
structure Improved (rank : δ → κ) (distances : Distances δ) (layer : UpperLayer)
    (routed best : Candidate δ) : Prop where
  /-- The best node belongs to the layer. -/
  mem : best.id∈layer.nodes
  /-- Its distance is its approximate distance. -/
  measured : Measured distances best
  /-- It is not farther than the node. -/
  nearer : best=routed ∨ best.key rank< routed.key rank

/-- One edge. -/
theorem improve_yields {size : ℕ} {entry : UInt32} (hl : LayerRows layer size entry)
    (ha : Answers distances size fails) {routed best : Candidate δ}
    (hb : Improved rank distances layer routed best) {edge : ℕ} (he : edge<layer.edges.length) :
    Yields (improve rank distances layer best edge) fails (Improved rank distances layer routed) := by
  refine (Yields.lift (element_ends he)).bind (fun neighbor hn => ?_)
  have hmem := hl.edges_mem neighbor (List.mem_of_getElem? hn)
  refine (approximateDistance_yields (ha neighbor (hl.nodes_lt neighbor hmem))).bind
    (fun distance hd => ?_)
  by_cases hnear : Candidate.Nearer rank ⟨distance,neighbor⟩ best
  · refine Yields.returned ?_
    rw [if_pos hnear]
    refine ⟨hmem,hd,Or.inr ?_⟩
    rw [nearer_iff] at hnear
    cases hb.nearer with
    | inl h => exact h ▸ hnear
    | inr h => exact hnear.trans h
  · refine Yields.returned ?_
    rw [if_neg hnear]
    exact hb

/-- All edges of a node. -/
theorem bestNeighbor_yields {size : ℕ} {entry : UInt32} (hl : LayerRows layer size entry)
    (ha : Answers distances size fails) {routed : Candidate δ} (hm : Measured distances routed)
    (hroute : routed.id∉layer.nodes → fails (.thrown routeError)) :
    Yields (bestNeighbor rank distances layer routed) fails
      (Improved rank distances layer routed) := by
  refine (Yields.lift (throwIf_ends (fun hmiss => hroute (fun hid =>
    hmiss (findIdx_node hl.nodes_chain hid))))).bind (fun _ hfound => ?_)
  rw [not_not] at hfound
  obtain ⟨hposition,-⟩ := List.getElem?_eq_some_iff.mp hfound
  have hlen := hl.rows.offsets_length
  refine (Yields.lift (element_ends (by omega))).bind (fun first _ => ?_)
  refine (Yields.lift (element_ends (by omega))).bind (fun last hlast => ?_)
  have hend := offset_le hl.rows hlast
  refine Yields.foldlM _ (fun _ => Improved rank distances layer routed)
    ⟨List.mem_of_getElem? hfound,hm,Or.inl rfl⟩ (fun done edge rest best hsplit hb => ?_)
  have hedge : edge∈List.range' first.toNat (last.toNat-first.toNat) := by
    rw [hsplit]
    simp
  rw [List.mem_range'_1] at hedge
  exact improve_yields hl ha hb (by omega)

/-- The nodes of a layer that are nearer than a node. -/
noncomputable def nearerNodes (rank : δ → κ) (distances : Distances δ) (layer : UpperLayer)
    (routed : Candidate δ) : Finset UInt32 :=
  open Classical in layer.nodes.toFinset.filter (fun node => ∃ distance,
    Measured distances ⟨distance,node⟩ ∧ Candidate.key rank ⟨distance,node⟩< routed.key rank)

/-- A move leaves fewer nodes that are nearer. -/
theorem nearerNodes_lt {routed best : Candidate δ} (hb : Improved rank distances layer routed best)
    (hk : best.key rank< routed.key rank) :
    (nearerNodes rank distances layer best).card<(nearerNodes rank distances layer routed).card := by
  refine Finset.card_lt_card (Finset.ssubset_iff_subset_ne.mpr ⟨fun node hn => ?_,fun he => ?_⟩)
  · simp only [nearerNodes,Finset.mem_filter] at hn ⊢
    obtain ⟨hmem,distance,hd,hlt⟩ := hn
    exact ⟨hmem,distance,hd,hlt.trans hk⟩
  · have hin : best.id∈nearerNodes rank distances layer routed := by
      simp only [nearerNodes,Finset.mem_filter,List.mem_toFinset]
      exact ⟨hb.mem,best.distance,hb.measured,hk⟩
    rw [←he] at hin
    simp only [nearerNodes,Finset.mem_filter] at hin
    obtain ⟨-,distance,hd,hlt⟩ := hin
    have hsame : (⟨distance,best.id⟩ : Candidate δ)=best := hd.eq hb.measured rfl
    rw [hsame] at hlt
    exact lt_irrefl _ hlt

/-- A node of a layer with its approximate distance. -/
def Routed (distances : Distances δ) (layer : UpperLayer) (routed : Candidate δ) : Prop :=
  routed.id∈layer.nodes ∧ Measured distances routed

/-- The loop of a layer comes to an end, at a node of the layer. -/
theorem descendLayer_yields {size : ℕ} {entry : UInt32} (hl : LayerRows layer size entry)
    (ha : Answers distances size fails) {turns : ℕ} {routed : Candidate δ}
    (hm : Measured distances routed) (hroute : routed.id∉layer.nodes → fails (.thrown routeError))
    (hturns : (nearerNodes rank distances layer routed).card<turns) :
    Yields (descendLayer rank distances layer turns routed) fails (Routed distances layer) := by
  induction turns generalizing routed with
  | zero => exact absurd hturns (Nat.not_lt_zero _)
  | succ turns ih =>
    refine (bestNeighbor_yields hl ha hm hroute).bind (fun best hb => ?_)
    by_cases hsame : best.id=routed.id
    · rw [if_pos hsame]
      exact Yields.returned ⟨hsame ▸ hb.mem,hm⟩
    · rw [if_neg hsame]
      have hk := hb.nearer.resolve_left (fun he => hsame (congrArg Candidate.id he))
      have hlt := nearerNodes_lt hb hk
      exact (Yields.updated _).bind (fun _ _ =>
        ih hb.measured (fun hn => absurd hb.mem hn) (by omega))

/-- There are not more nearer nodes than nodes. -/
theorem nearerNodes_card (routed : Candidate δ) :
    (nearerNodes rank distances layer routed).card≤layer.nodes.length := by
  classical
  exact (Finset.card_le_card (Finset.filter_subset _ _)).trans (List.toFinset_card_le _)

/-- Each layer has all the nodes of the next higher one. -/
def Nested (index : Index) : Prop :=
  index.upperLayers.IsChain (fun lower upper => ∀ id∈upper.nodes,id∈lower.nodes)

/-- Routing ends at a node with its approximate distance. It fails as the
distances do, and where layers are not nested. -/
theorem route_yields (hl : Loadable index) (ha : Answers distances index.size fails)
    (hroute : ¬Nested index → fails (.thrown routeError)) :
    Yields (route rank distances index) fails
      (fun routed => routed.id.toNat< index.size ∧ Measured distances routed) := by
  refine (approximateDistance_yields (ha _ hl.entry_lt)).bind (fun distance hd => ?_)
  have hloop : Yields (index.upperLayers.reverse.foldlM
      (fun routed layer => descendLayer rank distances layer (layer.nodes.length+1) routed)
      (⟨distance,index.entryPoint⟩ : Candidate δ)) fails (fun routed =>
        Measured distances routed ∧ routed.id.toNat< index.size) := by
    refine (Yields.foldlM index.upperLayers.reverse (fun done routed =>
      Measured distances routed ∧ routed.id.toNat< index.size ∧
      (done=[] → routed.id=index.entryPoint) ∧
      ∀ layer∈done.getLast?,routed.id∈layer.nodes) ?_ ?_).mono (fun _ h => h)
        (fun routed h => ⟨h.1,h.2.1⟩)
    · exact ⟨hd,hl.entry_lt,fun _ => rfl,by simp⟩
    · intro done layer rest routed hsplit hinv
      have hmem : layer∈index.upperLayers := by
        rw [←List.mem_reverse,hsplit]
        simp
      have hlayer := hl.layers layer hmem
      have hmiss : routed.id∉layer.nodes → fails (.thrown routeError) := by
        refine fun hn => hroute (fun hnested => hn ?_)
        have hchain : index.upperLayers.reverse.IsChain
            (fun upper lower => ∀ id∈upper.nodes,id∈lower.nodes) :=
          List.isChain_reverse.mpr hnested
        rw [hsplit,List.isChain_append] at hchain
        cases hlast : done.getLast? with
        | none =>
          rw [hinv.2.2.1 (List.getLast?_eq_none_iff.mp hlast)]
          exact hlayer.entry_mem
        | some last =>
          exact hchain.2.2 last hlast layer (by simp) routed.id (hinv.2.2.2 last hlast)
      have hcard : (nearerNodes rank distances layer routed).card≤layer.nodes.length :=
        nearerNodes_card routed
      refine (descendLayer_yields hlayer ha hinv.1 hmiss (by omega)).mono (fun _ h => h)
        (fun after hafter => ?_)
      refine ⟨hafter.2,hlayer.nodes_lt _ hafter.1,fun h => absurd h (by simp),?_⟩
      simp only [List.getLast?_append,List.getLast?_singleton,Option.some_or,Option.mem_def,
        Option.some.injEq]
      rintro _ rfl
      exact hafter.1
  exact hloop.mono (fun _ h => h) (fun routed h => ⟨h.2,h.1⟩)

/-- Asking for a distance does not depend on what was counted. -/
theorem approximateDistance_oblivious (node : UInt32) :
    Oblivious (approximateDistance distances node) :=
  (Oblivious.updated _).bind (fun _ => Oblivious.lift _)

/-- Nor does one turn in a layer. -/
theorem bestNeighbor_oblivious (routed : Candidate δ) :
    Oblivious (bestNeighbor rank distances layer routed) := by
  refine (Oblivious.lift _).bind (fun _ => (Oblivious.lift _).bind (fun _ =>
    (Oblivious.lift _).bind (fun _ => Oblivious.foldlM _ (fun _ _ => ?_) _)))
  exact (Oblivious.lift _).bind (fun neighbor =>
    (approximateDistance_oblivious neighbor).bind (fun _ => Oblivious.returned _))

/-- The loop of a layer does not depend on what was counted. -/
theorem descendLayer_oblivious (turns : ℕ) (routed : Candidate δ) :
    Oblivious (descendLayer rank distances layer turns routed) := by
  induction turns generalizing routed with
  | zero => exact Oblivious.lift _
  | succ turns ih =>
    refine (bestNeighbor_oblivious routed).bind (fun best => ?_)
    split
    · exact Oblivious.returned _
    · exact (Oblivious.updated _).bind (fun _ => ih best)

/-- Routing does not depend on what was counted. -/
theorem route_oblivious (index : Index) : Oblivious (route rank distances index) :=
  (approximateDistance_oblivious _).bind (fun _ =>
    Oblivious.foldlM _ (fun routed _ => descendLayer_oblivious _ routed) _)

end Descent

end Leann.Routing
