import Leann.SearchResults

/-!
# The descent through the upper layers

Inside a layer every move of the loop leads to a node that is strictly nearer,
equal distances in the order of the nodes, so it makes no more moves than the
layer has nodes and ends where no neighbour is nearer. The node at the end of
the lowest layer is not farther than the entry point.
-/

namespace Leann.LayerDescent

open Exceptions Outcomes IndexFile Search Routing SearchResults

section Layer

variable {δ κ : Type} [LinearOrder κ] {rank : δ → κ} {distances : Distances δ} {layer : UpperLayer}

/-- An edge of a layer, as the loop reads the row of a node. -/
def LayerEdge (layer : UpperLayer) (node next : UInt32) : Prop :=
  ∃ position first last edge,layer.nodes[position]?=some node ∧
    layer.offsets[position]?=some first ∧ layer.offsets[position+1]?=some last ∧
    first.toNat≤edge ∧ edge<last.toNat ∧ layer.edges[edge]?=some next

variable (rank distances layer)

/-- One turn of the loop finds a nearer node. -/
structure Move (here next : Candidate δ) : Prop where
  /-- It is what the turn returns, whatever was counted before. -/
  turn : ∀ metrics,∃ after,bestNeighbor rank distances layer here metrics=.ok (next,after)
  /-- It is another node. -/
  other : next.id≠here.id
  /-- It is nearer. -/
  nearer : next.key rank<here.key rank

/-- No neighbour is nearer. -/
def LocalMinimum (here : Candidate δ) : Prop :=
  ∀ next distance,LayerEdge layer here.id next → distances.approximate next=.ok distance →
    ¬Candidate.key rank ⟨distance,next⟩<here.key rank

/-- The moves of the loop between the node where it enters a layer and the
node where it leaves it. -/
structure Trail (enter leave : Candidate δ) (moves : List (Candidate δ)) : Prop where
  /-- Each of them is one turn of the loop. -/
  chain : (enter::moves).IsChain (Move rank distances layer)
  /-- The last one leads to where the layer is left. -/
  last : (enter::moves).getLast (List.cons_ne_nil _ _)=leave
  /-- There are not more of them than nodes. -/
  short : moves.length≤layer.nodes.length
  /-- The layer is left where no neighbour is nearer. -/
  minimum : LocalMinimum rank distances layer leave

variable {rank distances layer}

/-- One edge leaves a node that is not farther than the best so far, nor than
the target of the edge, and it is no move. -/
theorem improve_meets {best : Candidate δ} {edge : ℕ} {start : SearchMetrics}
    {neighbor : UInt32} {distance : δ} (hn : layer.edges[edge]?=some neighbor)
    (hd : distances.approximate neighbor=.ok distance) :
    Meets (improve rank distances layer best edge) start (fun _ => False) (fun after metrics =>
      (after=best ∨ after=⟨distance,neighbor⟩) ∧ after.key rank≤best.key rank ∧
      after.key rank≤Candidate.key rank ⟨distance,neighbor⟩ ∧
      metrics.upperLayerHops=start.upperLayerHops) := by
  have hread : Ends (element layer.edges edge) (fun _ => False) (fun value => value=neighbor) := by
    rw [(element_ok _ _ _).mpr hn]
    rfl
  refine (Meets.lift hread).bind (fun value metrics hvalue => ?_)
  obtain ⟨rfl,rfl⟩ := hvalue
  have hask : Meets (approximateDistance distances value) metrics (fun _ => False)
      (fun found after => found=distance ∧ after.upperLayerHops=metrics.upperLayerHops) := by
    refine (Meets.updated _).bind (fun _ after hafter => ?_)
    have hanswer : Ends (distances.approximate value) (fun _ => False)
        (fun found => found=distance) := by
      rw [hd]
      rfl
    refine (Meets.lift hanswer).mono (fun _ hf => hf) (fun found state h => ⟨h.1,?_⟩)
    rw [h.2,hafter]
  refine hask.bind (fun found after hfound => ?_)
  obtain ⟨rfl,hhops⟩ := hfound
  change (_ ∨ _) ∧ _
  by_cases hnear : Candidate.Nearer rank ⟨found,value⟩ best
  · rw [if_pos hnear]
    rw [nearer_iff] at hnear
    exact ⟨Or.inr rfl,hnear.le,le_refl _,hhops⟩
  · rw [if_neg hnear]
    rw [nearer_iff,not_lt] at hnear
    exact ⟨Or.inl rfl,le_refl _,hnear,hhops⟩

/-- What one turn returns: a node of the layer that no neighbour is nearer than,
the node itself or a nearer one. -/
structure Best (rank : δ → κ) (distances : Distances δ) (layer : UpperLayer)
    (routed best : Candidate δ) : Prop extends Improved rank distances layer routed best where
  /-- It is not farther than any neighbour of the node. -/
  least : ∀ next distance,LayerEdge layer routed.id next → distances.approximate next=.ok distance →
    best.key rank≤Candidate.key rank ⟨distance,next⟩

/-- One turn. -/
theorem bestNeighbor_meets {size : ℕ} {entry : UInt32} (hl : LayerRows layer size entry)
    (ha : Answers distances size (fun _ => False)) {routed : Candidate δ}
    (hm : Measured distances routed) (hmem : routed.id∈layer.nodes) (start : SearchMetrics) :
    Meets (bestNeighbor rank distances layer routed) start (fun _ => False) (fun best metrics =>
      Best rank distances layer routed best ∧ metrics.upperLayerHops=start.upperLayerHops) := by
  have hfound := findIdx_node hl.nodes_chain hmem
  have hpass : Ends (throwIf (layer.nodes[layer.nodes.findIdx (fun node => decide (routed.id≤node))]?≠
      some routed.id) routeError) (fun _ => False) (fun _ => True) := by
    rw [(throwIf_ok _ _ ()).mpr (not_not_intro hfound)]
    trivial
  refine (Meets.lift hpass).bind (fun _ metrics hmetrics => ?_)
  obtain ⟨-,rfl⟩ := hmetrics
  obtain ⟨hposition,-⟩ := List.getElem?_eq_some_iff.mp hfound
  have hlen := hl.rows.offsets_length
  refine (Meets.lift (element_ends (by omega))).bind (fun first metrics' hfirst => ?_)
  obtain ⟨hfirst,rfl⟩ := hfirst
  refine (Meets.lift (element_ends (by omega))).bind (fun last metrics'' hlast => ?_)
  obtain ⟨hlast,rfl⟩ := hlast
  have hend := offset_le hl.rows hlast
  refine (Meets.foldlM _ (fun done best (state : SearchMetrics) =>
      Improved rank distances layer routed best ∧
      (∀ edge∈done,∀ next distance,layer.edges[edge]?=some next →
        distances.approximate next=.ok distance →
        best.key rank≤Candidate.key rank ⟨distance,next⟩) ∧
      state.upperLayerHops=metrics''.upperLayerHops)
    ⟨⟨hmem,hm,Or.inl rfl⟩,by simp,rfl⟩ (fun done edge rest best state hsplit hinv => ?_)).mono
      (fun _ hf => hf) (fun best state hinv => ?_)
  · obtain ⟨himproved,hleast,hhops⟩ := hinv
    have hedge : edge∈List.range' first.toNat (last.toNat-first.toNat) := by
      rw [hsplit]
      simp
    rw [List.mem_range'_1] at hedge
    have hlt : edge<layer.edges.length := by omega
    have htarget := List.getElem?_eq_getElem hlt
    have hnode := hl.edges_mem _ (List.getElem_mem hlt)
    obtain ⟨distance,hdistance,-⟩ := (ha _ (hl.nodes_lt _ hnode)).returns
    refine (improve_meets htarget hdistance).mono (fun _ hf => hf) (fun after metrics h => ?_)
    obtain ⟨hwhich,hbest,hnext,hsame⟩ := h
    refine ⟨?_,fun other hother next distance' hread hd => ?_,hsame.trans hhops⟩
    · rcases hwhich with hsame | hmoved
      · rw [hsame]
        exact himproved
      · have hmeasured : Measured distances after := by
          rw [hmoved]
          exact hdistance
        refine ⟨by rw [hmoved]; exact hnode,hmeasured,?_⟩
        rcases himproved.nearer with hstart | hnearer
        · rw [hstart] at hbest
          rcases hbest.lt_or_eq with hlt | heq
          · exact Or.inr hlt
          · have hid : after.id=routed.id := not_not.mp (fun hne => key_ne hne heq)
            exact Or.inl (hmeasured.eq hm hid)
        · exact Or.inr (hbest.trans_lt hnearer)
    · rcases List.mem_append.mp hother with hdone | hedge'
      · exact hbest.trans (hleast other hdone next distance' hread hd)
      · rw [List.mem_singleton.mp hedge',htarget,Option.some.injEq] at hread
        rw [← hread,hdistance,Except.ok.injEq] at hd
        rw [← hread,← hd]
        exact hnext
  · obtain ⟨himproved,hleast,hhops⟩ := hinv
    refine ⟨⟨himproved,?_⟩,hhops⟩
    intro next distance hedge hd
    obtain ⟨position,first',last',edge,hnode,hfirst',hlast',hlow,hhigh,hread⟩ := hedge
    have hnodup : layer.nodes.Nodup :=
      (List.isChain_iff_pairwise.mp hl.nodes_chain).imp UInt32.ne_of_lt
    have hsame : layer.nodes.findIdx (fun node => decide (routed.id≤node))=position :=
      (List.getElem?_inj hposition hnodup).mp (hfound.trans hnode.symm)
    rw [hsame,hfirst',Option.some.injEq] at hfirst
    rw [hsame,hlast',Option.some.injEq] at hlast
    refine hleast edge ?_ next distance hread hd
    rw [List.mem_range'_1,← hfirst,← hlast]
    omega

/-- What a computation establishes holds of the very result it returns. -/
theorem meets_run {α : Type} {x : Searching α} {start : SearchMetrics} {fails : Fault → Prop}
    {post : α → SearchMetrics → Prop} (h : Meets x start fails post) :
    Meets x start fails (fun value state => post value state ∧ x start=.ok (value,state)) := by
  unfold Meets at *
  cases hx : x start with
  | ok result =>
    rw [hx] at h
    exact ⟨h,rfl⟩
  | error failure =>
    rw [hx] at h
    exact h

/-- A turn that leaves the node is a move. -/
theorem move_of_best {routed best : Candidate δ} (hbest : Best rank distances layer routed best)
    {start after : SearchMetrics} (hrun : bestNeighbor rank distances layer routed start=.ok (best,after))
    (hother : best.id≠routed.id) : Move rank distances layer routed best where
  turn metrics := by
    have hsame : (bestNeighbor rank distances layer routed start).map Prod.fst=
        (bestNeighbor rank distances layer routed metrics).map Prod.fst :=
      bestNeighbor_oblivious routed start metrics
    rw [hrun] at hsame
    cases hother : bestNeighbor rank distances layer routed metrics with
    | error fault => simp [hother,Except.map] at hsame
    | ok result =>
      have hvalue : best=result.1 := by simpa [hother,Except.map] using hsame
      exact ⟨result.2,by rw [hvalue]⟩
  other := hother
  nearer := hbest.nearer.resolve_left (fun h => hother (congrArg Candidate.id h))

/-- The loop of a layer. -/
theorem descendLayer_meets {size : ℕ} {entry : UInt32} (hl : LayerRows layer size entry)
    (ha : Answers distances size (fun _ => False)) {turns : ℕ} {routed : Candidate δ}
    (hm : Measured distances routed) (hmem : routed.id∈layer.nodes) (start : SearchMetrics)
    (hturns : (nearerNodes rank distances layer routed).card<turns) :
    Meets (descendLayer rank distances layer turns routed) start (fun _ => False)
      (fun leave metrics => Routed distances layer leave ∧ ∃ moves,
        Trail rank distances layer routed leave moves ∧
        moves.length≤(nearerNodes rank distances layer routed).card ∧
        metrics.upperLayerHops=start.upperLayerHops+moves.length) := by
  induction turns generalizing routed start with
  | zero => exact absurd hturns (Nat.not_lt_zero _)
  | succ turns ih =>
    refine (meets_run (bestNeighbor_meets hl ha hm hmem start)).bind (fun best metrics h => ?_)
    obtain ⟨⟨hbest,hhops⟩,hrun⟩ := h
    by_cases hsame : best.id=routed.id
    · rw [if_pos hsame]
      have hbestEq : best=routed := hbest.measured.eq hm hsame
      refine ⟨⟨hmem,hm⟩,[],⟨List.isChain_singleton _,rfl,Nat.zero_le _,?_⟩,Nat.zero_le _,hhops⟩
      intro next distance hedge hd
      rw [← hbestEq,not_lt]
      exact hbest.least next distance hedge hd
    · rw [if_neg hsame]
      have hmove := move_of_best hbest hrun hsame
      have hfewer := nearerNodes_lt hbest.toImproved hmove.nearer
      refine (Meets.updated _).bind (fun _ counted hcounted => ?_)
      refine (ih hbest.measured hbest.mem counted (by omega)).mono (fun _ hf => hf)
        (fun leave after h => ?_)
      obtain ⟨hleave,moves,htrail,hshort,hafter⟩ := h
      refine ⟨hleave,best::moves,⟨?_,?_,?_,htrail.minimum⟩,?_,?_⟩
      · exact List.isChain_cons_cons.mpr ⟨hmove,htrail.chain⟩
      · rw [List.getLast_cons (List.cons_ne_nil _ _)]
        exact htrail.last
      · have hcard : (nearerNodes rank distances layer routed).card≤layer.nodes.length :=
          nearerNodes_card routed
        rw [List.length_cons]
        omega
      · rw [List.length_cons]
        omega
      · rw [hafter,hcounted,List.length_cons]
        simp only
        omega

/-- Not farther than where the layer is entered. -/
theorem Trail.key_le {enter leave : Candidate δ} {moves : List (Candidate δ)}
    (h : Trail rank distances layer enter leave moves) : leave.key rank≤enter.key rank := by
  have hchain := h.chain
  have hlast := h.last
  clear h
  induction moves generalizing enter with
  | nil => exact (congrArg (Candidate.key rank) hlast.symm).le
  | cons next moves ih =>
    rw [List.isChain_cons_cons] at hchain
    rw [List.getLast_cons (List.cons_ne_nil _ _)] at hlast
    exact (ih hchain.2 hlast).trans hchain.1.nearer.le

end Layer

section Descent

variable {δ κ : Type} [LinearOrder κ]

/-- From layer to layer, with so many moves altogether. -/
inductive Descends (rank : δ → κ) (distances : Distances δ) :
    List UpperLayer → Candidate δ → Candidate δ → ℕ → Prop where
  /-- No layer is left. -/
  | done (routed : Candidate δ) : Descends rank distances [] routed routed 0
  /-- One layer, and those below it. -/
  | layer {layer : UpperLayer} {layers : List UpperLayer} {enter leave last : Candidate δ}
      {moves : List (Candidate δ)} {hops : ℕ} (trail : Trail rank distances layer enter leave moves)
      (rest : Descends rank distances layers leave last hops) :
      Descends rank distances (layer::layers) enter last (moves.length+hops)

variable {rank : δ → κ} {distances : Distances δ} {index : Index}

/-- The last node is not farther than the first. -/
theorem Descends.key_le {layers : List UpperLayer} {enter last : Candidate δ} {hops : ℕ}
    (h : Descends rank distances layers enter last hops) : last.key rank≤enter.key rank := by
  induction h with
  | done routed => exact le_refl _
  | layer trail rest ih => exact ih.trans trail.key_le

/-- The loop over the layers. -/
theorem descend_meets (ha : Answers distances index.size (fun _ => False)) {layers : List UpperLayer}
    (hl : ∀ layer∈layers,LayerRows layer index.size index.entryPoint)
    (hnested : layers.IsChain (fun upper lower => ∀ id∈upper.nodes,id∈lower.nodes))
    {routed : Candidate δ} (hm : Measured distances routed)
    (hfirst : ∀ layer∈layers.head?,routed.id∈layer.nodes) (start : SearchMetrics) :
    Meets (layers.foldlM (fun routed layer =>
        descendLayer rank distances layer (layer.nodes.length+1) routed) routed)
      start (fun _ => False) (fun last metrics => ∃ hops,
        Descends rank distances layers routed last hops ∧
        metrics.upperLayerHops=start.upperLayerHops+hops) := by
  induction layers generalizing routed start with
  | nil => exact ⟨0,.done routed,rfl⟩
  | cons layer layers ih =>
    rw [List.forall_mem_cons] at hl
    rw [List.foldlM_cons]
    have hcard : (nearerNodes rank distances layer routed).card≤layer.nodes.length :=
      nearerNodes_card routed
    refine (descendLayer_meets hl.1 ha hm (hfirst layer rfl) start (by omega)).bind
      (fun leave metrics h => ?_)
    obtain ⟨⟨hmem,hmeasured⟩,moves,htrail,-,hhops⟩ := h
    have hbelow : ∀ lower∈layers.head?,leave.id∈lower.nodes := by
      intro lower hlower
      cases layers with
      | nil => cases hlower
      | cons head tail =>
        cases hlower
        exact (List.isChain_cons_cons.mp hnested).1 leave.id hmem
    refine (ih hl.2 hnested.tail hmeasured hbelow metrics).mono (fun _ hf => hf)
      (fun last after h => ?_)
    obtain ⟨hops,hdescends,hafter⟩ := h
    exact ⟨moves.length+hops,.layer htrail hdescends,by omega⟩

/-- In an index that is loaded and whose layers are nested, whatever the
approximate distances are, routing comes to an end. In every layer it moves to
strictly nearer nodes, not more often than the layer has nodes, and it leaves
the layer where no neighbour is nearer. In the end it is not farther than the
entry point. -/
theorem route_descends {path : Text} {file : List UInt8} (hload : load path file=.ok index)
    (hnested : Nested index) (rank : δ → κ) (approximate : UInt32 → δ)
    (evaluate : ℕ → List UInt32 → Except Fault (List δ)) (start : SearchMetrics) :
    ∃ last metrics hops,
      route rank ⟨fun node => .ok (approximate node),evaluate⟩ index start=.ok (last,metrics) ∧
      Descends rank ⟨fun node => .ok (approximate node),evaluate⟩ index.upperLayers.reverse
        ⟨approximate index.entryPoint,index.entryPoint⟩ last hops ∧
      metrics.upperLayerHops=start.upperLayerHops+hops ∧
      last.key rank≤Candidate.key rank ⟨approximate index.entryPoint,index.entryPoint⟩ := by
  obtain ⟨hl,-,-,-⟩ := (load_ok _ _ _).mp hload
  have ha : Answers (⟨fun node => .ok (approximate node),evaluate⟩ : Distances δ) index.size
      (fun _ => False) := fun node hn => trivial
  have hlayers : ∀ layer∈index.upperLayers.reverse,LayerRows layer index.size index.entryPoint :=
    fun layer h => hl.layers layer (List.mem_reverse.mp h)
  have hchain : index.upperLayers.reverse.IsChain
      (fun upper lower => ∀ id∈upper.nodes,id∈lower.nodes) := List.isChain_reverse.mpr hnested
  have hfirst : ∀ layer∈index.upperLayers.reverse.head?,index.entryPoint∈layer.nodes :=
    fun layer h => (hlayers layer (List.mem_of_mem_head? h)).entry_mem
  let entry : Candidate δ := ⟨approximate index.entryPoint,index.entryPoint⟩
  have hmeasured : Measured ⟨fun node => .ok (approximate node),evaluate⟩ entry := rfl
  have hrun : Meets (index.upperLayers.reverse.foldlM (fun routed layer =>
      descendLayer rank ⟨fun node => .ok (approximate node),evaluate⟩ layer
        (layer.nodes.length+1) routed) entry)
      {start with approximateDistances := start.approximateDistances+1} (fun _ => False)
      (fun last metrics => ∃ hops,
        Descends rank ⟨fun node => .ok (approximate node),evaluate⟩ index.upperLayers.reverse
          entry last hops ∧ metrics.upperLayerHops=start.upperLayerHops+hops) :=
    descend_meets ha hlayers hchain hmeasured hfirst _
  obtain ⟨⟨last,metrics⟩,hok,hops,hdescends,hhops⟩ := Ends.returns hrun
  exact ⟨last,metrics,hops,hok,hdescends,hhops,hdescends.key_le⟩

/-- Two nested layers, each with a nearer neighbour. -/
def nestedIndex : Index :=
  {forkedIndex with upperLayers := [⟨[0,1,2],[0,1,2,2],[1,2]⟩,⟨[0,1],[0,1,1],[1]⟩]}

theorem nestedIndex_loadable : Loadable nestedIndex where
  identity_nonzero := by decide
  dimension_pos := by decide
  entry_lt := by decide
  level_le := by decide
  layers_length := by decide
  rows := forkedIndex_loadable.rows
  layers := by
    intro layer hl
    have he : layer=⟨[0,1,2],[0,1,2,2],[1,2]⟩ ∨ layer=⟨[0,1],[0,1,1],[1]⟩ := by
      simpa [nestedIndex] using hl
    cases he with
    | inl he => exact he▸⟨by decide,by decide,⟨by decide,by decide,by decide,by decide⟩,by decide,by decide⟩
    | inr he => exact he▸⟨by decide,by decide,⟨by decide,by decide,by decide,by decide⟩,by decide,by decide⟩
  fingerprint_lt := by decide
  sketched h := absurd h (by decide)
  quantized _ := ⟨⟨by decide,by decide,by decide,by decide,by decide,by decide,by decide,by decide⟩,
    by decide,by simp [nestedIndex,forkedIndex,coordinates],by decide,rfl⟩

/-- Through two layers in two moves. -/
theorem route_descends_nested :
    ∃ last metrics hops,
      route id ⟨fun node => .ok (9-node.toNat),fun _ _ => .ok []⟩ nestedIndex {}=.ok (last,metrics) ∧
      Descends id ⟨fun node => .ok (9-node.toNat),fun _ _ => .ok []⟩ nestedIndex.upperLayers.reverse
        ⟨9-nestedIndex.entryPoint.toNat,nestedIndex.entryPoint⟩ last hops ∧
      metrics.upperLayerHops=0+hops ∧
      last.key id≤Candidate.key id ⟨9-nestedIndex.entryPoint.toNat,nestedIndex.entryPoint⟩ :=
  route_descends (nestedIndex_loadable.load_sealed (by rw [indexBytes_length]; decide +kernel))
    (by unfold Nested; decide) id (fun node => 9-node.toNat) (fun _ _ => .ok []) {}

end Descent

end Leann.LayerDescent
