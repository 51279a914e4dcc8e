import Leann.BuiltIndex
import Leann.StableSort

/-!
# What pruning keeps of a graph

Pruning gives each node its closest neighbours and enters every such edge in
the rows of both ends while it still goes through the nodes. Compacting cuts
the rows again. So a row of the graph that is stored consists of the closest
nodes among those that the node keeps and those that keep the node, and a
node that had a neighbour still has one.
-/

namespace Leann.PrunedGraph

open BinaryFloat Exceptions Outcomes Embeddings IndexFile SearchResults Training IndexBuilder
  BuiltIndex StableSort

section Definitions

/-- A base graph as the HNSW library may return it. -/
structure Adjacency (count : ℕ) (original : List (List UInt32)) : Prop
    extends Targets count original where
  /-- No node is linked to itself. -/
  loopless : ∀ source<count,UInt32.ofNat source∉original.getD source []

/-- A distance that `closer_to` compares. -/
def Measured (embeddings : List Embedding) (source : ℕ) (id : UInt32) (distance : Single) : Prop :=
  ∃ lhs rhs,embeddings[source]?=some lhs ∧ embeddings[id.toNat]?=some rhs ∧
    cosineDistance lhs rhs=.ok distance

/-- By the distance to a node, and by number where distances are equal. -/
def Closer (embeddings : List Embedding) (source : ℕ) (lhs rhs : UInt32) : Prop :=
  ∃ near far,Measured embeddings source lhs near ∧ Measured embeddings source rhs far ∧
    (near<far ∨ ¬far<near ∧ lhs< rhs)

/-- By degree, the highest first, and by number where degrees are equal. -/
def Busier (original : List (List UInt32)) (lhs rhs : ℕ) : Prop :=
  (original.getD rhs []).length<(original.getD lhs []).length ∨
    (original.getD lhs []).length=(original.getD rhs []).length ∧ lhs< rhs

/-- `ceil(hub_ratio * N)`. -/
def hubShare (config : BuildConfig) (count : ℕ) : ℕ := (config.hubRatio*Binary.ofNat count).ceil

/-- How many neighbours a node keeps at most. -/
def keptDegree (config : BuildConfig) (hubNodes : List ℕ) (source : ℕ) : ℕ :=
  if source∈hubNodes then 2*config.graphDegree.toNat else config.lowDegree.toNat

/-- What a node keeps and what keeps it. -/
def candidates (kept : ℕ → List UInt32) (count source : ℕ) : Finset UInt32 :=
  (kept source).toFinset∪(allNodes count).toFinset.filter (fun id => UInt32.ofNat source∈kept id.toNat)

/-- A row of a graph whose rows stand one behind the other. -/
def csrRow (offsets : List UInt64) (edges : List UInt32) (source : ℕ) : List UInt32 :=
  let first := (offsets.getD source 0).toNat
  (edges.drop first).take ((offsets.getD (source+1) 0).toNat-first)

/-- What is claimed of the graph that is stored. -/
structure Pruned (config : BuildConfig) (embeddings : List Embedding)
    (original : List (List UInt32)) (offsets : List UInt64) (edges : List UInt32)
    (hubNodes : List ℕ) (kept : ℕ → List UInt32) : Prop where
  /-- The offsets lead from the first edge to the last and do not fall. -/
  rows : Rows offsets edges embeddings.length embeddings.length
  /-- The hubs have the highest degrees. -/
  hubs : Foremost (Busier original) (Finset.range embeddings.length)
    (hubShare config embeddings.length) hubNodes
  /-- A node keeps its closest neighbours. -/
  kept_closest : ∀ source<embeddings.length,Foremost (Closer embeddings source)
    (original.getD source []).toFinset (keptDegree config hubNodes source) (kept source)
  /-- A row consists of the closest candidates. -/
  row_closest : ∀ source<embeddings.length,Foremost (Closer embeddings source)
    (candidates kept embeddings.length source) (2*config.graphDegree.toNat)
    (csrRow offsets edges source)
  /-- No node is linked to itself. -/
  loopless : ∀ source<embeddings.length,UInt32.ofNat source∉csrRow offsets edges source
  /-- No neighbour is repeated. -/
  nodup : ∀ source<embeddings.length,(csrRow offsets edges source).Nodup
  /-- No node has too many neighbours. -/
  degree_le : ∀ source<embeddings.length,
    (csrRow offsets edges source).length≤2*config.graphDegree.toNat
  /-- A node that had a neighbour has one. -/
  degree_pos : ∀ source<embeddings.length,original.getD source []≠[] →
    1≤(csrRow offsets edges source).length
  /-- An edge is kept by one of its ends. -/
  kept_edge : ∀ source<embeddings.length,∀ id∈csrRow offsets edges source,
    id∈kept source ∨ UInt32.ofNat source∈kept id.toNat

end Definitions

section Sorting

variable {embeddings : List Embedding} {dimension source : ℕ} {neighbors : List UInt32}

/-- A distance that was measured is the only one. -/
theorem Measured.unique {id : UInt32} {distance other : Single}
    (h : Measured embeddings source id distance) (h' : Measured embeddings source id other) :
    distance=other := by
  obtain ⟨lhs,rhs,hl,hr,hd⟩ := h
  obtain ⟨lhs',rhs',hl',hr',hd'⟩ := h'
  rw [hl,Option.some.injEq] at hl'
  rw [hr,Option.some.injEq] at hr'
  rw [←hl',←hr',hd,Except.ok.injEq] at hd'
  exact hd'

theorem closer_irrefl (id : UInt32) : ¬Closer embeddings source id id := by
  intro h
  obtain ⟨near,far,hn,hf,hlt⟩ := h
  rw [hn.unique hf] at hlt
  cases hlt with
  | inl hlt => exact lt_irrefl _ hlt.2.2
  | inr hlt => exact absurd hlt.2 (UInt32.lt_irrefl id)

/-- Sorting identifiers and dropping repeated ones leaves them strictly sorted. -/
theorem sortUnique_sorted (ids : List UInt32) :
    (sortUnique ids).Pairwise (fun lhs rhs => lhs.toNat< rhs.toNat) := by
  have hsorted := insertionSort_key id ids
  rw [List.map_id] at hsorted
  have hboth := (hsorted.sublist (List.dedup_sublist _)).and (sortUnique_nodup ids)
  exact hboth.imp (fun h => UInt32.lt_iff_toNat_lt.mp (UInt32.lt_of_le_of_ne h.1 h.2))

/-- The distances of the neighbours of a node. -/
theorem neighborDistances_ends (he : Embedded dimension embeddings) (hs : source<embeddings.length)
    (hids : ∀ id∈neighbors,id.toNat<embeddings.length) (hmany : ¬neighbors.length<2) :
    Ends (neighborDistances embeddings source neighbors) (fun _ => False) (fun distances =>
      distances.map Prod.fst=neighbors ∧
        ∀ pair∈distances,Measured embeddings source pair.1 pair.2 ∧ pair.2.Finite) := by
  rw [neighborDistances,if_neg hmany]
  have hmap := @Ends.mapM_forall₂ _ _ _ (fun _ : Fault => False)
    (fun neighbor => do
      let lhs ← element embeddings source
      let rhs ← element embeddings neighbor.toNat
      let distance ← cosineDistance lhs rhs
      return (neighbor,distance))
    (fun neighbor pair => pair.1=neighbor ∧ Measured embeddings source pair.1 pair.2 ∧
      pair.2.Finite) neighbors (fun neighbor hn => by
      refine (element_ends hs).bind (fun lhs hl => ?_)
      refine (element_ends (hids neighbor hn)).bind (fun rhs hr => ?_)
      have hlmem := List.mem_of_getElem? hl
      have hrmem := List.mem_of_getElem? hr
      have hshort : lhs.length<2^53 := by
        rw [he.length_eq lhs hlmem]
        exact he.dimension_lt.trans (by norm_num)
      have hequal := (he.length_eq lhs hlmem).trans (he.length_eq rhs hrmem).symm
      obtain ⟨distance,hd,hf⟩ :=
        (cosineDistance_ends (he.unit lhs hlmem) (he.unit rhs hrmem) hshort hequal).returns
      rw [hd]
      exact ⟨rfl,⟨lhs,rhs,hl,hr,hd⟩,hf⟩)
  refine hmap.mono (fun _ h => h) (fun distances h => ⟨?_,fun pair hp => ?_⟩)
  · rw [map_eq_of_forall₂ h (fun _ _ he => he.1),List.map_id']
  · obtain ⟨neighbor,-,hpair⟩ := mem_of_forall₂ h hp
    exact hpair.2

/-- Neighbours in the order of their numbers are sorted by distance and, where
it is equal, by number. -/
theorem closestFirst_ends (he : Embedded dimension embeddings) (hs : source<embeddings.length)
    (hids : ∀ id∈neighbors,id.toNat<embeddings.length)
    (hn : neighbors.Pairwise (fun lhs rhs => lhs.toNat< rhs.toNat)) :
    Ends (closestFirst embeddings source neighbors) (fun _ => False) (fun sorted =>
      sorted.Perm neighbors ∧ sorted.Pairwise (Closer embeddings source)) := by
  by_cases hmany : neighbors.length<2
  · have hone : closestFirst embeddings source neighbors=.ok neighbors := by
      rw [closestFirst,neighborDistances,if_pos hmany]
      match neighbors,hmany with
      | [],_ => rfl
      | [neighbor],_ => rfl
    rw [hone]
    refine ⟨List.Perm.refl _,?_⟩
    match neighbors,hmany with
    | [],_ => exact List.Pairwise.nil
    | [neighbor],_ => exact List.pairwise_singleton _ _
  · refine (neighborDistances_ends he hs hids hmany).bind (fun distances h => ?_)
    obtain ⟨hfst,hall⟩ := h
    have hperm := List.perm_insertionSort (fun lhs rhs : UInt32×Single => ¬rhs.2<lhs.2) distances
    have hmap := hperm.map Prod.fst
    rw [hfst] at hmap
    refine ⟨hmap,?_⟩
    have hkey : distances.insertionSort (fun lhs rhs => ¬rhs.2<lhs.2)=
        distances.insertionSort (fun lhs rhs => lhs.2.key≤ rhs.2.key) := by
      refine insertionSort_congr (List.pairwise_of_forall_mem_list (fun lhs hl rhs hr => ?_))
      have hlt : rhs.2<lhs.2 ↔ rhs.2.key<lhs.2.key :=
        ⟨fun h => h.2.2,fun h => ⟨(hall rhs hr).2.defined,(hall lhs hl).2.defined,h⟩⟩
      rw [hlt,not_lt]
    have htie : distances.Pairwise (fun lhs rhs => lhs.1.toNat< rhs.1.toNat) := by
      rw [←hfst,List.pairwise_map] at hn
      exact hn
    have hbefore := @insertionSort_before _ _ _ _ _ _ (fun pair : UInt32×Single => pair.2.key) _ htie
    rw [←hkey] at hbefore
    refine List.pairwise_map.mpr (hbefore.imp_of_mem (fun {lhs rhs} hl hr hb => ?_))
    obtain ⟨hml,hfl⟩ := hall lhs (hperm.mem_iff.mp hl)
    obtain ⟨hmr,hfr⟩ := hall rhs (hperm.mem_iff.mp hr)
    refine ⟨lhs.2,rhs.2,hml,hmr,?_⟩
    cases hb with
    | inl hlt => exact .inl ⟨hfl.defined,hfr.defined,hlt⟩
    | inr heq =>
      refine .inr ⟨fun hlt => ?_,UInt32.lt_iff_toNat_lt.mpr heq.2⟩
      exact heq.1.not_gt hlt.2.2

/-- The closest of some nodes, which may be repeated. -/
theorem closestFirst_foremost (he : Embedded dimension embeddings) (hs : source<embeddings.length)
    (hids : ∀ id∈neighbors,id.toNat<embeddings.length) :
    ∃ sorted,closestFirst embeddings source (sortUnique neighbors)=.ok sorted ∧
      ∀ cap,Foremost (Closer embeddings source) neighbors.toFinset cap (sorted.take cap) := by
  obtain ⟨sorted,hsorted,hperm,hpair⟩ := (closestFirst_ends he hs
    (fun id hid => hids id ((mem_sortUnique neighbors id).mp hid)) (sortUnique_sorted neighbors)).returns
  refine ⟨sorted,hsorted,fun cap => foremost_take hpair closer_irrefl (fun id => ?_)⟩
  rw [hperm.mem_iff,mem_sortUnique,List.mem_toFinset]

end Sorting

section Linking

variable {config : BuildConfig} {embeddings : List Embedding} {original graph : List (List UInt32)}
  {hubNodes : List ℕ} {isHub : List Bool} {count dimension source : ℕ} {neighbor : UInt32}

/-- Nodes are numbered in thirty-two bits. -/
theorem ofNat_eq_iff (hc : count<2^32) {node : ℕ} (hn : node<count) (id : UInt32) :
    UInt32.ofNat node=id ↔ node=id.toNat := by
  rw [←UInt32.toNat_inj,UInt32.toNat_ofNat',Nat.mod_eq_of_lt (hn.trans hc)]

/-- A row gets one more entry. -/
theorem pushNeighbor_ends (hs : source<graph.length) :
    Ends (pushNeighbor graph source neighbor) (fun _ => False) (fun after =>
      after.length=graph.length ∧ ∀ node id,id∈after.getD node [] ↔
        id∈graph.getD node [] ∨ node=source ∧ id=neighbor) := by
  refine (element_ends hs).bind (fun row hrow => ?_)
  refine (assign_ends hs _).mono (fun _ h => h) (fun after hafter => ?_)
  rw [hafter]
  refine ⟨List.length_set,fun node id => ?_⟩
  simp only [List.getD_eq_getElem?_getD,List.getElem?_set]
  by_cases he : source=node
  · rw [if_pos he,if_pos hs,←he,hrow]
    simp
  · rw [if_neg he]
    simp [Ne.symm he]

/-- An edge is entered in the rows of both ends. -/
theorem linkBoth_ends (hs : source<graph.length) (hn : neighbor.toNat<graph.length)
    (hne : neighbor≠UInt32.ofNat source) :
    Ends (linkBoth source graph neighbor) (fun _ => False) (fun after =>
      after.length=graph.length ∧ ∀ node id,id∈after.getD node [] ↔ id∈graph.getD node [] ∨
        node=source ∧ id=neighbor ∨ node=neighbor.toNat ∧ id=UInt32.ofNat source) := by
  rw [linkBoth,if_neg hne]
  refine (pushNeighbor_ends hs).bind (fun middle hmiddle => ?_)
  refine (pushNeighbor_ends (hmiddle.1.symm ▸ hn)).mono (fun _ h => h) (fun after hafter => ?_)
  refine ⟨hafter.1.trans hmiddle.1,fun node id => ?_⟩
  rw [hafter.2,hmiddle.2,or_assoc]

/-- The edges that so many nodes have entered. -/
structure Linked (kept : ℕ → List UInt32) (count done : ℕ) (graph : List (List UInt32)) : Prop where
  /-- Every node has a row. -/
  length_eq : graph.length=count
  /-- A row holds what the node keeps and what keeps the node. -/
  mem_iff : ∀ node<count,∀ id,id∈graph.getD node [] ↔
    node<done ∧ id∈kept node ∨ id.toNat<done ∧ UInt32.ofNat node∈kept id.toNat

/-- What one node keeps is entered. -/
theorem Linked.extend {kept : ℕ → List UInt32} (hc : count<2^32) (h : Linked kept count source graph)
    (hs : source<count) (hids : ∀ id∈kept source,id.toNat<count)
    (hloop : UInt32.ofNat source∉kept source) :
    Ends ((kept source).foldlM (linkBoth source) graph) (fun _ => False)
      (Linked kept count (source+1)) := by
  have hfold := @Ends.foldlM _ _ _ (fun _ : Fault => False) (linkBoth source)
    graph (kept source) (fun done after =>
      after.length=count ∧ ∀ node<count,∀ id,id∈after.getD node [] ↔ id∈graph.getD node [] ∨
        node=source ∧ id∈done ∨ UInt32.ofNat node∈done ∧ id=UInt32.ofNat source)
    ⟨h.length_eq,by simp⟩ (fun done neighbor rest state hsplit hstate => by
      have hmem : neighbor∈kept source := by
        rw [hsplit]
        simp
      refine (linkBoth_ends (hstate.1.symm ▸ hs) (hstate.1.symm ▸ hids neighbor hmem)
        (fun he => hloop (he ▸ hmem))).mono (fun _ hf => hf) (fun after hafter => ?_)
      refine ⟨hafter.1.trans hstate.1,fun node hn id => ?_⟩
      rw [hafter.2,hstate.2 node hn,List.mem_append,List.mem_append,List.mem_singleton,
        List.mem_singleton,ofNat_eq_iff hc hn]
      tauto)
  refine hfold.mono (fun _ hf => hf) (fun after hafter => ⟨hafter.1,fun node hn id => ?_⟩)
  rw [hafter.2 node hn,h.mem_iff node hn,Nat.lt_succ_iff_lt_or_eq,Nat.lt_succ_iff_lt_or_eq,
    eq_comm (a := id),ofNat_eq_iff hc hs]
  constructor
  · intro hid
    rcases hid with (hid | hid) | hid | hid
    · exact .inl ⟨.inl hid.1,hid.2⟩
    · exact .inr ⟨.inl hid.1,hid.2⟩
    · exact .inl ⟨.inr hid.1,hid.1 ▸ hid.2⟩
    · exact .inr ⟨.inr hid.2.symm,hid.2 ▸ hid.1⟩
  · intro hid
    rcases hid with ⟨hnode | hnode,hid⟩ | ⟨hnode,hid⟩
    · exact .inl (.inl ⟨hnode,hid⟩)
    · exact .inr (.inl ⟨hnode,hnode ▸ hid⟩)
    · cases hnode with
      | inl hlt => exact .inl (.inr ⟨hlt,hid⟩)
      | inr heq => exact .inr (.inr ⟨heq ▸ hid,heq.symm⟩)

/-- The cap of a list of neighbours. -/
theorem maximumDegree_toNat (hconfig : validateBuildConfig config=.ok ()) :
    (maximumDegree config).toNat=2*config.graphDegree.toNat := by
  simp only [validateBuildConfig,bind_eq_ok,throwIf_ok,not_or] at hconfig
  obtain ⟨_,hdegree,-⟩ := hconfig
  rw [maximumDegree,UInt32.toNat_mul]
  change config.graphDegree.toNat*2%2^32=_
  omega

/-- Every node may keep a neighbour. -/
theorem keptDegree_pos (hconfig : validateBuildConfig config=.ok ()) (node : ℕ) :
    0<keptDegree config hubNodes node ∧ 0<2*config.graphDegree.toNat := by
  simp only [validateBuildConfig,bind_eq_ok,throwIf_ok,not_or,UInt32.lt_iff_toNat_lt,
    ←UInt32.toNat_inj] at hconfig
  obtain ⟨_,hdegree,_,-,_,hlow,-⟩ := hconfig
  have htwo : ¬config.graphDegree.toNat<2 := hdegree.1
  have hzero : ¬config.lowDegree.toNat=0 := hlow.1
  unfold keptDegree
  split <;> omega

/-- A hub is marked. -/
structure Marked (hubNodes : List ℕ) (count : ℕ) (isHub : List Bool) : Prop where
  /-- Every node has a mark. -/
  length_eq : isHub.length=count
  /-- The mark says whether the node is a hub. -/
  marked : ∀ node<count,isHub[node]?=some (decide (node∈hubNodes))

/-- Pruning enters what each node keeps in the rows of both ends. -/
theorem prune_ends (hconfig : validateBuildConfig config=.ok ()) (he : Embedded dimension embeddings)
    (ho : Adjacency embeddings.length original) (hm : Marked hubNodes embeddings.length isHub) :
    ∃ kept : ℕ → List UInt32,
      (∀ node<embeddings.length,Foremost (Closer embeddings node) (original.getD node []).toFinset
        (keptDegree config hubNodes node) (kept node)) ∧
      Ends (prune config embeddings original isHub) (fun _ => False)
        (Linked kept embeddings.length embeddings.length) := by
  have hrow : ∀ node<embeddings.length,original[node]?=some (original.getD node []) := by
    intro node hn
    rw [←ho.length_eq] at hn
    rw [List.getD_eq_getElem _ _ hn,List.getElem?_eq_getElem hn]
  have hids : ∀ node<embeddings.length,∀ id∈original.getD node [],id.toNat<embeddings.length :=
    fun node hn => ho.ids_lt _ (List.mem_of_getElem? (hrow node hn))
  choose! sorted hsorted hfront using
    fun node (hn : node<embeddings.length) => closestFirst_foremost he hn (hids node hn)
  have hkept := fun node hn => hfront node hn (keptDegree config hubNodes node)
  refine ⟨fun node => (sorted node).take (keptDegree config hubNodes node),hkept,?_⟩
  unfold prune
  rw [ho.length_eq]
  refine Ends.foldlM_range embeddings.length (Linked _ embeddings.length)
    ⟨List.length_replicate,fun node hn id => ?_⟩ (fun node graph hn hgraph => ?_)
  · simp [List.getD_eq_getElem?_getD,hn]
  · have hpool := fun id hid => List.mem_toFinset.mp ((hkept node hn).mem_pool id hid)
    have hcap : (if decide (node∈hubNodes) then (maximumDegree config).toNat
        else config.lowDegree.toNat)=keptDegree config hubNodes node := by
      rw [maximumDegree_toNat hconfig,keptDegree]
      simp only [decide_eq_true_eq]
    have hloop := hgraph.extend he.count_lt hn (fun id hid => hids node hn id (hpool id hid))
      (fun hself => ho.loopless node hn (hpool _ hself))
    refine Ends.after ((element_ok _ _ _).mpr (hrow node hn)) ?_
    refine Ends.after (hsorted node hn) ?_
    refine Ends.after ((element_ok _ _ _).mpr (hm.marked node hn)) ?_
    rw [hcap]
    exact hloop

/-- Compacting cuts every row to the closest entries. -/
theorem compact_ok (hconfig : validateBuildConfig config=.ok ()) (he : Embedded dimension embeddings)
    (hg : Targets embeddings.length graph) : ∃ row : ℕ → List UInt32,
      (∀ node<embeddings.length,Foremost (Closer embeddings node) (graph.getD node []).toFinset
        (2*config.graphDegree.toNat) (row node)) ∧
      compact config embeddings graph=.ok ((List.range embeddings.length).map row) := by
  have hrow : ∀ node<embeddings.length,graph[node]?=some (graph.getD node []) := by
    intro node hn
    rw [←hg.length_eq] at hn
    rw [List.getD_eq_getElem _ _ hn,List.getElem?_eq_getElem hn]
  choose! sorted hsorted hfront using fun node (hn : node<embeddings.length) =>
    closestFirst_foremost he hn (hg.ids_lt _ (List.mem_of_getElem? (hrow node hn)))
  refine ⟨fun node => (sorted node).take (2*config.graphDegree.toNat),
    fun node hn => hfront node hn _,?_⟩
  have hloop : Ends (compact config embeddings graph) (fun _ => False) (fun rows => rows=
      (List.range embeddings.length).map (fun node => (sorted node).take
        (2*config.graphDegree.toNat))) := by
    unfold compact
    rw [hg.length_eq]
    refine Ends.foldlM_range embeddings.length (fun done rows => rows=
      (List.range done).map (fun node => (sorted node).take (2*config.graphDegree.toNat))) rfl
      (fun node rows hn hrows => ?_)
    refine Ends.after ((element_ok _ _ _).mpr (hrow node hn)) ?_
    refine Ends.after (hsorted node hn) ?_
    rw [maximumDegree_toNat hconfig,hrows,List.range_succ,List.map_append]
    rfl
  obtain ⟨rows,hrows,hmap⟩ := hloop.returns
  rw [hrows,hmap]

end Linking

section Hubs

variable {config : BuildConfig} {original : List (List UInt32)} {count : ℕ}

/-- A share of hubs that is accepted is a number of the unit interval. -/
theorem hubRatio_unit (hconfig : validateBuildConfig config=.ok ()) :
    config.hubRatio.Finite ∧ 0≤ config.hubRatio.value ∧ config.hubRatio.value≤1 := by
  simp only [validateBuildConfig,bind_eq_ok,throwIf_ok,not_or,not_not] at hconfig
  obtain ⟨_,-,_,-,_,-,_,⟨hfinite,hneg,hone⟩,-⟩ := hconfig
  obtain ⟨h1,hv1⟩ := double_one
  have hzero : (0 : Double).value=0 := double.grid_zero
  rw [hfinite.lt_iff finite_zero,hzero,not_lt] at hneg
  rw [h1.lt_iff hfinite,hv1,not_lt] at hone
  exact ⟨hfinite,hneg,hone⟩

/-- The number of nodes as a double. -/
theorem count_exact (hc : count<2^32) :
    (Binary.ofNat count : Double).Finite ∧ (Binary.ofNat count : Double).value=count := by
  have hexact := double_exact_natCast count 0 (by omega) (by norm_num)
  rw [pow_zero,Nat.mul_one] at hexact
  exact Binary.ofNat_exact hexact

/-- The special cases of `hub_count` do not change it. -/
theorem hubCount_eq (hconfig : validateBuildConfig config=.ok ()) (hpos : 0<count)
    (hc : count<2^32) : hubCount config count=hubShare config count := by
  obtain ⟨hfinite,hlow,hhigh⟩ := hubRatio_unit hconfig
  obtain ⟨hcf,hcv⟩ := count_exact hc
  have hone : (1 : ℚ)≤ count := by exact_mod_cast hpos
  have hzero : (0 : Double).value=0 := double.grid_zero
  have hbetween := Binary.round_between (f := double) (config.hubRatio.negative^^
    (Binary.ofNat count : Double).negative) hfinite.exact hcf.exact
    (le_mul_of_one_le_right hlow (hcv ▸ hone)) (mul_le_of_le_one_left (hcv ▸ by positivity) hhigh)
  rw [←Binary.mul_eq hfinite hcf] at hbetween
  unfold hubCount hubShare
  split
  · rename_i hboth
    rw [hfinite.le_iff finite_zero,finite_zero.le_iff hfinite,hzero] at hboth
    have hexact := Binary.round_exact (f := double) (config.hubRatio.negative^^
      (Binary.ofNat count : Double).negative) double_exact_zero
    have hproduct : (config.hubRatio*Binary.ofNat count).value=0 := by
      rw [Binary.mul_eq hfinite hcf,le_antisymm hboth.1 hboth.2,zero_mul]
      exact hexact.2
    rw [Binary.ceil,hproduct,Nat.ceil_zero]
  · rename_i hnot
    rw [hfinite.le_iff finite_zero,finite_zero.le_iff hfinite,hzero] at hnot
    have hratio : 0<config.hubRatio.value := lt_of_le_of_ne hlow (fun he => hnot ⟨he.symm.le,he.le⟩)
    exact max_eq_right (Nat.ceil_pos.mpr (hratio.trans_le hbetween.2.1))

/-- The rounded share is the share of the exact product or one less. -/
theorem hubShare_near (hconfig : validateBuildConfig config=.ok ()) (hc : count<2^32) :
    hubShare config count≤⌈config.hubRatio.value*count⌉₊ ∧
      ⌈config.hubRatio.value*count⌉₊≤hubShare config count+1 := by
  obtain ⟨hfinite,hlow,hhigh⟩ := hubRatio_unit hconfig
  obtain ⟨hcf,hcv⟩ := count_exact hc
  have hwhole : ∀ share : ℕ,share≤2^32 → double.Exact share := by
    intro share hshare
    have hexact := double_exact_natCast share 0 (by omega) (by norm_num)
    rwa [pow_zero,Nat.mul_one] at hexact
  have hle : config.hubRatio.value*count≤ count := mul_le_of_le_one_left (by positivity) hhigh
  have hceil : ⌈config.hubRatio.value*count⌉₊≤ count := Nat.ceil_le.mpr hle
  have hnonneg : 0≤ config.hubRatio.value*count := by positivity
  have hexact := hwhole _ (hceil.trans hc.le)
  rw [hubShare,Binary.ceil,Binary.mul_eq hfinite hcf,hcv]
  constructor
  · exact Nat.ceil_le.mpr (Binary.round_between _ double_exact_zero hexact hnonneg (Nat.le_ceil _)).2.2
  · cases hshare : ⌈config.hubRatio.value*count⌉₊ with
    | zero => exact Nat.zero_le _
    | succ share =>
      have hlt : (share : ℚ)<config.hubRatio.value*count := Nat.lt_ceil.mp (by omega)
      have hbelow := (Binary.round_between (config.hubRatio.negative^^
        (Binary.ofNat count : Double).negative) (hwhole share (by omega)) hexact hlt.le
          (Nat.le_ceil _)).2.1
      have hshares : (share : ℚ)≤(⌈(Binary.round (f := double) (config.hubRatio.negative^^
        (Binary.ofNat count : Double).negative) (config.hubRatio.value*count)).value⌉₊ : ℕ) :=
        hbelow.trans (Nat.le_ceil _)
      have hnat : share≤⌈(Binary.round (f := double) (config.hubRatio.negative^^
        (Binary.ofNat count : Double).negative) (config.hubRatio.value*count)).value⌉₊ := by
        exact_mod_cast hshares
      omega

theorem busier_irrefl (node : ℕ) : ¬Busier original node node := by
  simp [Busier]

/-- The nodes in the order of their degrees. -/
theorem degreeOrder_sorted (original : List (List UInt32)) :
    (degreeOrder original).Pairwise (Busier original) := by
  have hrange : (List.range original.length).Pairwise (fun lhs rhs => lhs< rhs) :=
    List.pairwise_lt_range
  exact @insertionSort_before _ _ _ _ _ _ (fun node => OrderDual.toDual (original.getD node []).length)
    (fun node => node) hrange

/-- The order has all nodes. -/
theorem mem_degreeOrder (original : List (List UInt32)) (node : ℕ) :
    node∈degreeOrder original ↔ node<original.length := by
  rw [degreeOrder,List.mem_insertionSort,List.mem_range]

/-- The marks of the hubs. -/
theorem hubs_marked (hconfig : validateBuildConfig config=.ok ()) (hlen : original.length=count)
    (hpos : 0<count) (hc : count<2^32) : ∃ hubNodes isHub,
      Foremost (Busier original) (Finset.range count) (hubShare config count) hubNodes ∧
      hubs config original=.ok isHub ∧ Marked hubNodes count isHub := by
  have hfront : Foremost (Busier original) (Finset.range count) (hubShare config count)
      ((degreeOrder original).take (hubShare config count)) :=
    foremost_take (degreeOrder_sorted original) busier_irrefl (fun node => by
      rw [mem_degreeOrder,Finset.mem_range,hlen])
  have horder : (degreeOrder original).length=count := by
    rw [degreeOrder,List.length_insertionSort,List.length_range,hlen]
  have htake : (degreeOrder original).take (min original.length (hubCount config original.length))=
      (degreeOrder original).take (hubShare config count) := by
    rw [hlen,hubCount_eq hconfig hpos hc,min_comm]
    conv_rhs => rw [List.take_eq_take_min,horder]
  have hloop : Ends (hubs config original) (fun _ => False)
      (Marked ((degreeOrder original).take (hubShare config count)) count) := by
    unfold hubs
    rw [htake,hlen]
    refine Ends.foldlM _ (fun done isHub => Marked done count isHub)
      ⟨List.length_replicate,fun node hn => by simp [hn]⟩
      (fun done node rest isHub hsplit hmarked => ?_)
    have hnode : node<count := by
      have hmem := hfront.mem_pool node (by rw [hsplit]; simp)
      exact Finset.mem_range.mp hmem
    refine (assign_ends (hmarked.length_eq.symm ▸ hnode) true).mono (fun _ h => h) (fun after hafter => ?_)
    rw [hafter]
    refine ⟨List.length_set.trans hmarked.length_eq,fun other ho => ?_⟩
    by_cases he : node=other
    · rw [←he,List.getElem?_set_self (hmarked.length_eq.symm ▸ hnode)]
      simp
    · rw [List.getElem?_set_ne he,hmarked.marked other ho]
      simp [Ne.symm he]
  obtain ⟨isHub,hisHub,hmarked⟩ := hloop.returns
  exact ⟨_,isHub,hfront,hisHub,hmarked⟩

end Hubs

section Rows

/-- An entry of the offsets. -/
theorem rowOffsets_getD {rows : List (List UInt32)} (hlt : rows.flatten.length<2^64) {source : ℕ}
    (hs : source≤ rows.length) :
    ((rowOffsets rows).getD source 0).toNat=((rows.map List.length).take source).sum := by
  have hentry : (rowOffsets rows)[source]?=
      some (UInt64.ofNat ((rows.map List.length).take source).sum) := by
    rw [rowOffsets,List.getElem?_map,List.getElem?_scanl,if_pos (by rwa [List.length_map]),
      List.sum_eq_foldl]
    rfl
  have hle : ((rows.map List.length).take source).sum≤ rows.flatten.length := by
    rw [List.length_flatten]
    exact (List.take_sublist _ _).sum_le_sum (fun _ _ => Nat.zero_le _)
  rw [List.getD_eq_getElem?_getD,hentry,Option.getD_some,UInt64.toNat_ofNat',
    Nat.mod_eq_of_lt (hle.trans_lt hlt)]

/-- The rows can be found again where they are put. -/
theorem csrRow_flatten {rows : List (List UInt32)} (hlt : rows.flatten.length<2^64) {source : ℕ}
    (hs : source< rows.length) : csrRow (rowOffsets rows) rows.flatten source=rows[source] := by
  rw [csrRow,rowOffsets_getD hlt hs.le,rowOffsets_getD hlt hs,←List.drop_take,
    List.drop_take_succ_flatten_eq_getElem]

end Rows

section Main

variable {config : BuildConfig} {embeddings : List Embedding} {original : List (List UInt32)}
  {dimension : ℕ}

/-- The base graph that is stored after pruning: its rows are well formed,
no node has too many neighbours or loses all of them, and each row consists
of the closest nodes among those that its node keeps and those that keep it. -/
theorem pruned_graph_closest (hconfig : validateBuildConfig config=.ok ())
    (he : Embedded dimension embeddings) (ho : Adjacency embeddings.length original) :
    ∃ isHub graph rows hubNodes kept,hubs config original=.ok isHub ∧
      prune config embeddings original isHub=.ok graph ∧
      compact config embeddings graph=.ok rows ∧
      Pruned config embeddings original (rowOffsets rows) rows.flatten hubNodes kept := by
  obtain ⟨hubNodes,isHub,hhubs,hisHub,hmarked⟩ :=
    hubs_marked hconfig ho.length_eq he.count_pos he.count_lt
  obtain ⟨kept,hkept,hends⟩ := prune_ends hconfig he ho hmarked
  obtain ⟨graph,hgraph,hlinked⟩ := hends.returns
  have htargets : Targets embeddings.length graph :=
    (@prune_returns config embeddings _ _ isHub
      ho.toTargets).of_ok hgraph
  obtain ⟨row,hrow,hcompact⟩ := compact_ok hconfig he htargets
  have hrows : Compacted config embeddings.length embeddings.length _ :=
    (compact_returns htargets).of_ok hcompact
  have htotal : ((List.range embeddings.length).map row).flatten.length<2^64 := by
    have hlength := flatten_length_lt hrows.length_eq.le hrows.short
    have hdegree := (maximumDegree config).toNat_lt
    have hm := Nat.mul_le_mul (Nat.le_of_lt_succ he.count_lt) (Nat.le_of_lt_succ hdegree)
    omega
  have hcsr : ∀ source<embeddings.length,csrRow (rowOffsets ((List.range embeddings.length).map row))
      ((List.range embeddings.length).map row).flatten source=row source := by
    intro source hs
    rw [csrRow_flatten htotal (by simpa using hs),List.getElem_map,List.getElem_range]
  have hpool : ∀ source<embeddings.length,
      (graph.getD source []).toFinset=candidates kept embeddings.length source := by
    intro source hs
    ext id
    rw [List.mem_toFinset,hlinked.mem_iff source hs,candidates,Finset.mem_union,List.mem_toFinset,
      Finset.mem_filter,List.mem_toFinset,mem_allNodes]
    simp [hs]
  have hclosest : ∀ source<embeddings.length,Foremost (Closer embeddings source)
      (candidates kept embeddings.length source) (2*config.graphDegree.toNat) (row source) :=
    fun source hs => hpool source hs ▸ hrow source hs
  have hside : ∀ source<embeddings.length,∀ id∈candidates kept embeddings.length source,
      id∈kept source ∨ UInt32.ofNat source∈kept id.toNat := by
    intro source hs id hid
    rw [candidates,Finset.mem_union,List.mem_toFinset,Finset.mem_filter] at hid
    exact hid.imp (fun hkeeps => hkeeps) (fun hkept => hkept.2)
  refine ⟨isHub,graph,_,hubNodes,kept,hisHub,hgraph,hcompact,hrows.rows he.count_lt,hhubs,hkept,
    fun source hs => ?_,fun source hs => ?_,fun source hs => ?_,fun source hs => ?_,
    fun source hs hne => ?_,fun source hs id hid => ?_⟩
  · exact hcsr source hs ▸ hclosest source hs
  · rw [hcsr source hs]
    intro hself
    have hends := hside source hs _ ((hclosest source hs).mem_pool _ hself)
    rw [←(ofNat_eq_iff he.count_lt hs _).mp rfl,or_self] at hends
    exact ho.loopless source hs (List.mem_toFinset.mp ((hkept source hs).mem_pool _ hends))
  · rw [hcsr source hs]
    exact (hclosest source hs).nodup closer_irrefl
  · rw [hcsr source hs]
    exact (hclosest source hs).length_le
  · rw [hcsr source hs]
    obtain ⟨neighbor,hneighbor⟩ := List.exists_mem_of_ne_nil _ hne
    obtain ⟨hcap,hdegree⟩ := @keptDegree_pos _ hubNodes hconfig source
    have hsome := (hkept source hs).length_pos hcap (List.mem_toFinset.mpr hneighbor)
    obtain ⟨id,hid⟩ := List.exists_mem_of_length_pos hsome
    exact (hclosest source hs).length_pos hdegree
      (Finset.mem_union_left _ (List.mem_toFinset.mpr hid))
  · rw [hcsr source hs] at hid
    exact hside source hs id ((hclosest source hs).mem_pool id hid)

/-- Three equal vectors. -/
def threeVectors : List Embedding := [[1],[1],[1]]

/-- A graph of three nodes in which all are linked. -/
def triangle : List (List UInt32) := [[1,2],[2,0],[0,1,1]]

theorem three_embedded : Embedded 1 threeVectors where
  dimension_pos := by decide
  dimension_lt := by decide
  count_pos := by decide
  count_lt := by decide
  length_eq := by decide
  unit := by
    obtain ⟨h1,hv1⟩ := single_one
    have hone : Embeddings.Unit (1 : Single) := ⟨h1,by rw [hv1,abs_one]⟩
    simp [threeVectors,hone]

theorem triangle_adjacency : Adjacency 3 triangle where
  length_eq := rfl
  ids_lt := by decide
  loopless := by decide

/-- The graph of three nodes is pruned. -/
theorem pruned_graph_closest_triangle :
    ∃ isHub graph rows hubNodes kept,hubs oneConfig triangle=.ok isHub ∧
      prune oneConfig threeVectors triangle isHub=.ok graph ∧
      compact oneConfig threeVectors graph=.ok rows ∧
      Pruned oneConfig threeVectors triangle (rowOffsets rows) rows.flatten hubNodes kept :=
  pruned_graph_closest (by decide +kernel) three_embedded triangle_adjacency

end Main

end Leann.PrunedGraph
