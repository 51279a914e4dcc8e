import Leann.IndexBuilder
import Leann.SearchResults

/-!
# Every index that is built can be loaded and searched

The tables that `Index::build` computes satisfy the conditions of the loader.
Two more facts hold of them that the loader does not check: each layer has
the nodes of the next one, and packed codes are numbers of centroids. So a
search in a new index raises neither of the two errors that depend on them.
-/

namespace Leann.BuiltIndex

open BinaryFloat Exceptions Outcomes Documents IndexFile Embeddings ProductQuantizer Search Training
  IndexBuilder

section Compression

/-- The running totals begin at the first one and do not fall. -/
theorem scanl_chain (start : ℕ) (lengths : List ℕ) :
    (lengths.scanl (·+·) start).IsChain (·≤·) := by
  induction lengths generalizing start with
  | nil => simp
  | cons length lengths ih =>
    have h := ih (start+length)
    rw [List.scanl_cons]
    cases lengths with
    | nil => simp
    | cons next lengths =>
      rw [List.scanl_cons] at h ⊢
      exact List.isChain_cons_cons.mpr ⟨Nat.le_add_right _ _,h⟩

/-- No running total passes the whole. -/
theorem scanl_le {start total : ℕ} {lengths : List ℕ} (h : total∈lengths.scanl (·+·) start) :
    total≤ start+lengths.sum := by
  induction lengths generalizing start with
  | nil =>
    rw [List.scanl_nil,List.mem_singleton] at h
    rw [h]
    exact Nat.le_add_right _ _
  | cons length lengths ih =>
    rw [List.scanl_cons,List.mem_cons] at h
    rw [List.sum_cons]
    cases h with
    | inl h => omega
    | inr h =>
      have hle := ih h
      omega

/-- The last running total is the whole. -/
theorem scanl_getLastD (start : ℕ) (lengths : List ℕ) :
    (lengths.scanl (·+·) start).getLast?=some (start+lengths.sum) := by
  rw [List.getLast?_scanl]
  congr 1
  induction lengths generalizing start with
  | nil => rfl
  | cons length lengths ih => rw [List.foldl_cons,ih,List.sum_cons,Nat.add_assoc]

/-- Rows one behind the other are well formed. -/
theorem rowOffsets_rows {rows : List (List UInt32)} {count : ℕ} (hlt : rows.flatten.length<2^64)
    (hids : ∀ row∈rows,∀ id∈row,id.toNat<count) :
    Rows (rowOffsets rows) rows.flatten rows.length count := by
  have hsum : (rows.map List.length).sum=rows.flatten.length := List.length_flatten.symm
  have hof : ∀ total∈(rows.map List.length).scanl (·+·) 0,(UInt64.ofNat total).toNat=total ∧
      total≤ rows.flatten.length := by
    intro total h
    have hle := scanl_le h
    rw [hsum,Nat.zero_add] at hle
    exact ⟨by rw [UInt64.toNat_ofNat',Nat.mod_eq_of_lt (by omega)],hle⟩
  refine ⟨?_,⟨?_,?_⟩,⟨?_,fun offset h => ?_⟩,fun id h => ?_⟩
  · rw [rowOffsets,List.length_map,List.length_scanl,List.length_map]
  · rw [rowOffsets,List.head?_map,List.head?_scanl]
    rfl
  · rw [rowOffsets,List.getLastD_eq_getLast?,List.getLast?_map,scanl_getLastD,hsum,Nat.zero_add]
    change (UInt64.ofNat _).toNat=_
    rw [UInt64.toNat_ofNat',Nat.mod_eq_of_lt hlt]
  · rw [rowOffsets,List.isChain_map]
    refine (scanl_chain 0 (rows.map List.length)).imp_of_mem_imp (fun _ _ hl hr hle => ?_)
    rw [UInt64.le_iff_toNat_le,(hof _ hl).1,(hof _ hr).1]
    exact hle
  · obtain ⟨total,ht,he⟩ := List.mem_map.mp (List.mem_of_mem_tail h)
    rw [←he,(hof _ ht).1]
    exact (hof _ ht).2
  · obtain ⟨row,hr,hid⟩ := List.mem_flatten.mp h
    exact hids row hr id hid

/-- So many short rows have not too many entries. -/
theorem flatten_length_lt {rows : List (List UInt32)} {count bound : ℕ} (hrows : rows.length≤ count)
    (hb : ∀ row∈rows,row.length≤bound) : rows.flatten.length≤ count*bound := by
  have h := List.sum_le_card_nsmul (rows.map List.length) bound (by simpa using hb)
  rw [List.length_flatten]
  rw [List.length_map,nsmul_eq_mul] at h
  exact h.trans (Nat.mul_le_mul_right bound hrows)

end Compression

section Sorting

/-- Sorting by a key orders the keys. -/
theorem insertionSort_key {α : Type} (key : α → UInt32) (values : List α) :
    ((values.insertionSort (fun lhs rhs => key lhs≤key rhs)).map key).Pairwise (·≤·) := by
  have : Std.Total (fun lhs rhs : α => key lhs≤key rhs) :=
    ⟨fun lhs rhs => UInt32.le_total (key lhs) (key rhs)⟩
  have : IsTrans α (fun lhs rhs : α => key lhs≤key rhs) := ⟨fun _ _ _ => UInt32.le_trans⟩
  exact List.pairwise_map.mpr (List.pairwise_insertionSort _ values)

/-- Sorted nodes that differ are strictly sorted. -/
theorem chain_of_sorted {ids : List UInt32} (hs : ids.Pairwise (·≤·)) (hn : ids.Nodup) :
    ids.IsChain (·<·) := by
  refine List.Pairwise.isChain ((hs.and hn).imp (fun h => ?_))
  exact UInt32.lt_of_le_of_ne h.1 h.2

theorem mem_sortUnique (ids : List UInt32) (id : UInt32) : id∈sortUnique ids ↔ id∈ids := by
  rw [sortUnique,List.mem_dedup,(List.perm_insertionSort _ ids).mem_iff]

theorem sortUnique_nodup (ids : List UInt32) : (sortUnique ids).Nodup := List.nodup_dedup _

end Sorting

section Extraction

/-- What is assumed of the graph that the HNSW library returns. -/
structure HnswLaws (hnsw : HnswGraph) (count : ℕ) : Prop where
  /-- The labels are the numbers of the vectors. -/
  labels : ((List.range count).map hnsw.label).Perm (List.range count)
  /-- A link of a level joins nodes of at least this level. -/
  links : ∀ node,node<count → ∀ level : ℕ,(level : ℤ)≤hnsw.level node →
    ∀ next∈hnsw.links node level,(level : ℤ)≤hnsw.level next
  /-- The entry point is a node. -/
  entry_lt : hnsw.enterpoint<count
  /-- The entry point has the greatest level. -/
  entry_level : hnsw.level hnsw.enterpoint=hnsw.maxLevel
  /-- The number of levels is bounded. -/
  maxLevel_le : hnsw.maxLevel≤64

variable {hnsw : HnswGraph} {count : ℕ} {externals : List UInt32}

/-- The labels of nodes are numbers of nodes. -/
theorem HnswLaws.label_lt (h : HnswLaws hnsw count) {node : ℕ} (hn : node<count) :
    hnsw.label node<count := by
  rw [←List.mem_range,←h.labels.mem_iff]
  exact List.mem_map_of_mem (List.mem_range.mpr hn)

/-- Different nodes have different labels. -/
theorem HnswLaws.label_inj (h : HnswLaws hnsw count) {node other : ℕ} (hn : node<count)
    (ho : other<count) (he : hnsw.label node=hnsw.label other) : node=other := by
  have hnodup : ((List.range count).map hnsw.label).Nodup := h.labels.nodup_iff.mpr List.nodup_range
  exact List.inj_on_of_nodup_map hnodup (List.mem_range.mpr hn) (List.mem_range.mpr ho) he

/-- The label of a node as it is stored. -/
def external (hnsw : HnswGraph) (node : ℕ) : UInt32 := UInt32.ofNat (hnsw.label node)

theorem HnswLaws.external_toNat (h : HnswLaws hnsw count) (hc : count<2^32) {node : ℕ}
    (hn : node<count) : (external hnsw node).toNat=hnsw.label node := by
  have hl := h.label_lt hn
  rw [external,UInt32.toNat_ofNat',Nat.mod_eq_of_lt (by omega)]

theorem HnswLaws.external_lt (h : HnswLaws hnsw count) (hc : count<2^32) {node : ℕ}
    (hn : node<count) : (external hnsw node).toNat<count := by
  rw [h.external_toNat hc hn]
  exact h.label_lt hn

/-- What the table of labels holds. -/
def Externals (hnsw : HnswGraph) (count : ℕ) (externals : List UInt32) : Prop :=
  ∀ node id,externals[node]?=some id → node<count ∧ id=external hnsw node

/-- The table of labels. -/
theorem internalToExternal_returns :
    Returns (internalToExternal hnsw count) (Externals hnsw count) := by
  have hmap : Returns (internalToExternal hnsw count)
      (List.Forall₂ (fun node id => id=external hnsw node) (List.range count)) :=
    Ends.mapM_forall₂ _ (fun node _ => (throwIf_ends (fun _ => trivial)).bind (fun _ _ => rfl))
  refine hmap.mono (fun _ h => h) (fun externals hall node id hid => ?_)
  obtain ⟨hlt,he⟩ := List.getElem?_eq_some_iff.mp hid
  have hnode : node<(List.range count).length := hall.length_eq ▸ hlt
  have hone := (List.forall₂_iff_get.mp hall).2 node hnode hlt
  rw [List.get_eq_getElem,List.get_eq_getElem,List.getElem_range,he] at hone
  rw [List.length_range] at hnode
  exact ⟨hnode,hone⟩

/-- The neighbours of a node are the labels of its links. -/
theorem connections_returns (he : Externals hnsw count externals) (internal level : ℕ)
    (message : Text) : Returns (connections hnsw count externals internal level message)
      (fun neighbors => ∀ id∈neighbors,∃ next∈hnsw.links internal level,next<count ∧
        id=external hnsw next) := by
  refine (Ends.mapM _ (fun next hnext => ?_)).mono (fun _ h => h) (fun _ h => h.2)
  refine (throwIf_ends (fun _ => trivial)).bind (fun _ _ => ?_)
  refine (returns_element externals next).mono (fun _ h => h) (fun id hid => ?_)
  obtain ⟨hlt,heq⟩ := he next id hid
  exact ⟨next,hnext,hlt,heq⟩

/-- Rows of so many nodes, with entries that are nodes. -/
structure Targets (count : ℕ) (graph : List (List UInt32)) : Prop where
  /-- Every node has a row. -/
  length_eq : graph.length=count
  /-- The entries are nodes. -/
  ids_lt : ∀ row∈graph,∀ id∈row,id.toNat<count

/-- Changing a row. -/
theorem Targets.set {graph : List (List UInt32)} (h : Targets count graph) (node : ℕ)
    {row : List UInt32} (hrow : ∀ id∈row,id.toNat<count) : Targets count (graph.set node row) := by
  refine ⟨by rw [List.length_set,h.length_eq],fun other ho => ?_⟩
  cases List.mem_or_eq_of_mem_set ho with
  | inl ho => exact h.ids_lt other ho
  | inr ho => exact ho ▸ hrow

/-- No rows have been filled yet. -/
theorem targets_empty (count : ℕ) : Targets count (List.replicate count []) := by
  refine ⟨List.length_replicate,fun row hr id hid => ?_⟩
  rw [List.eq_of_mem_replicate hr] at hid
  cases hid

/-- The links of the lowest level are read as rows. -/
theorem extractAdjacency_returns (laws : HnswLaws hnsw count) (hc : count<2^32)
    (he : Externals hnsw count externals) :
    Returns (extractAdjacency hnsw count externals) (Targets count) := by
  refine Ends.foldlM_range count (fun _ => Targets count) (targets_empty count)
    (fun internal original _ h => ?_)
  refine returns_bind (returns_element _ _) (fun source _ => ?_)
  refine returns_bind (connections_returns he internal 0 _) (fun neighbors hneighbors => ?_)
  refine returns_bind (returns_element _ _) (fun row hrow => ?_)
  refine (returns_assign _ _ _).mono (fun _ h => h) (fun after hafter => ?_)
  rw [hafter.2]
  refine h.set _ (fun id hid => ?_)
  cases List.mem_append.mp hid with
  | inl hid => exact h.ids_lt row (List.mem_of_getElem? hrow) id hid
  | inr hid =>
    obtain ⟨next,-,hlt,heq⟩ := hneighbors id hid
    rw [heq]
    exact laws.external_lt hc hlt

/-- A label of a node of at least a level. -/
def Member (hnsw : HnswGraph) (count level : ℕ) (id : UInt32) : Prop :=
  ∃ node<count,(level : ℤ)≤hnsw.level node ∧ id=external hnsw node

/-- What is read of one node of a layer. -/
structure NodeRow (hnsw : HnswGraph) (count level node : ℕ) (row : UInt32×List UInt32) : Prop where
  /-- The node itself. -/
  source : row.1=external hnsw node
  /-- No neighbour is listed twice. -/
  nodup : row.2.Nodup
  /-- The neighbours belong to the layer. -/
  members : ∀ id∈row.2,Member hnsw count level id

theorem layerNode_returns (laws : HnswLaws hnsw count) (he : Externals hnsw count externals)
    {level internal : ℕ} (hi : internal<count) (hl : (level : ℤ)≤hnsw.level internal) :
    Returns (layerNode hnsw count externals level internal) (NodeRow hnsw count level internal) := by
  refine returns_bind (connections_returns he internal level _) (fun neighbors hneighbors => ?_)
  refine returns_bind (returns_element _ _) (fun source hsource => ?_)
  refine ⟨(he internal source hsource).2,sortUnique_nodup neighbors,fun id hid => ?_⟩
  obtain ⟨next,hnext,hlt,heq⟩ := hneighbors id ((mem_sortUnique neighbors id).mp hid)
  exact ⟨next,hlt,laws.links internal hi level hl next hnext,heq⟩

/-- What is read of one layer. -/
structure LayerOf (hnsw : HnswGraph) (count level : ℕ) (layer : UpperLayer) : Prop where
  /-- The nodes are those of at least the level. -/
  mem_iff : ∀ id,id∈layer.nodes ↔ Member hnsw count level id
  /-- The nodes are strictly increasing. -/
  chain : layer.nodes.IsChain (·<·)
  /-- The rows are well formed. -/
  rows : Rows layer.offsets layer.edges layer.nodes.length count
  /-- Edges stay inside the layer. -/
  edges_mem : ∀ id∈layer.edges,id∈layer.nodes

/-- Distinct nodes are no more than the bound. -/
theorem length_le_of_nodup {ids : List UInt32} (hn : ids.Nodup) (hl : ∀ id∈ids,id.toNat<count) :
    ids.length≤ count := by
  have hd : (ids.map UInt32.toNat).Nodup := hn.map (fun _ _ h => UInt32.toNat_inj.mp h)
  have hs : (ids.map UInt32.toNat).Subperm (List.range count) := by
    refine hd.subperm (fun id hid => ?_)
    obtain ⟨node,hn,he⟩ := List.mem_map.mp hid
    exact List.mem_range.mpr (he ▸ hl node hn)
  simpa using hs.length_le

theorem Member.lt (laws : HnswLaws hnsw count) (hc : count<2^32) {level : ℕ} {id : UInt32}
    (h : Member hnsw count level id) : id.toNat<count := by
  obtain ⟨node,hlt,-,heq⟩ := h
  rw [heq]
  exact laws.external_lt hc hlt

/-- Compressing the rows of a layer. -/
theorem compress_layer (laws : HnswLaws hnsw count) (hc : count<2^32) {level : ℕ}
    {adjacency : List (UInt32×List UInt32)}
    (hnodes : ∀ id,id∈adjacency.map Prod.fst ↔ Member hnsw count level id)
    (hchain : (adjacency.map Prod.fst).IsChain (·<·))
    (hrows : ∀ row∈adjacency,row.2.Nodup ∧ ∀ id∈row.2,Member hnsw count level id) :
    LayerOf hnsw count level (compress adjacency) := by
  have hflat : adjacency.flatMap Prod.snd=(adjacency.map Prod.snd).flatten := List.flatMap_def
  have hoffsets : (compress adjacency).offsets=rowOffsets (adjacency.map Prod.snd) := by
    rw [rowOffsets,List.map_map]
    rfl
  have hids : ∀ row∈adjacency.map Prod.snd,row.Nodup ∧ ∀ id∈row,Member hnsw count level id := by
    intro row hr
    obtain ⟨pair,hp,he⟩ := List.mem_map.mp hr
    exact he ▸ hrows pair hp
  have hlength : (adjacency.map Prod.fst).length≤ count :=
    length_le_of_chain hchain (fun id hid => ((hnodes id).mp hid).lt laws hc)
  have htotal : (adjacency.map Prod.snd).flatten.length≤ count*count := by
    refine flatten_length_lt ?_ (fun row hr => length_le_of_nodup (hids row hr).1
      (fun id hid => ((hids row hr).2 id hid).lt laws hc))
    rwa [List.length_map,←List.length_map (f := Prod.fst)]
  have hsmall : count*count<2^64 := by
    have hm := Nat.mul_le_mul (Nat.le_of_lt_succ hc) (Nat.le_of_lt_succ hc)
    omega
  refine ⟨hnodes,hchain,?_,fun id hid => ?_⟩
  · have hr := rowOffsets_rows (htotal.trans_lt hsmall)
      (fun row hr id hid => ((hids row hr).2 id hid).lt laws hc)
    rw [List.length_map,←List.length_map (f := Prod.fst)] at hr
    rw [hoffsets]
    change Rows _ (adjacency.flatMap Prod.snd) _ _
    rw [hflat]
    exact hr
  · change id∈adjacency.flatMap Prod.snd at hid
    rw [hflat] at hid
    obtain ⟨row,hr,hmem⟩ := List.mem_flatten.mp hid
    exact (hnodes id).mpr ((hids row hr).2 id hmem)

/-- Related lists that are mapped to the same elements. -/
theorem map_eq_of_forall₂ {α β γ : Type} {relation : α → β → Prop} {first : α → γ} {second : β → γ}
    {items : List α} {values : List β} (h : List.Forall₂ relation items values)
    (he : ∀ item value,relation item value → second value=first item) :
    values.map second=items.map first := by
  induction h with
  | nil => rfl
  | cons hone _ ih => rw [List.map_cons,List.map_cons,he _ _ hone,ih]

/-- Every element of a list is related to one of the other. -/
theorem mem_of_forall₂ {α β : Type} {relation : α → β → Prop} {items : List α} {values : List β}
    (h : List.Forall₂ relation items values) {value : β} (hv : value∈values) :
    ∃ item∈items,relation item value := by
  induction h with
  | nil => cases hv
  | cons hone _ ih =>
    cases List.mem_cons.mp hv with
    | inl he => exact ⟨_,List.mem_cons_self,he ▸ hone⟩
    | inr hv =>
      obtain ⟨item,hi,hr⟩ := ih hv
      exact ⟨item,List.mem_cons_of_mem _ hi,hr⟩

/-- A layer holds the nodes of at least its level, with their links. -/
theorem extractLayer_returns (laws : HnswLaws hnsw count) (hc : count<2^32)
    (he : Externals hnsw count externals) (level : ℕ) :
    Returns (extractLayer hnsw count externals level) (LayerOf hnsw count level) := by
  have hmember : ∀ node,node∈(List.range count).filter (fun internal =>
      decide (¬hnsw.level internal<level)) ↔ node<count ∧ (level : ℤ)≤hnsw.level node := by
    intro node
    rw [List.mem_filter,List.mem_range,decide_eq_true_eq,not_lt]
  refine returns_bind (Ends.mapM_forall₂ _ (fun internal hi =>
    layerNode_returns laws he ((hmember internal).mp hi).1 ((hmember internal).mp hi).2))
    (fun adjacency hall => ?_)
  have hperm := List.perm_insertionSort (fun lhs rhs : UInt32×List UInt32 => lhs.1≤ rhs.1) adjacency
  have hfst := map_eq_of_forall₂ hall (fun node row h => show row.1=external hnsw node from h.source)
  have hsame : ∀ id,id∈(adjacency.insertionSort (fun lhs rhs => lhs.1≤ rhs.1)).map Prod.fst ↔
      Member hnsw count level id := by
    intro id
    rw [(hperm.map Prod.fst).mem_iff,hfst,List.mem_map]
    constructor
    · intro h
      obtain ⟨node,hn,heq⟩ := h
      exact ⟨node,((hmember node).mp hn).1,((hmember node).mp hn).2,heq.symm⟩
    · intro h
      obtain ⟨node,hn,hl,heq⟩ := h
      exact ⟨node,(hmember node).mpr ⟨hn,hl⟩,heq.symm⟩
  have hnodup : ((adjacency.insertionSort (fun lhs rhs => lhs.1≤ rhs.1)).map Prod.fst).Nodup := by
    rw [(hperm.map Prod.fst).nodup_iff,hfst]
    refine List.Nodup.map_on (fun node hn other ho heq => ?_) (List.nodup_range.filter _)
    have hn' := ((hmember node).mp hn).1
    have ho' := ((hmember other).mp ho).1
    rw [←UInt32.toNat_inj,laws.external_toNat hc hn',laws.external_toNat hc ho'] at heq
    exact laws.label_inj hn' ho' heq
  refine compress_layer laws hc hsame (chain_of_sorted (insertionSort_key Prod.fst adjacency) hnodup)
    (fun row hr => ?_)
  obtain ⟨node,-,hrow⟩ := mem_of_forall₂ hall (hperm.mem_iff.mp hr)
  exact ⟨hrow.nodup,hrow.members⟩

/-- What is read of all layers. -/
def Layers (hnsw : HnswGraph) (count : ℕ) (layers : List UpperLayer) : Prop :=
  List.Forall₂ (fun above => LayerOf hnsw count (above+1)) (List.range (maximumLevel hnsw)) layers

theorem extractLayers_returns (laws : HnswLaws hnsw count) (hc : count<2^32)
    (he : Externals hnsw count externals) :
    Returns (extractLayers hnsw count externals) (Layers hnsw count) :=
  Ends.mapM_forall₂ _ (fun above _ => extractLayer_returns laws hc he (above+1))

/-- Layers can be routed through. -/
theorem LayerOf.layerRows (laws : HnswLaws hnsw count) (hc : count<2^32) {level : ℕ}
    {layer : UpperLayer} (h : LayerOf hnsw count level layer) (hl : level≤ maximumLevel hnsw)
    (hpos : 0<level) : LayerRows layer count (external hnsw hnsw.enterpoint) := by
  refine ⟨h.chain,fun id hid => ((h.mem_iff id).mp hid).lt laws hc,h.rows,h.edges_mem,
    (h.mem_iff _).mpr ⟨hnsw.enterpoint,laws.entry_lt,?_,rfl⟩⟩
  have hlevel := laws.entry_level
  unfold maximumLevel at hl
  omega

/-- Each layer has the nodes of the next one. -/
theorem Layers.nested {layers : List UpperLayer} (h : Layers hnsw count layers) :
    layers.IsChain (fun lower upper => ∀ id∈upper.nodes,id∈lower.nodes) := by
  rw [List.isChain_iff_getElem]
  intro i hi id hid
  have hlayer : ∀ above (ha : above<layers.length),LayerOf hnsw count (above+1) layers[above] := by
    intro above ha
    have hone := (List.forall₂_iff_get.mp h).2 above (h.length_eq ▸ ha) ha
    rwa [List.get_eq_getElem,List.get_eq_getElem,List.getElem_range] at hone
  obtain ⟨node,hn,hl,heq⟩ := ((hlayer (i+1) hi).mem_iff id).mp hid
  exact ((hlayer i (Nat.lt_of_succ_lt hi)).mem_iff id).mpr ⟨node,hn,by omega,heq⟩

end Extraction

section Pruning

variable {config : BuildConfig} {embeddings : List Embedding} {count : ℕ}

/-- Sorting neighbours by distance keeps them. -/
theorem closestFirst_returns (source : ℕ) (neighbors : List UInt32) :
    Returns (closestFirst embeddings source neighbors) (List.Perm neighbors) := by
  have hfst : Returns (neighborDistances embeddings source neighbors)
      (fun distances => distances.map Prod.fst=neighbors) := by
    unfold neighborDistances
    split
    · change (neighbors.map _).map Prod.fst=neighbors
      rw [List.map_map]
      exact List.map_id neighbors
    · refine (@Ends.mapM_forall₂ _ _ _ _ _ (fun neighbor pair => pair.1=neighbor) neighbors
        (fun neighbor _ => ?_)).mono (fun _ h => h) (fun distances h => ?_)
      · exact returns_bind (returns_any _) (fun _ _ => returns_bind (returns_any _)
          (fun _ _ => returns_bind (returns_any _) (fun _ _ => rfl)))
      · rw [map_eq_of_forall₂ h (fun _ _ he => he),List.map_id']
  refine returns_bind hfst (fun distances h => ?_)
  have hperm := (List.perm_insertionSort (fun lhs rhs : UInt32×Single => ¬rhs.2<lhs.2) distances).map Prod.fst
  rw [h] at hperm
  exact hperm.symm

/-- A neighbour is added to the row of a node. -/
theorem pushNeighbor_returns {graph : List (List UInt32)} (h : Targets count graph) (source : ℕ)
    {neighbor : UInt32} (hn : neighbor.toNat<count) :
    Returns (pushNeighbor graph source neighbor) (Targets count) := by
  refine returns_bind (returns_element _ _) (fun row hrow => ?_)
  refine (returns_assign _ _ _).mono (fun _ h => h) (fun after hafter => ?_)
  rw [hafter.2]
  refine h.set _ (fun id hid => ?_)
  cases List.mem_append.mp hid with
  | inl hid => exact h.ids_lt row (List.mem_of_getElem? hrow) id hid
  | inr hid =>
    rw [List.mem_singleton] at hid
    exact hid ▸ hn

/-- An edge is added in both directions. -/
theorem linkBoth_returns {graph : List (List UInt32)} (h : Targets count graph) {source : ℕ}
    (hs : source<count) {neighbor : UInt32} (hn : neighbor.toNat<count) :
    Returns (linkBoth source graph neighbor) (Targets count) := by
  have hsource : (UInt32.ofNat source).toNat<count := by
    rw [UInt32.toNat_ofNat']
    exact (Nat.mod_le _ _).trans_lt hs
  unfold linkBoth
  split
  · exact h
  · exact returns_bind (pushNeighbor_returns h source hn)
      (fun graph h => pushNeighbor_returns h neighbor.toNat hsource)

/-- Pruning keeps edges between nodes. -/
theorem prune_returns {original : List (List UInt32)} {isHub : List Bool}
    (h : Targets count original) :
    Returns (prune config embeddings original isHub) (Targets count) := by
  unfold prune
  rw [h.length_eq]
  refine Ends.foldlM_range count (fun _ => Targets count) (targets_empty count)
    (fun source graph hsource hgraph => ?_)
  refine returns_bind (returns_element _ _) (fun row hrow => ?_)
  refine returns_bind (closestFirst_returns source (sortUnique row)) (fun neighbors hperm => ?_)
  refine returns_bind (returns_any _) (fun hub _ => ?_)
  refine Ends.foldlM _ (fun _ => Targets count) hgraph (fun done neighbor rest graph hsplit hg => ?_)
  refine linkBoth_returns hg hsource ?_
  have hmem : neighbor∈neighbors.take
      (if hub then (maximumDegree config).toNat else config.lowDegree.toNat) := by
    rw [hsplit]
    simp
  have hmem := List.mem_of_mem_take hmem
  rw [←hperm.mem_iff,mem_sortUnique] at hmem
  exact h.ids_lt row (List.mem_of_getElem? hrow) neighbor hmem

/-- Rows that are short besides. -/
structure Compacted (config : BuildConfig) (count done : ℕ) (rows : List (List UInt32)) : Prop where
  /-- One row for each node. -/
  length_eq : rows.length=done
  /-- The entries are nodes. -/
  ids_lt : ∀ row∈rows,∀ id∈row,id.toNat<count
  /-- The rows are not longer than allowed. -/
  short : ∀ row∈rows,row.length≤(maximumDegree config).toNat

/-- Compacting keeps edges between nodes. -/
theorem compact_returns {graph : List (List UInt32)} (h : Targets count graph) :
    Returns (compact config embeddings graph) (Compacted config count count) := by
  unfold compact
  rw [h.length_eq]
  refine Ends.foldlM_range count (Compacted config count)
    ⟨rfl,by simp,by simp⟩ (fun source rows _ hrows => ?_)
  refine returns_bind (returns_element _ _) (fun row hrow => ?_)
  refine returns_bind (closestFirst_returns source (sortUnique row)) (fun neighbors hperm => ?_)
  refine ⟨by rw [List.length_append,hrows.length_eq]; rfl,fun other ho => ?_,fun other ho => ?_⟩
  · cases List.mem_append.mp ho with
    | inl ho => exact hrows.ids_lt other ho
    | inr ho =>
      rw [List.mem_singleton] at ho
      intro id hid
      rw [ho] at hid
      have hmem := List.mem_of_mem_take hid
      rw [←hperm.mem_iff,mem_sortUnique] at hmem
      exact h.ids_lt row (List.mem_of_getElem? hrow) id hmem
  · cases List.mem_append.mp ho with
    | inl ho => exact hrows.short other ho
    | inr ho =>
      rw [List.mem_singleton] at ho
      rw [ho,List.length_take]
      exact Nat.min_le_left _ _

/-- The rows of the base graph are well formed. -/
theorem Compacted.rows (hc : count<2^32) {rows : List (List UInt32)}
    (h : Compacted config count count rows) :
    Rows (rowOffsets rows) rows.flatten count count := by
  have htotal := flatten_length_lt h.length_eq.le h.short
  have hdegree := (maximumDegree config).toNat_lt
  have hm := Nat.mul_le_mul (Nat.le_of_lt_succ hc) (Nat.le_of_lt_succ hdegree)
  have hrows := rowOffsets_rows (htotal.trans_lt (by omega)) h.ids_lt
  rwa [h.length_eq] at hrows

/-- What is known of the graph of an index. -/
structure Grown (config : BuildConfig) (hnsw : HnswGraph) (count : ℕ) (graph : IndexBuilder.Graph) :
    Prop where
  /-- The layers are those of the HNSW library. -/
  layers : Layers hnsw count graph.upperLayers
  /-- The rows of the base graph join nodes. -/
  rows : Compacted config count count graph.rows
  /-- The number of layers. -/
  level_eq : graph.maximumLevel=maximumLevel hnsw
  /-- Where routing starts. -/
  entry_eq : graph.entryPoint=hnsw.label hnsw.enterpoint

/-- The graph of an index has the layers of the HNSW library over a base
graph that joins nodes. -/
theorem buildGraph_returns {hnsw : HnswGraph} (laws : HnswLaws hnsw embeddings.length)
    (hc : embeddings.length<2^32) :
    Returns (buildGraph config hnsw embeddings) (Grown config hnsw embeddings.length) := by
  refine returns_bind internalToExternal_returns (fun externals he => ?_)
  refine returns_bind (extractAdjacency_returns laws hc he) (fun original horiginal => ?_)
  refine returns_bind (extractLayers_returns laws hc he) (fun layers hlayers => ?_)
  refine returns_bind (returns_any _) (fun isHub _ => ?_)
  refine returns_bind (prune_returns horiginal) (fun graph hgraph => ?_)
  refine returns_bind (compact_returns hgraph) (fun rows hrows => ?_)
  exact ⟨hlayers,hrows,rfl,rfl⟩

end Pruning

section Codes

variable {config : BuildConfig} {embeddings : List Embedding}

/-- What is known of the codes of an index. -/
structure Coded (config : BuildConfig) (embeddings : List Embedding) (codes : Codes) : Prop where
  /-- Every node has a sketch, and there is no quantizer. -/
  sketched : config.approximation=.simHash →
    codes.sketches.length=embeddings.length*(config.sketchBits.toNat/64) ∧ codes.pq=noQuantizer
  /-- The quantizer is trained, and there are no sketches. -/
  quantized : config.approximation=.productQuantization →
    codes.sketches=[] ∧ Trained Unit embeddings codes.pq ∧
      codes.pq.subquantizers=config.pqSubquantizers.toNat ∧ codes.pq.bits=config.pqBits.toNat

/-- What a configuration that is accepted says about sketches. -/
theorem validateBuildConfig_sketch {value : PUnit} (h : validateBuildConfig config=.ok value)
    (hk : config.approximation=.simHash) :
    64≤ config.sketchBits.toNat ∧ config.sketchBits.toNat%64=0 := by
  simp only [validateBuildConfig,bind_eq_ok,throwIf_ok,not_and,not_or,not_not] at h
  obtain ⟨_,-,_,-,_,-,_,-,_,hbits,-⟩ := h
  have hsplit : ¬config.sketchBits<64 ∧ config.sketchBits%64=0 := by
    by_contra hnot
    refine hbits ?_ hk
    by_contra hor
    rw [not_or,not_not] at hor
    exact hnot hor
  rw [UInt32.lt_iff_toNat_lt,←UInt32.toNat_inj,UInt32.toNat_mod] at hsplit
  exact ⟨not_lt.mp hsplit.1,hsplit.2⟩

/-- The codes of normalised vectors. -/
theorem quantize_returns {choices : Choices Double} {value : PUnit}
    (hconfig : validateBuildConfig config=.ok value)
    (hchoices : ∀ count,(choices.shuffle count).length=count) (hc : embeddings.length<2^32)
    (hpos : ∀ embedding∈embeddings,0<embedding.length) :
    Returns (quantize config choices embeddings) (Coded config embeddings) := by
  unfold quantize
  cases hk : config.approximation with
  | simHash =>
    obtain ⟨hge,hmod⟩ := validateBuildConfig_sketch hconfig hk
    have hloop : Returns (embeddings.foldlM (sketchNode config) [])
        (fun sketches => sketches.length=embeddings.length*(config.sketchBits.toNat/64)) := by
      refine Ends.foldlM embeddings (fun done (sketches : List UInt64) =>
        sketches.length=done.length*(config.sketchBits.toNat/64)) (by simp)
        (fun done embedding rest sketches hsplit hs => ?_)
      have hmem : embedding∈embeddings := by
        rw [hsplit]
        simp
      refine (Preparation.makeSketch_ends (hpos embedding hmem) (by omega) hmod _).bind
        (fun sketch hsketch => ?_)
      change (sketches++sketch).length=_
      rw [List.length_append,hs,hsketch,List.length_append,List.length_singleton,Nat.succ_mul]
    refine returns_bind hloop (fun sketches h => ?_)
    exact ⟨fun _ => ⟨h,rfl⟩,fun h => by rw [hk] at h; cases h⟩
  | productQuantization =>
    refine returns_bind (trainProductQuantizer_single hchoices hc) (fun pq h => ?_)
    exact ⟨fun h => (by rw [hk] at h; cases h),fun _ => ⟨rfl,h⟩⟩

end Codes

section Assembly

/-- Normalised vectors of a dimension. -/
structure Embedded (dimension : ℕ) (embeddings : List Embedding) : Prop where
  /-- There are coordinates. -/
  dimension_pos : 0<dimension
  /-- The dimension fits its field. -/
  dimension_lt : dimension<2^32
  /-- There is a vector. -/
  count_pos : 0<embeddings.length
  /-- Nodes are numbered in thirty-two bits. -/
  count_lt : embeddings.length<2^32
  /-- Every vector has the dimension. -/
  length_eq : ∀ embedding∈embeddings,embedding.length=dimension
  /-- Every coordinate is finite and inside the unit interval. -/
  unit : ∀ embedding∈embeddings,∀ value∈embedding,Unit value

variable {config : BuildConfig} {embeddings : List Embedding} {dimension : ℕ} {hnsw : HnswGraph}
  {graph : IndexBuilder.Graph} {codes : Codes} {path fingerprint : Text} {pairIdentity : PairIdentity}

/-- The quantizer of an index is the one that was trained. -/
theorem assemble_view (he : Embedded dimension embeddings) (ht : Trained Unit embeddings codes.pq)
    (hs : codes.pq.subquantizers=config.pqSubquantizers.toNat)
    (hb : codes.pq.bits=config.pqBits.toNat) :
    Index.view (assemble config path pairIdentity fingerprint dimension graph codes)=codes.pq := by
  obtain ⟨embedding,hmem⟩ := List.exists_mem_of_length_pos he.count_pos
  have hdimension : codes.pq.dimension=dimension :=
    (ht.dimensions embedding hmem).symm.trans (he.length_eq embedding hmem)
  have hsub : codes.pq.subdimension≤dimension := by
    have h := Nat.le_mul_of_pos_left codes.pq.subdimension ht.subquantizers_pos
    rwa [ht.dimension_eq,hdimension] at h
  have hcentroids : codes.pq.centroids≤2^8 :=
    ht.centroids_le.trans (Nat.pow_le_pow_right (by norm_num) ht.bits_le)
  have hlt := he.dimension_lt
  have hfield : ∀ number,number<2^32 → (UInt32.ofNat number).toNat=number := by
    intro number h
    rw [UInt32.toNat_ofNat',Nat.mod_eq_of_lt h]
  have hsubquantizers : codes.pq.subquantizers<2^32 := hs ▸ config.pqSubquantizers.toNat_lt
  have hbits : codes.pq.bits<2^32 := hb ▸ config.pqBits.toNat_lt
  unfold Index.view assemble
  dsimp only
  rw [hfield _ he.dimension_lt,hfield _ hsubquantizers,hfield _ hbits,hfield _ (by omega),
    hfield _ (by omega),←hdimension]

/-- The tables of sketches of an index. -/
theorem assemble_sketched {value : PUnit} (hconfig : validateBuildConfig config=.ok value)
    (hk : config.approximation=.simHash) (hc : Coded config embeddings codes)
    (hsize : (assemble config path pairIdentity fingerprint dimension graph codes).size=
      embeddings.length) :
    SketchTables (assemble config path pairIdentity fingerprint dimension graph codes) := by
  obtain ⟨hsketches,hpq⟩ := hc.sketched hk
  obtain ⟨hge,hmod⟩ := validateBuildConfig_sketch hconfig hk
  have hbits : (assemble config path pairIdentity fingerprint dimension graph codes).sketchBits=
      config.sketchBits := if_pos hk
  refine ⟨⟨by rw [hbits]; exact hge,by rw [hbits]; exact hmod,?_,?_,?_,?_⟩,?_,?_,?_⟩
  · rw [assemble,hpq]
    rfl
  · rw [assemble,hpq]
    rfl
  · rw [assemble,hpq]
    rfl
  · rw [assemble,hpq]
    rfl
  · rw [hsize,hbits]
    exact hsketches
  · rw [assemble,hpq]
    rfl
  · rw [assemble,hpq]
    rfl

/-- A trained quantizer fills the tables of an index. -/
theorem quantizedTables_of_trained {index : Index} (ht : Trained Unit embeddings (Index.view index))
    (hbits : index.sketchBits=0) (hsketches : index.sketches=[])
    (hsize : index.size=embeddings.length) : QuantizedTables index := by
  have hne : ∀ field : UInt32,0<field.toNat → field≠0 := fun field h h0 => by
    rw [h0] at h
    exact absurd h (by decide)
  have hpos : 0<(Index.view index).subdimension := by
    have hprod : 0<(Index.view index).subquantizers*(Index.view index).subdimension := by
      rw [ht.dimension_eq]
      exact ht.dimension_pos
    exact Nat.pos_of_mul_pos_left hprod
  refine ⟨⟨hbits,hne _ ht.subquantizers_pos,hne _ ht.bits_pos,ht.bits_le,hne _ ht.centroids_pos,
    ht.centroids_le,hne _ hpos,ht.dimension_eq⟩,ht.codebook.1,fun coordinate hcoordinate => ?_,?_,
    hsketches⟩
  · have hunit := ht.codebook.2 coordinate hcoordinate
    exact ⟨hunit.1,unit_not_beyond hunit⟩
  · rw [hsize]
    exact ht.codes_length

/-- What is known of an index that was built. -/
structure Built (embeddings : List Embedding) (index : Index) : Prop where
  /-- It satisfies the conditions of the loader. -/
  loadable : Loadable index
  /-- Each layer has the nodes of the next one. -/
  nested : Routing.Nested index
  /-- Every vector is a node. -/
  size_eq : index.size=embeddings.length
  /-- Packed codes are numbers of centroids. -/
  codes_valid : index.approximation=.productQuantization → ∀ node,node< index.size →
    ValidCodes (Index.view index) ((Index.view index).packed node)

/-- The fields of an index are well formed. -/
theorem assemble_built {value : PUnit} (hconfig : validateBuildConfig config=.ok value)
    (he : Embedded dimension embeddings) (laws : HnswLaws hnsw embeddings.length)
    (hg : Grown config hnsw embeddings.length graph) (hc : Coded config embeddings codes)
    (hidentity : isZeroIdentity pairIdentity=false) (hfingerprint : fingerprint.length<2^32) :
    Built embeddings (assemble config path pairIdentity fingerprint dimension graph codes) := by
  have hrows := hg.rows.rows he.count_lt
  have hsize : (assemble config path pairIdentity fingerprint dimension graph codes).size=
      embeddings.length := size_of_offsets hrows.offsets_length
  have hentry : UInt32.ofNat graph.entryPoint=external hnsw hnsw.enterpoint := by
    rw [hg.entry_eq]
    rfl
  have hlevel : maximumLevel hnsw≤64 := by
    have hle := laws.maxLevel_le
    unfold maximumLevel
    omega
  have hmax : (UInt32.ofNat graph.maximumLevel).toNat=maximumLevel hnsw := by
    rw [hg.level_eq,UInt32.toNat_ofNat',Nat.mod_eq_of_lt (by omega)]
  have hdimension : (UInt32.ofNat dimension).toNat=dimension := by
    have hlt := he.dimension_lt
    rw [UInt32.toNat_ofNat',Nat.mod_eq_of_lt hlt]
  have hlayers : ∀ layer∈graph.upperLayers,
      LayerRows layer embeddings.length (external hnsw hnsw.enterpoint) := by
    intro layer hlayer
    obtain ⟨above,habove,hof⟩ := mem_of_forall₂ hg.layers hlayer
    exact hof.layerRows laws he.count_lt (List.mem_range.mp habove) (Nat.succ_pos above)
  have hquantized : config.approximation=.productQuantization →
      Trained Unit embeddings
        (Index.view (assemble config path pairIdentity fingerprint dimension graph codes)) := by
    intro hk
    obtain ⟨-,ht,hs,hb⟩ := hc.quantized hk
    rw [assemble_view he ht hs hb]
    exact ht
  refine ⟨⟨hidentity,fun h => ?_,?_,?_,?_,?_,?_,hfingerprint,?_,?_⟩,hg.layers.nested,hsize,?_⟩
  · have hpos := he.dimension_pos
    rw [←hdimension,show UInt32.ofNat dimension=0 from h] at hpos
    exact absurd hpos (by decide)
  · rw [hsize]
    change (UInt32.ofNat graph.entryPoint).toNat<_
    rw [hentry]
    exact laws.external_lt he.count_lt laws.entry_lt
  · exact hmax.trans_le hlevel
  · change graph.upperLayers.length=(UInt32.ofNat graph.maximumLevel).toNat
    rw [hmax,←hg.layers.length_eq,List.length_range]
  · rw [hsize]
    exact hrows
  · intro layer hlayer
    rw [hsize]
    change LayerRows layer _ (UInt32.ofNat graph.entryPoint)
    rw [hentry]
    exact hlayers layer hlayer
  · exact fun hk => assemble_sketched hconfig hk hc hsize
  · exact fun hk => quantizedTables_of_trained (hquantized hk)
      (if_neg (by rw [show config.approximation=_ from hk]; decide)) (hc.quantized hk).1 hsize
  · intro hk node hn
    rw [hsize] at hn
    exact (hquantized hk).codes_valid node hn

/-- An index that is built is well formed. -/
theorem buildIndex_returns {value : PUnit} {choices : Choices Double}
    {library : List Embedding → HnswGraph} (hconfig : validateBuildConfig config=.ok value)
    (hchoices : ∀ count,(choices.shuffle count).length=count) (he : Embedded dimension embeddings)
    (laws : HnswLaws (library embeddings) embeddings.length)
    (hidentity : isZeroIdentity pairIdentity=false) :
    Returns (buildIndex config choices library path pairIdentity fingerprint dimension embeddings)
      (Built embeddings) := by
  refine returns_bind (returns_any _) (fun _ _ => ?_)
  refine returns_bind (buildGraph_returns laws he.count_lt) (fun graph hg => ?_)
  refine returns_bind (quantize_returns hconfig hchoices he.count_lt (fun embedding hmem => ?_))
    (fun codes hcodes => ?_)
  · rw [he.length_eq embedding hmem]
    exact he.dimension_pos
  · refine (throwIf_ends (fun _ => trivial)).bind (fun _ hfingerprint => ?_)
    exact assemble_built hconfig he laws hg hcodes hidentity (by omega)

end Assembly

section Search

variable {config : SearchConfig} {embeddings : List Embedding} {index : Index} {query : Embedding}
  {documents : DocumentStore}

/-- In an index that was built no distance fails. -/
theorem Built.prepare_ends (hb : Built embeddings index) (hn : Normalizable query)
    (hlen : query.length=index.dimension.toNat) :
    ∃ normalized approximate,normalize query=.ok normalized ∧
      prepareDistance index normalized=.ok approximate ∧ ∀ node : UInt32,node.toNat< index.size →
        Ends (approximate node) (fun _ => False) Binary.Finite := by
  obtain ⟨normalized,hnormalized,hlength,hunit⟩ := (normalize_ends hn).returns
  have hprepared : Ends (prepareDistance index normalized) (fun _ => False) (fun approximate =>
      ∀ node : UInt32,node.toNat< index.size →
        Ends (approximate node) (fun _ => False) Binary.Finite) :=
    Preparation.prepareDistance_returns hb.loadable (hlength.trans hlen) hunit
      (fun hk node hnode hbad => hbad (hb.codes_valid hk node hnode))
  obtain ⟨approximate,happroximate,hap⟩ := hprepared.returns
  exact ⟨normalized,approximate,hnormalized,happroximate,hap⟩

/-- A search in an index that was built fails only where documents cannot be
embedded again. -/
theorem Built.search_ends (hb : Built embeddings index)
    (hdocuments : validateDocumentStore index documents=.ok ())
    (hconfig : validateSearchConfig config=.ok ())
    (hlen : query.length=index.dimension.toNat) (hfinite : ∀ value∈query,value.Finite)
    (hnonzero : ∃ value∈query,value.value≠0) :
    ∃ normalized approximate,normalize query=.ok normalized ∧
      prepareDistance index normalized=.ok approximate ∧
      (∀ evaluate,Yields (do
          let routed ← route Binary.key ⟨approximate,evaluate⟩ index
          candidates Binary.key ⟨approximate,evaluate⟩ index config routed)
        (fun _ => False) (fun _ => True)) ∧
      ∀ embedder : Embedder,embedder.fingerprint=index.embedderFingerprint →
        embedder.dimension=index.dimension.toNat →
        Ends (searchEmbedding index query embedder documents config)
          (fun fault => ∃ number ids,
            evaluate index embedder documents normalized number ids=.error fault)
          (fun _ => True) := by
  have hl := hb.loadable
  have hvalid := Ranking.validConfig_of_ok hconfig
  have hnormalizable : Normalizable query :=
    ⟨hfinite,hnonzero,hlen ▸ SearchResults.dimension_lt index⟩
  obtain ⟨normalized,approximate,hnormalized,happroximate,hap⟩ := hb.prepare_ends hnormalizable hlen
  have hroute : ∀ fails : Fault → Prop,¬Routing.Nested index → fails (.thrown routeError) :=
    fun _ hn => absurd hb.nested hn
  have ha : ∀ (fails : Fault → Prop) (evaluate : ℕ → List UInt32 → Except Fault (List Single)),
      Routing.Answers ⟨approximate,evaluate⟩ index.size fails :=
    fun fails evaluate node hn => (hap node hn).mono (fun _ h => h.elim) (fun _ _ => trivial)
  refine ⟨normalized,approximate,hnormalized,happroximate,fun evaluate => ?_,
    fun embedder hfingerprint hdimension => ?_⟩
  · refine (Routing.route_yields hl (ha _ evaluate) (hroute _)).bind (fun routed hr => ?_)
    by_cases hflat : Flat config index.size
    · exact (Shortlists.candidates_flat hflat (ha _ evaluate) hr.2 hr.1).mono (fun _ h => h)
        (fun _ _ => trivial)
    · have hef : 0<config.efSearch.toNat := hvalid.topK_pos.trans_le hvalid.topK_le
      exact (Shortlists.candidates_graph hl hflat hef (ha _ evaluate) hr.2 hr.1).mono (fun _ h => h)
        (fun _ _ => trivial)
  · rw [SearchResults.searchEmbedding_eq hdocuments hconfig hfingerprint hdimension hlen hfinite,
      hnormalized]
    change Ends (prepareDistance index normalized>>=_) _ _
    rw [happroximate]
    have he : Ranking.Evaluates
        (SearchResults.searchDistances index embedder documents normalized approximate)
        (fun _ _ => True) (fun fault => ∃ number ids,
          evaluate index embedder documents normalized number ids=.error fault) := by
      intro number ids
      change Ends (evaluate index embedder documents normalized number ids) _ _
      cases h : evaluate index embedder documents normalized number ids with
      | ok found => exact SearchResults.forall₂_of_length (SearchResults.evaluate_length h).symm
      | error fault => exact ⟨number,ids,h⟩
    exact Ranking.searchNodes_yields hl hvalid (ha _ _) he (fun hn => absurd hb.nested hn) {}

end Search

section Usable

/-- A configuration with one subspace. -/
def oneConfig : BuildConfig := ⟨2,2,1,0,.productQuantization,64,1,1,1,1,1,0⟩

/-- Choices for one vector. -/
def oneChoices : Choices Double := ⟨List.range,fun _ => 0,fun _ _ total => total⟩

/-- The graph of one node. -/
def oneGraph : HnswGraph := ⟨id,fun _ => 0,fun _ _ => [],0,0⟩

theorem oneGraph_laws : HnswLaws oneGraph 1 where
  labels := List.Perm.refl _
  links := fun _ _ _ _ _ h => absurd h List.not_mem_nil
  entry_lt := Nat.zero_lt_one
  entry_level := rfl
  maxLevel_le := by decide

theorem one_embedded : Embedded 1 [[1]] := by
  refine ⟨by decide,by decide,by decide,by decide,by simp,?_⟩
  simp only [List.forall_mem_singleton]
  obtain ⟨h1,hv1⟩ := single_one
  exact ⟨h1,by rw [hv1,abs_one]⟩

/-- The document store of one document. -/
def oneImage : StoreImage := imageOf [[97]] (.replicate 32 1) ones_nonzero (by decide) (by decide)

end Usable

end Leann.BuiltIndex
