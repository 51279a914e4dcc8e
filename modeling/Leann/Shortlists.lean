import Leann.Routing
import Mathlib.Data.Set.Card

/-!
# The shortlist of either path

What the flat scan and the best-first search keep. The flat scan keeps the
nearest of all nodes. The best-first search keeps the nearest of the nodes it
met, has followed all edges of those it keeps, and met only nodes that are
reachable; so a shortlist that is not full holds everything reachable.
-/

namespace Leann.Shortlists

open Exceptions Outcomes IndexFile Search Routing Selection

/-- An edge of the base graph as the loop reads the row of a node: the end of
the row is looked up at the next node number in 32 bits. -/
def Adjacent (index : Index) (node next : UInt32) : Prop :=
  ∃ first last edge,index.offsets[node.toNat]?=some first ∧
    index.offsets[(node+1).toNat]?=some last ∧ first.toNat≤edge ∧ edge<last.toNat ∧
    index.edges[edge]?=some next

/-- A node at the end of a path of edges. -/
def Reachable (index : Index) (start node : UInt32) : Prop :=
  Relation.ReflTransGen (Adjacent index) start node

section Listing

variable {δ : Type} {distances : Distances δ}

/-- The nodes with a property, each with its approximate distance. -/
structure Listing (distances : Distances δ) (seen : List (Candidate δ)) (among : UInt32 → Prop) :
    Prop where
  /-- The distances are the approximate distances. -/
  measured : ∀ candidate∈seen,Measured distances candidate
  /-- No node is listed twice. -/
  nodup : (seen.map Candidate.id).Nodup
  /-- These are the nodes. -/
  mem_iff : ∀ node,node∈seen.map Candidate.id ↔ among node

/-- Two listings of the same nodes list the same candidates. -/
theorem Listing.perm {seen seen' : List (Candidate δ)} {among : UInt32 → Prop}
    (h : Listing distances seen among) (h' : Listing distances seen' among) : seen.Perm seen' := by
  refine (List.perm_ext_iff_of_nodup h.nodup.of_map h'.nodup.of_map).mpr (fun candidate => ?_)
  have hone : ∀ {first second : List (Candidate δ)},Listing distances first among →
      Listing distances second among → candidate∈first → candidate∈second := by
    intro first second hf hs hc
    have hmem := (hs.mem_iff candidate.id).mpr
      ((hf.mem_iff candidate.id).mp (List.mem_map_of_mem hc))
    obtain ⟨other,ho,he⟩ := List.mem_map.mp hmem
    rw [(hf.measured candidate hc).eq (hs.measured other ho) he.symm]
    exact ho
  exact ⟨hone h h',hone h' h⟩

variable {κ : Type} [LinearOrder κ] (rank : δ → κ)

omit [LinearOrder κ] in
/-- Different nodes have different keys. -/
theorem keys_nodup {seen : List (Candidate δ)} (h : (seen.map Candidate.id).Nodup) :
    (seen.map (fun candidate => candidate.key rank)).Nodup := by
  rw [List.Nodup,List.pairwise_map] at h ⊢
  exact h.imp (fun hne => key_ne hne)

end Listing

section Flat

variable {δ κ : Type} [LinearOrder κ] {rank : δ → κ} {distances : Distances δ} {index : Index}
  {fails : Fault → Prop}

/-- The nodes below a bound, and the nearest of them in the shortlist. -/
structure Scanned (rank : δ → κ) (distances : Distances δ) (beam count : ℕ)
    (seen shortlist : List (Candidate δ)) : Prop where
  /-- The nodes scanned so far. -/
  listing : Listing distances seen (fun node => node.toNat<count)
  /-- The shortlist holds the nearest ones. -/
  smallest : Smallest (fun candidate => candidate.key rank) beam seen shortlist
  /-- The farthest one comes first. -/
  descending : Descending (fun candidate => candidate.key rank) shortlist

/-- One node. -/
theorem Scanned.next {beam count : ℕ} {seen shortlist : List (Candidate δ)}
    (h : Scanned rank distances beam count seen shortlist) {candidate : Candidate δ}
    (hc : candidate.id.toNat=count) (hm : Measured distances candidate) :
    Scanned rank distances beam (count+1) (candidate::seen)
      (pushShortlist rank beam candidate shortlist) := by
  have hnew : candidate.id∉seen.map Candidate.id := fun hmem => by
    have hlt := (h.listing.mem_iff candidate.id).mp hmem
    omega
  have hother : ∀ other∈seen,other.key rank≠candidate.key rank := fun other ho =>
    key_ne (fun he => hnew (he ▸ List.mem_map_of_mem ho))
  obtain ⟨hsmallest,hdescending⟩ := h.smallest.offer h.descending hother
  refine ⟨⟨?_,?_,fun node => ?_⟩,hsmallest,hdescending⟩
  · rw [List.forall_mem_cons]
    exact ⟨hm,h.listing.measured⟩
  · rw [List.map_cons,List.nodup_cons]
    exact ⟨hnew,h.listing.nodup⟩
  · rw [List.map_cons,List.mem_cons,h.listing.mem_iff node,←UInt32.toNat_inj]
    omega

/-- The distance of a node is known or asked for. -/
theorem scanDistance_yields (ha : Answers distances index.size fails) {routed : Candidate δ}
    (hm : Measured distances routed) {node : UInt32} (hn : node.toNat< index.size) :
    Yields (scanDistance distances routed node) fails
      (fun distance => Measured distances ⟨distance,node⟩) := by
  unfold scanDistance
  by_cases he : node=routed.id
  · rw [if_pos he]
    refine Yields.returned ?_
    rw [he]
    exact hm
  · rw [if_neg he]
    exact approximateDistance_yields (ha node hn)

/-- The scan keeps the nearest of all nodes. -/
theorem flatScan_yields (hsize : index.size<2^32) (ha : Answers distances index.size fails)
    {beam : ℕ} {routed : Candidate δ} (hm : Measured distances routed) :
    Yields (flatScan rank distances index beam routed) fails
      (fun shortlist => ∃ seen,Scanned rank distances beam index.size seen shortlist) := by
  refine (Yields.foldlM_range index.size
    (fun count shortlist => ∃ seen,Scanned rank distances beam count seen shortlist)
    ⟨[],⟨by simp,by simp,by simp⟩,Smallest.nil,List.Pairwise.nil⟩
    (fun node shortlist hnode hs => ?_)).bind
    (fun shortlist hs => (Yields.updated _).bind (fun _ _ => Yields.returned hs))
  obtain ⟨seen,hseen⟩ := hs
  have hid : (UInt32.ofNat node).toNat=node :=
    UInt32.toNat_ofNat_of_lt' (by rw [UInt32.size]; omega)
  exact (scanDistance_yields ha hm (by omega)).bind
    (fun distance hmeasured => Yields.returned ⟨_,hseen.next hid hmeasured⟩)

end Flat

section Beam

variable {δ κ : Type} [LinearOrder κ] {rank : δ → κ} {distances : Distances δ} {index : Index}
  {fails : Fault → Prop} {beam : ℕ} {start : UInt32} {seen taken : List (Candidate δ)}
  {state : BeamState δ}

/-- The invariant of the best-first search: what it met so far, and which of
that it took from the frontier. -/
structure Searched (rank : δ → κ) (distances : Distances δ) (index : Index) (beam : ℕ)
    (start : UInt32) (seen taken : List (Candidate δ)) (state : BeamState δ) : Prop where
  /-- Every node has a mark. -/
  visited_length : state.visited.length=index.size
  /-- The marked nodes are those that were met. -/
  visited_iff : ∀ node : UInt32,state.visited[node.toNat]?=some true ↔ node∈seen.map Candidate.id
  /-- The distances are the approximate distances. -/
  measured : ∀ candidate∈seen,Measured distances candidate
  /-- No node is met twice. -/
  nodup : (seen.map Candidate.id).Nodup
  /-- The search met the node it starts at. -/
  starts : start∈seen.map Candidate.id
  /-- The search met only reachable nodes. -/
  reached : ∀ candidate∈seen,Reachable index start candidate.id
  /-- The shortlist holds the nearest ones. -/
  smallest : Smallest (fun candidate => candidate.key rank) beam seen state.shortlist
  /-- The farthest one of the shortlist comes first. -/
  descending : Descending (fun candidate => candidate.key rank) state.shortlist
  /-- The nearest one of the frontier comes first. -/
  ascending : Descending (fun candidate => OrderDual.toDual (candidate.key rank)) state.frontier
  /-- The frontier holds nodes that were met. -/
  frontier_seen : ∀ candidate∈state.frontier,candidate∈seen
  /-- The frontier holds no node that was taken. -/
  frontier_fresh : ∀ candidate∈state.frontier,candidate∉taken
  /-- Nodes are taken after they were met. -/
  taken_seen : ∀ candidate∈taken,candidate∈seen
  /-- No node is taken twice. -/
  taken_nodup : taken.Nodup
  /-- What is on the shortlist is to be expanded or was. -/
  covered : ∀ candidate∈state.shortlist,candidate∈state.frontier ∨ candidate∈taken

/-- The edges of all these nodes lead to nodes that were met. -/
def Closed (index : Index) (expanded seen : List (Candidate δ)) : Prop :=
  ∀ candidate∈expanded,∀ next,Adjacent index candidate.id next → next∈seen.map Candidate.id

/-- A node that was met is a node. -/
theorem Searched.bounded (h : Searched rank distances index beam start seen taken state)
    {node : UInt32} (hn : node∈seen.map Candidate.id) : node.toNat< index.size := by
  obtain ⟨hlt,-⟩ := List.getElem?_eq_some_iff.mp ((h.visited_iff node).mpr hn)
  rw [h.visited_length] at hlt
  exact hlt

/-- There are not more nodes met than nodes. -/
theorem Searched.length_le (h : Searched rank distances index beam start seen taken state) :
    seen.length≤ index.size := by
  have hnodup : ((seen.map Candidate.id).map UInt32.toNat).Nodup :=
    h.nodup.map (fun _ _ he => UInt32.toNat_inj.mp he)
  have hsub := List.subperm_of_subset hnodup (show _ ⊆ List.range index.size from fun node hn => by
    obtain ⟨id,hid,rfl⟩ := List.mem_map.mp hn
    exact List.mem_range.mpr (h.bounded hid))
  have hle := hsub.length_le
  rwa [List.length_map,List.length_map,List.length_range] at hle

/-- There are not more nodes taken than nodes. -/
theorem Searched.taken_le (h : Searched rank distances index beam start seen taken state) :
    taken.length≤ index.size :=
  (List.subperm_of_subset h.taken_nodup h.taken_seen).length_le.trans h.length_le

/-- Nodes that were met are told apart by their numbers. -/
theorem Searched.eq_of_id (h : Searched rank distances index beam start seen taken state) {first second : Candidate δ}
    (hf : first∈seen) (hs : second∈seen) (hid : first.id=second.id) : first=second :=
  (h.measured first hf).eq (h.measured second hs) hid

/-- No node is twice on the shortlist. -/
theorem Searched.shortlist_nodup (h : Searched rank distances index beam start seen taken state) :
    (state.shortlist.map Candidate.id).Nodup :=
  h.smallest.nodup.map_on (fun first hf second hs hid =>
    h.eq_of_id (h.smallest.subset first hf) (h.smallest.subset second hs) hid)

/-- What enters the shortlist when more is met was not on it before. -/
theorem Searched.entered_fresh {after : BeamState δ} {seen' : List (Candidate δ)}
    (h : Searched rank distances index beam start seen taken state)
    (h' : Searched rank distances index beam start seen' taken after) (hsub : seen⊆seen') {id : UInt32}
    (hid : id∈(after.shortlist.map Candidate.id).diff (state.shortlist.map Candidate.id)) :
    id∉seen.map Candidate.id := by
  intro hseen
  rw [h'.shortlist_nodup.mem_sdiff_iff] at hid
  obtain ⟨hafter,hbefore⟩ := hid
  obtain ⟨candidate,hc,hcid⟩ := List.mem_map.mp hafter
  obtain ⟨other,ho,hoid⟩ := List.mem_map.mp hseen
  have he : other=candidate :=
    h'.eq_of_id (hsub ho) (h'.smallest.subset candidate hc) (hoid.trans hcid.symm)
  have hkept := h.smallest.kept_of_seen h'.smallest hsub hc (he ▸ ho)
  exact hbefore (hcid ▸ List.mem_map_of_mem hkept)

/-- Take the nearest node from the frontier. -/
theorem Searched.take (h : Searched rank distances index beam start seen taken state)
    {current : Candidate δ} {frontier : List (Candidate δ)} (hf : state.frontier=current::frontier) :
    Searched rank distances index beam start seen (current::taken) {state with frontier := frontier} := by
  have hd := h.ascending
  have hseen := h.frontier_seen
  have hfresh := h.frontier_fresh
  rw [hf] at hd hseen hfresh
  obtain ⟨hhead,htail⟩ := List.pairwise_cons.mp hd
  refine {h with ascending := htail,frontier_seen := ?_,frontier_fresh := ?_,taken_seen := ?_,
                 taken_nodup := ?_,covered := ?_}
  · exact fun candidate hc => hseen candidate (List.mem_cons_of_mem _ hc)
  · intro candidate hc hmem
    rcases List.mem_cons.mp hmem with he|ht
    · rw [he] at hc
      exact lt_irrefl _ (hhead current hc)
    · exact hfresh candidate (List.mem_cons_of_mem _ hc) ht
  · rw [List.forall_mem_cons]
    exact ⟨hseen current List.mem_cons_self,h.taken_seen⟩
  · rw [List.nodup_cons]
    exact ⟨hfresh current List.mem_cons_self,h.taken_nodup⟩
  · intro candidate hc
    rcases h.covered candidate hc with hfr|ht
    · rw [hf] at hfr
      rcases List.mem_cons.mp hfr with he|hfr
      · exact Or.inr (he ▸ List.mem_cons_self)
      · exact Or.inl hfr
    · exact Or.inr (List.mem_cons_of_mem _ ht)

/-- A new node that is met without entering the queues. -/
theorem Searched.meet (h : Searched rank distances index beam start seen taken state)
    {candidate : Candidate δ} (hm : Measured distances candidate)
    (hlt : candidate.id.toNat< index.size) (hnew : candidate.id∉seen.map Candidate.id)
    (hr : Reachable index start candidate.id) (hfull : beam≤ state.shortlist.length)
    (hfar : ∀ other∈state.shortlist,other.key rank<candidate.key rank) :
    Searched rank distances index beam start (candidate::seen) taken
      {state with visited := state.visited.set candidate.id.toNat true} where
  visited_length := by rw [List.length_set,h.visited_length]
  visited_iff node := by
    rw [List.getElem?_set,List.map_cons,List.mem_cons,←h.visited_iff node,←UInt32.toNat_inj]
    by_cases he : candidate.id.toNat=node.toNat
    · simp [he.symm ▸ hlt,h.visited_length,he]
    · simp [he,Ne.symm he]
  measured := List.forall_mem_cons.mpr ⟨hm,h.measured⟩
  nodup := by
    rw [List.map_cons,List.nodup_cons]
    exact ⟨hnew,h.nodup⟩
  starts := List.mem_cons_of_mem _ h.starts
  reached := List.forall_mem_cons.mpr ⟨hr,h.reached⟩
  smallest := h.smallest.skip hfull hfar
  descending := h.descending
  ascending := h.ascending
  frontier_seen other ho := List.mem_cons_of_mem _ (h.frontier_seen other ho)
  frontier_fresh := h.frontier_fresh
  taken_seen other ho := List.mem_cons_of_mem _ (h.taken_seen other ho)
  taken_nodup := h.taken_nodup
  covered := h.covered

/-- A new node that enters both queues. -/
theorem Searched.enter (h : Searched rank distances index beam start seen taken state)
    {candidate : Candidate δ} (hm : Measured distances candidate)
    (hlt : candidate.id.toNat< index.size) (hnew : candidate.id∉seen.map Candidate.id)
    (hr : Reachable index start candidate.id) :
    Searched rank distances index beam start (candidate::seen) taken
      ⟨state.visited.set candidate.id.toNat true,pushFrontier rank candidate state.frontier,
        pushShortlist rank beam candidate state.shortlist⟩ := by
  have hother : ∀ other∈seen,other.key rank≠candidate.key rank := fun other ho =>
    key_ne (fun he => hnew (he ▸ List.mem_map_of_mem ho))
  obtain ⟨hsmallest,hdescending⟩ := h.smallest.offer h.descending hother
  have hfresh : candidate∉taken := fun ht => hnew (List.mem_map_of_mem (h.taken_seen _ ht))
  have hpushed : ∀ other,other∈pushFrontier rank candidate state.frontier ↔
      other=candidate ∨ other∈state.frontier := fun other => mem_push
  refine ⟨?_,fun node => ?_,List.forall_mem_cons.mpr ⟨hm,h.measured⟩,?_,
    List.mem_cons_of_mem _ h.starts,List.forall_mem_cons.mpr ⟨hr,h.reached⟩,hsmallest,hdescending,
    ?_,fun other ho => ?_,fun other ho => ?_,fun other ho => List.mem_cons_of_mem _ (h.taken_seen other ho),
    h.taken_nodup,fun other ho => ?_⟩
  · rw [List.length_set,h.visited_length]
  · rw [List.getElem?_set,List.map_cons,List.mem_cons,←h.visited_iff node,←UInt32.toNat_inj]
    by_cases he : candidate.id.toNat=node.toNat
    · simp [he.symm ▸ hlt,h.visited_length,he]
    · simp [he,Ne.symm he]
  · rw [List.map_cons,List.nodup_cons]
    exact ⟨hnew,h.nodup⟩
  · exact push_descending h.ascending (fun other ho he =>
      hother other (h.frontier_seen other ho) (OrderDual.toDual.injective he))
  · rcases (hpushed other).mp ho with he|hf
    · exact he ▸ List.mem_cons_self
    · exact List.mem_cons_of_mem _ (h.frontier_seen other hf)
  · rcases (hpushed other).mp ho with he|hf
    · exact he ▸ hfresh
    · exact h.frontier_fresh other hf
  · rcases mem_offer ho with he|hs
    · exact Or.inl ((hpushed other).mpr (Or.inl he))
    · exact (h.covered other hs).imp_left (fun hf => (hpushed other).mpr (Or.inr hf))

/-- What following an edge leaves behind: the invariant, with more nodes met. -/
structure Followed (rank : δ → κ) (distances : Distances δ) (index : Index) (beam : ℕ)
    (start : UInt32) (seen taken : List (Candidate δ)) (met : UInt32 → Prop)
    (state : BeamState δ) : Prop where
  /-- The nodes met by now. -/
  later : ∃ seen',Searched rank distances index beam start seen' taken state ∧ seen⊆seen' ∧
    ∀ node,met node → node∈seen'.map Candidate.id

/-- The farthest node of a full shortlist is nearer than a node that is not
competitive. -/
theorem farther_of_not_nearer {shortlist : List (Candidate δ)}
    (hd : Descending (fun candidate => candidate.key rank) shortlist) {candidate worst : Candidate δ}
    (ht : shortlist[0]?=some worst) (hn : worst.id≠candidate.id)
    (hnear : ¬candidate.Nearer rank worst) :
    ∀ other∈shortlist,other.key rank<candidate.key rank := by
  rw [nearer_iff,not_lt] at hnear
  have hlt := lt_of_le_of_ne hnear (key_ne hn)
  cases shortlist with
  | nil => simp at ht
  | cons first rest =>
    have he : first=worst := by simpa using ht
    rw [List.forall_mem_cons,he]
    refine ⟨hlt,fun other ho => ?_⟩
    rw [he] at hd
    exact ((List.pairwise_cons.mp hd).1 other ho).trans hlt

/-- The test of a new node. -/
theorem competitive_ends (hbeam : 0<beam) {shortlist : List (Candidate δ)}
    (hd : Descending (fun candidate => candidate.key rank) shortlist) {candidate : Candidate δ}
    (hn : ∀ other∈shortlist,other.id≠candidate.id) :
    Ends (competitive rank beam candidate shortlist) fails (fun wanted => wanted=false →
      beam≤ shortlist.length ∧ ∀ other∈shortlist,other.key rank<candidate.key rank) := by
  unfold competitive
  by_cases hroom : shortlist.length<beam
  · rw [if_pos hroom]
    exact fun h => absurd h (by decide)
  · rw [if_neg hroom]
    refine (element_ends (by omega)).bind (fun worst ht => ?_)
    intro hfalse
    have hnear : ¬candidate.Nearer rank worst := of_decide_eq_false hfalse
    exact ⟨by omega,farther_of_not_nearer hd ht (hn worst (List.mem_of_getElem? ht)) hnear⟩

/-- One edge of a node that was met. -/
theorem visit_yields (hl : Loadable index) (ha : Answers distances index.size fails)
    (hbeam : 0<beam) (h : Searched rank distances index beam start seen taken state) {edge : ℕ}
    {neighbor : UInt32} (he : index.edges[edge]?=some neighbor)
    (hr : Reachable index start neighbor) :
    Yields (visit rank distances index beam state edge) fails
      (Followed rank distances index beam start seen taken (fun node => node=neighbor)) := by
  have hlt := hl.rows.edges_lt neighbor (List.mem_of_getElem? he)
  have hmark : neighbor.toNat<state.visited.length := by
    rw [h.visited_length]
    exact hlt
  have hedge : edge< index.edges.length := (List.getElem?_eq_some_iff.mp he).1
  refine (Yields.lift (element_ends hedge)).bind (fun next hnext => ?_)
  rw [he] at hnext
  injection hnext with hnext
  subst hnext
  refine (Yields.lift (element_ends hmark)).bind (fun met hmet => ?_)
  cases met with
  | true =>
    refine Yields.returned ⟨seen,h,fun _ hc => hc,fun node hn => ?_⟩
    rw [hn]
    exact (h.visited_iff neighbor).mp hmet
  | false =>
    have hnew : neighbor∉seen.map Candidate.id := fun hm => by
      have htrue := (h.visited_iff neighbor).mpr hm
      rw [htrue] at hmet
      exact absurd hmet (by decide)
    refine (Yields.lift (assign_ends hmark true)).bind (fun visited hvisited => ?_)
    refine (approximateDistance_yields (ha neighbor hlt)).bind (fun distance hd => ?_)
    have hother : ∀ other∈state.shortlist,other.id≠neighbor := fun other ho hid =>
      hnew (hid ▸ List.mem_map_of_mem (h.smallest.subset other ho))
    have htest : Ends (competitive rank beam ⟨distance,neighbor⟩ state.shortlist) fails _ :=
      competitive_ends hbeam h.descending hother
    refine (Yields.lift htest).bind (fun wanted hwanted => ?_)
    have hlater : ∀ node,node=neighbor →
        node∈((⟨distance,neighbor⟩ : Candidate δ)::seen).map Candidate.id := fun node hn => by
      rw [hn]
      exact List.mem_cons_self
    rw [hvisited]
    cases wanted with
    | true => exact Yields.returned ⟨_,h.enter hd hlt hnew hr,List.subset_cons_self _ _,hlater⟩
    | false =>
      obtain ⟨hfull,hfar⟩ := hwanted rfl
      exact Yields.returned ⟨_,h.meet hd hlt hnew hr hfull hfar,List.subset_cons_self _ _,hlater⟩

/-- All edges of a node that was taken. -/
theorem expand_yields (hl : Loadable index) (ha : Answers distances index.size fails)
    (hbeam : 0<beam) {current : Candidate δ} (hc : current∈seen)
    (h : Searched rank distances index beam start seen taken state) :
    Yields (expand rank distances index beam current state) fails
      (Followed rank distances index beam start seen taken (Adjacent index current.id)) := by
  have hlt := h.bounded (List.mem_map_of_mem hc)
  have hlen := hl.rows.offsets_length
  have hnext : (current.id+1).toNat< index.offsets.length := by
    have hle : (current.id+1).toNat≤ current.id.toNat+1 := by
      rw [UInt32.toNat_add]
      exact Nat.mod_le _ _
    omega
  refine (Yields.updated _).bind (fun _ _ => ?_)
  refine (Yields.lift (element_ends (by omega))).bind (fun first hfirst => ?_)
  refine (Yields.lift (element_ends hnext)).bind (fun last hlast => ?_)
  have hend := offset_le hl.rows hlast
  refine (Yields.foldlM _ (fun done => Followed rank distances index beam start seen taken
    (fun node => ∃ edge∈done,index.edges[edge]?=some node)) ?_ ?_).mono (fun _ hf => hf)
      (fun after hafter => ?_)
  · exact ⟨seen,h,fun _ hs => hs,fun node hn => by simp at hn⟩
  · intro done edge rest before hsplit hbefore
    obtain ⟨seen',h',hsub,hmet⟩ := hbefore
    have hedge : edge∈List.range' first.toNat (last.toNat-first.toNat) := by
      rw [hsplit]
      simp
    rw [List.mem_range'_1] at hedge
    have hin : edge< index.edges.length := by omega
    have hneighbor := List.getElem?_eq_getElem hin
    have hadjacent : Adjacent index current.id index.edges[edge] :=
      ⟨first,last,edge,hfirst,hlast,by omega,by omega,hneighbor⟩
    refine (visit_yields hl ha hbeam h' hneighbor ((h.reached current hc).tail hadjacent)).mono
      (fun _ hf => hf) (fun after hafter => ?_)
    obtain ⟨seen'',h'',hsub',hmet'⟩ := hafter
    refine ⟨seen'',h'',fun _ hs => hsub' (hsub hs),fun node hn => ?_⟩
    obtain ⟨other,ho,hnode⟩ := hn
    rcases List.mem_append.mp ho with ho|ho
    · exact List.map_subset Candidate.id hsub' (hmet node ⟨other,ho,hnode⟩)
    · rw [List.mem_singleton.mp ho,hneighbor,Option.some.injEq] at hnode
      exact hmet' node hnode.symm
  · obtain ⟨seen',h',hsub,hmet⟩ := hafter
    refine ⟨seen',h',hsub,fun node hn => hmet node ?_⟩
    obtain ⟨first',last',edge,hfirst',hlast',hlow,hhigh,hnode⟩ := hn
    rw [hfirst,Option.some.injEq] at hfirst'
    rw [hlast,Option.some.injEq] at hlast'
    refine ⟨edge,List.mem_range'_1.mpr ⟨hfirst' ▸ hlow,?_⟩,hnode⟩
    rw [←hlast',←hfirst'] at *
    omega

/-- How the best-first search ends: the shortlist holds the nearest nodes it
met, and it met all their neighbours. -/
structure Settled (rank : δ → κ) (distances : Distances δ) (index : Index) (beam : ℕ)
    (start : UInt32) (seen shortlist : List (Candidate δ)) : Prop where
  /-- The distances are the approximate distances. -/
  measured : ∀ candidate∈seen,Measured distances candidate
  /-- No node is met twice. -/
  nodup : (seen.map Candidate.id).Nodup
  /-- There are not more nodes met than nodes. -/
  length_le : seen.length≤ index.size
  /-- The search met the node it starts at. -/
  starts : start∈seen.map Candidate.id
  /-- The search met only reachable nodes. -/
  reached : ∀ candidate∈seen,Reachable index start candidate.id
  /-- The shortlist holds the nearest ones. -/
  smallest : Smallest (fun candidate => candidate.key rank) beam seen shortlist
  /-- The edges of the shortlist lead to nodes that were met. -/
  closed : Closed index shortlist seen

/-- With an empty frontier everything on the shortlist was taken. -/
theorem Searched.taken_of_empty (h : Searched rank distances index beam start seen taken state)
    (hf : state.frontier=[]) : ∀ candidate∈state.shortlist,candidate∈taken := by
  refine fun candidate hc => (h.covered candidate hc).resolve_left (fun hin => ?_)
  rw [hf] at hin
  exact absurd hin List.not_mem_nil

/-- So it was when the nearest node of the frontier is farther. -/
theorem Searched.taken_of_farther (h : Searched rank distances index beam start seen taken state)
    {current : Candidate δ} {frontier : List (Candidate δ)} (hf : state.frontier=current::frontier)
    (hfar : ∀ other∈state.shortlist,other.key rank<current.key rank) :
    ∀ candidate∈state.shortlist,candidate∈taken := by
  refine fun candidate hc => (h.covered candidate hc).resolve_left (fun hin => ?_)
  have hnear := hfar candidate hc
  have hasc := h.ascending
  rw [hf] at hin hasc
  rcases List.mem_cons.mp hin with he|hr
  · rw [he] at hnear
    exact lt_irrefl _ hnear
  · exact lt_asymm hnear ((List.pairwise_cons.mp hasc).1 candidate hr)

/-- The search ends when everything on the shortlist was taken. -/
theorem Searched.settle (h : Searched rank distances index beam start seen taken state)
    (hclosed : Closed index taken seen) (hall : ∀ candidate∈state.shortlist,candidate∈taken) :
    Settled rank distances index beam start seen state.shortlist :=
  ⟨h.measured,h.nodup,h.length_le,h.starts,h.reached,h.smallest,
    fun candidate hc => hclosed candidate (hall candidate hc)⟩

/-- The test for the end of the search. -/
theorem finished_ends (hbeam : 0<beam) {shortlist : List (Candidate δ)}
    (hd : Descending (fun candidate => candidate.key rank) shortlist) {current : Candidate δ} :
    Ends (finished rank beam current shortlist) fails (fun enough => enough=true →
      ∀ other∈shortlist,other.key rank<current.key rank) := by
  unfold finished
  by_cases hfull : shortlist.length≥beam
  · rw [if_pos hfull]
    refine (element_ends (by omega)).bind (fun worst ht => ?_)
    intro hover other ho
    have hnear := of_decide_eq_true hover
    rw [nearer_iff] at hnear
    cases shortlist with
    | nil => simp at ho
    | cons first rest =>
      have he : first=worst := by simpa using ht
      rcases List.mem_cons.mp ho with hf|hr
      · rw [hf,he]
        exact hnear
      · rw [he] at hd
        exact ((List.pairwise_cons.mp hd).1 other hr).trans hnear
  · rw [if_neg hfull]
    exact fun h => absurd h (by decide)

/-- The best-first search comes to an end. -/
theorem beamSearch_yields (hl : Loadable index) (ha : Answers distances index.size fails)
    (hbeam : 0<beam) {turns : ℕ} (h : Searched rank distances index beam start seen taken state)
    (hclosed : Closed index taken seen) (hturns : index.size+1≤turns+taken.length) :
    Yields (beamSearch rank distances index beam turns state) fails
      (fun shortlist => ∃ seen,Settled rank distances index beam start seen shortlist) := by
  induction turns generalizing seen taken state with
  | zero =>
    have hle := h.taken_le
    omega
  | succ turns ih =>
    unfold beamSearch
    cases hf : state.frontier with
    | nil =>
      exact Yields.returned ⟨seen,h.settle hclosed (h.taken_of_empty hf)⟩
    | cons current frontier =>
      refine (Yields.lift (finished_ends hbeam h.descending)).bind (fun enough hover => ?_)
      cases enough with
      | true => exact Yields.returned ⟨seen,h.settle hclosed (h.taken_of_farther hf (hover rfl))⟩
      | false =>
        have hmem : current∈seen := h.frontier_seen current (hf ▸ List.mem_cons_self)
        refine (expand_yields hl ha hbeam hmem (h.take hf)).bind (fun after hafter => ?_)
        obtain ⟨seen',h',hsub,hmet⟩ := hafter
        refine ih h' ?_ (by rw [List.length_cons]; omega)
        refine List.forall_mem_cons.mpr ⟨fun next hn => hmet next hn,fun candidate hc next hn => ?_⟩
        exact List.map_subset Candidate.id hsub (hclosed candidate hc next hn)

/-- The search starts at the routed node. -/
theorem searched_start (hbeam : 0<beam) {routed : Candidate δ} (hm : Measured distances routed)
    (hlt : routed.id.toNat< index.size) :
    Searched rank distances index beam routed.id [routed] []
      ⟨(List.replicate index.size false).set routed.id.toNat true,[routed],[routed]⟩ where
  visited_length := by rw [List.length_set,List.length_replicate]
  visited_iff node := by
    rw [List.getElem?_set,List.map_singleton,List.mem_singleton,←UInt32.toNat_inj,
      List.length_replicate]
    by_cases he : routed.id.toNat=node.toNat
    · simp [he,he ▸ hlt]
    · simp [he,Ne.symm he,List.getElem?_replicate]
  measured := by simpa using hm
  nodup := by simp
  starts := by simp
  reached candidate hc := by
    rw [List.mem_singleton.mp hc]
    exact Relation.ReflTransGen.refl
  smallest := Smallest.whole (by simp) (by rw [List.length_singleton]; omega)
  descending := by simp [Descending]
  ascending := by simp [Descending]
  frontier_seen := by simp
  frontier_fresh := by simp
  taken_seen := by simp
  taken_nodup := by simp
  covered := by simp

/-- Everything reachable was met when the shortlist holds all that was met. -/
theorem Settled.listing {shortlist : List (Candidate δ)}
    (h : Settled rank distances index beam start seen shortlist) (hp : shortlist.Perm seen) :
    Listing distances shortlist (Reachable index start) where
  measured candidate hc := h.measured candidate (hp.mem_iff.mp hc)
  nodup := (hp.map Candidate.id).nodup_iff.mpr h.nodup
  mem_iff node := by
    rw [(hp.map Candidate.id).mem_iff]
    constructor
    · intro hn
      obtain ⟨candidate,hc,he⟩ := List.mem_map.mp hn
      exact he ▸ h.reached candidate hc
    · intro hr
      induction hr with
      | refl => exact h.starts
      | tail _ hadjacent ih =>
        obtain ⟨candidate,hc,he⟩ := List.mem_map.mp ih
        exact h.closed candidate (hp.mem_iff.mpr hc) _ (he ▸ hadjacent)

/-- The length of a listing is the number of the nodes. -/
theorem Listing.length_eq {among : UInt32 → Prop} {nodes : List (Candidate δ)}
    (h : Listing distances nodes among) : nodes.length=Set.ncard {node | among node} := by
  have hset : {node | among node}=((nodes.map Candidate.id).toFinset : Set UInt32) := by
    ext node
    rw [Set.mem_ofPred_eq,List.coe_toFinset,Set.mem_ofPred_eq,h.mem_iff]
  rw [hset,Set.ncard_coe_finset,List.toFinset_card_of_nodup h.nodup,List.length_map]

/-- The shortlist is full or holds everything reachable. -/
theorem Settled.length_eq {shortlist : List (Candidate δ)}
    (h : Settled rank distances index beam start seen shortlist) :
    shortlist.length=min beam (Set.ncard {node | Reachable index start node}) := by
  have hlen := h.smallest.length
  by_cases hroom : shortlist.length<beam
  · have hl := (h.listing (h.smallest.perm_seen (Or.inl hroom))).length_eq
    omega
  · have hsub : ((seen.map Candidate.id).toFinset : Set UInt32)⊆{node | Reachable index start node} := by
      intro node hn
      rw [List.coe_toFinset,Set.mem_ofPred_eq] at hn
      obtain ⟨candidate,hc,he⟩ := List.mem_map.mp hn
      exact he ▸ h.reached candidate hc
    have hfinite : Finite UInt32 := Finite.of_injective
      (fun node : UInt32 => (⟨node.toNat,node.toNat_lt⟩ : Fin (2^32)))
      (fun _ _ he => UInt32.toNat_inj.mp (Fin.mk.inj he))
    have hcard := Set.ncard_le_ncard hsub (Set.toFinite _)
    rw [Set.ncard_coe_finset,List.toFinset_card_of_nodup h.nodup,List.length_map] at hcard
    omega

end Beam

section Candidates

variable {δ κ : Type} [LinearOrder κ] {rank : δ → κ} {distances : Distances δ} {index : Index}
  {config : SearchConfig} {fails : Fault → Prop}

/-- The beam is not shorter than what is recomputed. -/
theorem exactBudget_le_beam (config : SearchConfig) (size : ℕ) :
    exactBudget config size≤approximateBeam config size := by
  unfold approximateBeam exactBudget
  dsimp only
  split <;> omega

/-- All nodes have approximate distances, and the candidates are the first
ones in their order. -/
def FlatCandidates (rank : δ → κ) (distances : Distances δ) (index : Index) (config : SearchConfig)
    (found : List (Candidate δ)) : Prop :=
  ∃ nodes,Listing distances nodes (fun node => node.toNat< index.size) ∧
    found=(ranked (fun candidate => candidate.key rank) nodes).take (exactBudget config index.size)

/-- The candidates are the first ones of a shortlist the search ends with. -/
def GraphCandidates (rank : δ → κ) (distances : Distances δ) (index : Index) (config : SearchConfig)
    (start : UInt32) (found : List (Candidate δ)) : Prop :=
  ∃ seen shortlist,
    Settled rank distances index (approximateBeam config index.size) start seen shortlist ∧
    found=(ranked (fun candidate => candidate.key rank) shortlist).take
      (exactBudget config index.size)

/-- The candidates of the flat path. -/
theorem candidates_flat (hflat : Flat config index.size) (ha : Answers distances index.size fails)
    {routed : Candidate δ} (hm : Measured distances routed) (hlt : routed.id.toNat< index.size) :
    Yields (candidates rank distances index config routed) fails
      (FlatCandidates rank distances index config) := by
  have hsize : index.size<2^32 := hflat.2.trans_lt config.approximateScanLimit.toNat_lt
  have hshort : Yields (shortlist rank distances index config routed) fails
      (fun found => ∃ seen,Scanned rank distances (approximateBeam config index.size) index.size
        seen found) := by
    refine (Yields.lift (assign_ends (by rwa [List.length_replicate]) true)).bind (fun _ _ => ?_)
    rw [if_pos hflat]
    exact flatScan_yields hsize ha hm
  refine hshort.bind (fun found hf => Yields.returned ?_)
  obtain ⟨seen,hseen⟩ := hf
  refine ⟨seen,hseen.listing,?_⟩
  rw [hseen.smallest.eq_take (keys_nodup rank hseen.listing.nodup),List.take_take,
    Nat.min_eq_left (exactBudget_le_beam config index.size)]

/-- The shortlist of the graph path. -/
theorem shortlist_graph (hl : Loadable index) (hflat : ¬Flat config index.size)
    (hef : 0<config.efSearch.toNat) (ha : Answers distances index.size fails)
    {routed : Candidate δ} (hm : Measured distances routed) (hlt : routed.id.toNat< index.size) :
    Yields (shortlist rank distances index config routed) fails
      (fun found => ∃ seen,Settled rank distances index (approximateBeam config index.size)
        routed.id seen found) := by
  have hbeam : 0<approximateBeam config index.size := by
    have hle := exactBudget_le_beam config index.size
    unfold exactBudget at hle
    omega
  refine (Yields.lift (assign_ends (by rwa [List.length_replicate]) true)).bind
    (fun visited hvisited => ?_)
  rw [if_neg hflat,hvisited]
  exact beamSearch_yields hl ha hbeam (searched_start hbeam hm hlt) (fun _ hc => by simp at hc)
    (by simp)

/-- The candidates of the graph path. -/
theorem candidates_graph (hl : Loadable index) (hflat : ¬Flat config index.size)
    (hef : 0<config.efSearch.toNat) (ha : Answers distances index.size fails)
    {routed : Candidate δ} (hm : Measured distances routed) (hlt : routed.id.toNat< index.size) :
    Yields (candidates rank distances index config routed) fails
      (GraphCandidates rank distances index config routed.id) :=
  (shortlist_graph hl hflat hef ha hm hlt).bind (fun found hf => by
    obtain ⟨seen,hseen⟩ := hf
    exact Yields.returned ⟨seen,found,hseen,rfl⟩)

end Candidates

end Leann.Shortlists
