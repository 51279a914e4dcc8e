import Leann.ResultCount

/-!
# The best-first loop turn by turn

The loop of the best-first search cut into single steps: taking a node from
the frontier and following one edge. A record of what was expanded and what
entered the shortlist is kept along. At its end the shortlist is locally
optimal, as far as the edges of a node are those the loop reads.
-/

namespace Leann.BeamLoop

open BinaryFloat Exceptions Outcomes IndexFile Embeddings Search Routing Shortlists Selection Ranking

section Steps

variable {δ κ : Type} [LinearOrder κ] (rank : δ → κ) (distances : Distances δ) (index : Index)
  (beam : ℕ)

/-- The loop in the middle of its work. The last two lists record what it
did, the latest node first. -/
structure Progress (δ : Type) where
  /-- The queues and the marks. -/
  state : BeamState δ
  /-- What was counted. -/
  metrics : SearchMetrics
  /-- The edges of the node that is being expanded that are still to be followed. -/
  edges : List ℕ
  /-- The nodes that were expanded. -/
  expanded : List UInt32
  /-- The nodes that entered the shortlist. -/
  shortlisted : List UInt32

/-- An edge was followed. What the shortlist holds now and did not hold
before has entered it. -/
def Progress.followed (progress : Progress δ) (rest : List ℕ) (state : BeamState δ)
    (metrics : SearchMetrics) : Progress δ :=
  ⟨state,metrics,rest,progress.expanded,
    (state.shortlist.map Candidate.id).diff (progress.state.shortlist.map Candidate.id)++
      progress.shortlisted⟩

/-- A node was taken from the frontier, and its edges are turned to. -/
def Progress.turned (progress : Progress δ) (current : Candidate δ) (frontier : List (Candidate δ))
    (first last : UInt64) : Progress δ :=
  ⟨{progress.state with frontier := frontier},
    {progress.metrics with expandedNodes := progress.metrics.expandedNodes+1},
    List.range' first.toNat (last.toNat-first.toNat),current.id::progress.expanded,
    progress.shortlisted⟩

/-- The next step of the loop, if it does not end here. -/
def advance (progress : Progress δ) : Except Fault (Option (Progress δ)) :=
  match progress.edges with
  | edge::rest => do
    let (state,metrics) ← visit rank distances index beam progress.state edge progress.metrics
    return some (progress.followed rest state metrics)
  | [] =>
    match progress.state.frontier with
    | [] => return none
    | current::frontier => do
      if ← finished rank beam current progress.state.shortlist then return none
      else do
        let first ← element index.offsets current.id.toNat
        let last ← element index.offsets (current.id+1).toNat
        return some (progress.turned current frontier first last)

/-- Steps of the loop, any number of them. -/
abbrev Runs : Progress δ → Progress δ → Prop :=
  Relation.ReflTransGen (fun progress next => advance rank distances index beam progress=.ok (some next))

/-- The loop before its first step. -/
def opening (routed : Candidate δ) (metrics : SearchMetrics) : Progress δ :=
  ⟨⟨(List.replicate index.size false).set routed.id.toNat true,[routed],[routed]⟩,metrics,[],[],
    [routed.id]⟩

/-- The loop fails after some steps. -/
def Stuck (progress : Progress δ) (fault : Fault) : Prop :=
  ∃ last,Runs rank distances index beam progress last ∧
    advance rank distances index beam last=.error fault

variable {rank distances index beam}

/-- A failure after some steps is a failure. -/
theorem Stuck.after {progress next : Progress δ} {fault : Fault}
    (h : Stuck rank distances index beam next fault) (hrun : Runs rank distances index beam progress next) :
    Stuck rank distances index beam progress fault := by
  obtain ⟨last,hlater,hfault⟩ := h
  exact ⟨last,hrun.trans hlater,hfault⟩

/-- The next edge is followed. -/
theorem advance_edge {progress : Progress δ} {edge : ℕ} {rest : List ℕ}
    (he : progress.edges=edge::rest) : advance rank distances index beam progress=(do
      let result ← visit rank distances index beam progress.state edge progress.metrics
      return some (progress.followed rest result.1 result.2)) := by
  rw [advance,he]

/-- Without edges the next node is taken, unless the loop ends. -/
theorem advance_turn {progress : Progress δ} {current : Candidate δ} {frontier : List (Candidate δ)}
    (he : progress.edges=[]) (hf : progress.state.frontier=current::frontier) :
    advance rank distances index beam progress=(do
      let enough ← finished rank beam current progress.state.shortlist
      if enough then return none
      else do
        let first ← element index.offsets current.id.toNat
        let last ← element index.offsets (current.id+1).toNat
        return some (progress.turned current frontier first last)) := by
  rw [advance,he,hf]

/-- The edges of a node are followed one by one. -/
theorem edges_ends (edges : List ℕ) (progress : Progress δ) (he : progress.edges=edges) :
    Ends (edges.foldlM (visit rank distances index beam) progress.state progress.metrics)
      (Stuck rank distances index beam progress) (fun result => ∃ next,
        Runs rank distances index beam progress next ∧ next.edges=[] ∧ next.state=result.1 ∧
          next.metrics=result.2) := by
  induction edges generalizing progress with
  | nil => exact ⟨progress,Relation.ReflTransGen.refl,he,rfl,rfl⟩
  | cons edge rest ih =>
    have hadvance : advance rank distances index beam progress=_ := advance_edge he
    rw [List.foldlM_cons]
    change Ends (visit rank distances index beam progress.state edge progress.metrics>>=_) _ _
    cases hv : visit rank distances index beam progress.state edge progress.metrics with
    | error fault =>
      rw [hv] at hadvance
      exact ⟨progress,Relation.ReflTransGen.refl,hadvance⟩
    | ok result =>
      rw [hv] at hadvance
      have hstep : Runs rank distances index beam progress (progress.followed rest result.1 result.2) :=
        Relation.ReflTransGen.single hadvance
      refine (ih _ rfl).mono (fun fault hf => hf.after hstep) (fun after ha => ?_)
      obtain ⟨last,hrun,hlast⟩ := ha
      exact ⟨last,hstep.trans hrun,hlast⟩

/-- A node is expanded edge by edge. -/
theorem expand_run (current : Candidate δ) (state : BeamState δ) (metrics : SearchMetrics) :
    expand rank distances index beam current state metrics=(do
      let first ← element index.offsets current.id.toNat
      let last ← element index.offsets (current.id+1).toNat
      (List.range' first.toNat (last.toNat-first.toNat)).foldlM (visit rank distances index beam)
        state {metrics with expandedNodes := metrics.expandedNodes+1}) := by
  unfold expand
  cases element index.offsets current.id.toNat with
  | error fault => rfl
  | ok first =>
    cases element index.offsets (current.id+1).toNat with
    | error fault => rfl
    | ok last => rfl

/-- The loop is these steps, as many of them as it takes. -/
theorem beamSearch_ends (turns : ℕ) (progress : Progress δ) (he : progress.edges=[]) :
    Ends (beamSearch rank distances index beam turns progress.state progress.metrics)
      (fun fault => fault=.endless ∨ Stuck rank distances index beam progress fault)
      (fun result => ∃ last,Runs rank distances index beam progress last ∧
        advance rank distances index beam last=.ok none ∧
        last.state.shortlist=result.1 ∧ last.metrics=result.2) := by
  induction turns generalizing progress with
  | zero => exact Or.inl rfl
  | succ turns ih =>
    unfold beamSearch
    cases hf : progress.state.frontier with
    | nil =>
      refine ⟨progress,Relation.ReflTransGen.refl,?_,rfl,rfl⟩
      rw [advance,he,hf]
      rfl
    | cons current frontier =>
      have hadvance : advance rank distances index beam progress=_ := advance_turn he hf
      have hstuck : ∀ fault,advance rank distances index beam progress=.error fault →
          fault=.endless ∨ Stuck rank distances index beam progress fault :=
        fun fault hfault => Or.inr ⟨progress,Relation.ReflTransGen.refl,hfault⟩
      dsimp only
      rw [lift_bind_run]
      cases hover : finished rank beam current progress.state.shortlist with
      | error fault =>
        rw [hover] at hadvance
        exact hstuck fault hadvance
      | ok enough =>
        rw [hover] at hadvance
        cases enough with
        | true => exact ⟨progress,Relation.ReflTransGen.refl,hadvance,rfl,rfl⟩
        | false =>
          change Ends (expand rank distances index beam current
            {progress.state with frontier := frontier} progress.metrics>>=fun result =>
              beamSearch rank distances index beam turns result.1 result.2) _ _
          change advance rank distances index beam progress=_>>=_ at hadvance
          rw [expand_run]
          cases hfirst : element index.offsets current.id.toNat with
          | error fault =>
            rw [hfirst] at hadvance
            exact hstuck fault hadvance
          | ok first =>
            rw [hfirst] at hadvance
            change advance rank distances index beam progress=_>>=_ at hadvance
            cases hlast : element index.offsets (current.id+1).toNat with
            | error fault =>
              rw [hlast] at hadvance
              exact hstuck fault hadvance
            | ok last =>
              rw [hlast] at hadvance
              have hstep : Runs rank distances index beam progress
                  (progress.turned current frontier first last) :=
                Relation.ReflTransGen.single hadvance
              refine Ends.bind ((edges_ends _ _ rfl).mono
                (fun fault hf => Or.inr (hf.after hstep)) (fun _ h => h)) (fun result hresult => ?_)
              obtain ⟨next,hrun,hedges,hstate,hmetrics⟩ := hresult
              have hrest := ih next hedges
              rw [hstate,hmetrics] at hrest
              refine hrest.mono (fun fault hf => hf.imp_right (fun hf => hf.after (hstep.trans hrun)))
                (fun after ha => ?_)
              obtain ⟨last,hlater,ha⟩ := ha
              exact ⟨last,(hstep.trans hrun).trans hlater,ha⟩

end Steps

section Invariant

variable {δ κ : Type} [LinearOrder κ] {rank : δ → κ} {distances : Distances δ} {index : Index}
  {fails : Fault → Prop} {beam : ℕ} {start : UInt32} {seen taken : List (Candidate δ)}
  {progress : Progress δ}

/-- The invariant of the loop inside the row of a node as well: the edges
that are left lead to the neighbours that were not met yet. -/
structure Tracked (rank : δ → κ) (distances : Distances δ) (index : Index) (beam : ℕ)
    (start : UInt32) (seen taken : List (Candidate δ)) (progress : Progress δ) : Prop where
  /-- The invariant of the search. -/
  searched : Searched rank distances index beam start seen taken progress.state
  /-- The nodes that were taken are those that were expanded. -/
  expanded_eq : progress.expanded=taken.map Candidate.id
  /-- No node entered the shortlist twice. -/
  shortlisted_nodup : progress.shortlisted.Nodup
  /-- What entered the shortlist was met. -/
  shortlisted_seen : ∀ id∈progress.shortlisted,id∈seen.map Candidate.id
  /-- What is on the shortlist entered it. -/
  listed : ∀ candidate∈progress.state.shortlist,candidate.id∈progress.shortlisted
  /-- A neighbour of an expanded node was met, or an edge to it is left. -/
  pending : ∀ candidate∈taken,∀ next,Adjacent index candidate.id next →
    next∈seen.map Candidate.id ∨ ∃ edge∈progress.edges,index.edges[edge]?=some next
  /-- The edges that are left are edges to reachable nodes. -/
  edges_reach : ∀ edge∈progress.edges,∃ next,index.edges[edge]?=some next ∧ Reachable index start next

/-- An edge that was followed. -/
theorem Tracked.follow (h : Tracked rank distances index beam start seen taken progress) {edge : ℕ}
    {rest : List ℕ} (he : progress.edges=edge::rest) {neighbor : UInt32}
    (hneighbor : index.edges[edge]?=some neighbor) {state : BeamState δ} {metrics : SearchMetrics}
    (hf : Followed rank distances index beam start seen taken (fun node => node=neighbor) state) :
    ∃ seen',Tracked rank distances index beam start seen' taken (progress.followed rest state metrics) := by
  obtain ⟨seen',h',hsub,hmet⟩ := hf
  have hids : seen.map Candidate.id⊆seen'.map Candidate.id := List.map_subset Candidate.id hsub
  have hafter : ∀ id∈state.shortlist.map Candidate.id,id∈seen'.map Candidate.id := fun id hid =>
    List.map_subset Candidate.id h'.smallest.subset hid
  refine ⟨seen',h',h.expanded_eq,?_,?_,?_,?_,?_⟩
  · refine List.nodup_append.mpr ⟨h'.shortlist_nodup.diff,h.shortlisted_nodup,?_⟩
    intro id hid other ho hsame
    exact h.searched.entered_fresh h' hsub hid (hsame ▸ h.shortlisted_seen other ho)
  · intro id hid
    rcases List.mem_append.mp hid with hid|hid
    · exact hafter id (List.diff_subset _ _ hid)
    · exact hids (h.shortlisted_seen id hid)
  · intro candidate hc
    refine List.mem_append.mpr ?_
    by_cases hold : candidate.id∈progress.state.shortlist.map Candidate.id
    · obtain ⟨other,ho,hid⟩ := List.mem_map.mp hold
      exact Or.inr (hid ▸ h.listed other ho)
    · exact Or.inl (h'.shortlist_nodup.mem_sdiff_iff.mpr ⟨List.mem_map_of_mem hc,hold⟩)
  · intro candidate hc next hadjacent
    rcases h.pending candidate hc next hadjacent with hseen|hleft
    · exact Or.inl (hids hseen)
    · obtain ⟨other,ho,hnext⟩ := hleft
      rw [he] at ho
      rcases List.mem_cons.mp ho with hsame|hrest
      · rw [hsame,hneighbor,Option.some.injEq] at hnext
        exact Or.inl (hmet next hnext.symm)
      · exact Or.inr ⟨other,hrest,hnext⟩
  · intro other ho
    exact h.edges_reach other (he ▸ List.mem_cons_of_mem _ ho)

/-- A node that was taken. -/
theorem Tracked.turn (hl : Loadable index)
    (h : Tracked rank distances index beam start seen taken progress) (he : progress.edges=[])
    {current : Candidate δ} {frontier : List (Candidate δ)} (hf : progress.state.frontier=current::frontier)
    {first last : UInt64} (hfirst : index.offsets[current.id.toNat]?=some first)
    (hlast : index.offsets[(current.id+1).toNat]?=some last) :
    Tracked rank distances index beam start seen (current::taken)
      (progress.turned current frontier first last) := by
  have hmem : current∈seen := h.searched.frontier_seen current (hf ▸ List.mem_cons_self)
  have hend := offset_le hl.rows hlast
  refine ⟨h.searched.take hf,?_,h.shortlisted_nodup,h.shortlisted_seen,h.listed,?_,?_⟩
  · change current.id::progress.expanded=_
    rw [h.expanded_eq,List.map_cons]
  · intro candidate hc next hadjacent
    rcases List.mem_cons.mp hc with hcurrent|hc
    · obtain ⟨first',last',edge,hf',hl',hlow,hhigh,hnext⟩ := hadjacent
      rw [hcurrent,hfirst,Option.some.injEq] at hf'
      rw [hcurrent,hlast,Option.some.injEq] at hl'
      rw [←hf'] at hlow
      rw [←hl'] at hhigh
      exact Or.inr ⟨edge,List.mem_range'_1.mpr ⟨hlow,by omega⟩,hnext⟩
    · refine (h.pending candidate hc next hadjacent).imp_right (fun hleft => ?_)
      rw [he] at hleft
      obtain ⟨edge,hedge,-⟩ := hleft
      exact absurd hedge List.not_mem_nil
  · intro edge hedge
    have hrange := List.mem_range'_1.mp hedge
    have hin : edge< index.edges.length := by omega
    have hnext := List.getElem?_eq_getElem hin
    refine ⟨index.edges[edge],hnext,(h.searched.reached current hmem).tail ?_⟩
    exact ⟨first,last,edge,hfirst,hlast,hrange.1,by omega,hnext⟩

/-- Every step keeps the invariant. -/
theorem Tracked.advance (hl : Loadable index) (ha : Answers distances index.size fails)
    (hbeam : 0<beam) (h : Tracked rank distances index beam start seen taken progress) :
    Ends (advance rank distances index beam progress) fails (fun after => ∀ next,after=some next →
      ∃ seen' taken',Tracked rank distances index beam start seen' taken' next) := by
  cases he : progress.edges with
  | cons edge rest =>
    obtain ⟨neighbor,hneighbor,hr⟩ := h.edges_reach edge (he ▸ List.mem_cons_self)
    rw [advance_edge he]
    refine Ends.bind (visit_yields hl ha hbeam h.searched hneighbor hr progress.metrics)
      (fun result hresult => ?_)
    intro next hnext
    obtain ⟨seen',h'⟩ := h.follow he hneighbor hresult
    exact ⟨seen',taken,Option.some.inj hnext ▸ h'⟩
  | nil =>
    cases hf : progress.state.frontier with
    | nil =>
      rw [BeamLoop.advance,he,hf]
      exact fun next hnext => absurd hnext (by simp)
    | cons current frontier =>
      have hmem : current∈seen := h.searched.frontier_seen current (hf ▸ List.mem_cons_self)
      have hlt := h.searched.bounded (List.mem_map_of_mem hmem)
      have hlen := hl.rows.offsets_length
      have hnext : (current.id+1).toNat≤ current.id.toNat+1 := by
        rw [UInt32.toNat_add]
        exact Nat.mod_le _ _
      rw [advance_turn he hf]
      refine (finished_ends hbeam h.searched.descending).bind (fun enough _ => ?_)
      cases enough with
      | true => exact fun next hnext => absurd hnext (by simp)
      | false =>
        refine (element_ends (by omega)).bind (fun first hfirst => ?_)
        refine (element_ends (by omega)).bind (fun last hlast => ?_)
        intro next hnext
        exact ⟨seen,_,Option.some.inj hnext ▸ h.turn hl he hf hfirst hlast⟩

end Invariant

section Exit

variable {δ κ : Type} [LinearOrder κ] {rank : δ → κ} {distances : Distances δ} {index : Index}
  {config : SearchConfig} {beam : ℕ} {start : UInt32} {seen taken : List (Candidate δ)}
  {progress : Progress δ}

/-- An edge of the base graph. -/
def BaseEdge (index : Index) (node next : UInt32) : Prop :=
  ∃ first last edge,index.offsets[node.toNat]?=some first ∧
    index.offsets[node.toNat+1]?=some last ∧ first.toNat≤edge ∧ edge<last.toNat ∧
    index.edges[edge]?=some next

/-- The greatest node number, after which the numbers start again at zero. -/
def lastId : UInt32 := 0xffffffff

/-- Only behind the greatest number the next number is another one in 32 bits. -/
theorem succ_toNat {node : UInt32} (hn : node≠lastId) : (node+1).toNat=node.toNat+1 := by
  have hne : node.toNat≠4294967295 := fun h => hn (UInt32.toNat_inj.mp h)
  have hlt := node.toNat_lt
  rw [UInt32.toNat_add]
  exact Nat.mod_eq_of_lt (by change node.toNat+1<2^32; omega)

/-- The loop reads the edges of all other nodes. -/
theorem adjacent_of_edge {node next : UInt32} (hn : node≠lastId) (h : BaseEdge index node next) :
    Adjacent index node next := by
  obtain ⟨first,last,edge,hfirst,hlast,hedge⟩ := h
  exact ⟨first,last,edge,hfirst,by rwa [succ_toNat hn],hedge⟩

/-- Every node of the shortlist was expanded, and what it has an edge to is on
the shortlist as well, or the shortlist is full of nearer nodes. -/
structure LocallyOptimal (rank : δ → κ) (distances : Distances δ) (index : Index) (beam : ℕ)
    (last : Progress δ) : Prop where
  /-- Every node of the shortlist was expanded. -/
  expanded : ∀ candidate∈last.state.shortlist,candidate.id∈last.expanded
  /-- No edge leads to a better node. -/
  closed : ∀ candidate∈last.state.shortlist,∀ next,BaseEdge index candidate.id next →
    next∈last.state.shortlist.map Candidate.id ∨ last.state.shortlist.length=beam ∧
      ∃ distance,distances.approximate next=.ok distance ∧
        ∀ other∈last.state.shortlist,other.key rank<Candidate.key rank ⟨distance,next⟩

/-- What is promised of the best-first search from a node. -/
structure LocalSearch (rank : δ → κ) (distances : Distances δ) (index : Index)
    (config : SearchConfig) (routed : Candidate δ) : Prop where
  /-- The loop ends, with the shortlist of the search or with its failure. -/
  ends : ∀ metrics,∃ last,Runs rank distances index (approximateBeam config index.size)
      (opening index routed metrics) last ∧
    (advance rank distances index (approximateBeam config index.size) last=.ok none ∧
        shortlist rank distances index config routed metrics=.ok (last.state.shortlist,last.metrics) ∨
      advance rank distances index (approximateBeam config index.size) last=
          .error (.thrown ProductQuantizer.invalidCentroid) ∧
        shortlist rank distances index config routed metrics=
          .error (.thrown ProductQuantizer.invalidCentroid))
  /-- No node is expanded twice. -/
  expandedOnce : ∀ metrics progress,Runs rank distances index (approximateBeam config index.size)
    (opening index routed metrics) progress → progress.expanded.Nodup
  /-- No node enters the shortlist twice, and none is on it twice. -/
  shortlistedOnce : ∀ metrics progress,Runs rank distances index (approximateBeam config index.size)
    (opening index routed metrics) progress → progress.shortlisted.Nodup ∧
      (progress.state.shortlist.map Candidate.id).Nodup
  /-- The shortlist does not grow beyond the beam. -/
  bounded : ∀ metrics progress,Runs rank distances index (approximateBeam config index.size)
    (opening index routed metrics) progress →
      progress.state.shortlist.length≤approximateBeam config index.size
  /-- Where the loop ends the shortlist is locally optimal. -/
  optimal : ∀ metrics last,Runs rank distances index (approximateBeam config index.size)
    (opening index routed metrics) last →
      advance rank distances index (approximateBeam config index.size) last=.ok none →
      LocallyOptimal rank distances index (approximateBeam config index.size) last

/-- Where the loop ends everything on the shortlist was taken, and no edge is left. -/
theorem Tracked.exit (hbeam : 0<beam) (h : Tracked rank distances index beam start seen taken progress)
    (hlast : BeamLoop.advance rank distances index beam progress=.ok none) :
    progress.edges=[] ∧ ∀ candidate∈progress.state.shortlist,candidate∈taken := by
  cases he : progress.edges with
  | cons edge rest =>
    rw [advance_edge he] at hlast
    cases hv : visit rank distances index beam progress.state edge progress.metrics with
    | error fault =>
      rw [hv] at hlast
      cases hlast
    | ok result =>
      rw [hv] at hlast
      cases hlast
  | nil =>
    refine ⟨rfl,?_⟩
    cases hf : progress.state.frontier with
    | nil => exact h.searched.taken_of_empty hf
    | cons current frontier =>
      rw [advance_turn he hf,bind_eq_ok] at hlast
      obtain ⟨enough,hover,hlast⟩ := hlast
      cases enough with
      | true =>
        have hends : Ends (finished rank beam current progress.state.shortlist) (fun _ => False) _ :=
          finished_ends hbeam h.searched.descending
        exact h.searched.taken_of_farther hf (hends.of_ok hover rfl)
      | false =>
        simp only [Bool.false_eq_true,if_false,bind_eq_ok] at hlast
        obtain ⟨_,-,_,-,hlast⟩ := hlast
        cases hlast

/-- There the shortlist is locally optimal, unless the greatest node number is
on it and has an edge to another node. -/
theorem Tracked.locallyOptimal (hbeam : 0<beam)
    (h : Tracked rank distances index beam start seen taken progress)
    (hlast : BeamLoop.advance rank distances index beam progress=.ok none)
    (hid : ∀ distance,distances.approximate lastId=.ok distance → ∀ next,BaseEdge index lastId next →
      next=lastId) : LocallyOptimal rank distances index beam progress := by
  obtain ⟨hedges,htaken⟩ := h.exit hbeam hlast
  refine ⟨fun candidate hc => ?_,fun candidate hc next hnext => ?_⟩
  · rw [h.expanded_eq]
    exact List.mem_map_of_mem (htaken candidate hc)
  · by_cases hwrap : candidate.id=lastId
    · have hm := h.searched.measured candidate (h.searched.taken_seen candidate (htaken candidate hc))
      rw [Measured,hwrap] at hm
      have hsame := hid candidate.distance hm next (hwrap ▸ hnext)
      exact Or.inl (hsame.trans hwrap.symm ▸ List.mem_map_of_mem hc)
    · have hmet := (h.pending candidate (htaken candidate hc) next
        (adjacent_of_edge hwrap hnext)).resolve_right (fun hleft => by
          rw [hedges] at hleft
          obtain ⟨edge,hedge,-⟩ := hleft
          exact absurd hedge List.not_mem_nil)
      obtain ⟨other,ho,he⟩ := List.mem_map.mp hmet
      by_cases hkept : other∈progress.state.shortlist
      · exact Or.inl (he ▸ List.mem_map_of_mem hkept)
      · refine Or.inr ⟨?_,other.distance,he ▸ h.searched.measured other ho,fun kept hk => ?_⟩
        · by_contra hroom
          have hle := h.searched.smallest.length_le
          have hall := h.searched.smallest.perm_seen (Or.inl (by omega))
          exact hkept (hall.mem_iff.mpr ho)
        · exact he ▸ h.searched.smallest.below kept hk other ho hkept

/-- The invariant holds before the first step. -/
theorem tracked_opening (hbeam : 0<beam) {routed : Candidate δ} (hm : Measured distances routed)
    (hlt : routed.id.toNat< index.size) (metrics : SearchMetrics) :
    Tracked rank distances index beam routed.id [routed] [] (opening index routed metrics) where
  searched := searched_start hbeam hm hlt
  expanded_eq := rfl
  shortlisted_nodup := List.nodup_singleton _
  shortlisted_seen _ hid := hid
  listed _ hc := List.mem_map_of_mem hc
  pending _ hc := absurd hc List.not_mem_nil
  edges_reach _ he := absurd he List.not_mem_nil

/-- The invariant holds after any number of steps. -/
theorem Tracked.runs {fails : Fault → Prop} (hl : Loadable index) (ha : Answers distances index.size fails)
    (hbeam : 0<beam) (h : Tracked rank distances index beam start seen taken progress)
    {last : Progress δ} (hrun : Runs rank distances index beam progress last) :
    ∃ seen' taken',Tracked rank distances index beam start seen' taken' last := by
  induction hrun with
  | refl => exact ⟨seen,taken,h⟩
  | tail _ hstep ih =>
    obtain ⟨seen',taken',h'⟩ := ih
    exact (h'.advance hl ha hbeam).of_ok hstep _ rfl

/-- The search on the graph path is the loop. -/
theorem shortlist_run (hflat : ¬Flat config index.size) {routed : Candidate δ}
    (hlt : routed.id.toNat< index.size) (metrics : SearchMetrics) :
    shortlist rank distances index config routed metrics=
      beamSearch rank distances index (approximateBeam config index.size) (index.size+1)
        (opening index routed metrics).state metrics := by
  have hassign : assign (List.replicate index.size false) routed.id.toNat true=
      .ok ((List.replicate index.size false).set routed.id.toNat true) :=
    if_pos (by rwa [List.length_replicate])
  unfold shortlist
  simp only [if_neg hflat]
  rw [lift_bind_run,hassign]
  rfl

/-- The search from a node is a local one, unless the greatest node number has
an edge to another node. -/
theorem localSearch_of_edges (hl : Loadable index)
    (ha : Answers distances index.size ProductQuantizer.CentroidError)
    (hbeam : 0<approximateBeam config index.size) (hflat : ¬Flat config index.size)
    {routed : Candidate δ} (hm : Measured distances routed) (hlt : routed.id.toNat< index.size)
    (hid : ∀ distance,distances.approximate lastId=.ok distance → ∀ next,BaseEdge index lastId next →
      next=lastId) : LocalSearch rank distances index config routed := by
  have htracked : ∀ metrics progress,Runs rank distances index (approximateBeam config index.size)
      (opening index routed metrics) progress → ∃ seen taken,Tracked rank distances index
        (approximateBeam config index.size) routed.id seen taken progress :=
    fun metrics _ hrun => (tracked_opening hbeam hm hlt metrics).runs hl ha hbeam hrun
  refine ⟨fun metrics => ?_,fun metrics progress hrun => ?_,fun metrics progress hrun => ?_,
    fun metrics progress hrun => ?_,fun metrics last hrun hlast => ?_⟩
  · have hends : Ends (beamSearch rank distances index (approximateBeam config index.size)
        (index.size+1) (opening index routed metrics).state metrics) _ _ :=
      beamSearch_ends (index.size+1) (opening index routed metrics) rfl
    have hyields : Ends (beamSearch rank distances index (approximateBeam config index.size)
        (index.size+1) (opening index routed metrics).state metrics)
        ProductQuantizer.CentroidError _ :=
      beamSearch_yields hl ha hbeam (searched_start hbeam hm hlt)
        (fun _ hc => absurd hc List.not_mem_nil) (by simp) metrics
    rw [shortlist_run hflat hlt metrics]
    cases hsearch : beamSearch rank distances index (approximateBeam config index.size)
        (index.size+1) (opening index routed metrics).state metrics with
    | ok result =>
      obtain ⟨last,hrun,hlast,hshort,hmetrics⟩ := hends.of_ok hsearch
      refine ⟨last,hrun,Or.inl ⟨hlast,?_⟩⟩
      rw [hshort,hmetrics]
    | error fault =>
      have hfault : fault=.thrown ProductQuantizer.invalidCentroid := hyields.of_error hsearch
      subst hfault
      obtain ⟨last,hrun,hlast⟩ := (hends.of_error hsearch).resolve_left (by simp)
      exact ⟨last,hrun,Or.inr ⟨hlast,rfl⟩⟩
  · obtain ⟨seen,taken,h⟩ := htracked metrics progress hrun
    rw [h.expanded_eq]
    exact h.searched.taken_nodup.map_on (fun first hf second hs hsame =>
      h.searched.eq_of_id (h.searched.taken_seen first hf) (h.searched.taken_seen second hs) hsame)
  · obtain ⟨seen,taken,h⟩ := htracked metrics progress hrun
    exact ⟨h.shortlisted_nodup,h.searched.shortlist_nodup⟩
  · obtain ⟨seen,taken,h⟩ := htracked metrics progress hrun
    exact h.searched.smallest.length_le
  · obtain ⟨seen,taken,h⟩ := htracked metrics last hrun
    exact h.locallyOptimal hbeam hlast hid

/-- Behind the greatest node number the loop finds an empty row, so it misses
the edges of that node. -/
theorem edge_missed (hl : Loadable index) (hbeam : 1<approximateBeam config index.size)
    {routed : Candidate δ} (hid : routed.id=lastId) {next : UInt32} (hedge : BaseEdge index lastId next)
    (hne : next≠lastId) : ¬LocalSearch rank distances index config routed := by
  intro hlocal
  have hedge' := hedge
  obtain ⟨first,_,_,hfirst,-⟩ := hedge'
  have hzero : index.offsets[(lastId+1).toNat]?=some 0 := by
    have hhead := hl.rows.spanning.1
    rwa [List.head?_eq_getElem?] at hhead
  have hfinished : finished rank (approximateBeam config index.size) routed [routed]=.ok false :=
    if_neg (by rw [List.length_singleton]; omega)
  have hturn : advance rank distances index (approximateBeam config index.size)
      (opening index routed {})=.ok (some ((opening index routed {}).turned routed [] first 0)) := by
    rw [advance_turn rfl rfl]
    change (finished rank (approximateBeam config index.size) routed [routed]>>=_)=_
    rw [hfinished,hid,(element_ok _ _ _).mpr hfirst,(element_ok _ _ _).mpr hzero]
    rfl
  have hlast : advance rank distances index (approximateBeam config index.size)
      ((opening index routed {}).turned routed [] first 0)=.ok none := by
    have hempty : ((opening index routed {}).turned routed [] first 0).edges=[] := by
      change List.range' first.toNat (0-first.toNat)=[]
      rw [Nat.zero_sub]
      rfl
    rw [advance,hempty]
    rfl
  have hoptimal := hlocal.optimal {} _ (Relation.ReflTransGen.single hturn) hlast
  rcases hoptimal.closed routed (List.mem_singleton.mpr rfl) next (hid ▸ hedge) with hmem|hfull
  · exact hne ((List.mem_singleton.mp hmem).trans hid)
  · have hlength : 1=approximateBeam config index.size := hfull.1
    omega

end Exit

section Queries

variable {index : Index} {query normalized : Embedding} {approximate : UInt32 → Except Fault Single}

/-- Two results out of two candidates. -/
def pairConfig : SearchConfig := ⟨2,2,1,0,1⟩

theorem pairConfig_valid : validateSearchConfig pairConfig=.ok () := by decide +kernel

/-- The beam for two candidates holds two of them. -/
theorem pairConfig_beam {size : ℕ} (h : 2≤ size) : 1<approximateBeam pairConfig size := by
  have hle := exactBudget_le_beam pairConfig size
  have hef : pairConfig.efSearch.toNat=2 := rfl
  rw [exactBudget,hef] at hle
  omega

/-- The distances to a prepared query fail only at invalid centroids. -/
theorem prepared_answers (hl : Loadable index) (hlen : query.length=index.dimension.toNat)
    (hfinite : ∀ value∈query,value.Finite) (hnormalized : normalize query=.ok normalized)
    (hprepared : prepareDistance index normalized=.ok approximate)
    (evaluate : ℕ → List UInt32 → Except Fault (List Single)) :
    Answers ⟨approximate,evaluate⟩ index.size ProductQuantizer.CentroidError := by
  have hshort : query.length<2^53 := hlen ▸ index.dimension.toNat_lt.trans (by norm_num)
  have hn := Preparation.normalizable_of_ok hfinite hshort hnormalized
  obtain ⟨hlength,hunit⟩ := (normalize_ends hn).of_ok hnormalized
  have hends : Ends (prepareDistance index normalized) (fun _ => False) (Preparation.Prepared index) :=
    Preparation.prepareDistance_ends hl (hlength.trans hlen) hunit
  exact (hends.of_ok hprepared).answers evaluate

end Queries

section Wide

/-- An index of so many nodes that do not differ, with an edge from the last
node to the first. -/
def wideIndex (count : ℕ) : Index where
  dimension := 1
  approximation := .simHash
  maxDegree := 2
  entryPoint := UInt32.ofNat (count-1)
  maxLevel := 0
  sketchBits := 64
  pqSubquantizers := 0
  pqBits := 0
  pqCentroids := 0
  pqSubdimension := 0
  sketchSeed := 0
  path := "wide.leann"
  pairIdentity := .replicate 32 1
  embedderFingerprint := [104]
  offsets := List.replicate count 0++[1]
  edges := [0]
  upperLayers := []
  sketches := List.replicate count 0
  pqCodebook := []
  pqCodes := []

@[simp] theorem wideIndex_size (count : ℕ) : (wideIndex count).size=count :=
  size_of_offsets (by simp [wideIndex])

/-- The rows of all nodes but the last one are empty. -/
theorem wideIndex_rows {count : ℕ} (h : 0<count) :
    Rows (wideIndex count).offsets (wideIndex count).edges count count := by
  refine ⟨by simp [wideIndex],⟨?_,?_⟩,⟨?_,?_⟩,?_⟩
  · obtain ⟨more,rfl⟩ := Nat.exists_eq_succ_of_ne_zero h.ne'
    rfl
  · simp [wideIndex]
  · refine List.isChain_iff_pairwise.mpr (List.pairwise_append.mpr ⟨?_,by simp,?_⟩)
    · exact List.pairwise_replicate.mpr (Or.inr UInt64.zero_le)
    · intro offset ho last hlast
      rw [List.eq_of_mem_replicate ho]
      exact UInt64.zero_le
  · intro offset ho
    rcases List.mem_append.mp (List.mem_of_mem_tail ho) with hz|hone
    · rw [List.eq_of_mem_replicate hz]
      exact Nat.zero_le _
    · rw [List.mem_singleton.mp hone]
      rfl
  · intro id hid
    rw [List.mem_singleton.mp hid]
    exact h

/-- The index can be loaded. -/
theorem wideIndex_loadable {count : ℕ} (h : 0<count) : Loadable (wideIndex count) where
  identity_nonzero := by
    change Documents.isZeroIdentity (.replicate 32 1)=false
    decide
  dimension_pos := by
    change (1 : UInt32)≠0
    decide
  entry_lt := by
    rw [wideIndex_size]
    change (UInt32.ofNat (count-1)).toNat<count
    have hle : (count-1)%2^32≤ count-1 := Nat.mod_le _ _
    rw [UInt32.toNat_ofNat']
    omega
  level_le := Nat.zero_le _
  layers_length := rfl
  rows := by
    rw [wideIndex_size]
    exact wideIndex_rows h
  layers _ hl := absurd hl List.not_mem_nil
  fingerprint_lt := by
    change 1<2^32
    norm_num
  sketched _ := by
    refine ⟨⟨le_refl 64,Nat.mod_self 64,rfl,rfl,rfl,rfl⟩,?_,rfl,rfl⟩
    rw [wideIndex_size]
    change (List.replicate count (0 : UInt64)).length=count*((64 : UInt32).toNat/64)
    rw [List.length_replicate]
    exact (Nat.mul_one count).symm
  quantized hk := by cases hk

/-- Its file is short enough. -/
theorem wideIndex_bytes {count : ℕ} (h : count≤2^32) :
    (indexBytes (wideIndex count) (wideIndex count).size).length≤Format.uint64Max/8 := by
  rw [indexBytes_length]
  have hlength : (tableBytes (wideIndex count)).length=1+((count+1)*8+(4+(0+count*8))) := by
    simp [tableBytes,codesBytes,wideIndex]
    omega
  rw [hlength,Format.uint64Max]
  omega

/-- The greatest node number is that of a node. -/
theorem wideIndex_edge : BaseEdge (wideIndex (2^32)) lastId 0 := by
  have hid : lastId.toNat=2^32-1 := rfl
  refine ⟨0,1,0,?_,?_,le_refl _,by decide,rfl⟩
  · change (List.replicate (2^32) (0 : UInt64)++[1])[lastId.toNat]?=some 0
    rw [hid,List.getElem?_append_left (by rw [List.length_replicate]; omega),
      List.getElem?_replicate_of_lt (by omega)]
  · change (List.replicate (2^32) (0 : UInt64)++[1])[lastId.toNat+1]?=some 1
    rw [hid,List.getElem?_append_right (by rw [List.length_replicate]; omega),
      List.length_replicate]
    rfl

/-- Without upper layers a search starts at the entry point. -/
theorem routesTo_entry {δ κ : Type} [LinearOrder κ] {rank : δ → κ} {distances : Distances δ}
    {index : Index} (hlayers : index.upperLayers=[]) {entry : UInt32} (he : index.entryPoint=entry)
    {distance : δ} (hd : distances.approximate entry=.ok distance) :
    RoutesTo rank distances index ⟨distance,entry⟩ := by
  have hasked : approximateDistance distances index.entryPoint {}=
      .ok (distance,({approximateDistances := 1} : SearchMetrics)) := by
    unfold approximateDistance
    rw [he,hd]
    rfl
  refine ⟨{},{approximateDistances := 1},?_⟩
  rw [route,hlayers]
  change (approximateDistance distances index.entryPoint {}>>=_)=_
  rw [hasked,he]
  rfl

end Wide

end Leann.BeamLoop
