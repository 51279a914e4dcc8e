import Leann.Routing

/-!
# Preparing a query

Normalising a query and tabulating it for approximate distances. For a
loadable index nothing is indexed outside its bounds, and a distance only
fails at a packed code beyond the centroids.
-/

namespace Leann.Preparation

open BinaryFloat Exceptions Outcomes IndexFile Embeddings ProductQuantizer Search Routing

section Sketches

/-- Sixteen coordinates are read inside the embedding. -/
theorem projection_ends {fails : Fault → Prop} {embedding : Embedding} (h : 0<embedding.length)
    (seed : UInt64) (bit : ℕ) : Ends (projection embedding seed bit) fails (fun _ => True) :=
  Ends.foldlM _ (fun _ _ => True) trivial (fun _ _ _ _ _ _ =>
    (element_ends (Nat.mod_lt _ h)).bind (fun _ _ => trivial))

/-- A sketch is written inside its words. -/
theorem makeSketch_ends {fails : Fault → Prop} {embedding : Embedding} (h : 0<embedding.length)
    {bits : ℕ} (hb : 0<bits) (hm : bits%64=0) (seed : UInt64) :
    Ends (makeSketch embedding bits seed) fails (fun sketch => sketch.length=bits/64) := by
  have hcheck : ¬(embedding.isEmpty ∨ bits=0 ∨ bits%64≠0) := by
    rw [List.isEmpty_iff,←List.length_eq_zero_iff]
    omega
  refine (throwIf_ends (fun hbad => absurd hbad hcheck)).bind (fun _ _ => ?_)
  refine Ends.foldlM_range bits (fun _ (sketch : List UInt64) => sketch.length=bits/64) (by simp)
    (fun bit sketch hbit hs => ?_)
  refine (projection_ends h seed bit).bind (fun projected _ => ?_)
  have hword : bit/64<sketch.length := by omega
  by_cases hp : 0≤projected
  · rw [if_pos hp]
    refine (element_ends hword).bind (fun word _ => ?_)
    refine (assign_ends hword _).mono (fun _ hf => hf) (fun after ha => ?_)
    rw [ha,List.length_set,hs]
  · rw [if_neg hp]
    exact hs

/-- A word has no more than its bits. -/
theorem popcount_le (word : UInt64) : popcount word≤64 := by
  have h := List.countP_le_length (p := fun bit => word.toNat.testBit bit) (l := List.range 64)
  rwa [List.length_range] at h

/-- The words of a node are read inside the sketches, and the distance is a
number. -/
theorem sketchDistance_ends {fails : Fault → Prop} {query sketches : List UInt64} {size node : ℕ}
    (hq : 0<query.length) (hq32 : query.length≤2^32) (hs : sketches.length=size*query.length)
    (hn : node<size) : Ends (sketchDistance query sketches node) fails Binary.Finite := by
  have hloop : Ends ((List.range query.length).foldlM (fun different word => do
      let left ← element query word
      let right ← element sketches (node*query.length+word)
      return different+popcount (left^^^right)) 0) fails (fun different => different≤query.length*64) :=
    Ends.foldlM_range query.length (fun i different => different≤ i*64) (by simp)
      (fun word different hword hd => (element_ends hword).bind (fun left _ =>
        (element_ends (hs ▸ cell_lt hn hword)).bind (fun right _ => by
          have hp := popcount_le (left^^^right)
          rw [ends_pure]
          omega)))
  refine hloop.bind (fun different hd => ?_)
  have hexact : single.Exact ((2 : ℚ)^38) := by
    have h := single_exact_natCast 1 38 (by norm_num) (by norm_num)
    rwa [one_mul,Nat.cast_pow,Nat.cast_ofNat] at h
  have hbound : ∀ number : ℕ,number≤2^38 → (Binary.ofNat number : Single).Finite ∧
      |(Binary.ofNat number : Single).value|≤2^38 := fun number hnumber => by
    refine Binary.round_abs_le _ hexact ?_
    rw [Nat.abs_cast]
    exact_mod_cast hnumber
  have hone : (1 : ℚ)≤(Binary.ofNat (query.length*64) : Single).value := by
    have hle : 1≤query.length*64 := by omega
    have hge : query.length*64≤2^38 := by omega
    exact (Binary.round_between false single_exact_one hexact (by exact_mod_cast hle)
      (by exact_mod_cast hge)).2.1
  obtain ⟨hnf,hnv⟩ := hbound different (by omega)
  obtain ⟨hdf,-⟩ := hbound (query.length*64) (by omega)
  change Binary.Finite ((Binary.ofNat different : Single)/Binary.ofNat (query.length*64))
  have hpos := zero_lt_one.trans_le hone
  rw [Binary.div_eq hnf hdf hpos.ne']
  refine (Binary.round_abs_le _ hexact ?_).1
  rw [abs_div,abs_of_pos hpos]
  exact (div_le_self (abs_nonneg _) hone).trans hnv

end Sketches

section Prepared

variable {index : Index}

/-- The view of a loadable index has the shape of a quantizer. -/
theorem view_shaped (hl : Loadable index) (hk : index.approximation=.productQuantization) :
    Shaped (Index.view index) index.size := by
  have hq := hl.quantized hk
  have hsub : index.pqSubquantizers.toNat≠0 := fun h => hq.subquantizers_pos (UInt32.toNat_inj.mp h)
  have hbits : index.pqBits.toNat≠0 := fun h => hq.bits_pos (UInt32.toNat_inj.mp h)
  refine ⟨hq.dimension_eq,index.pqSubquantizers.toNat_lt,index.pqSubdimension.toNat_lt,
    Nat.pos_of_ne_zero hsub,Nat.pos_of_ne_zero hbits,hq.bits_le,hq.codebook_length,
    fun coordinate hc => ?_,hq.codes_length⟩
  obtain ⟨hfinite,hle⟩ := hq.coordinates coordinate hc
  obtain ⟨h1,hv1⟩ := single_one
  rw [h1.lt_iff ((Binary.finite_abs coordinate).mpr hfinite),Binary.value_abs,hv1,not_lt] at hle
  exact ⟨hfinite,hle⟩

/-- The distances of all nodes are numbers, or a code is beyond the centroids. -/
def Prepared (index : Index) (approximate : UInt32 → Except Fault Single) : Prop :=
  ∀ node : UInt32,node.toNat< index.size → Ends (approximate node) CentroidError Binary.Finite

/-- A normalised query is prepared without a failure, and the distances only
fail where a code is beyond the centroids. -/
theorem prepareDistance_returns {fails fails' : Fault → Prop} (hl : Loadable index) {query : Embedding}
    (hq : query.length=index.dimension.toNat) (hu : ∀ value∈query,Unit value)
    (hbad : index.approximation=.productQuantization → ∀ node,node< index.size →
      ¬ValidCodes (Index.view index) ((Index.view index).packed node) →
      fails' (.thrown invalidCentroid)) :
    Ends (prepareDistance index query) fails (fun approximate => ∀ node : UInt32,
      node.toNat< index.size → Ends (approximate node) fails' Binary.Finite) := by
  have hpos : 0<query.length := by
    have hne : index.dimension.toNat≠0 := fun h => hl.dimension_pos (UInt32.toNat_inj.mp h)
    omega
  unfold prepareDistance
  cases hk : index.approximation with
  | simHash =>
    have hs := hl.sketched hk
    have hge := hs.sketchBits_ge
    refine (makeSketch_ends hpos (by omega) hs.sketchBits_mod _).bind (fun sketch hsketch => ?_)
    intro node hn
    have hlt := index.sketchBits.toNat_lt
    exact sketchDistance_ends (by omega) (by omega) (hsketch ▸ hs.sketches_length) hn
  | productQuantization =>
    have hshaped := view_shaped hl hk
    refine ((distanceTable_ends hshaped hq hu).mono (fun _ h => h.elim) (fun _ h => h)).bind
      (fun table ht => ?_)
    exact fun node hn => approximateDistance_ends hshaped ht hn (hbad hk node.toNat hn)

/-- A normalised query is prepared without a failure. -/
theorem prepareDistance_ends {fails : Fault → Prop} (hl : Loadable index) {query : Embedding}
    (hq : query.length=index.dimension.toNat) (hu : ∀ value∈query,Unit value) :
    Ends (prepareDistance index query) fails (Prepared index) :=
  prepareDistance_returns hl hq hu (fun _ _ _ _ => rfl)

/-- A search asks for distances that only fail at invalid centroids. -/
theorem Prepared.answers {approximate : UInt32 → Except Fault Single} (h : Prepared index approximate)
    (evaluate : ℕ → List UInt32 → Except Fault (List Single)) :
    Answers ⟨approximate,evaluate⟩ index.size CentroidError :=
  fun node hn => (h node hn).mono (fun _ hf => hf) (fun _ _ => trivial)

end Prepared

section Queries

/-- The squares of zeros add up to zero. -/
theorem squaredNorm_zero {embedding : Embedding} (hf : ∀ value∈embedding,value.Finite)
    (hz : ∀ value∈embedding,value.value=0) :
    Ends (squaredNorm embedding) (fun _ => False) (fun norm => norm.Finite ∧ norm.value=0) := by
  refine Ends.foldlM embedding (fun _ (norm : Double) => norm.Finite ∧ norm.value=0)
    ⟨finite_zero,Binary.value_zero⟩ (fun done value rest norm hsplit hnorm => ?_)
  have hmem : value∈embedding := by
    rw [hsplit]
    simp
  refine (throwIf_ends (fun h => absurd (hf value hmem) h)).bind (fun _ _ => ?_)
  obtain ⟨hpf,hpv⟩ := widen_mul_value (hf value hmem) (hf value hmem)
  change (norm+value.convert*value.convert).Finite ∧ (norm+value.convert*value.convert).value=0
  rw [Binary.add_eq hnorm.1 hpf,hpv,hnorm.2,hz value hmem,mul_zero,add_zero]
  have hr := Binary.round_exact (norm.negative && (value.convert*value.convert : Double).negative)
    double_exact_zero
  exact hr

/-- A finite query that is normalised was not zero. -/
theorem normalizable_of_ok {embedding normalized : Embedding} (hf : ∀ value∈embedding,value.Finite)
    (hl : embedding.length<2^53) (h : normalize embedding=.ok normalized) :
    Normalizable embedding := by
  refine ⟨hf,?_,hl⟩
  by_contra hnone
  have hz : ∀ value∈embedding,value.value=0 := fun value hv => by
    by_contra hne
    exact hnone ⟨value,hv,hne⟩
  obtain ⟨norm,hnorm,hfinite,hvalue⟩ := (squaredNorm_zero hf hz).returns
  have hle : norm≤0 := by
    rw [hfinite.le_iff finite_zero,hvalue,Binary.value_zero]
  rw [Embeddings.normalize,hnorm,bind_eq_ok] at h
  obtain ⟨value,hv,h⟩ := h
  injection hv with hv
  simp only [bind_eq_ok,throwIf_ok] at h
  obtain ⟨_,-,_,hpositive,-⟩ := h
  exact hpositive (hv ▸ hle)

end Queries

end Leann.Preparation
