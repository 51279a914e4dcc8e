import Leann.Embeddings
import Leann.PackedBits

/-!
# The product quantizer

Training, encoding and approximate distances of `product_quantizer.cpp`. The
numbers are left open: the code stores coordinates in one precision and takes
its sums in another one, and does nothing else with them than what is asked
for here.
-/

namespace Leann.ProductQuantizer

open BinaryFloat Exceptions Outcomes PackedBits Embeddings

/-- Numbers that sums are taken in. -/
class WideNumber (D : Type) extends Zero D, One D, Neg D, Add D, Sub D, Mul D, Div D, LT D, LE D where
  /-- `std::isfinite`. -/
  isFinite : D → Bool
  /-- Conversion of a count. -/
  ofCount : ℕ → D
  /-- Comparisons are computed. -/
  decidableLT : DecidableLT D
  /-- Comparisons are computed. -/
  decidableLE : DecidableLE D

/-- Numbers that vectors hold. -/
class VectorNumber (S : Type) (D : outParam Type) extends Zero S, One S, LT S, LE S where
  /-- `std::isfinite`. -/
  isFinite : S → Bool
  /-- `std::abs`. -/
  abs : S → S
  /-- `std::numeric_limits::infinity`. -/
  infinity : S
  /-- `std::numeric_limits::max`. -/
  largest : S
  /-- Conversion to the numbers of sums. -/
  widen : S → D
  /-- Conversion from the numbers of sums. -/
  narrow : D → S
  /-- Comparisons are computed. -/
  decidableLT : DecidableLT S
  /-- Comparisons are computed. -/
  decidableLE : DecidableLE S

instance wideDecidableLT {D : Type} [WideNumber D] : DecidableLT D := WideNumber.decidableLT

instance wideDecidableLE {D : Type} [WideNumber D] : DecidableLE D := WideNumber.decidableLE

instance vectorDecidableLT {S D : Type} [VectorNumber S D] : DecidableLT S := VectorNumber.decidableLT

instance vectorDecidableLE {S D : Type} [VectorNumber S D] : DecidableLE S := VectorNumber.decidableLE

instance : WideNumber Double where
  isFinite value := decide value.Finite
  ofCount := Binary.ofNat
  decidableLT := inferInstance
  decidableLE := inferInstance

instance : VectorNumber Single Double where
  isFinite value := decide value.Finite
  abs := Binary.abs
  infinity := Binary.infinite false
  largest := Binary.largest
  widen := Binary.convert
  narrow := Binary.convert
  decidableLT := inferInstance
  decidableLE := inferInstance

/-- `subspan`, whose range the caller must respect. -/
def subspan {α : Type} (values : List α) (offset count : ℕ) : Except Fault (List α) :=
  if offset+count≤values.length then .ok ((values.drop offset).take count) else .error .outOfBounds

/-- A range inside a vector. -/
theorem subspan_ok {α : Type} {values : List α} {offset count : ℕ}
    (h : offset+count≤values.length) :
    subspan values offset count=.ok ((values.drop offset).take count) := if_pos h

section Definitions

variable {S D : Type} [WideNumber D] [VectorNumber S D]

open VectorNumber

/-- `ProductQuantizerView`. -/
structure ProductQuantizerView (S : Type) where
  /-- Coordinates of a vector. -/
  dimension : ℕ
  /-- Number of subspaces. -/
  subquantizers : ℕ
  /-- Bits of a centroid number. -/
  bits : ℕ
  /-- Centroids of each subspace. -/
  centroids : ℕ
  /-- Coordinates of a subspace. -/
  subdimension : ℕ
  /-- Centroids of all subspaces, one behind the other. -/
  codebook : List S
  /-- Packed centroid numbers of all nodes, one behind the other. -/
  codes : List UInt8

/-- `bytes_per_vector`. -/
def ProductQuantizerView.bytesPerVector (view : ProductQuantizerView S) : ℕ :=
  (view.subquantizers*view.bits+7)/8

/-- The products of a subvector of the query with a centroid, subtracted. -/
def ProductQuantizerView.negativeDot (view : ProductQuantizerView S) (query : List S)
    (queryBegin codebookBegin : ℕ) : Except Fault D :=
  (List.range view.subdimension).foldlM (fun negativeDot coordinate => do
    let centroidValue ← element view.codebook (codebookBegin+coordinate)
    throwIf (¬isFinite centroidValue ∨ 1<abs centroidValue)
      (runtimeError "PQ codebook contains a non-finite or out-of-range value")
    let queryValue ← element query (queryBegin+coordinate)
    return negativeDot-widen queryValue*widen centroidValue) 0

/-- One entry of the table. -/
def ProductQuantizerView.tableEntry (view : ProductQuantizerView S) (query : List S)
    (sub centroid : ℕ) : Except Fault S := do
  let negativeDot ← view.negativeDot query (sub*view.subdimension)
    ((sub*view.centroids+centroid)*view.subdimension)
  throwIf (¬WideNumber.isFinite negativeDot ∨ widen (largest : S)<negativeDot ∨
    negativeDot< -widen (largest : S)) (runtimeError "PQ distance table is not finite")
  return narrow negativeDot

/-- The entries of one subspace. -/
def ProductQuantizerView.tableRow (view : ProductQuantizerView S) (query table : List S)
    (sub : ℕ) : Except Fault (List S) :=
  (List.range view.centroids).foldlM (fun table centroid => do
    let entry ← view.tableEntry query sub centroid
    assign table (sub*view.centroids+centroid) entry) table

/-- `distance_table`. -/
def ProductQuantizerView.distanceTable (view : ProductQuantizerView S) (query : List S) :
    Except Fault (List S) := do
  throwIf (query.length≠view.dimension) (invalidArgument "PQ query dimension mismatch")
  throwIf (¬∀ value∈query,isFinite value ∧ abs value≤1)
    (invalidArgument "PQ query must contain finite normalized coordinates")
  (List.range view.subquantizers).foldlM (view.tableRow query)
    (List.replicate (view.subquantizers*view.centroids) 0)

/-- `PQ code references an invalid centroid`. -/
def invalidCentroid : Exception := runtimeError "PQ code references an invalid centroid"

/-- The contributions of the subspaces, starting at one. -/
def ProductQuantizerView.sumContributions (view : ProductQuantizerView S) (table : List S)
    (packed : List UInt8) : Except Fault D :=
  (List.range view.subquantizers).foldlM (fun result sub => do
    let code ← unpackCode packed (sub*view.bits) view.bits
    throwIf (code≥view.centroids) invalidCentroid
    let contribution ← element table (sub*view.centroids+code)
    throwIf (¬isFinite contribution) (invalidArgument "PQ distance table contains NaN or infinity")
    return result+widen contribution) 1

/-- `approximate_distance`. -/
def ProductQuantizerView.approximateDistance (view : ProductQuantizerView S) (table : List S)
    (node : ℕ) : Except Fault S := do
  throwIf (table.length≠view.subquantizers*view.centroids)
    (invalidArgument "PQ distance table size mismatch")
  throwIf (node≥view.codes.length/view.bytesPerVector)
    (Exceptions.outOfRange "PQ node id is out of range")
  let packed ← subspan view.codes (node*view.bytesPerVector) view.bytesPerVector
  let result ← view.sumContributions table packed
  throwIf (¬WideNumber.isFinite result ∨ widen (largest : S)< result ∨ result< -widen (largest : S))
    (runtimeError "PQ approximate distance is not finite")
  return narrow result

end Definitions

section View

/-- A cell of a table lies inside the table. -/
theorem cell_lt {row rows column columns : ℕ} (hr : row< rows) (hc : column<columns) :
    row*columns+column< rows*columns := by
  have hm := Nat.mul_le_mul_right columns (Nat.succ_le_of_lt hr)
  rw [Nat.succ_mul] at hm
  omega

/-- The shape of a quantizer with so many nodes. -/
structure Shaped (view : ProductQuantizerView Single) (count : ℕ) : Prop where
  /-- The subspaces divide the coordinates among them. -/
  dimension_eq : view.subquantizers*view.subdimension=view.dimension
  /-- The number of subspaces fits its type. -/
  subquantizers_lt : view.subquantizers<2^32
  /-- The coordinates of a subspace fit their type. -/
  subdimension_lt : view.subdimension<2^32
  /-- A vector has a byte. -/
  subquantizers_pos : 0<view.subquantizers
  /-- A centroid number has a bit. -/
  bits_pos : 0<view.bits
  /-- A centroid number fits a byte. -/
  bits_le : view.bits≤8
  /-- Every centroid of every subspace has its coordinates. -/
  codebook_length : view.codebook.length=view.subquantizers*view.centroids*view.subdimension
  /-- Every coordinate is finite and inside the unit interval. -/
  coordinates : ∀ coordinate∈view.codebook,Unit coordinate
  /-- Every node has its packed codes. -/
  codes_length : view.codes.length=count*view.bytesPerVector

/-- An entry of a table of distances. -/
def Entry (value : Single) : Prop := value.Finite ∧ |value.value|≤2^32

/-- A number in the unit interval passes the check of a coordinate. -/
theorem unit_passes {value : Single} (h : Unit value) : value.Finite ∧ value.abs≤1 := by
  obtain ⟨h1,hv1⟩ := single_one
  refine ⟨h.1,((Binary.finite_abs value).mpr h.1).le_iff h1 |>.mpr ?_⟩
  rw [Binary.value_abs,hv1]
  exact h.2

theorem unit_not_beyond {value : Single} (h : Unit value) : ¬(1 : Single)<value.abs := by
  obtain ⟨h1,hv1⟩ := single_one
  rw [h1.lt_iff ((Binary.finite_abs value).mpr h.1),Binary.value_abs,hv1]
  exact not_lt.mpr h.2

variable {view : ProductQuantizerView Single} {count : ℕ}

/-- Subtracting products of numbers in the unit interval. -/
theorem negativeDot_ends (hs : Shaped view count) {query : List Single}
    (hq : ∀ value∈query,Unit value) {queryBegin codebookBegin : ℕ}
    (hqb : queryBegin+view.subdimension≤query.length)
    (hcb : codebookBegin+view.subdimension≤view.codebook.length) :
    Ends (view.negativeDot query queryBegin codebookBegin) (fun _ => False)
      (fun dot : Double => dot.Finite ∧ |dot.value|≤view.subdimension) := by
  refine Ends.foldlM_range view.subdimension
    (fun i (dot : Double) => dot.Finite ∧ |dot.value|≤ i) ⟨finite_zero,by simp⟩ (fun i dot hi hd => ?_)
  refine (element_ends (by omega)).bind (fun centroidValue hcv => ?_)
  have hc := hs.coordinates _ (List.mem_of_getElem? hcv)
  refine (throwIf_ends (fun h => ?_)).bind (fun _ _ => ?_)
  · exact h.elim (absurd (decide_eq_true hc.1)) (unit_not_beyond hc)
  refine (element_ends (by omega)).bind (fun queryValue hqv => ?_)
  have hv := hq _ (List.mem_of_getElem? hqv)
  obtain ⟨hpf,hpv⟩ := widen_mul_value hv.1 hc.1
  change Binary.Finite (dot-queryValue.convert*centroidValue.convert) ∧
    |Binary.value (dot-queryValue.convert*centroidValue.convert)|≤_
  rw [Binary.sub_eq hd.1 hpf,hpv]
  have hexact : double.Exact ((i+1 : ℕ) : ℚ) := by
    have hl := hs.subdimension_lt
    have h := double_exact_natCast (i+1) 0 (by omega) (by norm_num)
    rwa [pow_zero,Nat.mul_one] at h
  refine Binary.round_abs_le _ hexact ((abs_sub _ _).trans ?_)
  have hprod : |queryValue.value*centroidValue.value|≤1 := by
    rw [abs_mul]
    exact mul_le_one₀ hv.2 (abs_nonneg _) hc.2
  rw [Nat.cast_add,Nat.cast_one]
  exact add_le_add hd.2 hprod

/-- A number inside the range of `float` passes the checks of a result. -/
theorem range_passes {value : Double} (h : InSingleRange value) :
    ¬(¬WideNumber.isFinite value ∨ VectorNumber.widen (VectorNumber.largest : Single)<value ∨
      value< -VectorNumber.widen (VectorNumber.largest : Single)) := by
  rw [not_or,not_or,not_not]
  exact ⟨decide_eq_true h.1,h.2⟩

/-- A row of a centroid lies inside the codebook. -/
theorem codebook_row (hs : Shaped view count) {sub centroid : ℕ} (hsub : sub<view.subquantizers)
    (hc : centroid<view.centroids) : (sub*view.centroids+centroid)*view.subdimension+
      view.subdimension≤view.codebook.length := by
  have hm := Nat.mul_le_mul_right view.subdimension (Nat.succ_le_of_lt (cell_lt hsub hc))
  rw [Nat.succ_mul,←hs.codebook_length] at hm
  exact hm

/-- A subvector lies inside its vector. -/
theorem subvector_range (hs : Shaped view count) {sub : ℕ} (hsub : sub<view.subquantizers) :
    sub*view.subdimension+view.subdimension≤view.dimension := by
  have hm := Nat.mul_le_mul_right view.subdimension (Nat.succ_le_of_lt hsub)
  rw [Nat.succ_mul,hs.dimension_eq] at hm
  exact hm

/-- An entry is computed without a failure. -/
theorem tableEntry_ends (hs : Shaped view count) {query : List Single}
    (hl : query.length=view.dimension) (hq : ∀ value∈query,Unit value) {sub centroid : ℕ}
    (hsub : sub<view.subquantizers) (hc : centroid<view.centroids) :
    Ends (view.tableEntry query sub centroid) (fun _ => False) Entry := by
  refine (negativeDot_ends hs hq (hl ▸ subvector_range hs hsub) (codebook_row hs hsub hc)).bind
    (fun dot hd => ?_)
  have hbound : |dot.value|≤2^32 := by
    refine hd.2.trans ?_
    exact_mod_cast hs.subdimension_lt.le
  refine (throwIf_ends (fun h => ?_)).bind (fun _ _ => ?_)
  · exact range_passes (inSingleRange_of_abs_le hd.1 (hbound.trans (by norm_num))) h
  have hexact : single.Exact ((2 : ℚ)^32) := by
    have h := single_exact_natCast 1 32 (by norm_num) (by norm_num)
    rwa [one_mul,Nat.cast_pow,Nat.cast_ofNat] at h
  exact convert_abs_le hd.1 hexact hbound

/-- The table while it is filled. -/
def Table (view : ProductQuantizerView Single) (table : List Single) : Prop :=
  table.length=view.subquantizers*view.centroids ∧ ∀ value∈table,Entry value

/-- The table of distances is computed without a failure. -/
theorem distanceTable_ends (hs : Shaped view count) {query : List Single}
    (hl : query.length=view.dimension) (hq : ∀ value∈query,Unit value) :
    Ends (view.distanceTable query) (fun _ => False) (Table view) := by
  refine (throwIf_ends (fun h => absurd hl h)).bind (fun _ _ => ?_)
  have hunit : ∀ value∈query,VectorNumber.isFinite value ∧ VectorNumber.abs value≤1 :=
    fun value hv => ⟨decide_eq_true (hq value hv).1,(unit_passes (hq value hv)).2⟩
  refine (throwIf_ends (fun h => absurd hunit h)).bind (fun _ _ => ?_)
  refine Ends.foldlM_range view.subquantizers (fun _ => Table view) ?_ (fun sub table hsub ht => ?_)
  · refine ⟨List.length_replicate,fun value hv => ?_⟩
    rw [List.eq_of_mem_replicate hv]
    exact ⟨by decide,by rw [show (0 : Single).value=0 from Binary.value_zero]; norm_num⟩
  · refine Ends.foldlM_range view.centroids (fun _ => Table view) ht
      (fun centroid table hcentroid ht => ?_)
    refine (tableEntry_ends hs hl hq hsub hcentroid).bind (fun entry he => ?_)
    refine (assign_ends (ht.1 ▸ cell_lt hsub hcentroid) entry).mono (fun _ h => h)
      (fun after ha => ?_)
    rw [ha]
    refine ⟨by rw [List.length_set,ht.1],fun value hv => ?_⟩
    rcases List.mem_or_eq_of_mem_set hv with hv|hv
    · exact ht.2 value hv
    · rw [hv]
      exact he

/-- What a search may meet in the packed codes of a loaded file. -/
def CentroidError (fault : Fault) : Prop := fault=.thrown invalidCentroid

/-- The codes of a node lie inside the packed codes. -/
theorem packed_range (hs : Shaped view count) {node : ℕ} (hn : node<count) :
    node*view.bytesPerVector+view.bytesPerVector≤view.codes.length := by
  have hm := Nat.mul_le_mul_right view.bytesPerVector (Nat.succ_le_of_lt hn)
  rw [Nat.succ_mul,←hs.codes_length] at hm
  exact hm

/-- The code of a subspace lies inside the codes of its node. -/
theorem code_range (view : ProductQuantizerView Single) {sub : ℕ} (hsub : sub<view.subquantizers) :
    sub*view.bits+view.bits≤8*view.bytesPerVector := by
  have hm := Nat.mul_le_mul_right view.bits (Nat.succ_le_of_lt hsub)
  rw [Nat.succ_mul] at hm
  unfold ProductQuantizerView.bytesPerVector
  omega

theorem bytesPerVector_pos (hs : Shaped view count) : 0<view.bytesPerVector := by
  have hm := Nat.mul_le_mul hs.subquantizers_pos hs.bits_pos
  unfold ProductQuantizerView.bytesPerVector
  omega

/-- The centroid numbers of a vector are those of centroids. -/
def ValidCodes {S : Type} (view : ProductQuantizerView S) (packed : List UInt8) : Prop :=
  ∀ sub,sub<view.subquantizers → number packed>>>(sub*view.bits)%2^view.bits<view.centroids

/-- Adding up entries of the table fails only at an invalid centroid. -/
theorem sumContributions_ends {fails : Fault → Prop} (hs : Shaped view count) {table : List Single}
    (ht : Table view table) {packed : List UInt8} (hp : packed.length=view.bytesPerVector)
    (hbad : ¬ValidCodes view packed → fails (.thrown invalidCentroid)) :
    Ends (view.sumContributions table packed) fails
      (fun sum : Double => sum.Finite ∧ |sum.value|≤2^64) := by
  have hloop : Ends (view.sumContributions table packed) fails
      (fun sum : Double => sum.Finite ∧ |sum.value|≤((view.subquantizers+1)*2^32 : ℕ)) := by
    refine Ends.foldlM_range view.subquantizers
      (fun i (sum : Double) => sum.Finite ∧ |sum.value|≤((i+1)*2^32 : ℕ)) ?_ (fun sub sum hsub hsum => ?_)
    · obtain ⟨h1,hv1⟩ := double_one
      refine ⟨h1,?_⟩
      change |(1 : Double).value|≤_
      rw [hv1]
      norm_num
    · have hr := code_range view hsub
      rw [←hp] at hr
      have hu : Ends (unpackCode packed (sub*view.bits) view.bits) fails
          (fun code => code=number packed>>>(sub*view.bits)%2^view.bits) := by
        rw [unpackCode_ok hs.bits_pos hs.bits_le hr]
        rfl
      refine hu.bind (fun code hfield => ?_)
      refine (throwIf_ends (fun hge => hbad (fun hvalid => ?_))).bind (fun _ hcode => ?_)
      · have hlt := hvalid sub hsub
        omega
      have hcell := cell_lt hsub (not_le.mp hcode)
      rw [←ht.1] at hcell
      refine (element_ends hcell).bind (fun contribution hcontribution => ?_)
      have he := ht.2 _ (List.mem_of_getElem? hcontribution)
      refine (throwIf_ends (fun h => absurd (decide_eq_true he.1) h)).bind (fun _ _ => ?_)
      obtain ⟨hw,hwv⟩ := widen_value he.1
      change Binary.Finite (sum+contribution.convert) ∧ |Binary.value (sum+contribution.convert)|≤_
      rw [Binary.add_eq hsum.1 hw,hwv]
      have hl := hs.subquantizers_lt
      refine Binary.round_abs_le _ (double_exact_natCast (sub+1+1) 32 (by omega) (by norm_num))
        ((abs_add_le _ _).trans ?_)
      have hcast : (((sub+1+1)*2^32 : ℕ) : ℚ)=((sub+1)*2^32 : ℕ)+2^32 := by
        push_cast
        ring
      rw [hcast]
      exact add_le_add hsum.2 he.2
  refine hloop.mono (fun _ h => h) (fun sum hsum => ⟨hsum.1,hsum.2.trans ?_⟩)
  have hl := hs.subquantizers_lt
  have hm : (view.subquantizers+1)*2^32≤2^64 := by omega
  exact_mod_cast hm

/-- The packed codes of a node. -/
def ProductQuantizerView.packed {S : Type} (view : ProductQuantizerView S) (node : ℕ) : List UInt8 :=
  (view.codes.drop (node*view.bytesPerVector)).take view.bytesPerVector

/-- The approximate distance of a node fails only at an invalid centroid. -/
theorem approximateDistance_ends {fails : Fault → Prop} (hs : Shaped view count)
    {table : List Single} (ht : Table view table) {node : ℕ} (hn : node<count)
    (hbad : ¬ValidCodes view (view.packed node) → fails (.thrown invalidCentroid)) :
    Ends (view.approximateDistance table node) fails Binary.Finite := by
  unfold ProductQuantizerView.approximateDistance
  refine (throwIf_ends (fun h => absurd ht.1 h)).bind (fun _ _ => ?_)
  refine (throwIf_ends (fun h => ?_)).bind (fun _ _ => ?_)
  · rw [hs.codes_length,Nat.mul_div_cancel _ (bytesPerVector_pos hs)] at h
    omega
  have hpacked : subspan view.codes (node*view.bytesPerVector) view.bytesPerVector=_ :=
    subspan_ok (packed_range hs hn)
  have hlen : ((view.codes.drop (node*view.bytesPerVector)).take view.bytesPerVector).length=
      view.bytesPerVector := by
    have hr := packed_range hs hn
    rw [List.length_take,List.length_drop]
    omega
  rw [hpacked]
  refine (sumContributions_ends hs ht hlen hbad).bind (fun sum hsum => ?_)
  refine (throwIf_ends (fun h => ?_)).bind (fun _ _ => ?_)
  · exact absurd h (range_passes (inSingleRange_of_abs_le hsum.1 (hsum.2.trans (by norm_num))))
  have hexact : single.Exact ((2 : ℚ)^64) := by
    have h := single_exact_natCast 1 64 (by norm_num) (by norm_num)
    rwa [one_mul,Nat.cast_pow,Nat.cast_ofNat] at h
  exact (convert_abs_le hsum.1 hexact hsum.2).1

end View

end Leann.ProductQuantizer
