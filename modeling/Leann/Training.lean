import Leann.ProductQuantizer

/-!
# Training the product quantizer

`train_product_quantizer`: the centroids of each subspace are chosen among
the samples, moved by Lloyd's iterations, and every vector is then packed
as the numbers of its nearest centroids. The random choices are given.
-/

namespace Leann.Training

open BinaryFloat Exceptions Outcomes PackedBits Embeddings ProductQuantizer

/-- The outcomes of the random choices. -/
structure Choices (D : Type) where
  /-- The shuffled numbers below a number. -/
  shuffle : ℕ → List ℕ
  /-- The sample that is the first centroid of a subspace. -/
  first : ℕ → ℕ
  /-- The point drawn for a centroid of a subspace out of a total. -/
  target : ℕ → ℕ → D → D

/-- `ProductQuantizerModel`. -/
abbrev ProductQuantizerModel := ProductQuantizerView

section Definitions

variable {S D : Type} [WideNumber D] [VectorNumber S D]

open VectorNumber

/-- `squared_distance`. -/
def squaredDistance (point centroid : List S) : Except Fault S := do
  let result ← (List.range point.length).foldlM (fun (result : D) i => do
    let value ← element point i
    let other ← element centroid i
    let delta := widen value-widen other
    return result+delta*delta) 0
  throwIf (¬WideNumber.isFinite result ∨ widen (largest : S)< result)
    (runtimeError "PQ squared distance is not finite")
  return narrow result

/-- The sizes of a training. -/
structure Shape where
  /-- Number of subspaces. -/
  subquantizers : ℕ
  /-- Bits of a centroid number. -/
  bits : ℕ
  /-- Centroids of each subspace. -/
  centroids : ℕ
  /-- Coordinates of a subspace. -/
  subdimension : ℕ

/-- Where a centroid of a subspace begins in the codebook. -/
def Shape.row (shape : Shape) (sub centroid : ℕ) : ℕ :=
  (sub*shape.centroids+centroid)*shape.subdimension

/-- The number of coordinates in a codebook. -/
def Shape.bookLength (shape : Shape) : ℕ := shape.subquantizers*shape.centroids*shape.subdimension

/-- The coordinates of a vector in a subspace. -/
def Shape.subvector (shape : Shape) (point : List S) (sub : ℕ) : Except Fault (List S) :=
  subspan point (sub*shape.subdimension) shape.subdimension

/-- The centroid of a subspace nearest to a subvector, the first of equal
ones, with its distance. -/
def nearestCentroid (shape : Shape) (codebook : List S) (sub : ℕ) (subvector : List S) :
    Except Fault (ℕ×S) :=
  (List.range shape.centroids).foldlM (fun best centroid => do
    let row ← subspan codebook (shape.row sub centroid) shape.subdimension
    let distance ← squaredDistance subvector row
    return if distance<best.2 then (centroid,distance) else best) (0,infinity)

/-- `std::copy_n` into a vector. -/
def copyInto (values : List S) (offset : ℕ) (row : List S) : Except Fault (List S) :=
  if offset+row.length≤values.length then
    .ok (values.take offset++row++values.drop (offset+row.length))
  else .error .outOfBounds

/-- `std::min`. -/
def minimum (lhs rhs : S) : S := if rhs<lhs then rhs else lhs

/-- Bring the distances to the nearest centroid up to date with the previous
centroid, and add them up. -/
def updateDistances (shape : Shape) (samples : List (List S)) (sub : ℕ) (previous : List S)
    (distances : List S) : Except Fault (List S×D) :=
  (List.range samples.length).foldlM (fun (state : List S×D) sample => do
    let point ← element samples sample
    let subvector ← shape.subvector point sub
    let distance ← squaredDistance subvector previous
    let known ← element state.1 sample
    let distances ← assign state.1 sample (minimum known distance)
    return (distances,state.2+widen (minimum known distance))) (distances,0)

/-- The sample in whose share a target falls. -/
def pickSample (distances : List S) (target : D) (sample default : ℕ) : ℕ :=
  match distances with
  | [] => default
  | distance::distances =>
    if target-widen distance≤0 then sample
    else pickSample distances (target-widen distance) (sample+1) default

/-- Choose one centroid of a subspace after the first one. -/
def seedCentroid (shape : Shape) (choices : Choices D) (samples : List (List S)) (sub : ℕ)
    (state : List S×List S) (centroid : ℕ) : Except Fault (List S×List S) := do
  let previous ← subspan state.1 (shape.row sub (centroid-1)) shape.subdimension
  let (distances,total) ← updateDistances shape samples sub previous state.2
  let fallback := centroid%samples.length
  let selected := if (0 : D)<total then
    pickSample distances (choices.target sub centroid total) 0 fallback else fallback
  let point ← element samples selected
  let subvector ← shape.subvector point sub
  let codebook ← copyInto state.1 (shape.row sub centroid) subvector
  return (codebook,distances)

/-- Choose the centroids of a subspace. -/
def seedCentroids (shape : Shape) (choices : Choices D) (samples : List (List S)) (sub : ℕ)
    (codebook : List S) : Except Fault (List S×List S) := do
  let point ← element samples (choices.first sub)
  let subvector ← shape.subvector point sub
  let codebook ← copyInto codebook (shape.row sub 0) subvector
  (List.range' 1 (shape.centroids-1)).foldlM (seedCentroid shape choices samples sub)
    (codebook,List.replicate samples.length infinity)

/-- What an iteration adds up. -/
structure Sums (S D : Type) where
  /-- Sums of coordinates, centroid by centroid. -/
  sums : List D
  /-- Numbers of subvectors, centroid by centroid. -/
  counts : List ℕ
  /-- Distances of the samples to their centroids. -/
  distances : List S

/-- Add a subvector to the sums of its centroid. -/
def addSubvector (shape : Shape) (subvector : List S) (best : ℕ) (sums : List D) :
    Except Fault (List D) :=
  (List.range shape.subdimension).foldlM (fun sums coordinate => do
    let value ← element subvector coordinate
    let sum ← element sums (best*shape.subdimension+coordinate)
    assign sums (best*shape.subdimension+coordinate) (sum+widen value)) sums

/-- Assign one sample to its nearest centroid. -/
def assignSample (shape : Shape) (samples : List (List S)) (codebook : List S) (sub : ℕ)
    (state : Sums S D) (sample : ℕ) : Except Fault (Sums S D) := do
  let point ← element samples sample
  let subvector ← shape.subvector point sub
  let (best,distance) ← nearestCentroid shape codebook sub subvector
  let count ← element state.counts best
  let counts ← assign state.counts best (count+1)
  let sums ← addSubvector shape subvector best state.sums
  let distances ← assign state.distances sample distance
  return ⟨sums,counts,distances⟩

/-- `std::max_element`, as a position. -/
def maxElement (values : List S) : ℕ :=
  ((List.range values.length).foldl (fun best position =>
    if values.getD best 0<values.getD position 0 then position else best) 0)

/-- The mean of the coordinates added up for a centroid. -/
def average (shape : Shape) (state : Sums S D) (centroid count : ℕ) : Except Fault (List S) :=
  (List.range shape.subdimension).mapM (fun coordinate => do
    let sum ← element state.sums (centroid*shape.subdimension+coordinate)
    return narrow (sum/WideNumber.ofCount count))

/-- Move one centroid, to the farthest sample when it has none. -/
def moveCentroid (shape : Shape) (samples : List (List S)) (sub : ℕ)
    (state : List S×Sums S D) (centroid : ℕ) : Except Fault (List S×Sums S D) := do
  let count ← element state.2.counts centroid
  if count=0 then
    let sample := maxElement state.2.distances
    let point ← element samples sample
    let subvector ← shape.subvector point sub
    let codebook ← copyInto state.1 (shape.row sub centroid) subvector
    let distances ← assign state.2.distances sample 0
    return (codebook,{state.2 with distances := distances})
  else
    let row ← average shape state.2 centroid count
    let codebook ← copyInto state.1 (shape.row sub centroid) row
    return (codebook,state.2)

/-- One iteration of Lloyd's algorithm in a subspace. -/
def lloydIteration (shape : Shape) (samples : List (List S)) (sub : ℕ)
    (state : List S×List S) : Except Fault (List S×List S) := do
  let zero : Sums S D := ⟨List.replicate (shape.centroids*shape.subdimension) 0,
    List.replicate shape.centroids 0,state.2⟩
  let sums ← (List.range samples.length).foldlM (assignSample shape samples state.1 sub) zero
  let (codebook,sums) ← (List.range shape.centroids).foldlM (moveCentroid shape samples sub)
    (state.1,sums)
  return (codebook,sums.distances)

/-- The centroids of a subspace. -/
def trainSubspace (shape : Shape) (choices : Choices D) (iterations : ℕ) (samples : List (List S))
    (codebook : List S) (sub : ℕ) : Except Fault (List S) := do
  let seeded ← seedCentroids shape choices samples sub codebook
  let (codebook,_) ← (List.range iterations).foldlM
    (fun state _ => lloydIteration shape samples sub state) seeded
  return codebook

/-- The packed centroid numbers of a vector. -/
def encodeVector (shape : Shape) (codebook point : List S) : Except Fault (List UInt8) :=
  (List.range shape.subquantizers).foldlM (fun packed sub => do
    let subvector ← shape.subvector point sub
    let (best,_) ← nearestCentroid shape codebook sub subvector
    packCode packed (sub*shape.bits) shape.bits best)
    (List.replicate ((shape.subquantizers*shape.bits+7)/8) 0)

/-- `sample_ids`. -/
def sampleIds (choices : Choices D) (count maxTrainingSamples : ℕ) : List ℕ :=
  if count>maxTrainingSamples then (choices.shuffle count).take maxTrainingSamples
  else List.range count

/-- The checks of one embedding. -/
def checkEmbedding (dimension : ℕ) (embedding : List S) : Except Fault Unit := do
  throwIf (embedding.length≠dimension) (invalidArgument "PQ training dimensions differ")
  throwIf (¬∀ value∈embedding,isFinite value ∧ abs value≤1)
    (invalidArgument "PQ training embeddings must contain finite normalized coordinates")

/-- `train_product_quantizer`. -/
def trainProductQuantizer (choices : Choices D) (embeddings : List (List S))
    (subquantizers bits iterations maxTrainingSamples : ℕ) :
    Except Fault (ProductQuantizerModel S) := do
  throwIf embeddings.isEmpty (invalidArgument "cannot train PQ on no embeddings")
  let front ← element embeddings 0
  let dimension := front.length
  throwIf (dimension=0 ∨ subquantizers=0 ∨ dimension%subquantizers≠0)
    (invalidArgument "PQ subquantizers must evenly divide the embedding dimension")
  throwIf (bits=0 ∨ bits>8) (invalidArgument "PQ bits must be in [1, 8]")
  throwIf (iterations=0 ∨ maxTrainingSamples=0)
    (invalidArgument "PQ iterations and training sample count must be positive")
  embeddings.forM (checkEmbedding dimension)
  let samples ← (sampleIds choices embeddings.length maxTrainingSamples).mapM (element embeddings)
  let shape : Shape := ⟨subquantizers,bits,min (2^bits) samples.length,dimension/subquantizers⟩
  let codebook ← (List.range subquantizers).foldlM (trainSubspace shape choices iterations samples)
    (List.replicate (subquantizers*shape.centroids*shape.subdimension) 0)
  let codes ← embeddings.mapM (encodeVector shape codebook)
  return ⟨dimension,subquantizers,bits,shape.centroids,shape.subdimension,codebook,codes.flatten⟩

end Definitions

section Results

variable {S D : Type} [WideNumber D] [VectorNumber S D]

open VectorNumber

/-- Whatever else happens, a result is of this kind. -/
abbrev Returns {α : Type} (x : Except Fault α) (post : α → Prop) : Prop :=
  Ends x (fun _ => True) post

theorem returns_bind {α β : Type} {x : Except Fault α} {next : α → Except Fault β} {mid : α → Prop}
    {post : β → Prop} (h : Returns x mid) (h' : ∀ value,mid value → Returns (next value) post) :
    Returns (x>>=next) post := Ends.bind h h'

/-- Nothing is known about the result. -/
theorem returns_any {α : Type} (x : Except Fault α) : Returns x (fun _ => True) := by
  cases x <;> trivial

theorem returns_element {α : Type} (values : List α) (position : ℕ) :
    Returns (element values position) (fun value => values[position]?=some value) := by
  cases h : element values position with
  | ok value => exact (element_ok _ _ _).mp h
  | error fault => trivial

theorem returns_assign {α : Type} (values : List α) (position : ℕ) (value : α) :
    Returns (assign values position value)
      (fun after => position<values.length ∧ after=values.set position value) := by
  unfold assign
  split
  · rename_i h
    exact ⟨h,rfl⟩
  · trivial

/-- What the mean of coordinates needs of the numbers it is computed with. -/
structure Averages (unit : S → Prop) (summed : ℕ → D → Prop) (most : ℕ) : Prop where
  /-- Zero is a coordinate. -/
  zero : unit 0
  /-- The empty sum. -/
  start : summed 0 0
  /-- One more coordinate, as long as there are not too many. -/
  add : ∀ count sum value,count< most → summed count sum → unit value →
    summed (count+1) (sum+widen value)
  /-- The mean is a coordinate. -/
  mean : ∀ count sum,0<count → summed count sum → unit (narrow (sum/WideNumber.ofCount count))

variable {unit : S → Prop} {summed : ℕ → D → Prop} {most : ℕ}

/-- A codebook of a length, made of coordinates. -/
def Book (unit : S → Prop) (length : ℕ) (codebook : List S) : Prop :=
  codebook.length=length ∧ ∀ value∈codebook,unit value

omit [WideNumber D] [VectorNumber S D] in
/-- Copying coordinates into a codebook. -/
theorem copyInto_returns {length offset : ℕ} {codebook row : List S} (hb : Book unit length codebook)
    (hr : ∀ value∈row,unit value) : Returns (copyInto codebook offset row) (Book unit length) := by
  unfold copyInto
  split
  · rename_i hle
    refine ⟨?_,fun value hv => ?_⟩
    · rw [List.length_append,List.length_append,List.length_take,List.length_drop,←hb.1]
      omega
    · cases List.mem_append.mp hv with
      | inl hv =>
        cases List.mem_append.mp hv with
        | inl hv => exact hb.2 value (List.mem_of_mem_take hv)
        | inr hv => exact hr value hv
      | inr hv => exact hb.2 value (List.mem_of_mem_drop hv)
  · trivial

omit [WideNumber D] [VectorNumber S D] in
/-- A subvector of coordinates. -/
theorem subvector_returns (shape : Shape) {point : List S} (hp : ∀ value∈point,unit value) (sub : ℕ) :
    Returns (shape.subvector point sub) (fun row => row.length=shape.subdimension ∧
      ∀ value∈row,unit value) := by
  unfold Shape.subvector subspan
  split
  · rename_i hle
    refine ⟨?_,fun value hv => hp value (List.mem_of_mem_drop (List.mem_of_mem_take hv))⟩
    rw [List.length_take,List.length_drop]
    omega
  · trivial

omit [WideNumber D] [VectorNumber S D] in
/-- The subvector of a sample. -/
theorem sample_returns (shape : Shape) {samples : List (List S)}
    (hs : ∀ point∈samples,∀ value∈point,unit value) (sample sub : ℕ) :
    Returns (do
      let point ← element samples sample
      shape.subvector point sub) (fun row => row.length=shape.subdimension ∧
        ∀ value∈row,unit value) :=
  returns_bind (returns_element samples sample)
    (fun point hp => subvector_returns shape (hs point (List.mem_of_getElem? hp)) sub)

/-- The nearest centroid is one of the centroids. -/
theorem nearestCentroid_returns (shape : Shape) (codebook : List S) (sub : ℕ) (subvector : List S)
    (hc : 0<shape.centroids) : Returns (nearestCentroid shape codebook sub subvector)
      (fun best : ℕ×S => best.1<shape.centroids) := by
  refine Ends.foldlM_range shape.centroids (fun _ (best : ℕ×S) => best.1<shape.centroids) hc
    (fun centroid best hlt hbest => ?_)
  refine returns_bind (returns_any _) (fun row _ => returns_bind (returns_any _) (fun distance _ => ?_))
  split
  · exact hlt
  · exact hbest

/-- Seeding a centroid keeps the codebook. -/
theorem seedCentroid_returns {shape : Shape} {choices : Choices D} {samples : List (List S)} {sub : ℕ}
    {length : ℕ} {state : List S×List S} (hs : ∀ point∈samples,∀ value∈point,unit value)
    (hb : Book unit length state.1) (centroid : ℕ) :
    Returns (seedCentroid shape choices samples sub state centroid)
      (fun after => Book unit length after.1) := by
  refine returns_bind (returns_any _) (fun previous _ => returns_bind (returns_any _)
    (fun updated _ => ?_))
  refine returns_bind (returns_element _ _) (fun point hp => ?_)
  refine returns_bind (subvector_returns shape (hs point (List.mem_of_getElem? hp)) sub)
    (fun row hr => ?_)
  exact returns_bind (copyInto_returns hb hr.2) (fun codebook hcodebook => hcodebook)

/-- So does seeding a subspace. -/
theorem seedCentroids_returns {shape : Shape} {choices : Choices D} {samples : List (List S)}
    {sub : ℕ} {length : ℕ} {codebook : List S} (hs : ∀ point∈samples,∀ value∈point,unit value)
    (hb : Book unit length codebook) :
    Returns (seedCentroids shape choices samples sub codebook)
      (fun after => Book unit length after.1) := by
  refine returns_bind (returns_element _ _) (fun point hp => ?_)
  refine returns_bind (subvector_returns shape (hs point (List.mem_of_getElem? hp)) sub)
    (fun row hr => ?_)
  refine returns_bind (copyInto_returns hb hr.2) (fun codebook hcodebook => ?_)
  exact Ends.foldlM _ (fun _ (after : List S×List S) => Book unit length after.1) hcodebook
    (fun done centroid rest state _ hstate => seedCentroid_returns hs hstate centroid)

/-- What has been added up for every centroid. -/
structure Added (summed : ℕ → D → Prop) (shape : Shape) (done : ℕ) (state : Sums S D) : Prop where
  /-- Every centroid has a number of subvectors. -/
  counts : ∀ centroid,centroid<shape.centroids →
    ∃ count,state.counts[centroid]?=some count ∧ count≤done
  /-- Every sum is one of so many coordinates. -/
  sums : ∀ centroid coordinate count,coordinate<shape.subdimension →
    state.counts[centroid]?=some count →
    ∃ sum,state.sums[centroid*shape.subdimension+coordinate]?=some sum ∧ summed count sum

/-- Cells of different rows or columns are different. -/
theorem cell_inj {columns row column row' column' : ℕ} (hc : column<columns) (hc' : column'<columns)
    (h : row*columns+column=row'*columns+column') : row=row' ∧ column=column' := by
  have hpos : 0<columns := (Nat.zero_le column).trans_lt hc
  have hr : (row*columns+column)/columns=row := by
    rw [Nat.mul_comm,Nat.mul_add_div hpos,Nat.div_eq_of_lt hc,Nat.add_zero]
  have hr' : (row'*columns+column')/columns=row' := by
    rw [Nat.mul_comm,Nat.mul_add_div hpos,Nat.div_eq_of_lt hc',Nat.add_zero]
  have he : row=row' := by rw [←hr,h,hr']
  refine ⟨he,?_⟩
  rw [he] at h
  omega

/-- The sums while a subvector is added to those of one centroid. -/
structure Adding (summed : ℕ → D → Prop) (shape : Shape) (sums : List D) (best count done : ℕ)
    (after : List D) : Prop where
  /-- The sums of the centroid. -/
  own : ∀ coordinate,coordinate<shape.subdimension →
    ∃ sum,after[best*shape.subdimension+coordinate]?=some sum ∧
      summed (if coordinate<done then count+1 else count) sum
  /-- The other sums. -/
  other : ∀ centroid coordinate,coordinate<shape.subdimension → centroid≠best →
    after[centroid*shape.subdimension+coordinate]?=sums[centroid*shape.subdimension+coordinate]?

/-- Adding a subvector to the sums of one centroid. -/
theorem addSubvector_returns {shape : Shape} {sums : List D} {subvector : List S} {best count : ℕ}
    (laws : Averages unit summed most) (hcount : count< most) (hv : ∀ value∈subvector,unit value)
    (hsums : ∀ coordinate,coordinate<shape.subdimension →
      ∃ sum,sums[best*shape.subdimension+coordinate]?=some sum ∧ summed count sum) :
    Returns (addSubvector shape subvector best sums)
      (Adding summed shape sums best count shape.subdimension) := by
  refine Ends.foldlM_range shape.subdimension (Adding summed shape sums best count)
    ⟨fun coordinate hc => hsums coordinate hc,fun _ _ _ _ => rfl⟩ (fun done after hdone h => ?_)
  refine returns_bind (returns_element subvector done) (fun value hvalue => ?_)
  refine returns_bind (returns_element _ _) (fun sum hsum => ?_)
  refine (returns_assign _ _ _).mono (fun _ h => h) (fun final hfinal => ?_)
  obtain ⟨hlt,hset⟩ := hfinal
  obtain ⟨sum',hsum',hs⟩ := h.own done hdone
  rw [hsum,Option.some.injEq] at hsum'
  rw [if_neg (lt_irrefl done),←hsum'] at hs
  rw [hset]
  refine ⟨fun coordinate hc => ?_,fun centroid coordinate hc hne => ?_⟩
  · by_cases he : coordinate=done
    · rw [he,List.getElem?_set_self hlt,if_pos (Nat.lt_succ_self done)]
      exact ⟨_,rfl,laws.add count sum value hcount hs (hv value (List.mem_of_getElem? hvalue))⟩
    · rw [List.getElem?_set_ne (by omega)]
      have hsame : coordinate<done+1 ↔ coordinate<done := by omega
      simpa only [hsame] using h.own coordinate hc
  · rw [List.getElem?_set_ne (fun he => hne (cell_inj hc hdone he.symm).1)]
    exact h.other centroid coordinate hc hne

/-- Assigning a sample to a centroid. -/
theorem assignSample_returns {shape : Shape} {samples : List (List S)} {codebook : List S} {sub : ℕ}
    (laws : Averages unit summed most) (hc : 0<shape.centroids)
    (hs : ∀ point∈samples,∀ value∈point,unit value) {done : ℕ} (hdone : done< most)
    {state : Sums S D} (h : Added summed shape done state) (sample : ℕ) :
    Returns (assignSample shape samples codebook sub state sample) (Added summed shape (done+1)) := by
  refine returns_bind (returns_element _ _) (fun point hp => ?_)
  refine returns_bind (subvector_returns shape (hs point (List.mem_of_getElem? hp)) sub)
    (fun row hr => ?_)
  refine returns_bind (nearestCentroid_returns shape codebook sub row hc) (fun best hbest => ?_)
  refine returns_bind (returns_element _ _) (fun count hcount => ?_)
  refine returns_bind (returns_assign _ _ _) (fun counts hcounts => ?_)
  obtain ⟨count',hcount',hle⟩ := h.counts best.1 hbest
  rw [hcount,Option.some.injEq] at hcount'
  rw [←hcount'] at hle
  refine returns_bind (addSubvector_returns laws (by omega) hr.2
    (fun coordinate hcoordinate => h.sums best.1 coordinate count hcoordinate hcount))
    (fun sums hsums => ?_)
  refine returns_bind (returns_any _) (fun distances _ => ?_)
  obtain ⟨hlt,hset⟩ := hcounts
  rw [hset]
  refine ⟨fun centroid hcentroid => ?_,fun centroid coordinate number hcoordinate hnumber => ?_⟩
  · by_cases he : centroid=best.1
    · exact ⟨count+1,by rw [he,List.getElem?_set_self hlt],by omega⟩
    · obtain ⟨number,hnumber,hle⟩ := h.counts centroid hcentroid
      exact ⟨number,by rw [List.getElem?_set_ne (Ne.symm he)]; exact hnumber,by omega⟩
  · by_cases he : centroid=best.1
    · rw [he,List.getElem?_set_self hlt,Option.some.injEq] at hnumber
      have hown := hsums.own coordinate hcoordinate
      rwa [if_pos hcoordinate,hnumber,←he] at hown
    · rw [List.getElem?_set_ne (Ne.symm he)] at hnumber
      rw [hsums.other centroid coordinate hcoordinate he]
      exact h.sums centroid coordinate number hcoordinate hnumber

/-- The mean of coordinates is made of coordinates. -/
theorem average_returns {shape : Shape} {state : Sums S D} {done centroid count : ℕ}
    (laws : Averages unit summed most) (h : Added summed shape done state) (hpos : 0<count)
    (hcount : state.counts[centroid]?=some count) :
    Returns (average shape state centroid count) (fun row => ∀ value∈row,unit value) := by
  refine (Ends.mapM _ (fun coordinate hc => ?_)).mono (fun _ h => h) (fun row hr => hr.2)
  rw [List.mem_range] at hc
  refine returns_bind (returns_element _ _) (fun sum hsum => ?_)
  obtain ⟨sum',hsum',hs⟩ := h.sums centroid coordinate count hc hcount
  rw [hsum,Option.some.injEq] at hsum'
  exact laws.mean count sum hpos (hsum' ▸ hs)

/-- Moving a centroid keeps the codebook and the sums. -/
theorem moveCentroid_returns {shape : Shape} {samples : List (List S)} {sub length done : ℕ}
    (laws : Averages unit summed most) (hs : ∀ point∈samples,∀ value∈point,unit value)
    {state : List S×Sums S D} (hb : Book unit length state.1) (h : Added summed shape done state.2)
    (centroid : ℕ) : Returns (moveCentroid shape samples sub state centroid) (fun after =>
      Book unit length after.1 ∧ Added summed shape done after.2) := by
  refine returns_bind (returns_element _ _) (fun count hcount => ?_)
  split
  · refine returns_bind (returns_element _ _) (fun point hp => ?_)
    refine returns_bind (subvector_returns shape (hs point (List.mem_of_getElem? hp)) sub)
      (fun row hr => ?_)
    refine returns_bind (copyInto_returns hb hr.2) (fun codebook hcodebook => ?_)
    exact returns_bind (returns_any _) (fun distances _ => ⟨hcodebook,⟨h.counts,h.sums⟩⟩)
  · rename_i hne
    refine returns_bind (average_returns laws h (Nat.pos_of_ne_zero hne) hcount) (fun row hr => ?_)
    exact returns_bind (copyInto_returns hb hr) (fun codebook hcodebook => ⟨hcodebook,h⟩)

/-- Nothing has been added up yet. -/
theorem added_zero {shape : Shape} (laws : Averages unit summed most) (distances : List S) :
    Added summed shape 0 (⟨List.replicate (shape.centroids*shape.subdimension) 0,
      List.replicate shape.centroids 0,distances⟩ : Sums S D) := by
  refine ⟨fun centroid hlt => ⟨0,List.getElem?_replicate_of_lt hlt,le_rfl⟩,
    fun centroid coordinate count hcoordinate hcount => ?_⟩
  have hlt : centroid<shape.centroids := by
    have h := (List.getElem?_eq_some_iff.mp hcount).1
    rwa [List.length_replicate] at h
  rw [List.getElem?_replicate_of_lt hlt,Option.some.injEq] at hcount
  exact ⟨0,List.getElem?_replicate_of_lt (cell_lt hlt hcoordinate),hcount ▸ laws.start⟩

/-- An iteration keeps the codebook. -/
theorem lloydIteration_returns {shape : Shape} {samples : List (List S)} {sub length : ℕ}
    (laws : Averages unit summed most) (hc : 0<shape.centroids)
    (hs : ∀ point∈samples,∀ value∈point,unit value) (hmost : samples.length≤ most)
    {state : List S×List S} (hb : Book unit length state.1) :
    Returns (lloydIteration shape samples sub state) (fun after => Book unit length after.1) := by
  have hsums : Returns ((List.range samples.length).foldlM
      (assignSample shape samples state.1 sub) (⟨List.replicate (shape.centroids*shape.subdimension) 0,
        List.replicate shape.centroids 0,state.2⟩ : Sums S D)) (Added summed shape samples.length) :=
    Ends.foldlM_range samples.length (Added summed shape) (added_zero laws state.2) (fun sample sums hlt h =>
      assignSample_returns laws hc hs (hlt.trans_le hmost) h sample)
  refine returns_bind hsums (fun sums hadded => ?_)
  refine returns_bind (Ends.foldlM_range shape.centroids (fun _ (after : List S×Sums S D) =>
    Book unit length after.1 ∧ Added summed shape samples.length after.2) ⟨hb,hadded⟩
    (fun centroid after _ h => moveCentroid_returns laws hs h.1 h.2 centroid)) (fun after h => ?_)
  exact h.1

/-- Training a subspace keeps the codebook. -/
theorem trainSubspace_returns {shape : Shape} {choices : Choices D} {iterations : ℕ}
    {samples : List (List S)} {length : ℕ} (laws : Averages unit summed most) (hc : 0<shape.centroids)
    (hs : ∀ point∈samples,∀ value∈point,unit value) (hmost : samples.length≤ most)
    {codebook : List S} (hb : Book unit length codebook) (sub : ℕ) :
    Returns (trainSubspace shape choices iterations samples codebook sub) (Book unit length) := by
  refine returns_bind (seedCentroids_returns hs hb) (fun seeded hseeded => ?_)
  refine returns_bind (Ends.foldlM_range iterations (fun _ (after : List S×List S) =>
    Book unit length after.1) hseeded
    (fun _ state _ h => lloydIteration_returns laws hc hs hmost h)) (fun after h => ?_)
  exact h

/-- Packed centroid numbers of the first subspaces. -/
structure Packing (shape : Shape) (done : ℕ) (packed : List UInt8) : Prop where
  /-- The bytes of a vector. -/
  length_eq : packed.length=(shape.subquantizers*shape.bits+7)/8
  /-- Nothing is packed yet behind them. -/
  number_lt : number packed<2^(done*shape.bits)
  /-- Every number is one of a centroid. -/
  below : ∀ sub,sub<done → number packed>>>(sub*shape.bits)%2^shape.bits<shape.centroids

/-- The field behind a number. -/
theorem shift_append {low high offset bits : ℕ} (hlow : low<2^offset) (hhigh : high<2^bits) :
    (low|||high<<<offset)>>>offset%2^bits=high := by
  rw [Nat.or_comm,←Nat.shiftLeft_add_eq_or_of_lt hlow,Nat.shiftLeft_eq,Nat.shiftRight_eq_div_pow,
    Nat.mul_comm,Nat.mul_add_div (Nat.two_pow_pos offset),Nat.div_eq_of_lt hlow,Nat.add_zero,
    Nat.mod_eq_of_lt hhigh]

/-- The fields of a number do not change when another one is put behind it. -/
theorem shift_append_low {low high offset bits start : ℕ} (hlow : low<2^offset)
    (hstart : start+bits≤offset) :
    (low|||high<<<offset)>>>start%2^bits=low>>>start%2^bits := by
  have hsplit : 2^offset=2^start*(2^bits*2^(offset-start-bits)) := by
    rw [←pow_add,←pow_add]
    congr 1
    omega
  have hproduct : high*2^offset=2^start*(2^bits*(2^(offset-start-bits)*high)) := by
    rw [hsplit]
    ring
  rw [Nat.or_comm,←Nat.shiftLeft_add_eq_or_of_lt hlow,Nat.shiftLeft_eq,Nat.shiftRight_eq_div_pow,
    Nat.shiftRight_eq_div_pow,hproduct,Nat.mul_add_div (Nat.two_pow_pos start),Nat.mul_add_mod]

/-- Two fields fill the bits of both. -/
theorem append_lt {low high offset bits : ℕ} (hlow : low<2^offset) (hhigh : high<2^bits) :
    (low|||high<<<offset)<2^(offset+bits) := by
  rw [Nat.or_comm,←Nat.shiftLeft_add_eq_or_of_lt hlow,Nat.shiftLeft_eq,pow_add]
  have hm := Nat.mul_le_mul_right (2^offset) (Nat.succ_le_of_lt hhigh)
  rw [Nat.succ_mul,Nat.mul_comm (2^bits)] at hm
  omega

/-- A vector is encoded as numbers of centroids. -/
theorem encodeVector_returns {shape : Shape} {codebook point : List S} (hc : 0<shape.centroids)
    (hle : shape.centroids≤2^shape.bits) (hb : 0<shape.bits) (hb8 : shape.bits≤8) :
    Returns (encodeVector shape codebook point) (Packing shape shape.subquantizers) := by
  refine Ends.foldlM_range shape.subquantizers (Packing shape)
    ⟨List.length_replicate,by rw [number_replicate]; positivity,fun sub h => absurd h (Nat.not_lt_zero sub)⟩
    (fun sub packed hsub h => ?_)
  refine returns_bind (returns_any _) (fun subvector _ => ?_)
  refine returns_bind (nearestCentroid_returns shape codebook sub subvector hc) (fun best hbest => ?_)
  have hfit : sub*shape.bits+shape.bits≤8*packed.length := by
    have hm := Nat.mul_le_mul_right shape.bits (Nat.succ_le_of_lt hsub)
    rw [Nat.succ_mul] at hm
    rw [h.length_eq]
    omega
  have hbits := hbest.trans_le hle
  obtain ⟨result,hresult,hlength,hnumber⟩ := packCode_ok hb hb8 hfit hbits
  change Returns (packCode packed (sub*shape.bits) shape.bits best.1) _
  rw [hresult]
  refine ⟨hlength.trans h.length_eq,?_,fun other hother => ?_⟩
  · rw [hnumber,Nat.succ_mul]
    exact append_lt h.number_lt hbits
  · rw [hnumber]
    by_cases he : other=sub
    · rw [he,shift_append h.number_lt hbits]
      exact hbest
    · have hlt : other<sub := by omega
      have hm := Nat.mul_le_mul_right shape.bits (Nat.succ_le_of_lt hlt)
      rw [Nat.succ_mul] at hm
      rw [shift_append_low h.number_lt hm]
      exact h.below other hlt

/-- One of several rows of the same length. -/
theorem flatten_row {α : Type} {rows : List (List α)} {length : ℕ}
    (h : ∀ row∈rows,row.length=length) {position : ℕ} {row : List α}
    (hrow : rows[position]?=some row) :
    (rows.flatten.drop (position*length)).take length=row := by
  induction rows generalizing position with
  | nil => simp at hrow
  | cons first rows ih =>
    have hfirst := h first List.mem_cons_self
    cases position with
    | zero =>
      rw [List.getElem?_cons_zero,Option.some.injEq] at hrow
      rw [Nat.zero_mul,List.drop_zero,List.flatten_cons,List.take_append_of_le_length hfirst.ge,
        List.take_of_length_le hfirst.le,hrow]
    | succ position =>
      rw [List.getElem?_cons_succ] at hrow
      have hdrop : (position+1)*length=first.length+position*length := by
        rw [hfirst,Nat.succ_mul,Nat.add_comm]
      rw [hdrop,List.flatten_cons,List.drop_length_add_append]
      exact ih (fun row hr => h row (List.mem_cons_of_mem _ hr)) hrow

/-- What is known of a trained quantizer. -/
structure Trained (unit : S → Prop) (embeddings : List (List S)) (model : ProductQuantizerModel S) :
    Prop where
  /-- All embeddings have its dimension. -/
  dimensions : ∀ embedding∈embeddings,embedding.length=model.dimension
  /-- There are coordinates. -/
  dimension_pos : 0< model.dimension
  /-- The subspaces divide the coordinates among them. -/
  dimension_eq : model.subquantizers*model.subdimension=model.dimension
  /-- There is a subspace. -/
  subquantizers_pos : 0< model.subquantizers
  /-- A centroid number has a bit. -/
  bits_pos : 0< model.bits
  /-- A centroid number fits a byte. -/
  bits_le : model.bits≤8
  /-- A subspace has a centroid. -/
  centroids_pos : 0< model.centroids
  /-- Centroid numbers can tell the centroids apart. -/
  centroids_le : model.centroids≤2^model.bits
  /-- The centroids are made of coordinates. -/
  codebook : Book unit (model.subquantizers*model.centroids*model.subdimension) model.codebook
  /-- Every embedding has its packed codes. -/
  codes_length : model.codes.length=embeddings.length*model.bytesPerVector
  /-- The centroid numbers are those of centroids. -/
  codes_valid : ∀ node,node<embeddings.length → ValidCodes model (model.packed node)

omit [WideNumber D] in
/-- There is a sample, and there are no more than embeddings. -/
theorem sampleIds_length {choices : Choices D} (hc : ∀ count,(choices.shuffle count).length=count)
    {count maxTrainingSamples : ℕ} (hm : maxTrainingSamples≠0) (hpos : 0<count) :
    0<(sampleIds choices count maxTrainingSamples).length ∧
      (sampleIds choices count maxTrainingSamples).length≤ count := by
  unfold sampleIds
  split
  · rw [List.length_take,hc]
    omega
  · rw [List.length_range]
    omega

omit [WideNumber D] in
/-- The checks of the embeddings. -/
theorem checkEmbeddings_returns (dimension : ℕ) (embeddings : List (List S)) :
    Returns (embeddings.forM (checkEmbedding dimension)) (fun _ =>
      ∀ embedding∈embeddings,embedding.length=dimension ∧
        ∀ value∈embedding,isFinite value ∧ abs value≤1) := by
  induction embeddings with
  | nil =>
    intro embedding h
    cases h
  | cons embedding embeddings ih =>
    change Returns (checkEmbedding dimension embedding>>=fun _ =>
      embeddings.forM (checkEmbedding dimension)) _
    have hone : Returns (checkEmbedding dimension embedding) (fun _ =>
        embedding.length=dimension ∧ ∀ value∈embedding,isFinite value ∧ abs value≤1) := by
      refine (throwIf_ends (fun _ => trivial)).bind (fun _ hl => ?_)
      refine (throwIf_ends (fun _ => trivial)).mono (fun _ h => h) (fun _ hv => ?_)
      rw [not_not] at hl hv
      exact ⟨hl,hv⟩
    refine returns_bind hone (fun _ h => ih.mono (fun _ h => h) (fun _ hrest => ?_))
    rw [List.forall_mem_cons]
    exact ⟨h,hrest⟩

/-- Training gives a quantizer whose centroids are made of coordinates and
whose codes are numbers of centroids. -/
theorem trainProductQuantizer_returns {choices : Choices D} {embeddings : List (List S)}
    {subquantizers bits iterations maxTrainingSamples : ℕ} (laws : Averages unit summed most)
    (hc : ∀ count,(choices.shuffle count).length=count)
    (hunit : ∀ value,isFinite value → VectorNumber.abs value≤1 → unit value) (hmost : embeddings.length≤ most) :
    Returns (trainProductQuantizer choices embeddings subquantizers bits iterations maxTrainingSamples)
      (fun model => Trained unit embeddings model ∧ model.subquantizers=subquantizers ∧
        model.bits=bits) := by
  refine (throwIf_ends (fun _ => trivial)).bind (fun _ hempty => ?_)
  refine returns_bind (returns_element _ _) (fun front hfront => ?_)
  refine (throwIf_ends (fun _ => trivial)).bind (fun _ hdimension => ?_)
  refine (throwIf_ends (fun _ => trivial)).bind (fun _ hbits => ?_)
  refine (throwIf_ends (fun _ => trivial)).bind (fun _ hpositive => ?_)
  refine returns_bind (checkEmbeddings_returns _ _) (fun _ hchecked => ?_)
  simp only [not_or,not_not] at hdimension hbits hpositive
  have hcount : 0<embeddings.length := List.length_pos_of_mem (List.mem_of_getElem? hfront)
  obtain ⟨hspos,hsle⟩ := sampleIds_length hc hpositive.2 hcount
  have hsamples : Returns ((sampleIds choices embeddings.length maxTrainingSamples).mapM
      (element embeddings)) _ := Ends.mapM _ (fun sample _ =>
        (returns_element embeddings sample).mono (fun _ h => h)
          (fun point hp => show ∀ value∈point,unit value from fun value hv =>
            have h := (hchecked point (List.mem_of_getElem? hp)).2 value hv
            hunit value h.1 h.2))
  refine returns_bind hsamples (fun samples hs => ?_)
  have hcentroids : 0< min (2^bits) samples.length := by
    have hp := Nat.two_pow_pos bits
    omega
  have hbook : Returns ((List.range subquantizers).foldlM (trainSubspace
      ⟨subquantizers,bits,min (2^bits) samples.length,front.length/subquantizers⟩ choices iterations
      samples) (List.replicate (subquantizers*min (2^bits) samples.length*
        (front.length/subquantizers)) 0))
      (Book unit (subquantizers*min (2^bits) samples.length*(front.length/subquantizers))) := by
    refine Ends.foldlM_range subquantizers (fun _ => Book unit _)
      ⟨List.length_replicate,fun value hv => ?_⟩ (fun sub codebook _ h =>
        trainSubspace_returns laws hcentroids hs.2 (by omega) h sub)
    rw [List.eq_of_mem_replicate hv]
    exact laws.zero
  refine returns_bind hbook (fun codebook hcodebook => ?_)
  refine returns_bind (Ends.mapM embeddings (fun point _ => encodeVector_returns hcentroids
    (Nat.min_le_left _ _) (Nat.pos_of_ne_zero hbits.1) (show bits≤8 by omega))) (fun codes hcodes => ?_)
  have hrow : ∀ row∈codes,row.length=(subquantizers*bits+7)/8 := fun row hr =>
    (hcodes.2 row hr).length_eq
  refine ⟨⟨fun embedding he => (hchecked embedding he).1,Nat.pos_of_ne_zero hdimension.1,
    Nat.mul_div_cancel' (Nat.dvd_of_mod_eq_zero hdimension.2.2),Nat.pos_of_ne_zero hdimension.2.1,
    Nat.pos_of_ne_zero hbits.1,show bits≤8 by omega,hcentroids,Nat.min_le_left _ _,hcodebook,?_,
    fun node hnode => ?_⟩,rfl,rfl⟩
  · change codes.flatten.length=_
    rw [List.length_flatten,List.eq_replicate_of_mem (l := codes.map List.length)
      (a := (subquantizers*bits+7)/8) (by simpa using hrow)]
    simp [hcodes.1,ProductQuantizerView.bytesPerVector]
  · have hlt : node<codes.length := hcodes.1.symm ▸ hnode
    have hpacked := flatten_row hrow (List.getElem?_eq_getElem hlt)
    unfold ValidCodes ProductQuantizerView.packed ProductQuantizerView.bytesPerVector
    dsimp only
    rw [hpacked]
    exact (hcodes.2 _ (List.getElem_mem hlt)).below

end Results

section Singles

/-- A sum of so many coordinates. -/
structure CoordinateSum (count : ℕ) (sum : Double) : Prop where
  /-- There are not more of them than the sum can tell apart. -/
  count_lt : count<2^53
  /-- The sum is finite. -/
  finite : sum.Finite
  /-- Every coordinate adds at most one. -/
  abs_le : |sum.value|≤ count

/-- Sums of coordinates in double precision have means that are coordinates. -/
theorem single_averages : Averages (S := Single) Unit CoordinateSum (2^53-1) where
  zero := ⟨by decide,by rw [Binary.value_zero,abs_zero]; exact zero_le_one⟩
  start := ⟨by norm_num,finite_zero,by rw [Binary.value_zero,abs_zero,Nat.cast_zero]⟩
  add := by
    intro count sum value hcount hsum hv
    have hlt : count+1<2^53 := by omega
    obtain ⟨hw,hwv⟩ := widen_value hv.1
    have hexact : double.Exact ((count+1 : ℕ) : ℚ) := by
      have h := double_exact_natCast (count+1) 0 hlt (by norm_num)
      rwa [pow_zero,Nat.mul_one] at h
    have hround : (sum+value.convert).Finite ∧ |(sum+value.convert).value|≤((count+1 : ℕ) : ℚ) := by
      rw [Binary.add_eq hsum.finite hw,hwv]
      refine Binary.round_abs_le _ hexact ((abs_add_le _ _).trans ?_)
      rw [Nat.cast_add,Nat.cast_one]
      exact add_le_add hsum.abs_le hv.2
    exact ⟨hlt,hround.1,hround.2⟩
  mean := by
    intro count sum hpos hsum
    have hexact : double.Exact (count : ℚ) := by
      have h := double_exact_natCast count 0 hsum.count_lt (by norm_num)
      rwa [pow_zero,Nat.mul_one] at h
    obtain ⟨hfinite,hvalue⟩ := Binary.ofNat_exact hexact
    have hcount : (0 : ℚ)<count := Nat.cast_pos.mpr hpos
    have hmean : (sum/Binary.ofNat count).Finite ∧ |(sum/Binary.ofNat count).value|≤1 := by
      rw [Binary.div_eq hsum.finite hfinite (by rw [hvalue]; exact hcount.ne'),hvalue]
      refine Binary.round_abs_le _ double_exact_one ?_
      rw [abs_div,abs_of_pos hcount,div_le_one hcount]
      exact hsum.abs_le
    exact convert_abs_le hmean.1 single_exact_one hmean.2

/-- Training in single precision. -/
theorem trainProductQuantizer_single {choices : Choices Double} {embeddings : List Embedding}
    {subquantizers bits iterations maxTrainingSamples : ℕ}
    (hc : ∀ count,(choices.shuffle count).length=count) (hmost : embeddings.length<2^32) :
    Returns (trainProductQuantizer choices embeddings subquantizers bits iterations maxTrainingSamples)
      (fun model => Trained Unit embeddings model ∧ model.subquantizers=subquantizers ∧
        model.bits=bits) := by
  refine trainProductQuantizer_returns single_averages hc (fun value hf hle => ?_) (by omega)
  have hfinite : value.Finite := of_decide_eq_true hf
  obtain ⟨h1,hv1⟩ := single_one
  have habs : value.abs≤1 := hle
  rw [((Binary.finite_abs value).mpr hfinite).le_iff h1,Binary.value_abs,hv1] at habs
  exact ⟨hfinite,habs⟩

end Singles

end Leann.Training
