import Leann.Training

/-!
# Training succeeds

Where distances between vectors of coordinates can be computed, nothing else
can go wrong in `train_product_quantizer`: every access lies inside its
vector, and every average is one of at least one sample.
-/

namespace Leann.TrainingSuccess

open Exceptions Outcomes PackedBits ProductQuantizer Training

section Rows

variable {S D : Type} [WideNumber D] [VectorNumber S D] {unit : S → Prop} {shape : Shape}
  {dimension : ℕ}

/-- Distances between vectors of coordinates can be computed. -/
def Measurable (unit : S → Prop) : Prop :=
  ∀ point centroid : List S,point.length=centroid.length → (∀ value∈point,unit value) →
    (∀ value∈centroid,unit value) → ∃ distance,squaredDistance point centroid=.ok distance

/-- Vectors of a dimension, made of coordinates. -/
structure Vectors (unit : S → Prop) (dimension : ℕ) (vectors : List (List S)) : Prop where
  /-- Every vector has the dimension. -/
  length_eq : ∀ vector∈vectors,vector.length=dimension
  /-- It is made of coordinates. -/
  unit : ∀ vector∈vectors,∀ value∈vector,unit value

omit [WideNumber D] [VectorNumber S D] in
/-- The subvectors of a vector. -/
theorem subvector_ends (hd : shape.subquantizers*shape.subdimension=dimension) {point : List S}
    (hl : point.length=dimension) (hp : ∀ value∈point,unit value) {sub : ℕ}
    (hsub : sub<shape.subquantizers) : Ends (shape.subvector point sub) (fun _ => False) (fun row =>
      row=(point.drop (sub*shape.subdimension)).take shape.subdimension ∧
        row.length=shape.subdimension ∧ ∀ value∈row,unit value) := by
  have hm := Nat.mul_le_mul_right shape.subdimension (Nat.succ_le_of_lt hsub)
  rw [Nat.succ_mul,hd] at hm
  have hrange : sub*shape.subdimension+shape.subdimension≤point.length := hl ▸ hm
  rw [Shape.subvector,subspan_ok hrange]
  refine ⟨rfl,?_,fun value hv => hp value (List.mem_of_mem_drop (List.mem_of_mem_take hv))⟩
  rw [List.length_take,List.length_drop]
  omega

/-- The place of a centroid lies inside the codebook. -/
theorem row_range {sub centroid : ℕ} (hsub : sub<shape.subquantizers)
    (hc : centroid<shape.centroids) :
    shape.row sub centroid+shape.subdimension≤ shape.bookLength := by
  have hm := Nat.mul_le_mul_right shape.subdimension (Nat.succ_le_of_lt (cell_lt hsub hc))
  rwa [Nat.succ_mul] at hm

omit [WideNumber D] [VectorNumber S D] in
/-- The coordinates of a centroid. -/
theorem centroid_ends {codebook : List S} (hb : Book unit shape.bookLength codebook)
    {sub centroid : ℕ} (hsub : sub<shape.subquantizers) (hc : centroid<shape.centroids) :
    Ends (subspan codebook (shape.row sub centroid) shape.subdimension) (fun _ => False) (fun row =>
      row=(codebook.drop (shape.row sub centroid)).take shape.subdimension ∧
        row.length=shape.subdimension ∧ ∀ value∈row,unit value) := by
  have hrange := row_range hsub hc
  rw [←hb.1] at hrange
  rw [subspan_ok hrange]
  refine ⟨rfl,?_,fun value hv => hb.2 value (List.mem_of_mem_drop (List.mem_of_mem_take hv))⟩
  rw [List.length_take,List.length_drop]
  omega

omit [WideNumber D] [VectorNumber S D] in
/-- A centroid is put into its place. -/
theorem copyInto_ends {codebook row : List S} (hb : Book unit shape.bookLength codebook)
    (hl : row.length=shape.subdimension) (hr : ∀ value∈row,unit value) {sub centroid : ℕ}
    (hsub : sub<shape.subquantizers) (hc : centroid<shape.centroids) :
    Ends (copyInto codebook (shape.row sub centroid) row) (fun _ => False)
      (Book unit shape.bookLength) := by
  have hbook := @copyInto_returns _ _ _ (shape.row sub centroid) _ _ hb hr
  have hrange := row_range hsub hc
  rw [←hl,←hb.1] at hrange
  rw [copyInto,if_pos hrange] at hbook ⊢
  exact hbook

end Rows

section Steps

variable {S D : Type} [WideNumber D] [VectorNumber S D] {unit : S → Prop} {shape : Shape}
  {dimension sub : ℕ} {samples : List (List S)} {codebook : List S} {choices : Choices D}

/-- The nearest centroid can be found. -/
theorem nearestCentroid_ends (hm : Measurable unit) (hb : Book unit shape.bookLength codebook)
    (hc : 0<shape.centroids) (hsub : sub<shape.subquantizers) {subvector : List S}
    (hl : subvector.length=shape.subdimension) (hv : ∀ value∈subvector,unit value) :
    Ends (nearestCentroid shape codebook sub subvector) (fun _ => False)
      (fun best => best.1<shape.centroids) := by
  refine @Ends.and _ _ _ _ (fun _ => True) _ _ ?_
    (nearestCentroid_returns shape codebook sub subvector hc) |>.mono (fun _ h => h) (fun _ h => h.2)
  refine Ends.foldlM_range shape.centroids (fun _ _ => True) trivial (fun centroid best hlt _ => ?_)
  refine (centroid_ends hb hsub hlt).bind (fun row hrow => ?_)
  obtain ⟨distance,hd⟩ := hm subvector row (hl.trans hrow.2.1.symm) hv hrow.2.2
  rw [hd]
  exact trivial

/-- Distances can be brought up to date. -/
theorem updateDistances_ends (hm : Measurable unit)
    (hd : shape.subquantizers*shape.subdimension=dimension) (hs : Vectors unit dimension samples)
    (hsub : sub<shape.subquantizers) {previous distances : List S}
    (hl : previous.length=shape.subdimension) (hp : ∀ value∈previous,unit value)
    (hdistances : distances.length=samples.length) :
    Ends (updateDistances shape samples sub previous distances) (fun _ => False)
      (fun state : List S×D => state.1.length=samples.length) := by
  refine Ends.foldlM_range samples.length (fun _ (state : List S×D) =>
    state.1.length=samples.length) hdistances (fun sample state hlt hstate => ?_)
  refine (element_ends hlt).bind (fun point hpoint => ?_)
  have hmem := List.mem_of_getElem? hpoint
  refine (subvector_ends hd (hs.length_eq point hmem) (hs.unit point hmem) hsub).bind
    (fun row hrow => ?_)
  obtain ⟨distance,hdistance⟩ := hm row previous (hrow.2.1.trans hl.symm) hrow.2.2 hp
  refine Ends.after hdistance ?_
  refine (element_ends (hstate.symm ▸ hlt)).bind (fun known _ => ?_)
  refine (assign_ends (hstate.symm ▸ hlt) _).bind (fun after hafter => ?_)
  change after.length=samples.length
  rw [hafter,List.length_set,hstate]

/-- A target falls in the share of a sample. -/
theorem pickSample_lt (distances : List S) (target : D) (sample : ℕ) {default count : ℕ}
    (hdefault : default<count) (hcount : sample+distances.length≤ count) :
    pickSample distances target sample default<count := by
  induction distances generalizing target sample with
  | nil => exact hdefault
  | cons distance distances ih =>
    rw [List.length_cons] at hcount
    unfold pickSample
    split
    · omega
    · exact ih _ _ (by omega)

/-- A centroid can be chosen. -/
theorem seedCentroid_ends (hm : Measurable unit)
    (hd : shape.subquantizers*shape.subdimension=dimension) (hs : Vectors unit dimension samples)
    (hsub : sub<shape.subquantizers) (hpos : 0<samples.length) {state : List S×List S}
    (hb : Book unit shape.bookLength state.1) (hl : state.2.length=samples.length) {centroid : ℕ}
    (hc : centroid<shape.centroids) :
    Ends (seedCentroid shape choices samples sub state centroid) (fun _ => False)
      (fun after => Book unit shape.bookLength after.1 ∧ after.2.length=samples.length) := by
  refine (centroid_ends hb hsub (show centroid-1<shape.centroids by omega)).bind
    (fun previous hprevious => ?_)
  refine (updateDistances_ends (D := D) hm hd hs hsub hprevious.2.1 hprevious.2.2 hl).bind
    (fun updated hupdated => ?_)
  have hfallback := Nat.mod_lt centroid hpos
  have hselected : (if (0 : D)<updated.2 then pickSample updated.1
      (choices.target sub centroid updated.2) 0 (centroid%samples.length)
      else centroid%samples.length)<samples.length := by
    split
    · exact pickSample_lt _ _ _ hfallback (by omega)
    · exact hfallback
  refine (element_ends hselected).bind (fun point hpoint => ?_)
  have hmem := List.mem_of_getElem? hpoint
  refine (subvector_ends hd (hs.length_eq point hmem) (hs.unit point hmem) hsub).bind
    (fun row hrow => ?_)
  exact (copyInto_ends hb hrow.2.1 hrow.2.2 hsub hc).bind (fun codebook hcodebook =>
    ⟨hcodebook,hupdated⟩)

/-- The centroids of a subspace can be chosen. -/
theorem seedCentroids_ends (hm : Measurable unit)
    (hd : shape.subquantizers*shape.subdimension=dimension) (hs : Vectors unit dimension samples)
    (hsub : sub<shape.subquantizers) (hfirst : choices.first sub<samples.length)
    (hc : 0<shape.centroids) (hb : Book unit shape.bookLength codebook) :
    Ends (seedCentroids shape choices samples sub codebook) (fun _ => False)
      (fun after => Book unit shape.bookLength after.1 ∧ after.2.length=samples.length) := by
  refine (element_ends hfirst).bind (fun point hpoint => ?_)
  have hmem := List.mem_of_getElem? hpoint
  refine (subvector_ends hd (hs.length_eq point hmem) (hs.unit point hmem) hsub).bind
    (fun row hrow => ?_)
  refine (copyInto_ends hb hrow.2.1 hrow.2.2 hsub hc).bind (fun codebook hcodebook => ?_)
  refine Ends.foldlM _ (fun _ (after : List S×List S) =>
    Book unit shape.bookLength after.1 ∧ after.2.length=samples.length)
    ⟨hcodebook,List.length_replicate⟩ (fun done centroid rest state hsplit hstate => ?_)
  have hmem : centroid∈List.range' 1 (shape.centroids-1) := by
    rw [hsplit]
    simp
  rw [List.mem_range'_1] at hmem
  exact seedCentroid_ends hm hd hs hsub (Nat.zero_lt_of_lt hfirst) hstate.1 hstate.2 (by omega)

/-- The sizes of what an iteration adds up. -/
structure Sized (shape : Shape) (samples : ℕ) (state : Sums S D) : Prop where
  /-- Every centroid has sums of its coordinates. -/
  sums : state.sums.length=shape.centroids*shape.subdimension
  /-- Every centroid has a count. -/
  counts : state.counts.length=shape.centroids
  /-- Every sample has a distance. -/
  distances : state.distances.length=samples

/-- A subvector can be added to the sums of a centroid. -/
theorem addSubvector_ends {sums : List D} {subvector : List S} {best : ℕ}
    (hbest : best<shape.centroids) (hl : subvector.length=shape.subdimension)
    (hsums : sums.length=shape.centroids*shape.subdimension) :
    Ends (addSubvector shape subvector best sums) (fun _ => False)
      (fun after => after.length=shape.centroids*shape.subdimension) := by
  refine Ends.foldlM_range shape.subdimension (fun _ (after : List D) =>
    after.length=shape.centroids*shape.subdimension) hsums (fun coordinate state hlt hstate => ?_)
  have hcell := cell_lt hbest hlt
  rw [←hstate] at hcell
  refine (element_ends (hl.symm ▸ hlt)).bind (fun value _ => ?_)
  refine (element_ends hcell).bind (fun sum _ => ?_)
  refine (assign_ends hcell _).mono (fun _ h => h) (fun after hafter => ?_)
  rw [hafter,List.length_set,hstate]

/-- A sample can be assigned. -/
theorem assignSample_ends (hm : Measurable unit)
    (hd : shape.subquantizers*shape.subdimension=dimension) (hs : Vectors unit dimension samples)
    (hsub : sub<shape.subquantizers) (hc : 0<shape.centroids)
    (hb : Book unit shape.bookLength codebook) {state : Sums S D}
    (hstate : Sized shape samples.length state) {sample : ℕ} (hlt : sample<samples.length) :
    Ends (assignSample shape samples codebook sub state sample) (fun _ => False)
      (Sized shape samples.length) := by
  refine (element_ends hlt).bind (fun point hpoint => ?_)
  have hmem := List.mem_of_getElem? hpoint
  refine (subvector_ends hd (hs.length_eq point hmem) (hs.unit point hmem) hsub).bind
    (fun row hrow => ?_)
  refine (nearestCentroid_ends hm hb hc hsub hrow.2.1 hrow.2.2).bind (fun best hbest => ?_)
  have hcount : best.1<state.counts.length := hstate.counts.symm ▸ hbest
  refine (element_ends hcount).bind (fun count _ => ?_)
  refine (assign_ends hcount _).bind (fun counts hcounts => ?_)
  refine (addSubvector_ends hbest hrow.2.1 hstate.sums).bind (fun sums hsums => ?_)
  refine (assign_ends (hstate.distances.symm ▸ hlt) _).bind (fun distances hdistances => ?_)
  rw [hcounts,hdistances]
  exact ⟨hsums,List.length_set.trans hstate.counts,List.length_set.trans hstate.distances⟩

omit [WideNumber D] in
/-- The greatest element is an element. -/
theorem maxElement_lt {values : List S} (hpos : 0<values.length) : maxElement values<values.length := by
  have hfold : ∀ (positions : List ℕ) (best : ℕ),best<values.length →
      (∀ position∈positions,position<values.length) → positions.foldl (fun best position =>
        if values.getD best 0<values.getD position 0 then position else best) best<values.length := by
    intro positions
    induction positions with
    | nil => exact fun best hbest _ => hbest
    | cons position positions ih =>
      intro best hbest hall
      rw [List.forall_mem_cons] at hall
      rw [List.foldl_cons]
      refine ih _ ?_ hall.2
      split
      · exact hall.1
      · exact hbest
  exact hfold _ 0 hpos (fun position hp => List.mem_range.mp hp)

/-- The mean of the samples of a centroid. -/
theorem average_ends {state : Sums S D} (hstate : Sized shape samples.length state) {centroid : ℕ}
    (hc : centroid<shape.centroids) (count : ℕ) :
    Ends (average shape state centroid count) (fun _ => False)
      (fun row => row.length=shape.subdimension) := by
  refine (@Ends.mapM _ _ _ _ _ (fun _ => True) _ (fun coordinate hcoordinate => ?_)).mono
    (fun _ h => h) (fun row hrow => hrow.1.trans List.length_range)
  have hcell := cell_lt hc (List.mem_range.mp hcoordinate)
  rw [←hstate.sums] at hcell
  exact (element_ends hcell).bind (fun sum _ => trivial)

/-- A centroid can be moved. -/
theorem moveCentroid_ends {summed : ℕ → D → Prop} {most done : ℕ} (laws : Averages unit summed most)
    (hd : shape.subquantizers*shape.subdimension=dimension) (hs : Vectors unit dimension samples)
    (hsub : sub<shape.subquantizers) (hpos : 0<samples.length) {state : List S×Sums S D}
    (hb : Book unit shape.bookLength state.1) (hadded : Added summed shape done state.2)
    (hstate : Sized shape samples.length state.2) {centroid : ℕ} (hc : centroid<shape.centroids) :
    Ends (moveCentroid shape samples sub state centroid) (fun _ => False) (fun after =>
      (Book unit shape.bookLength after.1 ∧ Added summed shape done after.2) ∧
        Sized shape samples.length after.2) := by
  have hknown := @moveCentroid_returns _ _ _ _ _ _ _ _ _ sub _ _ laws hs.unit _ hb hadded centroid
  refine (@Ends.and _ _ _ _ (fun after => Sized shape samples.length after.2) _ _ ?_ hknown).mono
    (fun _ h => h) (fun _ h => h.symm)
  refine (element_ends (hstate.counts.symm ▸ hc)).bind (fun count hcount => ?_)
  split
  · have hfarthest := maxElement_lt (hstate.distances.symm ▸ hpos)
    rw [hstate.distances] at hfarthest
    refine (element_ends hfarthest).bind (fun point hpoint => ?_)
    have hmem := List.mem_of_getElem? hpoint
    refine (subvector_ends hd (hs.length_eq point hmem) (hs.unit point hmem) hsub).bind
      (fun row hrow => ?_)
    refine (copyInto_ends hb hrow.2.1 hrow.2.2 hsub hc).bind (fun codebook _ => ?_)
    refine (assign_ends (hstate.distances.symm ▸ hfarthest) _).bind (fun distances hdistances => ?_)
    rw [hdistances]
    exact ⟨hstate.sums,hstate.counts,List.length_set.trans hstate.distances⟩
  · rename_i hne
    have hunits := average_returns laws hadded (Nat.pos_of_ne_zero hne) hcount
    refine ((average_ends hstate hc count).and hunits).bind (fun row hrow => ?_)
    exact (copyInto_ends hb hrow.1 hrow.2 hsub hc).bind (fun codebook _ => hstate)

/-- An iteration succeeds. -/
theorem lloydIteration_ends {summed : ℕ → D → Prop} {most : ℕ} (laws : Averages unit summed most)
    (hm : Measurable unit) (hd : shape.subquantizers*shape.subdimension=dimension)
    (hs : Vectors unit dimension samples) (hsub : sub<shape.subquantizers)
    (hpos : 0<samples.length) (hmost : samples.length≤ most) (hc : 0<shape.centroids)
    {state : List S×List S} (hb : Book unit shape.bookLength state.1)
    (hl : state.2.length=samples.length) :
    Ends (lloydIteration shape samples sub state) (fun _ => False)
      (fun after => Book unit shape.bookLength after.1 ∧ after.2.length=samples.length) := by
  have hzero : Sized shape samples.length (⟨List.replicate (shape.centroids*shape.subdimension) 0,
      List.replicate shape.centroids 0,state.2⟩ : Sums S D) :=
    ⟨List.length_replicate,List.length_replicate,hl⟩
  have hassign := @Ends.foldlM_range _ _ (fun _ => False)
    (assignSample (D := D) shape samples state.1 sub) samples.length _
    (fun done sums => Added summed shape done sums ∧ Sized shape samples.length sums) ⟨added_zero laws state.2,hzero⟩
    (fun sample sums hlt h => ((assignSample_ends hm hd hs hsub hc hb h.2 hlt).and
      (assignSample_returns laws hc hs.unit (hlt.trans_le hmost) h.1 sample)).mono
        (fun _ hf => hf) (fun _ h => h.symm))
  refine hassign.bind (fun sums hsums => ?_)
  have hmove := @Ends.foldlM_range _ _ (fun _ => False) (moveCentroid shape samples sub)
    shape.centroids (state.1,sums) (fun _ (after : List S×Sums S D) =>
      (Book unit shape.bookLength after.1 ∧ Added summed shape samples.length after.2) ∧
        Sized shape samples.length after.2) ⟨⟨hb,hsums.1⟩,hsums.2⟩
    (fun centroid after hlt h => moveCentroid_ends laws hd hs hsub hpos h.1.1 h.1.2 h.2 hlt)
  exact hmove.bind (fun after hafter => ⟨hafter.1.1,hafter.2.distances⟩)

/-- A subspace can be trained. -/
theorem trainSubspace_ends {summed : ℕ → D → Prop} {most : ℕ} (laws : Averages unit summed most)
    (hm : Measurable unit) (hd : shape.subquantizers*shape.subdimension=dimension)
    (hs : Vectors unit dimension samples) (hsub : sub<shape.subquantizers)
    (hfirst : choices.first sub<samples.length) (hmost : samples.length≤ most)
    (hc : 0<shape.centroids) (hb : Book unit shape.bookLength codebook) (iterations : ℕ) :
    Ends (trainSubspace shape choices iterations samples codebook sub) (fun _ => False)
      (Book unit shape.bookLength) := by
  refine (seedCentroids_ends hm hd hs hsub hfirst hc hb).bind (fun seeded hseeded => ?_)
  have hloop := @Ends.foldlM_range _ _ (fun _ => False) (fun state (_ : ℕ) =>
    lloydIteration shape samples sub state) iterations seeded
    (fun _ (after : List S×List S) => Book unit shape.bookLength after.1 ∧
      after.2.length=samples.length) hseeded (fun _ state _ h =>
      lloydIteration_ends laws hm hd hs hsub (Nat.zero_lt_of_lt hfirst) hmost hc h.1 h.2)
  exact hloop.bind (fun after hafter => hafter.1)

end Steps

section Training

variable {S D : Type} [WideNumber D] [VectorNumber S D] {unit : S → Prop} {shape : Shape}
  {choices : Choices D} {embeddings : List (List S)}

/-- Packed numbers of the first subspaces. -/
structure Holds (shape : Shape) (best : ℕ → ℕ) (done : ℕ) (packed : List UInt8) : Prop where
  /-- The bytes of a vector. -/
  length_eq : packed.length=(shape.subquantizers*shape.bits+7)/8
  /-- Nothing is packed behind them. -/
  number_lt : number packed<2^(done*shape.bits)
  /-- Every number can be read again. -/
  fields : ∀ sub<done,number packed>>>(sub*shape.bits)%2^shape.bits=best sub

/-- The bits of a field lie inside the bytes of a vector. -/
theorem field_range {sub : ℕ} (hsub : sub<shape.subquantizers) :
    sub*shape.bits+shape.bits≤8*((shape.subquantizers*shape.bits+7)/8) := by
  have hm := Nat.mul_le_mul_right shape.bits (Nat.succ_le_of_lt hsub)
  rw [Nat.succ_mul] at hm
  omega

/-- One more number is packed. -/
theorem Holds.extend {best : ℕ → ℕ} {packed : List UInt8} {sub : ℕ} (h : Holds shape best sub packed)
    (hb : 0<shape.bits) (hb8 : shape.bits≤8) (hsub : sub<shape.subquantizers)
    (hbest : best sub<2^shape.bits) :
    Ends (packCode packed (sub*shape.bits) shape.bits (best sub)) (fun _ => False)
      (Holds shape best (sub+1)) := by
  have hfit := field_range hsub
  rw [←h.length_eq] at hfit
  obtain ⟨result,hresult,hlength,hnumber⟩ := packCode_ok hb hb8 hfit hbest
  rw [hresult]
  refine ⟨hlength.trans h.length_eq,?_,fun other hother => ?_⟩
  · rw [hnumber,Nat.succ_mul]
    exact append_lt h.number_lt hbest
  · rw [hnumber]
    by_cases he : other=sub
    · rw [he,shift_append h.number_lt hbest]
    · have hlt : other<sub := by omega
      have hm := Nat.mul_le_mul_right shape.bits (Nat.succ_le_of_lt hlt)
      rw [Nat.succ_mul] at hm
      rw [shift_append_low h.number_lt hm]
      exact h.fields other hlt

/-- The nearest centroids of a vector are packed. -/
theorem encodeVector_ends {dimension : ℕ} {codebook point : List S} {best : ℕ → ℕ×S}
    (hd : shape.subquantizers*shape.subdimension=dimension) (hl : point.length=dimension)
    (hb : 0<shape.bits) (hb8 : shape.bits≤8)
    (hbest : ∀ sub<shape.subquantizers,nearestCentroid shape codebook sub
      ((point.drop (sub*shape.subdimension)).take shape.subdimension)=.ok (best sub))
    (hlt : ∀ sub<shape.subquantizers,(best sub).1<2^shape.bits) :
    Ends (encodeVector shape codebook point) (fun _ => False)
      (Holds shape (fun sub => (best sub).1) shape.subquantizers) := by
  refine Ends.foldlM_range shape.subquantizers (Holds shape (fun sub => (best sub).1))
    ⟨List.length_replicate,by rw [number_replicate]; positivity,fun sub h => absurd h (Nat.not_lt_zero sub)⟩
    (fun sub packed hsub h => ?_)
  refine (@subvector_ends _ (fun _ => True) _ _ hd _ hl (fun _ _ => trivial) _ hsub).bind
    (fun row hrow => ?_)
  rw [hrow.1]
  refine Ends.after (hbest sub hsub) ?_
  exact h.extend hb hb8 hsub (hlt sub hsub)

/-- What the random choices can be. -/
structure PossibleChoices (choices : Choices D) (count samples : ℕ) : Prop where
  /-- A shuffle rearranges. -/
  shuffle_perm : (choices.shuffle count).Perm (List.range count)
  /-- The first centroid of a subspace is a sample. -/
  first_lt : ∀ sub,choices.first sub<samples

omit [WideNumber D] in
/-- The samples are embeddings. -/
theorem sampleIds_lt {count samples maxTrainingSamples : ℕ}
    (hc : PossibleChoices choices count samples) :
    (sampleIds choices count maxTrainingSamples).length=min maxTrainingSamples count ∧
      ∀ id∈sampleIds choices count maxTrainingSamples,id<count := by
  have hlength := hc.shuffle_perm.length_eq
  rw [List.length_range] at hlength
  unfold sampleIds
  split
  · refine ⟨by rw [List.length_take,hlength],fun id hid => ?_⟩
    exact List.mem_range.mp (hc.shuffle_perm.mem_iff.mp (List.mem_of_mem_take hid))
  · refine ⟨by rw [List.length_range]; omega,fun id hid => List.mem_range.mp hid⟩

/-- A quantizer before the vectors are encoded. -/
structure Prepared (unit : S → Prop) (embeddings : List (List S)) (shape : Shape)
    (model : ProductQuantizerModel S) : Prop where
  /-- The sizes are those of the training. -/
  sizes : model.subquantizers=shape.subquantizers ∧ model.bits=shape.bits ∧
    model.centroids=shape.centroids ∧ model.subdimension=shape.subdimension
  /-- The subspaces divide the coordinates among them. -/
  dimension_eq : shape.subquantizers*shape.subdimension=model.dimension
  /-- The codebook is made of coordinates. -/
  codebook : Book unit shape.bookLength model.codebook
  /-- Every vector is encoded. -/
  codes : ∃ rows,embeddings.mapM (encodeVector shape model.codebook)=.ok rows ∧
    model.codes=rows.flatten

/-- Training succeeds where every vector can be encoded. -/
theorem trainProductQuantizer_ends {summed : ℕ → D → Prop} {most dimension subquantizers bits
    iterations maxTrainingSamples : ℕ} (laws : Averages unit summed most) (hm : Measurable unit)
    (hunit : ∀ value,unit value → VectorNumber.isFinite value ∧ VectorNumber.abs value≤1)
    (he : Vectors unit dimension embeddings) (hne : embeddings≠[]) (hpos : 0<dimension)
    (hsub : 0<subquantizers) (hdvd : subquantizers∣dimension) (hb : 0<bits) (hb8 : bits≤8)
    (hi : 0< iterations) (hmax : 0< maxTrainingSamples) (hmost : embeddings.length≤ most)
    (hc : PossibleChoices choices embeddings.length (min maxTrainingSamples embeddings.length))
    (hencode : ∀ shape : Shape,∀ codebook,shape.subquantizers*shape.subdimension=dimension →
      shape.bits=bits → 0<shape.centroids → shape.centroids≤2^shape.bits →
      Book unit shape.bookLength codebook → ∀ point∈embeddings,
        Ends (encodeVector shape codebook point) (fun _ => False) (fun _ => True)) :
    Ends (trainProductQuantizer choices embeddings subquantizers bits iterations maxTrainingSamples)
      (fun _ => False) (Prepared unit embeddings ⟨subquantizers,bits,
        min (2^bits) (min maxTrainingSamples embeddings.length),dimension/subquantizers⟩) := by
  have hcount : 0<embeddings.length := List.length_pos_iff.mpr hne
  obtain ⟨hlength,hids⟩ := @sampleIds_lt _ _ _ _ maxTrainingSamples hc
  refine (throwIf_ends (fun h => absurd (List.isEmpty_iff.mp h) hne)).bind (fun _ _ => ?_)
  refine (element_ends hcount).bind (fun front hfront => ?_)
  have hdimension := he.length_eq front (List.mem_of_getElem? hfront)
  rw [hdimension]
  have hmod : dimension%subquantizers=0 := Nat.mod_eq_zero_of_dvd hdvd
  refine (throwIf_ends (fun h => by omega)).bind (fun _ _ => ?_)
  refine (throwIf_ends (fun h => by omega)).bind (fun _ _ => ?_)
  refine (throwIf_ends (fun h => by omega)).bind (fun _ _ => ?_)
  refine (@Ends.forM _ _ _ _ (fun _ => True) embeddings (fun embedding hmem => ?_)).bind (fun _ _ => ?_)
  · have hall : ∀ value∈embedding,VectorNumber.isFinite value ∧ VectorNumber.abs value≤1 :=
      fun value hv => hunit value (he.unit embedding hmem value hv)
    refine (throwIf_ends (fun h => absurd (he.length_eq embedding hmem) h)).bind (fun _ _ => ?_)
    exact (throwIf_ends (fun h => absurd hall h)).mono (fun _ h => h) (fun _ _ => trivial)
  refine (@Ends.mapM _ _ _ _ _ (fun point => point∈embeddings) _ (fun id hid =>
    (element_ends (hids id hid)).mono (fun _ h => h) (fun point hp => List.mem_of_getElem? hp))).bind
    (fun samples hsamples => ?_)
  obtain ⟨hcounted,hmem⟩ := hsamples
  rw [hlength] at hcounted
  rw [hcounted]
  have hs : Vectors unit dimension samples :=
    ⟨fun point hp => he.length_eq point (hmem point hp),fun point hp => he.unit point (hmem point hp)⟩
  have hcentroids : 0< min (2^bits) (min maxTrainingSamples embeddings.length) := by
    have hp := Nat.two_pow_pos bits
    omega
  have hd : subquantizers*(dimension/subquantizers)=dimension := Nat.mul_div_cancel' hdvd
  have hbook := @Ends.foldlM_range _ _ (fun _ => False) (trainSubspace
    ⟨subquantizers,bits,min (2^bits) (min maxTrainingSamples embeddings.length),
      dimension/subquantizers⟩ choices iterations samples) subquantizers (List.replicate
        (subquantizers*min (2^bits) (min maxTrainingSamples embeddings.length)*
          (dimension/subquantizers)) 0) (fun _ => Book unit (Shape.bookLength
      ⟨subquantizers,bits,min (2^bits) (min maxTrainingSamples embeddings.length),
        dimension/subquantizers⟩))
    ⟨List.length_replicate,fun value hv => List.eq_of_mem_replicate hv ▸ laws.zero⟩
    (fun sub codebook hlt h => trainSubspace_ends laws hm hd hs hlt (hcounted.symm ▸ hc.first_lt sub)
      (by omega) hcentroids h iterations)
  refine hbook.bind (fun codebook hcodebook => ?_)
  have hrows := @Ends.mapM _ _ _ (fun _ => False) _ (fun _ => True) embeddings
    (fun point hp => hencode _ codebook hd rfl hcentroids (Nat.min_le_left _ _) hcodebook point hp)
  obtain ⟨rows,hrows,-⟩ := hrows.returns
  refine Ends.after hrows ?_
  exact ⟨⟨rfl,rfl,rfl,rfl⟩,hd,hcodebook,rows,hrows,rfl⟩

end Training

end Leann.TrainingSuccess
