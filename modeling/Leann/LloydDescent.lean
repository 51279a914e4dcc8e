import Leann.Clustering
import Leann.QuantizerExact

/-!
# Lloyd's iterations never make a codebook worse

In exact arithmetic the counts and sums of an iteration are those of the
clusters of nearest samples, so that every centroid with samples moves to their
mean. Centroids without samples go to the farthest samples, which no other
centroid notices, and the total distance to the nearest centroids never grows.
-/

namespace Leann.LloydDescent

open Exceptions Outcomes ProductQuantizer Training TrainingSuccess ExactNumbers QuantizerExact

section Definitions

variable {K : Type} [Field K]

/-- A number of the field. -/
def Number (value : Extended K) : Prop := ∃ number,value=.finite number

/-- The number at a place of a vector. -/
def entry (values : List (Extended K)) (place : ℕ) : K := (values.getD place (.finite 0)).number

/-- A coordinate of a sample in a subspace. -/
def coordinate (shape : Shape) (sub : ℕ) (samples : List (List (Extended K))) (sample i : ℕ) : K :=
  entry (samples.getD sample []) (sub*shape.subdimension+i)

/-- A coordinate of a centroid of a subspace. -/
def center (shape : Shape) (sub : ℕ) (codebook : List (Extended K)) (centroid i : ℕ) : K :=
  entry codebook (shape.row sub centroid+i)

variable [LinearOrder K]

/-- The sum over the samples of the squared distance to the nearest centroid. -/
def objective (shape : Shape) (hc : 0<shape.centroids) (sub : ℕ) (samples : List (List (Extended K)))
    (codebook : List (Extended K)) : K :=
  Clustering.objective (Finset.range shape.subdimension) (Finset.nonempty_range_iff.mpr hc.ne')
    (Finset.range samples.length) (coordinate shape sub samples) (center shape sub codebook)

/-- The state after some iterations. -/
def iterated (shape : Shape) (sub : ℕ) (samples : List (List (Extended K)))
    (state : List (Extended K)×List (Extended K)) (iterations : ℕ) :
    Except Fault (List (Extended K)×List (Extended K)) :=
  (List.range iterations).foldlM (fun state _ =>
    lloydIteration (D := Extended K) shape samples sub state) state

end Definitions

section Numbers

variable {K : Type} [Field K]

/-- The number at a place is the one that is there. -/
theorem entry_eq {values : List (Extended K)} (h : ∀ value∈values,Number value) {place : ℕ}
    (hp : place<values.length) : values[place]?=some (.finite (entry values place)) := by
  obtain ⟨number,hnumber⟩ := h values[place] (List.getElem_mem hp)
  rw [entry,List.getD_eq_getElem?_getD,List.getElem?_eq_getElem hp,hnumber]
  rfl

theorem entry_of {values : List (Extended K)} {place : ℕ} {number : K}
    (h : values[place]?=some (.finite number)) : entry values place=number := by
  rw [entry,List.getD_eq_getElem?_getD,h]
  rfl

/-- A sum over a list is one over its places. -/
theorem sum_places (values : List K) :
    values.sum=∑ i∈Finset.range values.length,values.getD i 0 := by
  induction values with
  | nil => rfl
  | cons value values ih =>
    rw [List.sum_cons,List.length_cons,Finset.sum_range_succ',ih,add_comm]
    rfl

variable [LinearOrder K]

/-- The squared distance of two parts of vectors, coordinate by coordinate. -/
theorem distance_exact {point book : List (Extended K)} (hp : ∀ value∈point,Number value)
    (hb : ∀ value∈book,Number value) {start begin width : ℕ} (hstart : start+width≤point.length)
    (hbegin : begin+width≤book.length) :
    squaredDistance (D := Extended K) ((point.drop start).take width) ((book.drop begin).take width)=
      .ok (Extended.finite (Clustering.gap (Finset.range width) (fun i => entry point (start+i))
        (fun i => entry book (begin+i)))) := by
  have hpart {values : List (Extended K)} {offset : ℕ} (h : ∀ value∈values,Number value)
      (ho : offset+width≤values.length) : (values.drop offset).take width=
        exact ((List.range width).map (fun i => entry values (offset+i))) := by
    apply List.ext_getElem?
    intro i
    rw [getElem?_exact,List.getElem?_map]
    by_cases hi : i<width
    · rw [List.getElem?_take_of_lt hi,List.getElem?_drop,entry_eq h (by omega),
        List.getElem?_range hi]
      rfl
    · rw [List.getElem?_eq_none (by rw [List.length_take]; omega),
        List.getElem?_eq_none (by rw [List.length_range]; omega)]
      rfl
  rw [hpart hp hstart,hpart hb hbegin,squaredDistance_exact (by simp)]
  congr 2
  rw [squares,sum_places,Clustering.gap]
  have hl : (List.zipWith (fun first second => (first-second)^2)
      ((List.range width).map (fun i => entry point (start+i)))
      ((List.range width).map (fun i => entry book (begin+i)))).length=width := by simp
  rw [hl]
  refine Finset.sum_congr rfl (fun i hi => ?_)
  rw [List.getD_eq_getElem?_getD,List.getElem?_eq_getElem (by rw [hl]; exact Finset.mem_range.mp hi)]
  simp

/-- Sums of numbers have means that are numbers. -/
theorem number_averages (most : ℕ) :
    Averages (Number (K := K)) (fun _ sum => Number (K := K) sum) most where
  zero := ⟨0,rfl⟩
  start := ⟨0,rfl⟩
  add := by
    intro count sum value _ hsum hvalue
    obtain ⟨total,htotal⟩ := hsum
    obtain ⟨number,hnumber⟩ := hvalue
    rw [htotal,hnumber]
    exact ⟨total+number,rfl⟩
  mean := by
    intro count sum _ hsum
    obtain ⟨total,htotal⟩ := hsum
    rw [htotal]
    exact ⟨total/count,rfl⟩

/-- Distances between vectors of numbers can be computed. -/
theorem number_measurable : Measurable (Number (K := K)) := by
  intro point centroid hl hp hc
  have h := @distance_exact K _ _ point centroid hp hc 0 0 point.length (by omega) (by omega)
  rw [List.drop_zero,List.drop_zero,List.take_of_length_le le_rfl,List.take_of_length_le hl.ge] at h
  exact ⟨_,h⟩

/-- Coordinates are numbers. -/
theorem coordinate_number {value : Extended K} (h : Coordinate value) : Number value := by
  obtain ⟨number,hnumber,_⟩ := h
  exact ⟨number,hnumber⟩

end Numbers

section Gathering

variable {K : Type} [Field K] [LinearOrder K] {shape : Shape} {x : ℕ → ℕ → K} {nearest : ℕ → ℕ}

/-- What is added up of the samples so far is what belongs to each centroid. -/
structure Gathered (shape : Shape) (x : ℕ → ℕ → K) (nearest : ℕ → ℕ) (done : ℕ)
    (state : Sums (Extended K) (Extended K)) : Prop where
  /-- The samples of every centroid are counted. -/
  counts : ∀ kind<shape.centroids,
    state.counts[kind]?=some ((Finset.range done).filter (nearest ·=kind)).card
  /-- Their coordinates are summed. -/
  sums : ∀ kind<shape.centroids,∀ i<shape.subdimension,
    state.sums[kind*shape.subdimension+i]?=
      some (.finite (∑ s∈(Finset.range done).filter (nearest ·=kind),x s i))

/-- A subvector is added to the sums of its centroid, coordinate by coordinate. -/
theorem addSubvector_exact {sums subvector : List (Extended K)} {total : ℕ → ℕ → K} {added : ℕ → K}
    {best : ℕ} (hbest : best<shape.centroids)
    (hv : ∀ i<shape.subdimension,subvector[i]?=some (.finite (added i)))
    (hsums : ∀ kind<shape.centroids,∀ i<shape.subdimension,
      sums[kind*shape.subdimension+i]?=some (.finite (total kind i))) :
    Returns (addSubvector shape subvector best sums) (fun after =>
      ∀ kind<shape.centroids,∀ i<shape.subdimension,after[kind*shape.subdimension+i]?=
        some (.finite (total kind i+if best=kind then added i else 0))) := by
  refine (Ends.foldlM_range shape.subdimension (fun done (after : List (Extended K)) =>
    ∀ kind<shape.centroids,∀ i<shape.subdimension,after[kind*shape.subdimension+i]?=
      some (.finite (total kind i+if best=kind ∧ i<done then added i else 0)))
    (fun kind hkind i hi => ?_) (fun done after hdone h => ?_)).mono (fun _ h => h)
      (fun after h kind hkind i hi => ?_)
  · rw [hsums kind hkind i hi,if_neg (fun h => absurd h.2 (Nat.not_lt_zero i)),add_zero]
  · refine returns_bind (returns_element subvector done) (fun value hvalue => ?_)
    refine returns_bind (returns_element after _) (fun sum hsum => ?_)
    refine (returns_assign _ _ _).mono (fun _ h => h) (fun final hfinal kind hkind i hi => ?_)
    rw [hv done hdone,Option.some.injEq] at hvalue
    rw [h best hbest done hdone,Option.some.injEq,if_neg (fun h => absurd h.2 (lt_irrefl done)),
      add_zero] at hsum
    rw [hfinal.2,←hvalue,←hsum]
    by_cases he : best=kind ∧ i=done
    · rw [←he.1,he.2,List.getElem?_set_self hfinal.1,if_pos ⟨rfl,Nat.lt_succ_self done⟩]
      rfl
    · have hne : best*shape.subdimension+done≠kind*shape.subdimension+i := fun hc =>
        he ⟨(cell_inj hdone hi hc).1,(cell_inj hdone hi hc).2.symm⟩
      have hsame : (best=kind ∧ i<done+1) ↔ best=kind ∧ i<done := by omega
      rw [List.getElem?_set_ne hne,h kind hkind i hi]
      simp only [hsame]
  · rw [h kind hkind i hi]
    simp only [hi,and_true]

omit [Field K] [LinearOrder K] in
/-- A result is the result. -/
theorem returns_self {α : Type} (computed : Except Fault α) :
    Returns computed (fun value => computed=.ok value) := by
  cases computed with
  | ok value => exact rfl
  | error fault => trivial

/-- A sample is added to what belongs to its nearest centroid. -/
theorem assignSample_exact {samples : List (List (Extended K))} {codebook : List (Extended K)}
    {sub sample : ℕ} {state : Sums (Extended K) (Extended K)} (h : Gathered shape x nearest sample state)
    (hlt : nearest sample<shape.centroids)
    (hnearest : ∀ point subvector,samples[sample]?=some point →
      shape.subvector point sub=.ok subvector →
      (∀ i<shape.subdimension,subvector[i]?=some (.finite (x sample i))) ∧
      ∀ best,nearestCentroid shape codebook sub subvector=.ok best → best.1=nearest sample) :
    Returns (assignSample shape samples codebook sub state sample)
      (Gathered shape x nearest (sample+1)) := by
  refine returns_bind (returns_element samples sample) (fun point hpoint => ?_)
  refine returns_bind (returns_self (shape.subvector point sub)) (fun part hpart => ?_)
  obtain ⟨hvalues,hbest⟩ := hnearest point part hpoint hpart
  refine returns_bind ((returns_self (nearestCentroid shape codebook sub part)).mono (fun _ h => h)
    hbest) (fun best hb => ?_)
  refine returns_bind (returns_element _ _) (fun count hcount => ?_)
  refine returns_bind (returns_assign _ _ _) (fun counts hcounts => ?_)
  rw [hb] at hcount hcounts ⊢
  refine returns_bind (addSubvector_exact hlt hvalues h.sums) (fun sums hsums => ?_)
  refine returns_bind (returns_any _) (fun distances _ => ⟨fun kind hkind => ?_,fun kind hkind i hi => ?_⟩)
  · have hcard : ((Finset.range (sample+1)).filter (nearest ·=kind)).card=
        ((Finset.range sample).filter (nearest ·=kind)).card+if nearest sample=kind then 1 else 0 := by
      rw [Finset.card_filter,Finset.card_filter,Finset.sum_range_succ]
    rw [hcard]
    change counts[kind]?=_
    rw [hcounts.2]
    rw [h.counts _ hlt,Option.some.injEq] at hcount
    by_cases he : nearest sample=kind
    · rw [if_pos he,←he,List.getElem?_set_self hcounts.1,hcount]
    · rw [if_neg he,List.getElem?_set_ne he,h.counts kind hkind,Nat.add_zero]
  · rw [Finset.sum_filter,Finset.sum_range_succ,←Finset.sum_filter]
    exact hsums kind hkind i hi

/-- Nothing belongs to any centroid yet. -/
theorem gathered_zero (distances : List (Extended K)) : Gathered shape x nearest 0
    (⟨List.replicate (shape.centroids*shape.subdimension) 0,
      List.replicate shape.centroids 0,distances⟩ : Sums (Extended K) (Extended K)) := by
  refine ⟨fun kind hkind => ?_,fun kind hkind i hi => ?_⟩
  · rw [Finset.range_zero,Finset.filter_empty,Finset.card_empty]
    exact List.getElem?_replicate_of_lt hkind
  · rw [Finset.range_zero,Finset.filter_empty,Finset.sum_empty]
    exact List.getElem?_replicate_of_lt (cell_lt hkind hi)

end Gathering

section Moving

variable {K : Type} [Field K] [LinearOrder K] {shape : Shape} {x : ℕ → ℕ → K} {nearest : ℕ → ℕ}
  {count : ℕ}

/-- The samples that belong to a centroid. -/
def members (nearest : ℕ → ℕ) (count kind : ℕ) : Finset ℕ :=
  (Finset.range count).filter (nearest ·=kind)

omit [Field K] [LinearOrder K] in
/-- The places of a codebook that a row is copied to, and all others. -/
theorem copyInto_places {values row after : List (Extended K)} {offset : ℕ}
    (h : copyInto values offset row=.ok after) (place : ℕ) :
    after[place]?=if offset≤place ∧ place<offset+row.length then row[place-offset]?
      else values[place]? := by
  unfold copyInto at h
  split at h
  · rename_i hle
    rw [Except.ok.injEq] at h
    have hfront : (values.take offset).length=offset := by
      rw [List.length_take]
      omega
    rw [←h]
    by_cases hlow : place<offset
    · rw [if_neg (by omega),List.append_assoc,List.getElem?_append_left (by omega),
        List.getElem?_take_of_lt hlow]
    by_cases hhigh : place<offset+row.length
    · rw [if_pos ⟨by omega,hhigh⟩,List.getElem?_append_left (by rw [List.length_append]; omega),
        List.getElem?_append_right (by omega),hfront]
    · rw [if_neg (by omega),List.getElem?_append_right (by rw [List.length_append]; omega),
        List.length_append,hfront,List.getElem?_drop]
      congr 1
      omega
  · cases h

/-- The centroids moved so far that have samples are at the mean of these. -/
def Moved (shape : Shape) (sub : ℕ) (x : ℕ → ℕ → K) (nearest : ℕ → ℕ) (count done : ℕ)
    (codebook : List (Extended K)) : Prop :=
  ∀ kind<done,0<(members nearest count kind).card → ∀ i<shape.subdimension,
    codebook[shape.row sub kind+i]?=
      some (.finite ((∑ s∈members nearest count kind,x s i)/(members nearest count kind).card))

omit [LinearOrder K] in
/-- Another centroid that is written leaves the moved ones where they are. -/
theorem Moved.written {sub done : ℕ} {codebook row after : List (Extended K)}
    (h : Moved shape sub x nearest count done codebook) (hl : row.length=shape.subdimension)
    (hafter : copyInto codebook (shape.row sub done) row=.ok after)
    (hrow : 0<(members nearest count done).card → ∀ i<shape.subdimension,
      row[i]?=some (.finite ((∑ s∈members nearest count done,x s i)/(members nearest count done).card))) :
    Moved shape sub x nearest count (done+1) after := by
  intro kind hkind hpos i hi
  rw [copyInto_places hafter,hl]
  by_cases he : kind=done
  · rw [he,if_pos (by omega),Nat.add_sub_cancel_left]
    exact hrow (he ▸ hpos) i hi
  · have hlt : kind<done := by omega
    have hrange := Nat.mul_le_mul_right shape.subdimension
      (show sub*shape.centroids+kind+1≤ sub*shape.centroids+done by omega)
    rw [Nat.succ_mul] at hrange
    rw [if_neg (by unfold Shape.row; omega)]
    exact h kind hlt hpos i hi

/-- The mean of the samples of a centroid. -/
theorem average_exact {state : Sums (Extended K) (Extended K)} {kind : ℕ}
    (h : Gathered shape x nearest count state) (hkind : kind<shape.centroids) (number : ℕ) :
    Returns (average shape state kind number) (fun row => row.length=shape.subdimension ∧
      ∀ i<shape.subdimension,row[i]?=
        some (.finite ((∑ s∈members nearest count kind,x s i)/number))) := by
  refine (@Ends.mapM_forall₂ _ _ _ (fun _ => True) _ (fun i value => value=Extended.finite
    ((∑ s∈members nearest count kind,x s i)/number)) (List.range shape.subdimension)
    (fun i hi => ?_)).mono (fun _ h => h) (fun row hrow => ⟨?_,fun i hi => ?_⟩)
  · refine returns_bind (returns_element _ _) (fun sum hsum => ?_)
    rw [h.sums kind hkind i (List.mem_range.mp hi),Option.some.injEq] at hsum
    rw [←hsum]
    exact rfl
  · rw [←hrow.length_eq,List.length_range]
  · have hl := hrow.length_eq
    rw [List.length_range] at hl
    have hat := (List.forall₂_iff_get.mp hrow).2 i (by rw [List.length_range]; exact hi) (hl ▸ hi)
    rw [List.getElem?_eq_getElem (hl ▸ hi)]
    simpa using hat

/-- Moving one centroid. -/
theorem moveCentroid_exact {samples : List (List (Extended K))} {sub kind : ℕ}
    {state : List (Extended K)×Sums (Extended K) (Extended K)}
    (h : Gathered shape x nearest count state.2) (hm : Moved shape sub x nearest count kind state.1)
    (hkind : kind<shape.centroids) :
    Returns (moveCentroid shape samples sub state kind) (fun after =>
      Gathered shape x nearest count after.2 ∧ Moved shape sub x nearest count (kind+1) after.1) := by
  refine returns_bind (returns_element _ _) (fun number hnumber => ?_)
  rw [h.counts kind hkind,Option.some.injEq] at hnumber
  split
  · rename_i hzero
    -- no sample belongs to this centroid, so nothing is said about its new place
    refine returns_bind (returns_any _) (fun point _ => ?_)
    refine returns_bind (@subvector_returns _ (fun _ => True) shape point (fun _ _ => trivial) sub)
      (fun row hrow => ?_)
    refine returns_bind (returns_self _) (fun codebook hcodebook => ?_)
    refine returns_bind (returns_any _) (fun distances _ => ⟨⟨h.counts,h.sums⟩,?_⟩)
    refine hm.written hrow.1 hcodebook (fun hpos => absurd hpos ?_)
    rw [members,hnumber,hzero]
    exact lt_irrefl 0
  · refine returns_bind (average_exact h hkind number) (fun row hrow => ?_)
    refine returns_bind (returns_self _) (fun codebook hcodebook => ⟨h,?_⟩)
    refine hm.written hrow.1 hcodebook (fun _ i hi => ?_)
    rw [hrow.2 i hi,members,hnumber]

end Moving

section Iterations

variable {K : Type} [Field K] [LinearOrder K] {shape : Shape} {sub dimension : ℕ}
  {samples : List (List (Extended K))}

/-- The nearest centroid of a sample is the first of the least squared distances. -/
theorem sample_nearest (hd : shape.subquantizers*shape.subdimension=dimension)
    (hs : Vectors Number dimension samples) (hsub : sub<shape.subquantizers)
    (hc : 0<shape.centroids) {codebook : List (Extended K)} (hb : Book Number shape.bookLength codebook)
    {sample : ℕ} (hsample : sample<samples.length) :
    ∃ part best,shape.subvector (samples.getD sample []) sub=.ok part ∧
      (∀ i<shape.subdimension,part[i]?=some (.finite (coordinate shape sub samples sample i))) ∧
      nearestCentroid shape codebook sub part=.ok best ∧
      Lowest (fun kind => Clustering.gap (Finset.range shape.subdimension)
        (coordinate shape sub samples sample) (center shape sub codebook kind)) shape.centroids
        best.1 := by
  have hat : samples.getD sample []=samples[sample] := by
    rw [List.getD_eq_getElem?_getD,List.getElem?_eq_getElem hsample]
    rfl
  have hmem : samples.getD sample []∈samples := hat ▸ List.getElem_mem hsample
  have hrange := Nat.mul_le_mul_right shape.subdimension (Nat.succ_le_of_lt hsub)
  rw [Nat.succ_mul,hd,←hs.length_eq _ hmem] at hrange
  have hunit := hs.unit _ hmem
  obtain ⟨best,hbest,hlowest⟩ := @nearestCentroid_lowest K _ _ shape codebook
    (((samples.getD sample []).drop (sub*shape.subdimension)).take shape.subdimension) sub _ hc
    (fun kind hkind => by
      have hrow := row_range hsub hkind
      rw [←hb.1] at hrow
      exact ⟨_,subspan_ok hrow,distance_exact hunit hb.2 hrange hrow⟩)
  refine ⟨_,best,subspan_ok hrange,fun i hi => ?_,hbest,hlowest⟩
  rw [List.getElem?_take_of_lt hi,List.getElem?_drop]
  exact entry_eq hunit (by omega)

/-- After an iteration the total distance to the nearest centroids is not greater. -/
theorem lloydIteration_exact [IsStrictOrderedRing K]
    (hd : shape.subquantizers*shape.subdimension=dimension) (hs : Vectors Number dimension samples)
    (hsub : sub<shape.subquantizers) (hc : 0<shape.centroids)
    {state : List (Extended K)×List (Extended K)} (hb : Book Number shape.bookLength state.1) :
    Returns (lloydIteration (D := Extended K) shape samples sub state) (fun after =>
      objective shape hc sub samples after.1≤objective shape hc sub samples state.1) := by
  choose! part best hpart hvalues hbest hlowest using
    fun (sample : ℕ) (h : sample<samples.length) => sample_nearest hd hs hsub hc hb h
  have hassign : Returns ((List.range samples.length).foldlM (assignSample shape samples state.1 sub)
      (⟨List.replicate (shape.centroids*shape.subdimension) 0,List.replicate shape.centroids 0,
        state.2⟩ : Sums (Extended K) (Extended K)))
      (Gathered shape (coordinate shape sub samples) (fun sample => (best sample).1)
        samples.length) := by
    refine Ends.foldlM_range samples.length _ (gathered_zero state.2) (fun sample sums hlt h => ?_)
    refine assignSample_exact h (hlowest sample hlt).best_lt (fun point row hpoint hrow => ?_)
    have hat : samples.getD sample []=point := by
      rw [List.getD_eq_getElem?_getD,hpoint]
      rfl
    have hsame := (hpart sample hlt).symm.trans (hat ▸ hrow)
    rw [Except.ok.injEq] at hsame
    rw [←hsame]
    refine ⟨hvalues sample hlt,fun found hfound => ?_⟩
    rw [hbest sample hlt,Except.ok.injEq] at hfound
    rw [hfound]
  refine returns_bind hassign (fun sums hsums => ?_)
  refine returns_bind (Ends.foldlM_range shape.centroids
    (fun done (after : List (Extended K)×Sums (Extended K) (Extended K)) =>
      Gathered shape (coordinate shape sub samples) (fun sample => (best sample).1) samples.length
        after.2 ∧ Moved shape sub (coordinate shape sub samples) (fun sample => (best sample).1)
        samples.length done after.1) ⟨hsums,fun kind hkind => absurd hkind (Nat.not_lt_zero kind)⟩
    (fun kind after hkind h => moveCentroid_exact h.1 h.2 hkind)) (fun after hafter => ?_)
  refine @Clustering.objective_le _ _ _ _ _ _ _ _ _ _ _ _ _ _ (Finset.nonempty_range_iff.mpr hc.ne')
    (fun sample => (best sample).1) (fun s hs' => ?_) (fun s hs' kind hkind => ?_)
    (fun kind hkind hpos i hi => ?_)
  · exact Finset.mem_range.mpr (hlowest s (Finset.mem_range.mp hs')).best_lt
  · exact (hlowest s (Finset.mem_range.mp hs')).le_all kind (Finset.mem_range.mp hkind)
  · have hmean := hafter.2 kind (Finset.mem_range.mp hkind) hpos i (Finset.mem_range.mp hi)
    have hne : ((members (fun sample => (best sample).1) samples.length kind).card : K)≠0 :=
      Nat.cast_ne_zero.mpr (Nat.pos_iff_ne_zero.mp hpos)
    rw [center,entry_of hmean]
    exact div_mul_cancel₀ _ hne

omit [Field K] [LinearOrder K] in
/-- Numbers, and coordinates in particular, are kept by the vectors that hold them. -/
theorem vectors_mono {unit unit' : Extended K → Prop} (h : ∀ value,unit value → unit' value)
    (hs : Vectors unit dimension samples) : Vectors unit' dimension samples :=
  ⟨hs.length_eq,fun vector hv value hvalue => h value (hs.unit vector hv value hvalue)⟩

/-- One more iteration is one iteration after the others. -/
theorem iterated_succ (state : List (Extended K)×List (Extended K)) (n : ℕ) :
    iterated shape sub samples state (n+1)=
      iterated shape sub samples state n >>= lloydIteration (D := Extended K) shape samples sub := by
  rw [iterated,List.range_succ,List.foldlM_append]
  refine bind_congr (fun after => ?_)
  rw [List.foldlM_cons]
  exact bind_pure _

/-- Iterations succeed and keep what the coordinates of a codebook satisfy. -/
theorem iterated_ends {unit : Extended K → Prop} {summed : ℕ → Extended K → Prop}
    (laws : Averages unit summed samples.length) (hm : Measurable unit)
    (hd : shape.subquantizers*shape.subdimension=dimension) (hs : Vectors unit dimension samples)
    (hsub : sub<shape.subquantizers) (hpos : 0<samples.length) (hc : 0<shape.centroids)
    {state : List (Extended K)×List (Extended K)} (hb : Book unit shape.bookLength state.1)
    (hl : state.2.length=samples.length) (n : ℕ) :
    Ends (iterated shape sub samples state n) (fun _ => False)
      (fun after => Book unit shape.bookLength after.1 ∧ after.2.length=samples.length) :=
  Ends.foldlM_range n (fun _ (after : List (Extended K)×List (Extended K)) =>
    Book unit shape.bookLength after.1 ∧ after.2.length=samples.length) ⟨hb,hl⟩
    (fun _ _ _ h => lloydIteration_ends laws hm hd hs hsub hpos le_rfl hc h.1 h.2)

/-- From every codebook, no iteration makes the total squared distance to the
nearest centroids greater. From the seeded centroids on all coordinates stay
inside the unit interval, and what the subspace is trained to is what they give. -/
theorem lloyd_descent [IsStrictOrderedRing K] {choices : Choices (Extended K)}
    (hd : shape.subquantizers*shape.subdimension=dimension) (hs : Vectors Coordinate dimension samples)
    (hsub : sub<shape.subquantizers) (hfirst : choices.first sub<samples.length)
    (hc : 0<shape.centroids) :
    (∀ state : List (Extended K)×List (Extended K),Book Number shape.bookLength state.1 →
      state.2.length=samples.length → ∀ n,∃ before after,
        iterated shape sub samples state n=.ok before ∧
        iterated shape sub samples state (n+1)=.ok after ∧
        objective shape hc sub samples after.1≤objective shape hc sub samples before.1) ∧
    ∀ codebook,Book Coordinate shape.bookLength codebook → ∃ seeded,
      seedCentroids shape choices samples sub codebook=.ok seeded ∧
      Book Coordinate shape.bookLength seeded.1 ∧ ∀ n,∃ state,
        iterated shape sub samples seeded n=.ok state ∧ Book Coordinate shape.bookLength state.1 ∧
        trainSubspace shape choices n samples codebook sub=.ok state.1 := by
  have hpos : 0<samples.length := Nat.zero_lt_of_lt hfirst
  have hnumbers := vectors_mono (fun _ => coordinate_number) hs
  refine ⟨fun state hb hl n => ?_,fun codebook hb => ?_⟩
  · obtain ⟨before,hbefore,hbook,hlength⟩ := (iterated_ends (number_averages _) number_measurable hd
      hnumbers hsub hpos hc hb hl n).returns
    obtain ⟨after,hafter,_,hle⟩ := ((lloydIteration_ends (number_averages _) number_measurable hd
      hnumbers hsub hpos le_rfl hc hbook hlength).and
        (lloydIteration_exact hd hnumbers hsub hc hbook)).returns
    refine ⟨before,after,hbefore,?_,hle⟩
    rw [iterated_succ,hbefore]
    exact hafter
  · obtain ⟨seeded,hseeded,hbook,hlength⟩ := (seedCentroids_ends (D := Extended K) exact_measurable hd
      hs hsub hfirst hc hb).returns
    refine ⟨seeded,hseeded,hbook,fun n => ?_⟩
    obtain ⟨state,hstate,hkept,_⟩ := (iterated_ends (exact_averages _) exact_measurable hd hs hsub hpos
      hc hbook hlength n).returns
    refine ⟨state,hstate,hkept,?_⟩
    rw [trainSubspace,hseeded]
    change (iterated shape sub samples seeded n >>= fun after => pure after.1)=_
    rw [hstate]
    rfl

/-- Three samples on a line, two of them equal. -/
def line : List (List (Extended ℚ)) := [[.finite 0],[.finite 0],[.finite 1]]

theorem line_vectors : Vectors Coordinate 1 line := by
  refine ⟨by decide,fun vector hv value hvalue => ?_⟩
  have hcases : value=.finite 0 ∨ value=.finite 1 := by
    simp only [line,List.mem_cons,List.not_mem_nil,or_false] at hv
    rcases hv with rfl | rfl | rfl <;> simp only [List.mem_singleton] at hvalue <;> simp [hvalue]
  rcases hcases with rfl | rfl
  · exact ⟨0,rfl,by norm_num⟩
  · exact ⟨1,rfl,by norm_num⟩

/-- Two centroids that start at the same place. -/
theorem lloyd_descent_line : ∃ before after,
    iterated ⟨1,1,2,1⟩ 0 line ([.finite 0,.finite 0],[.finite 0,.finite 0,.finite 0]) 0=.ok before ∧
    iterated ⟨1,1,2,1⟩ 0 line ([.finite 0,.finite 0],[.finite 0,.finite 0,.finite 0]) 1=.ok after ∧
    objective ⟨1,1,2,1⟩ Nat.two_pos 0 line after.1≤objective ⟨1,1,2,1⟩ Nat.two_pos 0 line before.1 :=
  (@lloyd_descent ℚ _ _ ⟨1,1,2,1⟩ 0 1 line _ plainChoices rfl line_vectors Nat.one_pos (by decide)
    Nat.two_pos).1 ([.finite 0,.finite 0],[.finite 0,.finite 0,.finite 0])
    ⟨rfl,fun value hv => ⟨0,by simpa using hv⟩⟩ rfl 0

end Iterations

end Leann.LloydDescent
