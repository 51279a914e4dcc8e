import Leann.ExactNumbers
import Leann.TrainingSuccess

/-!
# The product quantizer from end to end

In exact arithmetic, training succeeds whatever the random choices are, the
packed codes of a vector are those of the nearest centroids, and the
approximate distance of a query is its distance to the vector that is put
together again from these centroids.
-/

namespace Leann.QuantizerExact

open Exceptions Outcomes PackedBits ProductQuantizer Training TrainingSuccess ExactNumbers

section Definitions

variable {S D K : Type} [WideNumber D] [VectorNumber S D]

/-- The codes of one node, packed into a span of all codes. -/
def encodeInto (shape : Shape) (codebook : List S) (embeddings : List (List S)) (codes : List UInt8)
    (node : ℕ) : Except Fault (List UInt8) :=
  (List.range shape.subquantizers).foldlM (fun codes sub => do
    let point ← element embeddings node
    let subvector ← shape.subvector point sub
    let (best,_) ← nearestCentroid shape codebook sub subvector
    packCodeIn codes (node*((shape.subquantizers*shape.bits+7)/8)) (sub*shape.bits) shape.bits best)
    codes

/-- The codes of all nodes, packed into one array. -/
def encodeShared (shape : Shape) (codebook : List S) (embeddings : List (List S)) :
    Except Fault (List UInt8) :=
  (List.range embeddings.length).foldlM (encodeInto shape codebook embeddings)
    (List.replicate (embeddings.length*((shape.subquantizers*shape.bits+7)/8)) 0)

/-- The coordinates of a vector in a subspace. -/
def subvector (point : List K) (width sub : ℕ) : List K := (point.drop (sub*width)).take width

/-- The coordinates of a centroid. -/
def centroid [Zero K] (view : ProductQuantizerView (Extended K)) (sub number : ℕ) : List K :=
  ((view.codebook.drop ((sub*view.centroids+number)*view.subdimension)).take view.subdimension).map
    Extended.number

/-- The vector that centroids are put together to. -/
def reconstruction [Zero K] (view : ProductQuantizerView (Extended K)) (codes : ℕ → ℕ) : List K :=
  (List.range view.subquantizers).flatMap (fun sub => centroid view sub (codes sub))

/-- The first of the least values. -/
structure Lowest [LinearOrder K] (value : ℕ → K) (count best : ℕ) : Prop where
  /-- It is one of the values. -/
  best_lt : best<count
  /-- No value is less. -/
  le_all : ∀ other<count,value best≤value other
  /-- The values before it are greater. -/
  lt_before : ∀ other<best,value best<value other

/-- What the packed codes of a vector are. -/
structure Encoded [Field K] [LinearOrder K] (view : ProductQuantizerView (Extended K))
    (point : List K) (packed : List UInt8) (codes : ℕ → ℕ) : Prop where
  /-- The bytes of a vector. -/
  length_eq : packed.length=view.bytesPerVector
  /-- The codes can be read again. -/
  unpacks : ∀ sub<view.subquantizers,unpackCode packed (sub*view.bits) view.bits=.ok (codes sub)
  /-- They are numbers of the nearest centroids. -/
  nearest : ∀ sub<view.subquantizers,Lowest (fun number =>
    squares (subvector point view.subdimension sub) (centroid view sub number)) view.centroids
      (codes sub)
  /-- The bits behind them are zero. -/
  padding : ∀ bit,view.subquantizers*view.bits≤bit →
    (packed.getD (bit/8) 0).toNat.testBit (bit%8)=false

/-- Codes are packed and unpacked without regard to other codes. -/
structure Isolated (view : ProductQuantizerView S) : Prop where
  /-- Packing changes the bytes of its node only, and no other code in them. -/
  packs : ∀ (front row back : List UInt8) (sub value : ℕ),row.length=view.bytesPerVector →
    sub<view.subquantizers → value<2^view.bits → ∃ after,after.length=row.length ∧
      packCodeIn (front++row++back) front.length (sub*view.bits) view.bits value=
        .ok (front++after++back) ∧
      ∀ other<view.subquantizers,other≠sub →
        unpackCode after (other*view.bits) view.bits=unpackCode row (other*view.bits) view.bits
  /-- Unpacking reads the bytes of its node only. -/
  unpacks : ∀ (front row back : List UInt8) (sub : ℕ),row.length=view.bytesPerVector →
    sub<view.subquantizers → ∃ code,
      unpackCodeIn (front++row++back) front.length (sub*view.bits) view.bits=.ok code ∧
      unpackCode row (sub*view.bits) view.bits=.ok code

end Definitions

section Sharing

variable {S D : Type} [WideNumber D] [VectorNumber S D] {shape : Shape} {codebook : List S}
  {embeddings : List (List S)}

/-- Packing the codes of a node into its span. -/
theorem encodeInto_eq (hb : 0<shape.bits) (hb8 : shape.bits≤8) (hc : 0<shape.centroids)
    (hle : shape.centroids≤2^shape.bits) {node : ℕ} {point : List S}
    (hpoint : embeddings[node]?=some point) {front back packed : List UInt8}
    (hfront : front.length=node*((shape.subquantizers*shape.bits+7)/8))
    (h : encodeVector shape codebook point=.ok packed) :
    encodeInto shape codebook embeddings
      (front++List.replicate ((shape.subquantizers*shape.bits+7)/8) 0++back) node=
      .ok (front++packed++back) := by
  have hloop : ∀ (subs : List ℕ) (row final : List UInt8),(∀ sub∈subs,sub<shape.subquantizers) →
      row.length=(shape.subquantizers*shape.bits+7)/8 → subs.foldlM (fun packed sub => do
        let subvector ← shape.subvector point sub
        let (best,_) ← nearestCentroid shape codebook sub subvector
        packCode packed (sub*shape.bits) shape.bits best) row=.ok final →
      subs.foldlM (fun codes sub => do
        let point ← element embeddings node
        let subvector ← shape.subvector point sub
        let (best,_) ← nearestCentroid shape codebook sub subvector
        packCodeIn codes (node*((shape.subquantizers*shape.bits+7)/8)) (sub*shape.bits) shape.bits best)
        (front++row++back)=.ok (front++final++back) := by
    intro subs
    induction subs with
    | nil =>
      intro row final _ _ hfinal
      injection hfinal with hsame
      rw [hsame]
      rfl
    | cons sub subs ih =>
      intro row final hsubs hrow hfinal
      rw [List.forall_mem_cons] at hsubs
      rw [List.foldlM_cons,bind_eq_ok] at hfinal ⊢
      obtain ⟨middle,hmiddle,hrest⟩ := hfinal
      rw [bind_eq_ok] at hmiddle
      obtain ⟨subvector,hsubvector,hmiddle⟩ := hmiddle
      rw [bind_eq_ok] at hmiddle
      obtain ⟨best,hbest,hpack⟩ := hmiddle
      have hfit := field_range hsubs.1
      rw [←hrow] at hfit
      have hbits : best.1<2^shape.bits :=
        ((nearestCentroid_returns shape codebook sub subvector hc).of_ok hbest).trans_le hle
      obtain ⟨result,hresult,hlength,-⟩ := packCode_ok hb hb8 hfit hbits
      have hpack : packCode row (sub*shape.bits) shape.bits best.1=.ok middle := hpack
      rw [hpack,Except.ok.injEq] at hresult
      refine ⟨front++middle++back,?_,ih middle final hsubs.2 (by rw [hresult,hlength,hrow]) hrest⟩
      rw [(element_ok _ _ _).mpr hpoint]
      change (shape.subvector point sub>>=_)=_
      rw [hsubvector]
      change (nearestCentroid shape codebook sub subvector>>=_)=_
      rw [hbest]
      change packCodeIn _ _ _ _ _=_
      rw [←hfront]
      exact packCodeIn_eq hb hfit hpack
  exact hloop _ _ _ (fun sub hs => List.mem_range.mp hs) List.length_replicate h

/-- One array holds the codes of all nodes one behind the other. -/
theorem encodeShared_eq (hb : 0<shape.bits) (hb8 : shape.bits≤8) (hc : 0<shape.centroids)
    (hle : shape.centroids≤2^shape.bits) {rows : List (List UInt8)}
    (hrows : List.Forall₂ (fun point packed => encodeVector shape codebook point=.ok packed)
      embeddings rows) (hlength : ∀ row∈rows,row.length=(shape.subquantizers*shape.bits+7)/8) :
    encodeShared shape codebook embeddings=.ok rows.flatten := by
  have hcount := hrows.length_eq
  have hends : Ends (encodeShared shape codebook embeddings) (fun _ => False)
      (fun codes => codes=(rows.take embeddings.length).flatten++List.replicate
        ((embeddings.length-embeddings.length)*((shape.subquantizers*shape.bits+7)/8)) 0) := by
    refine Ends.foldlM_range embeddings.length (fun done codes => codes=(rows.take done).flatten++
      List.replicate ((embeddings.length-done)*((shape.subquantizers*shape.bits+7)/8)) 0) rfl
      (fun node codes hn hcodes => ?_)
    have hn' : node< rows.length := hcount ▸ hn
    have hone := (List.forall₂_iff_get.mp hrows).2 node hn hn'
    rw [List.get_eq_getElem,List.get_eq_getElem] at hone
    have hfront : (rows.take node).flatten.length=
        node*((shape.subquantizers*shape.bits+7)/8) := by
      rw [List.length_flatten,List.eq_replicate_of_mem (l := (rows.take node).map List.length)
        (a := (shape.subquantizers*shape.bits+7)/8) (by
          intro length hl
          obtain ⟨row,hr,he⟩ := List.mem_map.mp hl
          rw [←he]
          exact hlength row (List.mem_of_mem_take hr))]
      rw [List.sum_replicate,List.length_map,List.length_take,min_eq_left hn'.le,nsmul_eq_mul,Nat.cast_id]
    have hrest : embeddings.length-node=(embeddings.length-(node+1))+1 := by omega
    have hsplit : (embeddings.length-node)*((shape.subquantizers*shape.bits+7)/8)=
        (shape.subquantizers*shape.bits+7)/8+
          (embeddings.length-(node+1))*((shape.subquantizers*shape.bits+7)/8) := by
      rw [hrest,Nat.succ_mul,Nat.add_comm]
    rw [hcodes,hsplit,List.replicate_add,←List.append_assoc,encodeInto_eq hb hb8 hc hle
      (List.getElem?_eq_getElem hn) hfront hone]
    change _=_
    rw [List.take_succ_eq_append_getElem hn',List.flatten_append]
    simp
  obtain ⟨codes,hcodes,hvalue⟩ := hends.returns
  rw [hcodes,hvalue,Nat.sub_self,Nat.zero_mul,List.take_of_length_le hcount.ge]
  simp

/-- Codes do not touch each other. -/
theorem isolated (view : ProductQuantizerView S) (hb : 0<view.bits) (hb8 : view.bits≤8) :
    Isolated view := by
  have hrange : ∀ sub<view.subquantizers,sub*view.bits+view.bits≤8*view.bytesPerVector := by
    intro sub hsub
    have hm := Nat.mul_le_mul_right view.bits (Nat.succ_le_of_lt hsub)
    rw [Nat.succ_mul] at hm
    unfold ProductQuantizerView.bytesPerVector
    omega
  refine ⟨fun front row back sub value hrow hsub hvalue => ?_,fun front row back sub hrow hsub => ?_⟩
  · have hfit := hrange sub hsub
    rw [←hrow] at hfit
    obtain ⟨after,hafter,hlength,-⟩ := packCode_ok hb hb8 hfit hvalue
    refine ⟨after,hlength,packCodeIn_eq hb hfit hafter,fun other ho hne => ?_⟩
    have hother := hrange other ho
    rw [←hrow] at hother
    refine packCode_other hb hb8 hfit hvalue hafter hother ?_
    cases Nat.lt_or_gt_of_ne hne with
    | inl hlt =>
      have hm := Nat.mul_le_mul_right view.bits (Nat.succ_le_of_lt hlt)
      rw [Nat.succ_mul] at hm
      exact .inl hm
    | inr hlt =>
      have hm := Nat.mul_le_mul_right view.bits (Nat.succ_le_of_lt hlt)
      rw [Nat.succ_mul] at hm
      exact .inr hm
  · have hfit := hrange sub hsub
    rw [←hrow] at hfit
    exact ⟨_,(unpackCodeIn_eq hb hfit).trans (unpackCode_ok hb hb8 hfit),unpackCode_ok hb hb8 hfit⟩

end Sharing

section Laws

variable {K : Type} [Field K] [LinearOrder K]

/-- The sum of so many coordinates. -/
def Summed (count : ℕ) (sum : Extended K) : Prop := ∃ total : K,sum=.finite total ∧ |total|≤ count

/-- Distances between vectors of coordinates are exact. -/
theorem exact_measurable : Measurable (Coordinate (K := K)) := by
  intro point centroid hl hp hc
  rw [←exact_numbers hp,←exact_numbers hc]
  exact ⟨_,squaredDistance_exact (by rw [List.length_map,List.length_map,hl])⟩

/-- Sums of coordinates have means that are coordinates. -/
theorem exact_averages [IsStrictOrderedRing K] (most : ℕ) :
    Averages (Coordinate (K := K)) Summed most where
  zero := ⟨0,rfl,by rw [abs_zero]; exact zero_le_one⟩
  start := ⟨0,rfl,by rw [abs_zero,Nat.cast_zero]⟩
  add := by
    intro count sum value _ hsum hvalue
    obtain ⟨total,htotal,hle⟩ := hsum
    obtain ⟨number,hnumber,hone⟩ := hvalue
    rw [htotal,hnumber]
    refine ⟨total+number,rfl,(abs_add_le _ _).trans ?_⟩
    rw [Nat.cast_add,Nat.cast_one]
    exact add_le_add hle hone
  mean := by
    intro count sum hpos hsum
    obtain ⟨total,htotal,hle⟩ := hsum
    have hcount : (0 : K)<count := Nat.cast_pos.mpr hpos
    rw [htotal]
    refine ⟨total/count,rfl,?_⟩
    rw [abs_div,abs_of_pos hcount,div_le_one hcount]
    exact hle

end Laws

section Encoding

variable {K : Type} [Field K] [LinearOrder K] {view : ProductQuantizerView (Extended K)}

/-- The shape that a quantizer was trained with. -/
def shapeOf (view : ProductQuantizerView (Extended K)) : Shape :=
  ⟨view.subquantizers,view.bits,view.centroids,view.subdimension⟩

/-- The coordinates of a centroid are those in the codebook. -/
theorem centroid_exact (hb : Book Coordinate (shapeOf view).bookLength view.codebook) (sub number : ℕ) :
    (view.codebook.drop ((sub*view.centroids+number)*view.subdimension)).take view.subdimension=
      exact (centroid view sub number) :=
  (exact_numbers (fun value hv => hb.2 value (List.mem_of_mem_drop (List.mem_of_mem_take hv)))).symm

theorem centroid_length (hb : Book Coordinate (shapeOf view).bookLength view.codebook) {sub number : ℕ}
    (hsub : sub<view.subquantizers) (hn : number<view.centroids) :
    (centroid view sub number).length=view.subdimension := by
  have hrange := @row_range (shapeOf view) _ _ hsub hn
  rw [←hb.1] at hrange
  have hrange : (sub*view.centroids+number)*view.subdimension+view.subdimension≤view.codebook.length :=
    hrange
  rw [centroid,List.length_map,List.length_take,List.length_drop]
  omega

/-- The scan over the centroids of a subspace finds the first of the least
distances, whatever they are. -/
theorem nearestCentroid_lowest {shape : Shape} {codebook subvector : List (Extended K)} {sub : ℕ}
    (value : ℕ → K) (hc : 0<shape.centroids)
    (hdistance : ∀ number<shape.centroids,∃ row,
      subspan codebook (shape.row sub number) shape.subdimension=.ok row ∧
        squaredDistance subvector row=.ok (Extended.finite (value number))) :
    ∃ best,nearestCentroid shape codebook sub subvector=.ok best ∧
      Lowest value shape.centroids best.1 := by
  have hends : Ends (nearestCentroid shape codebook sub subvector) (fun _ => False)
      (fun best => 0<shape.centroids → best.2=Extended.finite (value best.1) ∧
        Lowest value shape.centroids best.1) := by
    refine (Ends.foldlM_range shape.centroids (fun done (best : ℕ×Extended K) =>
      (done=0 → best.2=Extended.infinite false) ∧
      (0<done → best.2=Extended.finite (value best.1) ∧ Lowest value done best.1))
      ⟨fun _ => rfl,fun h => absurd h (lt_irrefl 0)⟩ (fun number best hn hbest => ?_)).mono
      (fun _ h => h) (fun best hbest => hbest.2)
    obtain ⟨row,hrow,hd⟩ := hdistance number hn
    refine Ends.after hrow (Ends.after hd ?_)
    refine ⟨fun h => absurd h (Nat.succ_ne_zero number),fun _ => ?_⟩
    cases Nat.eq_zero_or_pos number with
    | inl hzero =>
      have hless : Extended.finite (value number)<best.2 := by
        rw [hbest.1 hzero]
        exact rfl
      rw [if_pos hless]
      refine ⟨rfl,Nat.lt_succ_self number,fun other ho => ?_,fun other ho => ?_⟩
      · have he : other=number := by omega
        rw [he]
      · omega
    | inr hpos =>
      obtain ⟨hvalue,hlowest⟩ := hbest.2 hpos
      rw [hvalue]
      by_cases hless : value number<value best.1
      · rw [if_pos (show Extended.finite (value number)<Extended.finite (value best.1) from hless)]
        refine ⟨rfl,Nat.lt_succ_self number,fun other ho => ?_,
          fun other ho => hless.trans_le (hlowest.le_all other ho)⟩
        cases Nat.lt_succ_iff_lt_or_eq.mp ho with
        | inl hlt => exact hless.le.trans (hlowest.le_all other hlt)
        | inr heq => rw [heq]
      · rw [if_neg (show ¬Extended.finite (value number)<Extended.finite (value best.1) from hless)]
        refine ⟨hvalue,hlowest.best_lt.trans (Nat.lt_succ_self number),fun other ho => ?_,
          hlowest.lt_before⟩
        cases Nat.lt_succ_iff_lt_or_eq.mp ho with
        | inl hlt => exact hlowest.le_all other hlt
        | inr heq =>
          rw [heq]
          exact not_lt.mp hless
  obtain ⟨best,hbest,hlowest⟩ := hends.returns
  exact ⟨best,hbest,(hlowest hc).2⟩

/-- The scan over the centroids of a subspace finds the first of the nearest. -/
theorem nearestCentroid_exact (hb : Book Coordinate (shapeOf view).bookLength view.codebook)
    (hc : 0<view.centroids) {sub : ℕ} (hsub : sub<view.subquantizers) {point : List K}
    (hl : point.length=view.subdimension) :
    ∃ best,nearestCentroid (shapeOf view) view.codebook sub (exact point)=.ok best ∧
      Lowest (fun number => squares point (centroid view sub number)) view.centroids best.1 := by
  refine @nearestCentroid_lowest K _ _ (shapeOf view) _ _ _ _ hc (fun number hn => ?_)
  have hrange := @row_range (shapeOf view) _ _ hsub hn
  rw [←hb.1] at hrange
  refine ⟨exact (centroid view sub number),?_,
    squaredDistance_exact (hl.trans (centroid_length hb hsub hn).symm)⟩
  exact (subspan_ok hrange).trans (congrArg Except.ok (centroid_exact hb sub number))

/-- A vector is encoded as the numbers of its nearest centroids. -/
theorem encodeVector_exact (hd : view.subquantizers*view.subdimension=view.dimension)
    (hbits : 0<view.bits) (hbits8 : view.bits≤8) (hc : 0<view.centroids)
    (hle : view.centroids≤2^view.bits)
    (hb : Book Coordinate (shapeOf view).bookLength view.codebook) {point : List K}
    (hl : point.length=view.dimension) :
    ∃ packed codes,encodeVector (shapeOf view) view.codebook (exact point)=.ok packed ∧
      Encoded view point packed codes := by
  have hsub : ∀ sub<view.subquantizers,(subvector point view.subdimension sub).length=
      view.subdimension := by
    intro sub hsub
    have hm := Nat.mul_le_mul_right view.subdimension (Nat.succ_le_of_lt hsub)
    rw [Nat.succ_mul,hd,←hl] at hm
    rw [subvector,List.length_take,List.length_drop]
    omega
  choose! best hbest hlowest using fun sub (h : sub<view.subquantizers) =>
    nearestCentroid_exact hb hc h (hsub sub h)
  have hrow : ∀ sub<view.subquantizers,nearestCentroid (shapeOf view) view.codebook sub
      (((exact point).drop (sub*view.subdimension)).take view.subdimension)=.ok (best sub) := by
    intro sub h
    rw [←hbest sub h,exact,exact,subvector,List.map_take,List.map_drop]
  have hends := @encodeVector_ends _ _ _ _ (shapeOf view) view.dimension _ _ _ hd
    ((length_exact point).trans hl) hbits hbits8 hrow
    (fun sub h => (hlowest sub h).best_lt.trans_le hle)
  obtain ⟨packed,hpacked,hholds⟩ := hends.returns
  have hlength : packed.length=view.bytesPerVector := hholds.length_eq
  refine ⟨packed,fun sub => (best sub).1,hpacked,hlength,fun sub h => ?_,fun sub h => hlowest sub h,
    fun bit h => ?_⟩
  · have hfit := @field_range (shapeOf view) _ h
    rw [←hholds.length_eq] at hfit
    exact (unpackCode_ok hbits hbits8 hfit).trans (congrArg Except.ok (hholds.fields sub h))
  · rw [←testBit_number]
    exact Nat.testBit_lt_two_pow (hholds.number_lt.trans_le (Nat.pow_le_pow_right Nat.two_pos h))

end Encoding

section Distances

variable {K : Type} [Field K] [LinearOrder K] {view : ProductQuantizerView (Extended K)}
  {query : List K}

/-- An element of a part of a vector. -/
theorem element_part {α : Type} {values part : List α} {start width i : ℕ} {value : α}
    (hp : (values.drop start).take width=part) (hv : part[i]?=some value) :
    element values (start+i)=.ok value := by
  rw [←hp,List.getElem?_take] at hv
  split at hv
  · rwa [List.getElem?_drop,←element_ok] at hv
  · cases hv

omit [LinearOrder K] in
/-- Products of vectors of the same length. -/
theorem length_products {lhs rhs : List K} {width : ℕ} (hl : lhs.length=width)
    (hr : rhs.length=width) : (List.zipWith (·*·) lhs rhs).length=width := by
  rw [List.length_zipWith,hl,hr,min_self]

/-- An entry of the table is the negated inner product of the parts. -/
theorem tableEntry_exact (hd : view.subquantizers*view.subdimension=view.dimension)
    (hb : Book Coordinate (shapeOf view).bookLength view.codebook)
    (hq : query.length=view.dimension) {sub number : ℕ} (hsub : sub<view.subquantizers)
    (hn : number<view.centroids) : view.tableEntry (exact query) sub number=
      .ok (.finite (-dot (subvector query view.subdimension sub) (centroid view sub number))) := by
  have hlhs : (subvector query view.subdimension sub).length=view.subdimension := by
    have hm := Nat.mul_le_mul_right view.subdimension (Nat.succ_le_of_lt hsub)
    rw [Nat.succ_mul,hd,←hq] at hm
    rw [subvector,List.length_take,List.length_drop]
    omega
  have hrhs := centroid_length hb hsub hn
  have hlength := length_products hlhs hrhs
  have hpart : ((exact query).drop (sub*view.subdimension)).take view.subdimension=
      exact (subvector query view.subdimension sub) := by
    rw [exact,exact,subvector,List.map_take,List.map_drop]
  have hdot : Ends (view.negativeDot (exact query) (sub*view.subdimension)
      ((sub*view.centroids+number)*view.subdimension)) (fun _ => False)
      (fun result : Extended K => result=.finite
        (-dot (subvector query view.subdimension sub) (centroid view sub number))) := by
    refine (Ends.foldlM_range view.subdimension (fun i (result : Extended K) => result=.finite
      (-((List.zipWith (·*·) (subvector query view.subdimension sub)
        (centroid view sub number)).take i).sum)) ?_ (fun i result hi hresult => ?_)).mono
      (fun _ h => h) (fun result hresult => ?_)
    · rw [List.take_zero,List.sum_nil,neg_zero]
      rfl
    · have hi' : i<(subvector query view.subdimension sub).length := hlhs.symm ▸ hi
      have hi'' : i<(centroid view sub number).length := hrhs.symm ▸ hi
      have hcentroid := element_part (i := i) (centroid_exact hb sub number)
        (by rw [getElem?_exact,List.getElem?_eq_getElem hi'']; rfl)
      have hquery := element_part (i := i) hpart
        (by rw [getElem?_exact,List.getElem?_eq_getElem hi']; rfl)
      refine Ends.after hcentroid ?_
      have hcoordinate := hb.2 _ (List.mem_of_getElem? ((element_ok _ _ _).mp hcentroid))
      have hpass := coordinate_passes hcoordinate
      refine (throwIf_ends (fun h => ?_)).bind (fun _ _ => ?_)
      · cases h with
        | inl h => exact h hpass.1
        | inr h => exact hpass.2 h
      refine Ends.after hquery ?_
      rw [hresult,List.sum_take_succ _ _ (hlength.symm ▸ hi),List.getElem_zipWith,neg_add,
        ←sub_eq_add_neg]
      rfl
    · rw [hresult,List.take_of_length_le hlength.le]
      rfl
  obtain ⟨result,hresult,hvalue⟩ := hdot.returns
  have hends : Ends (view.tableEntry (exact query) sub number) (fun _ => False) (fun entry => entry=
      .finite (-dot (subvector query view.subdimension sub) (centroid view sub number))) := by
    refine Ends.after hresult ?_
    rw [hvalue]
    exact (throwIf_ends (fun h => finite_passes _ h)).bind (fun _ _ => rfl)
  obtain ⟨entry,hentry,he⟩ := hends.returns
  rw [hentry,he]

/-- The entry of a cell of the table. -/
def cellEntry (view : ProductQuantizerView (Extended K)) (query : List K) (cell : ℕ) : Extended K :=
  .finite (-dot (subvector query view.subdimension (cell/view.centroids))
    (centroid view (cell/view.centroids) (cell%view.centroids)))

/-- The table while it is filled. -/
def filled (view : ProductQuantizerView (Extended K)) (query : List K) (cells : ℕ) :
    List (Extended K) :=
  (List.range cells).map (cellEntry view query)++
    List.replicate (view.subquantizers*view.centroids-cells) 0

/-- The next cell is filled. -/
theorem assign_filled {cell : ℕ} (hc : cell<view.subquantizers*view.centroids) :
    assign (filled view query cell) cell (cellEntry view query cell)=.ok (filled view query (cell+1)) := by
  have hfront : ((List.range cell).map (cellEntry view query)).length=cell := by
    rw [List.length_map,List.length_range]
  have hrest : view.subquantizers*view.centroids-cell=
      (view.subquantizers*view.centroids-(cell+1))+1 := by omega
  have hlt : cell<(filled view query cell).length := by
    rw [filled,List.length_append,hfront,List.length_replicate]
    omega
  rw [assign,if_pos hlt,filled,List.set_append_right _ _ hfront.le,hfront,Nat.sub_self,hrest,
    List.replicate_succ,List.set_cons_zero,filled,List.range_succ,List.map_append,List.append_assoc]
  rfl

/-- Cells are numbered row by row. -/
theorem cell_split {row columns column : ℕ} (hc : column<columns) :
    (row*columns+column)/columns=row ∧ (row*columns+column)%columns=column := by
  have hpos : 0<columns := Nat.zero_lt_of_lt hc
  refine ⟨?_,?_⟩
  · rw [Nat.mul_comm,Nat.mul_add_div hpos,Nat.div_eq_of_lt hc,Nat.add_zero]
  · rw [Nat.mul_comm,Nat.mul_add_mod,Nat.mod_eq_of_lt hc]

/-- The table holds the negated inner products with all centroids. -/
theorem distanceTable_exact (hd : view.subquantizers*view.subdimension=view.dimension)
    (hb : Book Coordinate (shapeOf view).bookLength view.codebook)
    (hq : query.length=view.dimension) (hunit : ∀ value∈query,|value|≤1) :
    view.distanceTable (exact query)=
      .ok (filled view query (view.subquantizers*view.centroids)) := by
  have hpass : ∀ value∈exact query,VectorNumber.isFinite value ∧ VectorNumber.abs value≤1 := by
    intro value hv
    obtain ⟨number,hnumber,he⟩ := List.mem_map.mp hv
    exact coordinate_passes ⟨number,he.symm,hunit number hnumber⟩
  have hends : Ends (view.distanceTable (exact query)) (fun _ => False) (fun table => table=
      filled view query (view.subquantizers*view.centroids)) := by
    refine (throwIf_ends (fun h => absurd ((length_exact query).trans hq) h)).bind (fun _ _ => ?_)
    refine (throwIf_ends (fun h => absurd hpass h)).bind (fun _ _ => ?_)
    refine Ends.foldlM_range view.subquantizers
      (fun sub table => table=filled view query (sub*view.centroids)) ?_ (fun sub table hsub ht => ?_)
    · rw [filled,Nat.zero_mul,Nat.sub_zero]
      rfl
    · refine (Ends.foldlM_range view.centroids (fun number table =>
        table=filled view query (sub*view.centroids+number)) ht (fun number table hn ht => ?_)).mono
        (fun _ h => h) (fun table ht => by rw [ht,Nat.succ_mul])
      obtain ⟨hrow,hcolumn⟩ := @cell_split sub _ _ hn
      have hentry : view.tableEntry (exact query) sub number=
          .ok (cellEntry view query (sub*view.centroids+number)) := by
        rw [tableEntry_exact hd hb hq hsub hn,cellEntry,hrow,hcolumn]
      refine Ends.after hentry ?_
      rw [ht,assign_filled (cell_lt hsub hn)]
      exact rfl
  obtain ⟨table,htable,he⟩ := hends.returns
  rw [htable,he]

omit [LinearOrder K] in
/-- The inner product with several parts one behind the other. -/
theorem dot_parts {rows : ℕ → List K} {width count : ℕ} (hrows : ∀ sub<count,(rows sub).length=width)
    (hq : query.length=count*width) : dot query ((List.range count).flatMap rows)=
      ((List.range count).map (fun sub => dot (subvector query width sub) (rows sub))).sum := by
  induction count generalizing query with
  | zero =>
    rw [Nat.zero_mul,List.length_eq_zero_iff] at hq
    rw [hq]
    rfl
  | succ count ih =>
    rw [Nat.succ_mul] at hq
    have hfront : (query.take (count*width)).length=count*width := by
      rw [List.length_take]
      omega
    have hparts : ∀ sub∈List.range count,dot (subvector (query.take (count*width)) width sub) (rows sub)=
        dot (subvector query width sub) (rows sub) := by
      intro sub hsub
      have hm := Nat.mul_le_mul_right width (Nat.succ_le_of_lt (List.mem_range.mp hsub))
      rw [Nat.succ_mul] at hm
      rw [subvector,subvector,List.drop_take,List.take_take,min_eq_left (by omega)]
    have hlength : ((List.range count).flatMap rows).length=count*width := by
      rw [List.length_flatMap,List.map_congr_left (g := fun _ => width)
        (fun sub hsub => hrows sub (Nat.lt_succ_of_lt (List.mem_range.mp hsub)))]
      simp
    have hlast : (query.drop (count*width)).take width=query.drop (count*width) := by
      rw [List.take_of_length_le]
      rw [List.length_drop]
      omega
    have hsplit : dot query ((List.range count).flatMap rows++rows count)=
        dot (query.take (count*width)) ((List.range count).flatMap rows)+
          dot (query.drop (count*width)) (rows count) := by
      conv_lhs => rw [←List.take_append_drop (count*width) query]
      rw [dot,List.zipWith_append (hfront.trans hlength.symm),List.sum_append]
      rfl
    rw [List.range_succ,List.flatMap_append,List.flatMap_singleton,hsplit,
      ih (fun sub hsub => hrows sub (Nat.lt_succ_of_lt hsub)) hfront,List.map_append,List.sum_append,
      List.map_congr_left hparts,List.map_singleton,List.sum_singleton,subvector,hlast]

/-- The approximate distance of a vector is the distance to what is put
together from the centroids of its codes. -/
theorem approximateDistance_exact (hd : view.subquantizers*view.subdimension=view.dimension)
    (hb : Book Coordinate (shapeOf view).bookLength view.codebook)
    (hq : query.length=view.dimension) (hbytes : 0<view.bytesPerVector) {node count : ℕ}
    (hcodes : view.codes.length=count*view.bytesPerVector) (hn : node<count) {point : List K}
    {codes : ℕ → ℕ} (he : Encoded view point (view.packed node) codes) :
    view.approximateDistance (filled view query (view.subquantizers*view.centroids)) node=
      .ok (.finite (1-dot query (reconstruction view codes))) := by
  have htable : (filled view query (view.subquantizers*view.centroids)).length=
      view.subquantizers*view.centroids := by
    rw [filled,Nat.sub_self,List.length_append,List.length_map,List.length_range,
      List.length_replicate,Nat.add_zero]
  have hrange : node*view.bytesPerVector+view.bytesPerVector≤view.codes.length := by
    have hm := Nat.mul_le_mul_right view.bytesPerVector (Nat.succ_le_of_lt hn)
    rwa [Nat.succ_mul,←hcodes] at hm
  have hsum : Ends (view.sumContributions (filled view query (view.subquantizers*view.centroids))
      (view.packed node)) (fun _ => False) (fun result : Extended K => result=
        .finite (1-dot query (reconstruction view codes))) := by
    refine (Ends.foldlM_range view.subquantizers (fun done (result : Extended K) => result=
      .finite (1-((List.range done).map (fun sub => dot (subvector query view.subdimension sub)
        (centroid view sub (codes sub)))).sum)) ?_ (fun sub result hsub hresult => ?_)).mono
      (fun _ h => h) (fun result hresult => ?_)
    · rw [List.range_zero,List.map_nil,List.sum_nil,sub_zero]
      rfl
    · have hcode := (he.nearest sub hsub).best_lt
      refine Ends.after (he.unpacks sub hsub) ?_
      refine (throwIf_ends (fun h => absurd hcode (Nat.not_lt.mpr h))).bind (fun _ _ => ?_)
      obtain ⟨hrow,hcolumn⟩ := @cell_split sub _ _ hcode
      have hcell := cell_lt hsub hcode
      have hentry : element (filled view query (view.subquantizers*view.centroids))
          (sub*view.centroids+codes sub)=.ok (.finite (-dot (subvector query view.subdimension sub)
            (centroid view sub (codes sub)))) := by
        rw [element_ok,filled,List.getElem?_append_left (by simpa using hcell),List.getElem?_map,
          List.getElem?_range hcell]
        change some (cellEntry view query _)=_
        rw [cellEntry,hrow,hcolumn]
      refine Ends.after hentry ?_
      refine (throwIf_ends (fun h => h rfl)).bind (fun _ _ => ?_)
      rw [hresult,List.range_succ,List.map_append,List.sum_append,List.map_singleton,
        List.sum_singleton,sub_add_eq_sub_sub,sub_eq_add_neg (1-_)]
      rfl
    · rw [hresult,reconstruction,dot_parts
        (fun sub hsub => centroid_length hb hsub (he.nearest sub hsub).best_lt) (hq.trans hd.symm)]
  have hends : Ends (view.approximateDistance (filled view query (view.subquantizers*view.centroids))
      node) (fun _ => False) (fun result => result=.finite (1-dot query (reconstruction view codes))) := by
    unfold ProductQuantizerView.approximateDistance
    refine (throwIf_ends (fun h => absurd htable h)).bind (fun _ _ => ?_)
    refine (throwIf_ends (fun h => ?_)).bind (fun _ _ => ?_)
    · rw [hcodes,Nat.mul_div_cancel _ hbytes] at h
      omega
    refine Ends.after (subspan_ok hrange) ?_
    refine hsum.bind (fun result hresult => ?_)
    rw [hresult]
    exact (throwIf_ends (fun h => finite_passes _ h)).bind (fun _ _ => rfl)
  obtain ⟨result,hresult,hvalue⟩ := hends.returns
  rw [hresult,hvalue]

end Distances

section Main

variable {K : Type} [Field K] [LinearOrder K] {embeddings : List (List K)}
  {dimension subquantizers bits iterations maxTrainingSamples : ℕ}

/-- The sizes of a quantizer that was trained. -/
structure Sizes (dimension subquantizers bits samples : ℕ) (model : ProductQuantizerView (Extended K)) :
    Prop where
  /-- The dimension is that of the vectors. -/
  dimension_eq : model.dimension=dimension
  /-- The number of subspaces is the one that was asked for. -/
  subquantizers_eq : model.subquantizers=subquantizers
  /-- So is the number of bits. -/
  bits_eq : model.bits=bits
  /-- There are as many centroids as bits and samples allow. -/
  centroids_eq : model.centroids=min (2^bits) samples
  /-- The subspaces divide the coordinates among them. -/
  subdimension_eq : model.subdimension=dimension/subquantizers

/-- From training to approximate distances: every vector is encoded as the
numbers of its nearest centroids, and a query is compared with the vector
that is put together from them. -/
theorem product_quantizer_exact [IsStrictOrderedRing K] {choices : Choices (Extended K)}
    (hne : embeddings≠[]) (hlength : ∀ point∈embeddings,point.length=dimension)
    (hunit : ∀ point∈embeddings,∀ value∈point,|value|≤1) (hpos : 0<dimension)
    (hsub : 0<subquantizers) (hdvd : subquantizers∣dimension) (hb : 0<bits) (hb8 : bits≤8)
    (hi : 0< iterations) (hmax : 0< maxTrainingSamples)
    (hc : PossibleChoices choices embeddings.length (min maxTrainingSamples embeddings.length)) :
    ∃ model,trainProductQuantizer choices (embeddings.map exact) subquantizers bits iterations
        maxTrainingSamples=.ok model ∧
      Sizes dimension subquantizers bits (min maxTrainingSamples embeddings.length) model ∧
      Isolated model ∧
      encodeShared (shapeOf model) model.codebook (embeddings.map exact)=.ok model.codes ∧
      ∀ node point,embeddings[node]?=some point → ∃ codes,
        Encoded model point (model.packed node) codes ∧
        ∀ query,query.length=dimension → (∀ value∈query,|value|≤1) →
          ∃ table,model.distanceTable (exact query)=.ok table ∧
            model.approximateDistance table node=
              .ok (.finite (1-dot query (reconstruction model codes))) := by
  have hvectors : Vectors Coordinate dimension (embeddings.map exact) := by
    refine ⟨fun vector hv => ?_,fun vector hv value hvalue => ?_⟩
    · obtain ⟨point,hp,he⟩ := List.mem_map.mp hv
      rw [←he,length_exact,hlength point hp]
    · obtain ⟨point,hp,he⟩ := List.mem_map.mp hv
      rw [←he] at hvalue
      obtain ⟨number,hnumber,he⟩ := List.mem_map.mp hvalue
      exact ⟨number,he.symm,hunit point hp number hnumber⟩
  have hcount : (embeddings.map exact).length=embeddings.length := List.length_map _
  have hencode : ∀ shape : Shape,∀ codebook : List (Extended K),
      shape.subquantizers*shape.subdimension=dimension → shape.bits=bits → 0<shape.centroids →
      shape.centroids≤2^shape.bits → Book Coordinate shape.bookLength codebook →
      ∀ point∈embeddings,∃ packed codes,encodeVector shape codebook (exact point)=.ok packed ∧
        Encoded ⟨dimension,shape.subquantizers,shape.bits,shape.centroids,shape.subdimension,
          codebook,[]⟩ point packed codes := by
    intro shape codebook hd hbits hcentroids hle hbook point hp
    exact @encodeVector_exact _ _ _ ⟨dimension,shape.subquantizers,shape.bits,shape.centroids,
      shape.subdimension,codebook,[]⟩ hd (hbits.symm ▸ hb) (hbits.symm ▸ hb8) hcentroids hle hbook _
      (hlength point hp)
  have htrain := trainProductQuantizer_ends (exact_averages embeddings.length) exact_measurable
    (fun _ => coordinate_passes) hvectors (by simpa using hne) hpos hsub hdvd hb hb8 hi hmax hcount.le
    (hcount.symm ▸ hc) (fun shape codebook hd hbits hcentroids hle hbook vector hv => by
      obtain ⟨point,hp,he⟩ := List.mem_map.mp hv
      obtain ⟨packed,codes,hpacked,-⟩ := hencode shape codebook hd hbits hcentroids hle hbook point hp
      rw [←he,hpacked]
      exact trivial)
  rw [hcount] at htrain
  obtain ⟨model,hmodel,hprepared⟩ := htrain.returns
  obtain ⟨⟨hms,hmb,hmc,hmd⟩,hdimension,hbook,rows,hrows,hcodes⟩ := hprepared
  have hd : model.subquantizers*model.subdimension=model.dimension := by
    rw [hms,hmd]
    exact hdimension
  have hmodeldim : model.dimension=dimension := by
    rw [←hdimension]
    exact Nat.mul_div_cancel' hdvd
  have hcentroids : 0< model.centroids := by
    have hp := Nat.two_pow_pos bits
    have hcount := List.length_pos_iff.mpr hne
    rw [hmc]
    exact lt_min hp (lt_min hmax hcount)
  have hle : model.centroids≤2^model.bits := by
    rw [hmc,hmb]
    exact min_le_left _ _
  have hshape : shapeOf model=⟨subquantizers,bits,min (2^bits)
      (min maxTrainingSamples embeddings.length),dimension/subquantizers⟩ := by
    rw [shapeOf,hms,hmb,hmc,hmd]
  have hmodelbook : Book Coordinate (shapeOf model).bookLength model.codebook := by
    rw [hshape]
    exact hbook
  have hmodelbits : 0< model.bits ∧ model.bits≤8 := by
    rw [hmb]
    exact ⟨hb,hb8⟩
  have hall := @Ends.mapM_forall₂ _ _ _ (fun _ => False)
    (encodeVector (shapeOf model) model.codebook)
    (fun vector packed => encodeVector (shapeOf model) model.codebook vector=.ok packed ∧
      packed.length=model.bytesPerVector) (embeddings.map exact) (fun vector hv => by
      obtain ⟨point,hp,he⟩ := List.mem_map.mp hv
      obtain ⟨packed,codes,hpacked,hencoded⟩ := encodeVector_exact hd hmodelbits.1 hmodelbits.2
        hcentroids hle hmodelbook ((hlength point hp).trans hmodeldim.symm)
      rw [←he,hpacked]
      exact ⟨rfl,hencoded.length_eq⟩)
  rw [hshape] at hall
  have hforall := hall.of_ok hrows
  rw [←hshape] at hforall
  have hwidth : ∀ row∈rows,row.length=model.bytesPerVector := by
    intro row hr
    obtain ⟨i,hi,he⟩ := List.mem_iff_getElem.mp hr
    have hone := (List.forall₂_iff_get.mp hforall).2 i (hforall.length_eq ▸ hi) hi
    rw [←he]
    exact hone.2
  refine ⟨model,hmodel,⟨hmodeldim,hms,hmb,hmc,hmd⟩,isolated model hmodelbits.1 hmodelbits.2,?_,
    fun node point hnode => ?_⟩
  · rw [hcodes]
    exact encodeShared_eq hmodelbits.1 hmodelbits.2 hcentroids hle (hforall.imp (fun _ _ h => h.1))
      hwidth
  · obtain ⟨hlt,hpoint⟩ := List.getElem?_eq_some_iff.mp hnode
    have hltrows : node< rows.length := by
      rw [←hforall.length_eq,hcount]
      exact hlt
    have hone := (List.forall₂_iff_get.mp hforall).2 node (hcount.symm ▸ hlt) hltrows
    rw [List.get_eq_getElem,List.get_eq_getElem,List.getElem_map,hpoint] at hone
    have hmem : point∈embeddings := List.mem_of_getElem? hnode
    obtain ⟨packed,codes,hpacked,hencoded⟩ := encodeVector_exact hd hmodelbits.1 hmodelbits.2
      hcentroids hle hmodelbook ((hlength point hmem).trans hmodeldim.symm)
    rw [hone.1,Except.ok.injEq] at hpacked
    have hnodepacked : model.packed node=packed := by
      rw [←hpacked,ProductQuantizerView.packed,hcodes]
      exact flatten_row hwidth (List.getElem?_eq_getElem hltrows)
    rw [←hnodepacked] at hencoded
    have hcodeslength : model.codes.length=embeddings.length*model.bytesPerVector := by
      rw [hcodes,List.length_flatten,List.eq_replicate_of_mem (l := rows.map List.length)
        (a := model.bytesPerVector) (by simpa using hwidth),List.sum_replicate,List.length_map,
        ←hforall.length_eq,hcount,nsmul_eq_mul,Nat.cast_id]
    have hbytes : 0< model.bytesPerVector := by
      have hm := Nat.mul_le_mul hsub hb
      rw [ProductQuantizerView.bytesPerVector,hms,hmb]
      change 0<(subquantizers*bits+7)/8
      omega
    refine ⟨codes,hencoded,fun query hq hqunit => ?_⟩
    have hquery := hq.trans hmodeldim.symm
    exact ⟨_,distanceTable_exact hd hmodelbook hquery hqunit,
      approximateDistance_exact hd hmodelbook hquery hbytes hcodeslength hlt hencoded⟩

/-- Three vectors of two coordinates. -/
def threePoints : List (List ℚ) := [[1,0],[0,1],[1/2,-1/2]]

/-- Choices without a shuffle. -/
def plainChoices : Choices (Extended ℚ) := ⟨List.range,fun _ => 0,fun _ _ total => total⟩

/-- Two of three vectors are samples, and every coordinate is a subspace. -/
theorem product_quantizer_exact_three : ∃ model,
    trainProductQuantizer plainChoices (threePoints.map exact) 2 3 1 2=.ok model ∧
      Sizes 2 2 3 2 model ∧ Isolated model ∧
      encodeShared (shapeOf model) model.codebook (threePoints.map exact)=.ok model.codes ∧
      ∀ node point,threePoints[node]?=some point → ∃ codes,
        Encoded model point (model.packed node) codes ∧
        ∀ query,query.length=2 → (∀ value∈query,|value|≤1) →
          ∃ table,model.distanceTable (exact query)=.ok table ∧
            model.approximateDistance table node=
              .ok (.finite (1-dot query (reconstruction model codes))) :=
  product_quantizer_exact (by decide) (by decide) (by decide +kernel) (by decide) (by decide)
    (by decide) (by decide) (by decide) (by decide) (by decide)
    ⟨List.Perm.refl _,fun _ => Nat.two_pos⟩

end Main

end Leann.QuantizerExact
