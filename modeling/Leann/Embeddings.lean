import Leann.BinaryFloat
import Leann.Exceptions
import Leann.Outcomes

/-!
# Embeddings

Normalisation and the cosine distance of `embedder.cpp` in the floats the
code computes with. A finite vector that is not zero is normalised without
an error, its coordinates do not leave the unit interval even after
rounding, and the distance of two such vectors is finite.
-/

namespace Leann.Embeddings

open BinaryFloat Exceptions Outcomes

/-- `leann::Embedding`. -/
abbrev Embedding := List Single

/-- An embedder. The calls made on it are counted, so that its answers may
depend on what it was asked before. -/
structure Embedder where
  /-- `dimension`. -/
  dimension : ℕ
  /-- `fingerprint`. -/
  fingerprint : Text
  /-- `embed`, as it answers the call of a number. -/
  embed : ℕ → List Text → Except Fault (List Embedding)

/-- `validate_embedding`. -/
def validateEmbedding (embedding : Embedding) (expected : ℕ) : Except Fault Unit := do
  throwIf (embedding.length≠expected) (runtimeError ("embedder returned dimension "++
    toText embedding.length++", expected "++toText expected))
  throwIf (¬∀ value∈embedding,value.Finite) (runtimeError "embedder returned NaN or infinity")

/-- The sum in `normalize`. -/
def squaredNorm (embedding : Embedding) : Except Fault Double :=
  embedding.foldlM (fun norm value => do
    throwIf (¬value.Finite) (invalidArgument "embedding contains NaN or infinity")
    return norm+value.convert*value.convert) 0

/-- A double that a conversion to `float` does not turn infinite. -/
def InSingleRange (value : Double) : Prop :=
  value.Finite ∧ ¬(Binary.largest : Single).convert<value ∧ ¬value< -(Binary.largest : Single).convert

instance (value : Double) : Decidable (InSingleRange value) := inferInstanceAs (Decidable (_∧_))

/-- One coordinate in `normalize`. -/
def scaleCoordinate (scale : Double) (value : Single) : Except Fault Single := do
  let normalized := value.convert*scale
  throwIf (¬InSingleRange normalized) (runtimeError "normalized embedding contains NaN or infinity")
  return normalized.convert

/-- `normalize`. -/
def normalize (embedding : Embedding) : Except Fault Embedding := do
  let norm ← squaredNorm embedding
  throwIf (¬norm.Finite) (runtimeError "embedding norm is not finite")
  throwIf (norm≤0) (runtimeError "embedding has zero norm")
  let scale := 1/norm.sqrt
  throwIf (¬scale.Finite) (runtimeError "embedding normalization scale is not finite")
  embedding.mapM (scaleCoordinate scale)

/-- The sum in `cosine_distance`. -/
def dotProduct (lhs rhs : Embedding) : Except Fault Double :=
  (lhs.zip rhs).foldlM (fun dot pair => do
    throwIf (¬pair.1.Finite ∨ ¬pair.2.Finite)
      (invalidArgument "cosine distance input contains NaN or infinity")
    return dot+pair.1.convert*pair.2.convert) 0

/-- `cosine_distance`. -/
def cosineDistance (lhs rhs : Embedding) : Except Fault Single := do
  throwIf (lhs.length≠rhs.length) (invalidArgument "embedding dimensions do not match")
  let dot ← dotProduct lhs rhs
  let distance := 1-dot
  throwIf (¬InSingleRange distance) (runtimeError "cosine distance is not finite")
  return distance.convert

/-- A coordinate inside the unit interval. -/
def Unit (value : Single) : Prop := value.Finite ∧ |value.value|≤1

/-- A vector that can be normalised: finite, not zero, and short enough for
its squares to be summed. -/
structure Normalizable (embedding : Embedding) : Prop where
  /-- Every coordinate is finite. -/
  finite : ∀ value∈embedding,value.Finite
  /-- Some coordinate is not zero. -/
  nonzero : ∃ value∈embedding,value.value≠0
  /-- The length is below the precision of the sum. -/
  length_lt : embedding.length<2^53

section Normalization

/-- The magnitude of a number that stays inside the range of `float`. -/
theorem inSingleRange_of_abs_le {value : Double} (hf : value.Finite) (hv : |value.value|≤2^100) :
    InSingleRange value := by
  have h100 : single.Exact ((2 : ℚ)^100) := by
    have h := single_exact_natCast 1 100 (by norm_num) (by norm_num)
    rwa [one_mul,Nat.cast_pow,Nat.cast_ofNat] at h
  obtain ⟨hl,hle⟩ := Binary.le_largest h100
  obtain ⟨hw,hwv⟩ := widen_value hl
  obtain ⟨hlo,hhi⟩ := abs_le.mp hv
  refine ⟨hf,?_,?_⟩
  · rw [hw.lt_iff hf,hwv]
    linarith
  · rw [hf.lt_iff ((Binary.finite_neg _).mpr hw),Binary.value_neg,hwv]
    linarith

/-- Converting a number of a bounded magnitude keeps the bound. -/
theorem convert_abs_le {value : Double} (hf : value.Finite) {bound : ℚ} (hb : single.Exact bound)
    (hv : |value.value|≤bound) :
    (value.convert : Single).Finite ∧ |(value.convert : Single).value|≤bound := by
  rw [Binary.convert_eq hf]
  exact Binary.round_abs_le _ hb hv

/-- The invariant of the sum of squares: it is at least every square taken so
far and below the number of squares times a power of two. -/
structure Summed (done : Embedding) (norm : Double) : Prop where
  /-- The sum is finite. -/
  finite : norm.Finite
  /-- The sum is not negative. -/
  nonneg : 0≤norm.value
  /-- Rounding never loses a square. -/
  square_le : ∀ value∈done,value.value^2≤norm.value
  /-- Every square adds at most the greatest one. -/
  le_count : norm.value≤done.length*2^256

/-- The sum of the squares of finite coordinates. -/
theorem squaredNorm_ends {embedding : Embedding} (hf : ∀ value∈embedding,value.Finite)
    (hl : embedding.length<2^53) :
    Ends (squaredNorm embedding) (fun _ => False) (Summed embedding) := by
  refine Ends.foldlM embedding Summed ⟨finite_zero,?_,by simp,?_⟩ ?_
  · rw [Binary.value_zero]
  · rw [Binary.value_zero]
    positivity
  · intro done value rest norm hi hs
    have hv : value.Finite := hf value (by rw [hi]; simp)
    have hlen : done.length+1<2^53 := by
      rw [hi,List.length_append,List.length_cons] at hl
      omega
    have hthrow : throwIf (¬value.Finite) (invalidArgument "embedding contains NaN or infinity")=
        .ok () := (throwIf_ok _ _ _).mpr (not_not.mpr hv)
    rw [hthrow]
    obtain ⟨hpf,hpv⟩ := widen_mul_value hv hv
    have hsq : 0≤value.value*value.value := mul_self_nonneg _
    have hbound : value.value*value.value≤2^256 := by
      have ha := single_abs_le hv.exact
      have hm := mul_le_mul ha ha (abs_nonneg _) (by positivity)
      rw [abs_mul_abs_self,←pow_add] at hm
      exact hm
    have hupper : double.Exact (((done.length+1)*2^256 : ℕ) : ℚ) :=
      double_exact_natCast _ 256 hlen (by norm_num)
    have hcast : (((done.length+1)*2^256 : ℕ) : ℚ)=done.length*2^256+2^256 := by
      push_cast
      ring
    have hle := hs.le_count
    have hadd := Binary.add_eq hs.finite hpf
    change Summed (done++[value]) (norm+value.convert*value.convert)
    rw [hadd,hpv]
    have hn := Binary.round_between (norm.negative && (value.convert*value.convert : Double).negative)
      hs.finite.exact hupper (x := norm.value+value.value*value.value) (by linarith)
      (by rw [hcast]; linarith)
    have hsquare := Binary.round_between
      (norm.negative && (value.convert*value.convert : Double).negative)
      (hv.exact.product hv.exact) hupper (x := norm.value+value.value*value.value)
      (by linarith [hs.nonneg]) (by rw [hcast]; linarith)
    refine ⟨hn.1,by linarith [hs.nonneg],?_,?_⟩
    · intro other ho
      rcases List.mem_append.mp ho with ho|ho
      · exact (hs.square_le other ho).trans hn.2.1
      · rw [List.mem_singleton] at ho
        rw [ho,pow_two]
        exact hsquare.2.1
    · rw [List.length_append,List.length_singleton]
      refine hn.2.2.trans_eq ?_
      push_cast
      ring

/-- The root of the sum is finite and not below any coordinate. -/
theorem sqrt_ends {embedding : Embedding} (hn : Normalizable embedding) {norm : Double}
    (hs : Summed embedding norm) : 0<norm.value ∧ norm.sqrt.Finite ∧ 0<norm.sqrt.value ∧
      norm.sqrt.value≤2^155 ∧ ∀ value∈embedding,|value.value|≤norm.sqrt.value := by
  obtain ⟨first,hfirst,hne⟩ := hn.nonzero
  have hpos : 0<norm.value := (sq_pos_of_ne_zero hne).trans_le (hs.square_le first hfirst)
  have hhigh : double.Exact ((2 : ℚ)^155) := by
    have h := double_exact_natCast 1 155 (by norm_num) (by norm_num)
    rwa [one_mul,Nat.cast_pow,Nat.cast_ofNat] at h
  have hle : norm.value≤(2^155)^2 := by
    have hc : (embedding.length : ℚ)≤2^53 := by exact_mod_cast hn.length_lt.le
    have hp : ((2 : ℚ)^155)^2=2*(2^53*2^256) := by
      rw [←pow_mul,←pow_add,←pow_succ']
    have hm := mul_le_mul_of_nonneg_right hc (show (0 : ℚ)≤2^256 by positivity)
    have hg : (0 : ℚ)≤2^53*2^256 := by positivity
    rw [hp]
    linarith [hs.le_count]
  have hroot : ∀ value∈embedding,norm.sqrt.Finite ∧ |value.value|≤norm.sqrt.value ∧
      norm.sqrt.value≤2^155 := by
    intro value hv
    have hexact : double.Exact |value.value| := by
      rw [←Binary.value_abs]
      exact ((Binary.finite_abs value).mpr (hn.finite value hv)).exact.widen
    exact Binary.sqrt_between hs.finite hexact hhigh (abs_nonneg _) (by positivity) hpos
      (by rw [sq_abs]; exact hs.square_le value hv) hle
  obtain ⟨hfin,hlow,hup⟩ := hroot first hfirst
  exact ⟨hpos,hfin,(abs_pos.mpr hne).trans_le hlow,hup,fun value hv => (hroot value hv).2.1⟩

/-- The scale is finite, not negative, and never stretches the root much
beyond one. -/
theorem scale_ends {root : Double} (hf : root.Finite) (hpos : 0< root.value)
    (hlow : 1/2^149≤ root.value) (hup : root.value≤2^155) :
    (1/root).Finite ∧ 0≤(1/root).value ∧ root.value*(1/root).value≤1+1/2^52 := by
  obtain ⟨h1,hv1⟩ := double_one
  have hdiv : 1/root=Binary.round ((1 : Double).negative ^^ root.negative) (1/root.value) := by
    rw [Binary.div_eq h1 hf hpos.ne',hv1]
  have hhigh : double.Exact ((2 : ℚ)^149) := by
    have h := double_exact_natCast 1 149 (by norm_num) (by norm_num)
    rwa [one_mul,Nat.cast_pow,Nat.cast_ofNat] at h
  have hinv : 1/root.value≤2^149 := by
    rw [div_le_iff₀ hpos]
    rw [div_le_iff₀ (by positivity)] at hlow
    linarith
  have hb := Binary.round_between ((1 : Double).negative ^^ root.negative) double_exact_zero hhigh
    (by positivity) hinv
  rw [←hdiv] at hb
  refine ⟨hb.1,hb.2.1,?_⟩
  have hnormal : (double.binade : ℚ)≤1/root.value*2^double.shift := by
    have hge : 1/2^155≤1/root.value := one_div_le_one_div_of_le hpos hup
    have hs : (2 : ℚ)^1074=2^52*(2^155*2^867) := by rw [←pow_add,←pow_add]
    have h155 : (1 : ℚ)/2^155*(2^52*(2^155*2^867))=2^52*2^867 := by
      field_simp
    have h867 : (1 : ℚ)≤2^867 := one_le_pow₀ (by norm_num)
    have h52 := mul_le_mul_of_nonneg_left h867 (show (0 : ℚ)≤2^52 by positivity)
    have hm := mul_le_mul_of_nonneg_right hge (show (0 : ℚ)≤2^52*(2^155*2^867) by positivity)
    rw [double_binade,double_shift,hs,Nat.cast_pow,Nat.cast_ofNat]
    rw [h155] at hm
    rw [mul_one] at h52
    exact h52.trans hm
  have hrel := Binary.round_le_relative ((1 : Double).negative ^^ root.negative) hnormal
  rw [←hdiv,double_binade,Nat.cast_pow,Nat.cast_ofNat] at hrel
  have hm := mul_le_mul_of_nonneg_left hrel hpos.le
  have hone : root.value*(1/root.value*(2^52+1))=2^52+1 := by
    field_simp
  have h52 : (1+1/2^52)*(2 : ℚ)^52=2^52+1 := by norm_num
  rw [hone,←mul_assoc,←h52] at hm
  exact le_of_mul_le_mul_right hm (by positivity)

/-- A scaled coordinate is rounded into the unit interval. -/
theorem scaleCoordinate_ends {scale : Double} (hs : scale.Finite) (hs0 : 0≤ scale.value) {value : Single}
    (hv : value.Finite) (hb : |value.value| *scale.value≤1+1/2^52) :
    Ends (scaleCoordinate scale value) (fun _ => False) Unit := by
  obtain ⟨hw,hwv⟩ := widen_value hv
  have habs : |value.value*scale.value|≤1+1/2^52 := by
    rw [abs_mul,abs_of_nonneg hs0]
    exact hb
  have hexact : double.Exact ((1 : ℚ)+1/2^52) := by
    refine double.exact_ratio (2^52+1) 0 52 ?_ ?_ ?_ ?_
    · rw [double_binade]
      norm_num
    · rw [double_shift]
      norm_num
    · have h2 : 2^double.exponentBits=2048 := rfl
      rw [double_shift,h2]
      norm_num
    · rw [abs_of_pos (by positivity)]
      norm_num
  have hm := Binary.mul_eq hw hs
  rw [hwv] at hm
  have hr := Binary.round_abs_le ((value.convert : Double).negative ^^ scale.negative) hexact habs
  rw [←hm] at hr
  have hrange := inSingleRange_of_abs_le hr.1 (by
    refine hr.2.trans ?_
    norm_num)
  have hcheck : throwIf (¬InSingleRange (value.convert*scale))
      (runtimeError "normalized embedding contains NaN or infinity")=.ok () :=
    (throwIf_ok _ _ _).mpr (not_not.mpr hrange)
  have hdef : scaleCoordinate scale value=.ok (value.convert*scale : Double).convert := by
    rw [scaleCoordinate,hcheck]
    rfl
  rw [hdef,ends_ok,Unit,Binary.convert_eq hr.1]
  refine single_round_unit _ (hr.2.trans_lt ?_)
  norm_num

/-- A vector that can be normalised is normalised into the unit interval. -/
theorem normalize_ends {embedding : Embedding} (hn : Normalizable embedding) :
    Ends (normalize embedding) (fun _ => False) (fun result =>
      result.length=embedding.length ∧ ∀ value∈result,Unit value) := by
  unfold normalize
  refine (squaredNorm_ends hn.finite hn.length_lt).bind (fun norm hs => ?_)
  obtain ⟨hpos,hroot,hrpos,hrup,hle⟩ := sqrt_ends hn hs
  obtain ⟨first,hfirst,hne⟩ := hn.nonzero
  have hleast : 1/2^149≤norm.sqrt.value := (single_least (hn.finite first hfirst).exact hne).trans
    (hle first hfirst)
  obtain ⟨hsf,hs0,hprod⟩ := scale_ends hroot hrpos hleast hrup
  have h1 : throwIf (¬norm.Finite) (runtimeError "embedding norm is not finite")=.ok () :=
    (throwIf_ok _ _ _).mpr (not_not.mpr hs.finite)
  have h2 : throwIf (norm≤0) (runtimeError "embedding has zero norm")=.ok () := by
    refine (throwIf_ok _ _ _).mpr ?_
    rw [hs.finite.le_iff finite_zero,Binary.value_zero]
    exact not_le.mpr hpos
  have h3 : throwIf (¬(1/norm.sqrt).Finite)
      (runtimeError "embedding normalization scale is not finite")=.ok () :=
    (throwIf_ok _ _ _).mpr (not_not.mpr hsf)
  rw [h1,h2]
  dsimp only [bind,Except.bind]
  rw [h3]
  refine Ends.mapM embedding (fun value hv => scaleCoordinate_ends hsf hs0 (hn.finite value hv) ?_)
  exact (mul_le_mul_of_nonneg_right (hle value hv) hs0).trans hprod

end Normalization

section Distance

/-- The sum of products of coordinates in the unit interval. -/
theorem dotProduct_ends {lhs rhs : Embedding} (hl : ∀ value∈lhs,Unit value)
    (hr : ∀ value∈rhs,Unit value) (hlen : lhs.length<2^53) :
    Ends (dotProduct lhs rhs) (fun _ => False) (fun dot : Double => dot.Finite ∧ |dot.value|≤2^53) := by
  have hloop : Ends (dotProduct lhs rhs) (fun _ => False) (fun dot : Double =>
      dot.Finite ∧ |dot.value|≤(lhs.zip rhs).length) := by
    refine Ends.foldlM (lhs.zip rhs) (fun done (dot : Double) => dot.Finite ∧ |dot.value|≤done.length) ?_ ?_
    · exact ⟨finite_zero,by simp⟩
    · intro done pair rest dot hi hinv
      have hmem : pair∈lhs.zip rhs := by
        rw [hi]
        simp
      obtain ⟨h1,hv1⟩ := hl pair.1 (List.of_mem_zip hmem).1
      obtain ⟨h2,hv2⟩ := hr pair.2 (List.of_mem_zip hmem).2
      have hcheck : throwIf (¬pair.1.Finite ∨ ¬pair.2.Finite)
          (invalidArgument "cosine distance input contains NaN or infinity")=.ok () :=
        (throwIf_ok _ _ _).mpr (by simp [h1,h2])
      rw [hcheck]
      obtain ⟨hpf,hpv⟩ := widen_mul_value h1 h2
      change (dot+pair.1.convert*pair.2.convert).Finite ∧ |(dot+pair.1.convert*pair.2.convert).value|≤_
      rw [Binary.add_eq hinv.1 hpf,hpv]
      have hcount : (lhs.zip rhs).length<2^53 := by
        rw [List.length_zip]
        omega
      rw [hi,List.length_append,List.length_cons] at hcount
      have hexact : double.Exact (((done++[pair]).length : ℕ) : ℚ) := by
        have h := double_exact_natCast (done++[pair]).length 0
          (by rw [List.length_append,List.length_singleton]; omega) (by norm_num)
        rwa [pow_zero,Nat.mul_one] at h
      refine Binary.round_abs_le _ hexact ?_
      have hprod : |pair.1.value*pair.2.value|≤1 := by
        rw [abs_mul]
        exact mul_le_one₀ hv1 (abs_nonneg _) hv2
      refine (abs_add_le _ _).trans ?_
      rw [List.length_append,List.length_singleton,Nat.cast_add,Nat.cast_one]
      exact add_le_add hinv.2 hprod
  refine hloop.mono (fun _ h => h) (fun dot hd => ⟨hd.1,hd.2.trans ?_⟩)
  have hle : (lhs.zip rhs).length≤2^53 := by
    rw [List.length_zip]
    omega
  exact_mod_cast hle

/-- The distance of two vectors inside the unit interval is finite. -/
theorem cosineDistance_ends {lhs rhs : Embedding} (hl : ∀ value∈lhs,Unit value)
    (hr : ∀ value∈rhs,Unit value) (hlen : lhs.length<2^53) (he : lhs.length=rhs.length) :
    Ends (cosineDistance lhs rhs) (fun _ => False) Binary.Finite := by
  have hcheck : throwIf (lhs.length≠rhs.length) (invalidArgument "embedding dimensions do not match")=
      .ok () := (throwIf_ok _ _ _).mpr (not_not.mpr he)
  unfold cosineDistance
  rw [hcheck]
  refine (dotProduct_ends hl hr hlen).bind (fun dot hd => ?_)
  obtain ⟨h1,hv1⟩ := double_one
  have hexact : double.Exact ((2 : ℚ)^54) := by
    have h := double_exact_natCast 1 54 (by norm_num) (by norm_num)
    rwa [one_mul,Nat.cast_pow,Nat.cast_ofNat] at h
  have hs : single.Exact ((2 : ℚ)^54) := by
    have h := single_exact_natCast 1 54 (by norm_num) (by norm_num)
    rwa [one_mul,Nat.cast_pow,Nat.cast_ofNat] at h
  have hb : (1-dot).Finite ∧ |(1-dot).value|≤2^54 := by
    rw [Binary.sub_eq h1 hd.1,hv1]
    refine Binary.round_abs_le _ hexact ((abs_sub _ _).trans ?_)
    rw [abs_one]
    linarith [hd.2]
  have hrange := inSingleRange_of_abs_le hb.1 (hb.2.trans (by norm_num))
  have hcheck : throwIf (¬InSingleRange (1-dot)) (runtimeError "cosine distance is not finite")=
      .ok () := (throwIf_ok _ _ _).mpr (not_not.mpr hrange)
  dsimp only
  rw [hcheck]
  exact (convert_abs_le hb.1 hs hb.2).1

end Distance

end Leann.Embeddings
