import Mathlib.Algebra.Order.Floor.Ring
import Mathlib.Algebra.Order.Floor.Semiring
import Mathlib.Data.Int.ConditionallyCompleteOrder
import Mathlib.Data.Nat.Log
import Mathlib.Data.Nat.Sqrt
import Mathlib.Data.Rat.Floor
import Mathlib.Order.Compare
import Mathlib.Tactic.FieldSimp
import Mathlib.Tactic.Linarith
import Mathlib.Tactic.NormNum
import Mathlib.Tactic.Positivity
import Mathlib.Tactic.Ring

/-!
# Binary interchange floats with rounding to nearest, ties to even

A float is a sign and the pattern of its exponent and fraction fields.
Finite magnitudes increase with the pattern, so rounding chooses between
two neighbouring patterns and a result is located by the representable
numbers on either side of the exact one. Core operations on `Float` have no
conversion between widths that a proof can look into.
-/

namespace Leann.BinaryFloat

/-- The widths of the stored fields of an interchange format. -/
structure Format where
  /-- Bits of the stored fraction. -/
  fractionBits : ℕ
  /-- Bits of the biased exponent. -/
  exponentBits : ℕ

namespace Format

variable (f : Format)

/-- Patterns that share one exponent. -/
def binade : ℕ := 2^f.fractionBits

/-- The pattern of an infinite magnitude. -/
def infinity : ℕ := (2^f.exponentBits-1)*f.binade

/-- The number of patterns without the sign. -/
def patterns : ℕ := 2^f.exponentBits*f.binade

/-- The least positive magnitude is two to the power of minus this. -/
def shift : ℕ := 2^(f.exponentBits-1)-2+f.fractionBits

/-- Distance to the next magnitude, in least magnitudes. -/
def gap (pattern : ℕ) : ℕ := 2^(pattern/f.binade-1)

/-- The magnitude of a pattern, in least magnitudes. -/
def units (pattern : ℕ) : ℕ :=
  if pattern<f.binade then pattern else (f.binade+pattern%f.binade)*f.gap pattern

/-- The pattern of the greatest magnitude up to an amount. -/
def below (amount : ℕ) : ℕ :=
  if amount<f.binade then amount
  else (Nat.log2 amount-f.fractionBits)*f.binade+amount/2^(Nat.log2 amount-f.fractionBits)

theorem binade_pos : 0<f.binade := Nat.two_pow_pos _

theorem gap_pos (pattern : ℕ) : 0<f.gap pattern := Nat.two_pow_pos _

theorem infinity_lt_patterns : f.infinity<f.patterns :=
  Nat.mul_lt_mul_of_pos_right (Nat.sub_lt (Nat.two_pow_pos _) Nat.one_pos) f.binade_pos

theorem units_of_lt {pattern : ℕ} (hp : pattern<f.binade) : f.units pattern=pattern := if_pos hp

/-- A normal magnitude, by its exponent and its full significand. -/
theorem units_normal (exponent fraction : ℕ) (hf : fraction<f.binade) :
    f.units ((exponent+1)*f.binade+fraction)=(f.binade+fraction)*2^exponent := by
  have hd : ((exponent+1)*f.binade+fraction)/f.binade=exponent+1 := by
    rw [Nat.mul_comm,Nat.mul_add_div f.binade_pos,Nat.div_eq_of_lt hf,Nat.add_zero]
  have hm : ((exponent+1)*f.binade+fraction)%f.binade=fraction := by
    rw [Nat.mul_comm,Nat.mul_add_mod,Nat.mod_eq_of_lt hf]
  have hl : ¬(exponent+1)*f.binade+fraction<f.binade := by
    rw [Nat.add_mul,Nat.one_mul]
    omega
  rw [units,if_neg hl,gap,hd,hm,Nat.add_sub_cancel]

/-- Every pattern from the first normal one on has an exponent and a fraction. -/
theorem normal_split {pattern : ℕ} (hp : f.binade≤pattern) :
    ∃ exponent fraction,fraction<f.binade ∧ pattern=(exponent+1)*f.binade+fraction := by
  have hd : 1≤pattern/f.binade := (Nat.one_le_div_iff f.binade_pos).mpr hp
  refine ⟨pattern/f.binade-1,pattern%f.binade,Nat.mod_lt _ f.binade_pos,?_⟩
  rw [Nat.sub_add_cancel hd,Nat.mul_comm]
  exact (Nat.div_add_mod pattern f.binade).symm

/-- Consecutive magnitudes differ by the gap. -/
theorem units_succ (pattern : ℕ) : f.units (pattern+1)=f.units pattern+f.gap pattern := by
  have hb := f.binade_pos
  by_cases hs : pattern<f.binade
  · have hg : f.gap pattern=1 := by rw [gap,Nat.div_eq_of_lt hs]; rfl
    rw [f.units_of_lt hs,hg]
    rcases Nat.lt_or_ge (pattern+1) f.binade with hl|hl
    · exact f.units_of_lt hl
    · have he : pattern+1=(0+1)*f.binade+0 := by omega
      rw [he,f.units_normal 0 0 hb]
      omega
  · obtain ⟨exponent,fraction,hf,rfl⟩ := f.normal_split (Nat.le_of_not_lt hs)
    have hg : f.gap ((exponent+1)*f.binade+fraction)=2^exponent := by
      rw [gap,Nat.mul_comm,Nat.mul_add_div hb,Nat.div_eq_of_lt hf]
      rfl
    rw [f.units_normal exponent fraction hf,hg]
    rcases Nat.lt_or_ge (fraction+1) f.binade with hl|hl
    · rw [Nat.add_assoc,f.units_normal exponent (fraction+1) hl]
      ring
    · have hq : fraction+1=f.binade := by omega
      have he : (exponent+1)*f.binade+fraction+1=(exponent+1+1)*f.binade+0 := by
        rw [Nat.add_assoc,hq]
        ring
      have hs : f.binade+fraction+1=2*f.binade := by omega
      rw [he,f.units_normal (exponent+1) 0 hb,pow_succ]
      calc (f.binade+0)*(2^exponent*2)=(2*f.binade)*2^exponent := by ring
        _=(f.binade+fraction)*2^exponent+2^exponent := by rw [← hs]; ring

theorem units_strictMono : StrictMono f.units :=
  strictMono_nat_of_lt_succ fun pattern => by
    rw [f.units_succ]
    exact Nat.lt_add_of_pos_right (f.gap_pos pattern)

@[simp] theorem units_zero : f.units 0=0 := f.units_of_lt f.binade_pos

/-- The chosen exponent and significand of an amount that is not subnormal. -/
theorem below_split {amount : ℕ} (ha : f.binade≤amount) :
    ∃ exponent fraction,fraction<f.binade ∧
      f.below amount=(exponent+1)*f.binade+fraction ∧
      exponent=Nat.log2 amount-f.fractionBits ∧ f.binade+fraction=amount/2^exponent := by
  have hb := f.binade_pos
  have hn : amount≠0 := by omega
  have hl : f.fractionBits≤Nat.log2 amount := (Nat.le_log2 hn).mpr ha
  have hlo : 2^Nat.log2 amount≤amount := Nat.log2_self_le hn
  have hhi : amount<2^(Nat.log2 amount+1) := Nat.lt_log2_self
  obtain ⟨exponent,he⟩ := Nat.exists_eq_add_of_le hl
  have hp : 0<2^exponent := Nat.two_pow_pos _
  have hd : f.binade≤amount/2^exponent := by
    rw [Nat.le_div_iff_mul_le hp,binade,← pow_add,← he]
    exact hlo
  have hu : amount/2^exponent<2*f.binade := by
    rw [Nat.div_lt_iff_lt_mul hp,binade,Nat.mul_assoc,← pow_add,← he,← pow_succ']
    exact hhi
  have hx : Nat.log2 amount-f.fractionBits=exponent := by omega
  refine ⟨exponent,amount/2^exponent-f.binade,by omega,?_,hx.symm,by omega⟩
  rw [below,if_neg (by omega),hx,Nat.add_mul]
  omega

/-- The pattern below an amount is the last one whose magnitude it reaches. -/
theorem units_below (amount : ℕ) :
    f.units (f.below amount)≤amount ∧ amount<f.units (f.below amount+1) := by
  by_cases hs : amount<f.binade
  · have hb : f.below amount=amount := if_pos hs
    rw [hb,f.units_succ,f.units_of_lt hs]
    exact ⟨Nat.le_refl _,Nat.lt_add_of_pos_right (f.gap_pos amount)⟩
  · obtain ⟨exponent,fraction,hf,hb,-,hq⟩ := f.below_split (Nat.le_of_not_lt hs)
    have hg : f.gap ((exponent+1)*f.binade+fraction)=2^exponent := by
      rw [gap,Nat.mul_comm,Nat.mul_add_div f.binade_pos,Nat.div_eq_of_lt hf]
      rfl
    rw [f.units_succ,hb,f.units_normal exponent fraction hf,hg,hq]
    refine ⟨Nat.div_mul_le_self amount _,?_⟩
    rw [← Nat.succ_mul]
    exact (Nat.div_lt_iff_lt_mul (Nat.two_pow_pos _)).mp (Nat.lt_succ_self _)

/-- An amount with a short significand is a magnitude. -/
theorem units_below_of_short (significand power : ℕ) (hs : significand<2*f.binade) :
    f.units (f.below (significand*2^power))=significand*2^power := by
  by_cases ha : significand*2^power<f.binade
  · have hb : f.below (significand*2^power)=significand*2^power := if_pos ha
    rw [hb,f.units_of_lt ha]
  · obtain ⟨exponent,fraction,hf,hb,he,hq⟩ := f.below_split (Nat.le_of_not_lt ha)
    rw [hb,f.units_normal exponent fraction hf,hq]
    have hn : significand*2^power≠0 := by have := f.binade_pos; omega
    have hl : Nat.log2 (significand*2^power)<f.fractionBits+1+power := by
      rw [Nat.log2_lt hn,pow_add,pow_succ']
      exact Nat.mul_lt_mul_of_pos_right hs (Nat.two_pow_pos _)
    have hd : 2^exponent∣significand*2^power :=
      Dvd.dvd.mul_left (pow_dvd_pow 2 (by omega)) significand
    exact Nat.div_mul_cancel hd

/-- Settle between a pattern and the next one, to even at the midpoint. -/
def settle (pattern : ℕ) : Ordering → ℕ
  | .lt => pattern
  | .eq => pattern+pattern%2
  | .gt => pattern+1

/-- The pattern nearest a non-negative number of least magnitudes. -/
def nearest (x : ℚ) : ℕ :=
  let pattern := f.below ⌊x⌋₊
  settle pattern (cmp (2*x) (f.units pattern+f.units (pattern+1) : ℕ))

/-- The pattern nearest the square root of a number of least magnitudes. -/
def nearestRoot (x : ℚ) : ℕ :=
  let pattern := f.below (Nat.sqrt ⌊x⌋₊)
  settle pattern (cmp (4*x) ((f.units pattern+f.units (pattern+1))^2 : ℕ))

theorem le_settle (pattern : ℕ) (side : Ordering) : pattern≤ settle pattern side := by
  cases side <;> simp [settle]

theorem settle_le (pattern : ℕ) (side : Ordering) : settle pattern side≤pattern+1 := by
  cases side <;> simp only [settle] <;> omega

/-- Rounding does not pass a magnitude above the number. -/
theorem nearest_le {x : ℚ} (hx : 0≤x) {pattern : ℕ} (hp : x≤f.units pattern) :
    f.nearest x≤pattern := by
  have hlo : (f.units (f.below ⌊x⌋₊) : ℚ)≤x :=
    le_trans (by exact_mod_cast (f.units_below ⌊x⌋₊).1) (Nat.floor_le hx)
  have hb : f.below ⌊x⌋₊≤pattern :=
    f.units_strictMono.le_iff_le.mp (by exact_mod_cast hlo.trans hp)
  rcases hb.lt_or_eq with hl|he
  · exact (settle_le _ _).trans hl
  · have hg : f.units (f.below ⌊x⌋₊)<f.units (f.below ⌊x⌋₊+1) :=
      f.units_strictMono (Nat.lt_succ_self _)
    have hc : 2*x<(f.units (f.below ⌊x⌋₊)+f.units (f.below ⌊x⌋₊+1) : ℕ) := by
      have hg' : (f.units (f.below ⌊x⌋₊) : ℚ)<f.units (f.below ⌊x⌋₊+1) := by exact_mod_cast hg
      rw [← he] at hp
      push_cast
      linarith
    rw [nearest,cmp_eq_lt_iff _ _ |>.mpr hc]
    exact he.le

/-- Rounding does not pass a magnitude when the number is below the middle of
the next gap. -/
theorem nearest_le_of_lt {x : ℚ} (hx : 0≤x) {pattern : ℕ}
    (hp : 2*x<f.units pattern+f.units (pattern+1)) : f.nearest x≤pattern := by
  have hlo : (f.units (f.below ⌊x⌋₊) : ℚ)≤x :=
    le_trans (by exact_mod_cast (f.units_below ⌊x⌋₊).1) (Nat.floor_le hx)
  have hg : (f.units pattern : ℚ)<f.units (pattern+1) := by
    exact_mod_cast f.units_strictMono (Nat.lt_succ_self pattern)
  have hb : f.below ⌊x⌋₊<pattern+1 := by
    refine f.units_strictMono.lt_iff_lt.mp ?_
    have hlt : (f.units (f.below ⌊x⌋₊) : ℚ)<f.units (pattern+1) := by linarith
    exact_mod_cast hlt
  rcases (Nat.le_of_lt_succ hb).lt_or_eq with hl|he
  · exact (settle_le _ _).trans hl
  · have hc : 2*x<(f.units (f.below ⌊x⌋₊)+f.units (f.below ⌊x⌋₊+1) : ℕ) := by
      rw [he]
      push_cast
      exact hp
    rw [nearest,cmp_eq_lt_iff _ _ |>.mpr hc]
    exact he.le

/-- Rounding does not pass a magnitude below the number. -/
theorem le_nearest {x : ℚ} {pattern : ℕ} (hp : f.units pattern≤x) : pattern≤f.nearest x := by
  have hf : f.units pattern≤⌊x⌋₊ := Nat.le_floor hp
  have hb : pattern<f.below ⌊x⌋₊+1 :=
    f.units_strictMono.lt_iff_lt.mp (hf.trans_lt (f.units_below ⌊x⌋₊).2)
  exact (Nat.le_of_lt_succ hb).trans (le_settle _ _)

/-- A rounded root does not pass a magnitude above it. -/
theorem nearestRoot_le {x : ℚ} (hx : 0≤x) {pattern : ℕ} (hp : x≤(f.units pattern : ℚ)^2) :
    f.nearestRoot x≤pattern := by
  have hs : Nat.sqrt ⌊x⌋₊*Nat.sqrt ⌊x⌋₊≤⌊x⌋₊ := Nat.sqrt_le _
  have hu := (f.units_below (Nat.sqrt ⌊x⌋₊)).1
  have hlo : ((f.units (f.below (Nat.sqrt ⌊x⌋₊)))^2 : ℚ)≤x := by
    refine le_trans ?_ (Nat.floor_le hx)
    have hm := (Nat.mul_le_mul hu hu).trans hs
    rw [← pow_two] at hm
    exact_mod_cast hm
  have hb : f.below (Nat.sqrt ⌊x⌋₊)≤pattern := by
    refine f.units_strictMono.le_iff_le.mp ?_
    have h2 : (f.units (f.below (Nat.sqrt ⌊x⌋₊)))^2≤(f.units pattern)^2 := by
      exact_mod_cast hlo.trans hp
    exact (Nat.pow_le_pow_iff_left (by norm_num)).mp h2
  rcases hb.lt_or_eq with hl|he
  · exact (settle_le _ _).trans hl
  · have hg : f.units (f.below (Nat.sqrt ⌊x⌋₊))<f.units (f.below (Nat.sqrt ⌊x⌋₊)+1) :=
      f.units_strictMono (Nat.lt_succ_self _)
    have hc : 4*x<((f.units (f.below (Nat.sqrt ⌊x⌋₊))+
        f.units (f.below (Nat.sqrt ⌊x⌋₊)+1))^2 : ℕ) := by
      have hg' : (f.units (f.below (Nat.sqrt ⌊x⌋₊)) : ℚ)<f.units (f.below (Nat.sqrt ⌊x⌋₊)+1) := by
        exact_mod_cast hg
      have hn : (0 : ℚ)≤f.units (f.below (Nat.sqrt ⌊x⌋₊)) := Nat.cast_nonneg _
      rw [← he] at hp
      push_cast
      nlinarith
    rw [nearestRoot,cmp_eq_lt_iff _ _ |>.mpr hc]
    exact he.le

/-- A rounded root does not pass a magnitude below it. -/
theorem le_nearestRoot {x : ℚ} {pattern : ℕ} (hp : (f.units pattern : ℚ)^2≤x) :
    pattern≤f.nearestRoot x := by
  have hf : f.units pattern*f.units pattern≤⌊x⌋₊ := by
    rw [← pow_two]
    exact Nat.le_floor (by exact_mod_cast hp)
  have hs : f.units pattern≤Nat.sqrt ⌊x⌋₊ := Nat.le_sqrt.mpr hf
  have hb : pattern<f.below (Nat.sqrt ⌊x⌋₊)+1 :=
    f.units_strictMono.lt_iff_lt.mp (hs.trans_lt (f.units_below _).2)
  exact (Nat.le_of_lt_succ hb).trans (le_settle _ _)

/-- Rounding a normal magnitude up adds at most one unit in the last place. -/
theorem units_nearest_le {x : ℚ} (hx : f.binade≤x) :
    (f.units (f.nearest x) : ℚ)*f.binade≤x*(f.binade+1) := by
  have h0 : (0 : ℚ)≤x := le_trans (Nat.cast_nonneg _) hx
  have hn : f.binade≤⌊x⌋₊ := Nat.le_floor hx
  obtain ⟨exponent,fraction,hf,hb,-,-⟩ := f.below_split hn
  have hg : f.gap (f.below ⌊x⌋₊)=2^exponent := by
    rw [hb,gap,Nat.mul_comm,Nat.mul_add_div f.binade_pos,Nat.div_eq_of_lt hf]
    rfl
  have hlo : (f.units (f.below ⌊x⌋₊) : ℚ)≤x :=
    le_trans (by exact_mod_cast (f.units_below ⌊x⌋₊).1) (Nat.floor_le h0)
  have hup : f.units (f.nearest x)≤f.units (f.below ⌊x⌋₊)+2^exponent := by
    rw [← hg,← f.units_succ]
    exact f.units_strictMono.monotone (settle_le _ _)
  have hspan : 2^exponent*f.binade≤f.units (f.below ⌊x⌋₊) := by
    rw [hb,f.units_normal exponent fraction hf,Nat.mul_comm]
    exact Nat.mul_le_mul_right _ (Nat.le_add_right _ _)
  have hup' : (f.units (f.nearest x) : ℚ)≤f.units (f.below ⌊x⌋₊)+2^exponent := by
    exact_mod_cast hup
  have hspan' : (2 : ℚ)^exponent*f.binade≤f.units (f.below ⌊x⌋₊) := by exact_mod_cast hspan
  have hpos : (0 : ℚ)<f.binade := by exact_mod_cast f.binade_pos
  nlinarith

/-- The value of a signed pattern. -/
def grid (key : ℤ) : ℚ := key.sign*f.units key.natAbs/2^f.shift

theorem grid_neg (key : ℤ) : f.grid (-key)=-f.grid key := by
  simp only [grid,Int.sign_neg,Int.natAbs_neg,Int.cast_neg]
  ring

theorem grid_natCast (pattern : ℕ) : f.grid pattern=f.units pattern/2^f.shift := by
  rcases Nat.eq_zero_or_pos pattern with rfl|hp
  · simp [grid]
  · have hs : (pattern : ℤ).sign=1 := Int.sign_eq_one_of_pos (by exact_mod_cast hp)
    rw [grid,hs,Int.natAbs_natCast,Int.cast_one,one_mul]

@[simp] theorem grid_zero : f.grid 0=0 := by simp [grid]

theorem grid_strictMono : StrictMono f.grid := by
  have hpos : ∀ low high : ℕ,low<high → f.grid low<f.grid high := by
    intro low high hl
    rw [f.grid_natCast,f.grid_natCast]
    exact div_lt_div_of_pos_right (by exact_mod_cast f.units_strictMono hl) (by positivity)
  have hmono : ∀ low high : ℕ,low≤high → f.grid low≤f.grid high := by
    intro low high hl
    rcases hl.lt_or_eq with h|rfl
    · exact (hpos low high h).le
    · exact le_rfl
  intro low high hlt
  rcases Int.eq_nat_or_neg low with ⟨n,rfl|rfl⟩ <;> rcases Int.eq_nat_or_neg high with ⟨m,rfl|rfl⟩
  · exact hpos n m (by exact_mod_cast hlt)
  · omega
  · rw [f.grid_neg]
    have h1 := hmono 0 n (Nat.zero_le n)
    have h2 := hmono 0 m (Nat.zero_le m)
    simp only [Nat.cast_zero,grid_zero] at h1 h2
    rcases Nat.eq_zero_or_pos n with rfl|hn
    · have hm := hpos 0 m (by omega)
      simp only [Nat.cast_zero,grid_zero,neg_zero] at hm ⊢
      exact hm
    · have hn := hpos 0 n hn
      simp only [Nat.cast_zero,grid_zero] at hn
      linarith
  · rw [f.grid_neg,f.grid_neg]
    exact neg_lt_neg (hpos m n (by omega))

/-- The number is the value of a finite float. -/
def Exact (x : ℚ) : Prop := ∃ key : ℤ,key.natAbs<f.infinity ∧ f.grid key=x

/-- The finite values are the short significands scaled within the range. -/
theorem exact_of_short {x : ℚ} (significand power : ℕ) (hs : significand<2*f.binade)
    (hr : significand*2^power<f.units f.infinity)
    (hx : |x| *2^f.shift=(significand*2^power : ℕ)) : f.Exact x := by
  have hu := f.units_below_of_short significand power hs
  have hp : (0 : ℚ)<2^f.shift := by positivity
  have hg : f.grid (f.below (significand*2^power) : ℕ)=|x| := by
    rw [f.grid_natCast,hu,← hx,mul_div_cancel_right₀ _ hp.ne']
  have hl : f.below (significand*2^power)<f.infinity :=
    f.units_strictMono.lt_iff_lt.mp (by rw [hu]; exact hr)
  rcases abs_choice x with h|h
  · exact ⟨(f.below (significand*2^power) : ℕ),by simpa using hl,by rw [hg,h]⟩
  · exact ⟨-(f.below (significand*2^power) : ℕ),by simpa using hl,by rw [f.grid_neg,hg,h,neg_neg]⟩

/-- Every finite value is a short significand scaled within the range. -/
theorem Exact.short {x : ℚ} (hx : f.Exact x) :
    ∃ significand power : ℕ,significand<2*f.binade ∧
      significand*2^power<f.units f.infinity ∧ |x| *2^f.shift=(significand*2^power : ℕ) := by
  obtain ⟨key,hk,rfl⟩ := hx
  have hp : (0 : ℚ)<2^f.shift := by positivity
  have habs : |f.grid key| *2^f.shift=f.units key.natAbs := by
    rcases Int.eq_nat_or_neg key with ⟨n,rfl|rfl⟩
    · rw [f.grid_natCast,Int.natAbs_natCast,abs_of_nonneg (by positivity),
        div_mul_cancel₀ _ hp.ne']
    · rw [f.grid_neg,f.grid_natCast,Int.natAbs_neg,Int.natAbs_natCast,abs_neg,
        abs_of_nonneg (by positivity),div_mul_cancel₀ _ hp.ne']
  have hlt := f.units_strictMono hk
  rw [habs]
  by_cases hs : key.natAbs<f.binade
  · rw [f.units_of_lt hs] at hlt ⊢
    exact ⟨key.natAbs,0,by omega,by simpa using hlt,by simp⟩
  · obtain ⟨exponent,fraction,hf,he⟩ := f.normal_split (Nat.le_of_not_lt hs)
    rw [he,f.units_normal exponent fraction hf] at hlt ⊢
    exact ⟨f.binade+fraction,exponent,by omega,hlt,rfl⟩

theorem units_infinity (he : 1≤f.exponentBits) :
    f.units f.infinity=f.binade*2^(2^f.exponentBits-2) := by
  have h2 : 2≤2^f.exponentBits := by
    calc 2=2^1 := rfl
      _≤2^f.exponentBits := Nat.pow_le_pow_right (by norm_num) he
  have hi : f.infinity=(2^f.exponentBits-2+1)*f.binade+0 := by
    rw [infinity,Nat.add_zero]
    congr 1
    omega
  rw [hi,f.units_normal _ 0 f.binade_pos,Nat.add_zero]

/-- A short significand with an exponent inside the range of the format. -/
theorem exact_ratio {x : ℚ} (significand power root : ℕ) (hs : significand<2*f.binade)
    (hr : root≤f.shift) (hp : power+f.shift+3≤2^f.exponentBits+root)
    (hx : |x| *2^root=(significand*2^power : ℕ)) : f.Exact x := by
  have he : 1≤f.exponentBits := by
    by_contra h
    have h0 : f.exponentBits=0 := by omega
    rw [h0] at hp
    omega
  obtain ⟨rest,hrest⟩ := Nat.exists_eq_add_of_le hr
  refine f.exact_of_short significand (power+rest) hs ?_ ?_
  · rw [f.units_infinity he]
    calc significand*2^(power+rest)<2*f.binade*2^(power+rest) :=
          Nat.mul_lt_mul_of_pos_right hs (Nat.two_pow_pos _)
      _=f.binade*2^(power+rest+1) := by rw [pow_succ]; ring
      _≤f.binade*2^(2^f.exponentBits-2) :=
          Nat.mul_le_mul_left _ (Nat.pow_le_pow_right (by norm_num) (by omega))
  · rw [hrest,pow_add,← mul_assoc,hx,pow_add]
    push_cast
    ring

theorem exact_zero (hi : 0<f.infinity) : f.Exact 0 := ⟨0,hi,f.grid_zero⟩

theorem Exact.neg {x : ℚ} (hx : f.Exact x) : f.Exact (-x) := by
  obtain ⟨key,hk,rfl⟩ := hx
  exact ⟨-key,by simpa using hk,f.grid_neg key⟩

end Format

/-- A float of a format: its sign and the pattern of the other fields. -/
@[ext] structure Binary (f : Format) where
  /-- The sign bit. -/
  negative : Bool
  /-- The exponent and fraction bits. -/
  pattern : ℕ
  /-- The pattern fits its fields. -/
  pattern_lt : pattern<f.patterns
deriving DecidableEq

namespace Binary

variable {f g : Format}

/-- A magnitude of the format or the infinite one beyond its range. -/
def ofPattern (negative : Bool) (pattern : ℕ) : Binary f :=
  ⟨negative,min pattern f.infinity,(min_le_right _ _).trans_lt f.infinity_lt_patterns⟩

/-- Neither infinite nor undefined. -/
def Finite (a : Binary f) : Prop := a.pattern<f.infinity

instance (a : Binary f) : Decidable a.Finite := inferInstanceAs (Decidable (_<_))

/-- The result of an undefined operation. -/
def IsNaN (a : Binary f) : Prop := f.infinity<a.pattern

instance (a : Binary f) : Decidable a.IsNaN := inferInstanceAs (Decidable (_<_))

/-- The signed pattern, which orders the floats that are defined. -/
def key (a : Binary f) : ℤ := if a.negative then -a.pattern else a.pattern

/-- The number a finite float stands for. -/
def value (a : Binary f) : ℚ := f.grid a.key

/-- The infinite float of a sign. -/
def infinite (negative : Bool) : Binary f := ofPattern negative f.infinity

/-- The undefined float, quiet where the format has a fraction. -/
def nan : Binary f :=
  ⟨false,f.patterns-1,Nat.sub_lt (Nat.mul_pos (Nat.two_pow_pos _) f.binade_pos) Nat.one_pos⟩

/-- Round a number to the nearest float, with the given sign for zero. -/
def round (zeroSign : Bool) (x : ℚ) : Binary f :=
  if x=0 then ofPattern zeroSign 0 else ofPattern (decide (x<0)) (f.nearest (|x| *2^f.shift))

theorem natAbs_key (a : Binary f) : a.key.natAbs=a.pattern := by
  unfold key
  split <;> simp

theorem Finite.exact {a : Binary f} (ha : a.Finite) : f.Exact a.value :=
  ⟨a.key,by rw [natAbs_key]; exact ha,rfl⟩

theorem key_ofPattern (negative : Bool) (pattern : ℕ) :
    (ofPattern (f := f) negative pattern).key=
      if negative then -((min pattern f.infinity : ℕ) : ℤ) else (min pattern f.infinity : ℕ) := rfl

/-- Rounding never passes a representable number. -/
theorem round_between (zeroSign : Bool) {low high x : ℚ} (hl : f.Exact low) (hh : f.Exact high)
    (hlx : low≤x) (hxh : x≤high) :
    (round zeroSign x : Binary f).Finite ∧ low≤(round zeroSign x : Binary f).value ∧
      (round zeroSign x : Binary f).value≤high := by
  obtain ⟨a,ha,rfl⟩ := hl
  obtain ⟨b,hb,rfl⟩ := hh
  have hp : (0 : ℚ)<2^f.shift := by positivity
  have hscale : ∀ n : ℕ,|x|≤f.grid n → |x| *2^f.shift≤f.units n := fun n h => by
    rwa [f.grid_natCast,le_div_iff₀ hp] at h
  have hscale' : ∀ n : ℕ,f.grid n≤|x| → (f.units n : ℚ)≤|x| *2^f.shift := fun n h => by
    rwa [f.grid_natCast,div_le_iff₀ hp] at h
  have hx0 : (0 : ℚ)≤|x| *2^f.shift := by positivity
  suffices h : a≤(round zeroSign x : Binary f).key ∧ (round zeroSign x : Binary f).key≤b by
    refine ⟨?_,f.grid_strictMono.monotone h.1,f.grid_strictMono.monotone h.2⟩
    have hk := natAbs_key (round zeroSign x : Binary f)
    unfold Finite
    omega
  unfold round
  rcases lt_trichotomy x 0 with hx|rfl|hx
  · have hneg : a<0 := f.grid_strictMono.lt_iff_lt.mp (by rw [f.grid_zero]; exact hlx.trans_lt hx)
    obtain ⟨n,rfl⟩ : ∃ n : ℕ,a=-(n : ℤ) := ⟨a.natAbs,by omega⟩
    have hlo : f.nearest (|x| *2^f.shift)≤n := by
      refine f.nearest_le hx0 (hscale n ?_)
      rw [f.grid_neg] at hlx
      rw [abs_of_neg hx]
      linarith
    rw [if_neg hx.ne,key_ofPattern,if_pos (by simpa using hx)]
    refine ⟨by omega,?_⟩
    rcases Int.eq_nat_or_neg b with ⟨m,rfl|rfl⟩
    · omega
    · have hhi : m≤f.nearest (|x| *2^f.shift) := by
        refine f.le_nearest (hscale' m ?_)
        rw [f.grid_neg] at hxh
        rw [abs_of_neg hx]
        linarith
      rw [Int.natAbs_neg,Int.natAbs_natCast] at hb
      omega
  · have h0 : f.grid 0=0 := f.grid_zero
    rw [if_pos rfl,key_ofPattern]
    have h1 : a≤0 := f.grid_strictMono.le_iff_le.mp (by rw [h0]; exact hlx)
    have h2 : 0≤b := f.grid_strictMono.le_iff_le.mp (by rw [h0]; exact hxh)
    cases zeroSign <;> simpa using ⟨h1,h2⟩
  · have hpos : 0<b := f.grid_strictMono.lt_iff_lt.mp (by rw [f.grid_zero]; exact hx.trans_le hxh)
    obtain ⟨m,rfl⟩ := Int.eq_ofNat_of_zero_le hpos.le
    have hhi : f.nearest (|x| *2^f.shift)≤ m :=
      f.nearest_le hx0 (hscale m (by rw [abs_of_pos hx]; exact hxh))
    rw [if_neg hx.ne',key_ofPattern,if_neg (by simpa using hx.le)]
    refine ⟨?_,by omega⟩
    rcases Int.eq_nat_or_neg a with ⟨n,rfl|rfl⟩
    · have hlo : n≤f.nearest (|x| *2^f.shift) :=
        f.le_nearest (hscale' n (by rw [abs_of_pos hx]; exact hlx))
      rw [Int.natAbs_natCast] at ha
      omega
    · omega

/-- A representable number is its own rounding. -/
theorem round_exact (zeroSign : Bool) {x : ℚ} (hx : f.Exact x) :
    (round zeroSign x : Binary f).Finite ∧ (round zeroSign x : Binary f).value=x := by
  have h := round_between zeroSign hx hx le_rfl le_rfl
  exact ⟨h.1,le_antisymm h.2.2 h.2.1⟩

/-- A rounded number stays within a representable bound on its magnitude. -/
theorem round_abs_le (zeroSign : Bool) {x bound : ℚ} (hb : f.Exact bound) (hx : |x|≤bound) :
    (round zeroSign x : Binary f).Finite ∧ |(round zeroSign x : Binary f).value|≤bound := by
  obtain ⟨hl,hh⟩ := abs_le.mp hx
  have h := round_between zeroSign hb.neg hb hl hh
  exact ⟨h.1,abs_le.mpr h.2⟩

/-- The magnitude of a float. -/
theorem abs_value (a : Binary f) : |a.value|=f.units a.pattern/2^f.shift := by
  rw [value,key]
  split
  · rw [f.grid_neg,abs_neg,f.grid_natCast,abs_of_nonneg (by positivity)]
  · rw [f.grid_natCast,abs_of_nonneg (by positivity)]

/-- The pattern of a rounded number comes from its magnitude. -/
theorem round_pattern_le (zeroSign : Bool) (x : ℚ) :
    (round zeroSign x : Binary f).pattern≤f.nearest (|x| *2^f.shift) := by
  unfold round
  split
  · exact (min_le_left _ _).trans (Nat.zero_le _)
  · exact min_le_left _ _

/-- A number whose magnitude is below the middle of the gap behind a pattern
is not rounded beyond that pattern. -/
theorem abs_round_le (zeroSign : Bool) {x : ℚ} {pattern : ℕ} (hp : pattern<f.infinity)
    (hx : 2*(|x| *2^f.shift)<f.units pattern+f.units (pattern+1)) :
    (round zeroSign x : Binary f).Finite ∧
      |(round zeroSign x : Binary f).value|≤f.units pattern/2^f.shift := by
  have hl : (round zeroSign x : Binary f).pattern≤pattern :=
    (round_pattern_le zeroSign x).trans (f.nearest_le_of_lt (by positivity) hx)
  refine ⟨hl.trans_lt hp,?_⟩
  rw [abs_value]
  exact div_le_div_of_nonneg_right (by exact_mod_cast f.units_strictMono.monotone hl) (by positivity)

/-- Rounding a positive normal number adds at most one unit in the last place. -/
theorem round_le_relative (zeroSign : Bool) {x : ℚ} (hx : (f.binade : ℚ)≤x*2^f.shift) :
    (round zeroSign x : Binary f).value*f.binade≤x*(f.binade+1) := by
  have hs : (0 : ℚ)<2^f.shift := by positivity
  have hb : (0 : ℚ)<f.binade := by exact_mod_cast f.binade_pos
  have hx0 : 0<x := by
    by_contra hn
    have hm := mul_nonpos_of_nonpos_of_nonneg (not_lt.mp hn) hs.le
    linarith
  have hk : (round zeroSign x : Binary f).key=(min (f.nearest (x*2^f.shift)) f.infinity : ℕ) := by
    rw [round,if_neg hx0.ne',key_ofPattern,if_neg (by simpa using hx0.le),abs_of_pos hx0]
  have hu : (f.units (min (f.nearest (x*2^f.shift)) f.infinity) : ℚ)≤
      f.units (f.nearest (x*2^f.shift)) := by
    exact_mod_cast f.units_strictMono.monotone (min_le_left _ _)
  have hn := f.units_nearest_le hx
  rw [value,hk,f.grid_natCast,div_mul_eq_mul_div,div_le_iff₀ hs]
  nlinarith

section Arithmetic

/-- The float of the opposite sign. -/
def neg (a : Binary f) : Binary f := ⟨!a.negative,a.pattern,a.pattern_lt⟩

/-- The float without its sign. -/
def abs (a : Binary f) : Binary f := ⟨false,a.pattern,a.pattern_lt⟩

/-- The rounded sum. -/
def add (a b : Binary f) : Binary f :=
  if a.Finite ∧ b.Finite then round (a.negative && b.negative) (a.value+b.value)
  else if a.IsNaN ∨ b.IsNaN then nan
  else if a.Finite then b
  else if b.Finite ∨ a.negative=b.negative then a
  else nan

/-- The rounded product. -/
def mul (a b : Binary f) : Binary f :=
  if a.Finite ∧ b.Finite then round (a.negative ^^ b.negative) (a.value*b.value)
  else if a.IsNaN ∨ b.IsNaN ∨ a.pattern=0 ∨ b.pattern=0 then nan
  else infinite (a.negative ^^ b.negative)

/-- The rounded quotient. -/
def div (a b : Binary f) : Binary f :=
  if a.Finite ∧ b.Finite ∧ b.pattern≠0 then round (a.negative ^^ b.negative) (a.value/b.value)
  else if a.IsNaN ∨ b.IsNaN ∨ (a.pattern=0 ∧ b.pattern=0) ∨ (¬a.Finite ∧ ¬b.Finite) then nan
  else if b.Finite then infinite (a.negative ^^ b.negative)
  else ofPattern (a.negative ^^ b.negative) 0

/-- The rounded square root. -/
def sqrt (a : Binary f) : Binary f :=
  if a.IsNaN then nan
  else if a.pattern=0 then a
  else if a.negative then nan
  else if a.Finite then ofPattern false (f.nearestRoot (f.units a.pattern*2^f.shift))
  else a

/-- The nearest float of another format. -/
def convert (a : Binary f) : Binary g :=
  if a.Finite then round a.negative a.value
  else if a.IsNaN then nan
  else infinite a.negative

/-- The float nearest a natural number. -/
def ofNat (number : ℕ) : Binary f := round false number

/-- The greatest finite float. -/
def largest : Binary f := ofPattern false (f.infinity-1)

instance : Neg (Binary f) := ⟨neg⟩
instance : Add (Binary f) := ⟨add⟩
instance : Sub (Binary f) := ⟨fun a b => a+-b⟩
instance : Mul (Binary f) := ⟨mul⟩
instance : Div (Binary f) := ⟨div⟩
instance : Zero (Binary f) := ⟨ofPattern false 0⟩
instance : One (Binary f) := ⟨ofNat 1⟩
instance : Inhabited (Binary f) := ⟨0⟩

/-- Both floats are defined and the first is the smaller. -/
instance : LT (Binary f) := ⟨fun a b => ¬a.IsNaN ∧ ¬b.IsNaN ∧ a.key<b.key⟩

/-- Both floats are defined and the first is not the greater. -/
instance : LE (Binary f) := ⟨fun a b => ¬a.IsNaN ∧ ¬b.IsNaN ∧ a.key≤b.key⟩

instance (a b : Binary f) : Decidable (a<b) :=
  inferInstanceAs (Decidable (¬a.IsNaN ∧ ¬b.IsNaN ∧ a.key<b.key))

instance (a b : Binary f) : Decidable (a≤b) :=
  inferInstanceAs (Decidable (¬a.IsNaN ∧ ¬b.IsNaN ∧ a.key≤b.key))

theorem Finite.defined {a : Binary f} (ha : a.Finite) : ¬a.IsNaN := Nat.lt_asymm ha

theorem Finite.lt_iff {a b : Binary f} (ha : a.Finite) (hb : b.Finite) : a<b ↔ a.value<b.value := by
  have h : a<b ↔ ¬a.IsNaN ∧ ¬b.IsNaN ∧ a.key<b.key := Iff.rfl
  rw [h,value,value,f.grid_strictMono.lt_iff_lt]
  simp only [ha.defined,hb.defined,not_false_eq_true,true_and]

theorem Finite.le_iff {a b : Binary f} (ha : a.Finite) (hb : b.Finite) : a≤b ↔ a.value≤b.value := by
  have h : a≤b ↔ ¬a.IsNaN ∧ ¬b.IsNaN ∧ a.key≤b.key := Iff.rfl
  rw [h,value,value,f.grid_strictMono.le_iff_le]
  simp only [ha.defined,hb.defined,not_false_eq_true,true_and]

@[simp] theorem key_neg (a : Binary f) : (-a).key=-a.key := by
  have h : (-a).key=if !a.negative then -(a.pattern : ℤ) else a.pattern := rfl
  rw [h,key]
  cases a.negative <;> simp

@[simp] theorem value_neg (a : Binary f) : (-a).value=-a.value := by
  rw [value,key_neg,f.grid_neg,value]

@[simp] theorem finite_neg (a : Binary f) : (-a).Finite ↔ a.Finite := Iff.rfl

@[simp] theorem finite_abs (a : Binary f) : a.abs.Finite ↔ a.Finite := Iff.rfl

@[simp] theorem value_abs (a : Binary f) : a.abs.value=|a.value| := by
  have h : a.abs.key=a.pattern := rfl
  rw [value,h,value,key]
  cases a.negative
  · rw [if_neg (by simp),f.grid_natCast,abs_of_nonneg (by positivity)]
  · rw [if_pos rfl,f.grid_neg,f.grid_natCast,abs_neg,abs_of_nonneg (by positivity)]

@[simp] theorem value_zero : (0 : Binary f).value=0 := by
  have h : (0 : Binary f).key=0 := by
    have hk := key_ofPattern (f := f) false 0
    rwa [if_neg (by simp),Nat.zero_min,Nat.cast_zero] at hk
  rw [value,h,f.grid_zero]

theorem add_eq {a b : Binary f} (ha : a.Finite) (hb : b.Finite) :
    a+b=round (a.negative && b.negative) (a.value+b.value) := if_pos ⟨ha,hb⟩

theorem sub_eq {a b : Binary f} (ha : a.Finite) (hb : b.Finite) :
    a-b=round (a.negative && !b.negative) (a.value-b.value) := by
  have h : a-b=a+-b := rfl
  rw [h,add_eq ha ((finite_neg b).mpr hb),value_neg,sub_eq_add_neg]
  rfl

theorem mul_eq {a b : Binary f} (ha : a.Finite) (hb : b.Finite) :
    a*b=round (a.negative ^^ b.negative) (a.value*b.value) := if_pos ⟨ha,hb⟩

theorem pattern_ne_zero {a : Binary f} (hv : a.value≠0) : a.pattern≠0 := fun h => hv (by
  have hk : a.key=0 := Int.natAbs_eq_zero.mp (by rw [natAbs_key,h])
  rw [value,hk,f.grid_zero])

theorem div_eq {a b : Binary f} (ha : a.Finite) (hb : b.Finite) (hv : b.value≠0) :
    a/b=round (a.negative ^^ b.negative) (a.value/b.value) :=
  if_pos ⟨ha,hb,pattern_ne_zero hv⟩

theorem convert_eq {a : Binary f} (ha : a.Finite) :
    (a.convert : Binary g)=round a.negative a.value := if_pos ha

/-- A rounded square root never passes a representable number. -/
theorem sqrt_between {a : Binary f} (ha : a.Finite) {low high : ℚ} (hl : f.Exact low)
    (hh : f.Exact high) (h0 : 0≤low) (h1 : 0≤high) (hp : 0<a.value) (hla : low^2≤a.value)
    (hah : a.value≤high^2) : a.sqrt.Finite ∧ low≤a.sqrt.value ∧ a.sqrt.value≤high := by
  have hs : (0 : ℚ)<2^f.shift := by positivity
  have hkey : 0<a.key := f.grid_strictMono.lt_iff_lt.mp (by rw [f.grid_zero]; exact hp)
  have hneg : a.negative=false := by
    by_contra h
    rw [key,if_pos (by simpa using h)] at hkey
    omega
  have hval : a.value=f.units a.pattern/2^f.shift := by
    rw [value,key,if_neg (by simp [hneg]),f.grid_natCast]
  have hroot : a.sqrt=ofPattern false (f.nearestRoot (f.units a.pattern*2^f.shift)) := by
    rw [sqrt,if_neg ha.defined,if_neg (pattern_ne_zero hp.ne'),if_neg (by simp [hneg]),
      if_pos ha]
  have hx : (f.units a.pattern : ℚ)*2^f.shift=a.value*(2^f.shift*2^f.shift) := by
    rw [hval]
    field_simp
  obtain ⟨n,hn,rfl⟩ : ∃ n : ℕ,n<f.infinity ∧ f.grid n=low := by
    obtain ⟨k,hk,rfl⟩ := hl
    have : 0≤k := f.grid_strictMono.le_iff_le.mp (by rw [f.grid_zero]; exact h0)
    exact ⟨k.natAbs,hk,by rw [Int.natAbs_of_nonneg this]⟩
  obtain ⟨m,hm,rfl⟩ : ∃ m : ℕ,m<f.infinity ∧ f.grid m=high := by
    obtain ⟨k,hk,rfl⟩ := hh
    have : 0≤k := f.grid_strictMono.le_iff_le.mp (by rw [f.grid_zero]; exact h1)
    exact ⟨k.natAbs,hk,by rw [Int.natAbs_of_nonneg this]⟩
  have hlo : n≤f.nearestRoot (f.units a.pattern*2^f.shift) := by
    refine f.le_nearestRoot ?_
    have he : (f.units n : ℚ)^2=f.grid n^2*(2^f.shift*2^f.shift) := by
      rw [f.grid_natCast]
      field_simp
    rw [hx,he]
    exact mul_le_mul_of_nonneg_right hla (by positivity)
  have hhi : f.nearestRoot (f.units a.pattern*2^f.shift)≤ m := by
    refine f.nearestRoot_le (by positivity) ?_
    have he : (f.units m : ℚ)^2=f.grid m^2*(2^f.shift*2^f.shift) := by
      rw [f.grid_natCast]
      field_simp
    rw [hx,he]
    exact mul_le_mul_of_nonneg_right hah (by positivity)
  have hkr : a.sqrt.key=(f.nearestRoot (f.units a.pattern*2^f.shift) : ℕ) := by
    rw [hroot,key_ofPattern,if_neg (by simp),min_eq_left (by omega)]
  refine ⟨?_,?_,?_⟩
  · have hk := natAbs_key a.sqrt
    rw [hkr,Int.natAbs_natCast] at hk
    unfold Finite
    omega
  · rw [value,hkr]
    exact f.grid_strictMono.monotone (by exact_mod_cast hlo)
  · rw [value,hkr]
    exact f.grid_strictMono.monotone (by exact_mod_cast hhi)

theorem ofNat_exact {number : ℕ} (h : f.Exact number) :
    (ofNat number : Binary f).Finite ∧ (ofNat number : Binary f).value=number := round_exact false h

/-- No finite float is greater than the greatest one. -/
theorem le_largest {x : ℚ} (h : f.Exact x) :
    (largest : Binary f).Finite ∧ x≤(largest : Binary f).value := by
  obtain ⟨key,hk,rfl⟩ := h
  have hl : (largest : Binary f).key=(f.infinity-1 : ℕ) := by
    rw [largest,key_ofPattern,if_neg (by simp),Nat.min_eq_left (by omega)]
  have hp : (largest : Binary f).pattern=f.infinity-1 := by
    rw [←natAbs_key,hl,Int.natAbs_natCast]
  refine ⟨?_,?_⟩
  · unfold Finite
    omega
  · rw [value,hl]
    exact f.grid_strictMono.monotone (by omega)

/-- The least natural number that is not below a float, as `std::ceil` and a
conversion to an integer give it. -/
def ceil (a : Binary f) : ℕ := ⌈a.value⌉₊

end Arithmetic

section Bits

/-- The stored bits, sign first. -/
def toBits (a : Binary f) : ℕ := if a.negative then f.patterns+a.pattern else a.pattern

/-- The float of stored bits. -/
def ofBits (bits : ℕ) : Binary f :=
  ⟨decide (f.patterns≤bits%(2*f.patterns)),bits%f.patterns,
    Nat.mod_lt _ (Nat.mul_pos (Nat.two_pow_pos _) f.binade_pos)⟩

theorem toBits_lt (a : Binary f) : a.toBits<2*f.patterns := by
  have hp := a.pattern_lt
  unfold toBits
  split <;> omega

theorem ofBits_toBits (a : Binary f) : ofBits a.toBits=a := by
  have hp := a.pattern_lt
  have hm := Nat.mod_eq_of_lt a.toBits_lt
  ext
  · show decide (f.patterns≤a.toBits%(2*f.patterns))=a.negative
    rw [hm,toBits]
    cases a.negative <;> simp [hp]
  · show a.toBits%f.patterns=a.pattern
    rw [toBits]
    cases a.negative <;> simp [Nat.mod_eq_of_lt hp]

theorem toBits_ofBits {bits : ℕ} (hb : bits<2*f.patterns) : (ofBits bits : Binary f).toBits=bits := by
  have h : (ofBits bits : Binary f).toBits=
      if decide (f.patterns≤bits%(2*f.patterns)) then f.patterns+bits%f.patterns
      else bits%f.patterns := rfl
  rw [h,Nat.mod_eq_of_lt hb]
  by_cases hl : f.patterns≤bits
  · have hm : bits%f.patterns=bits-f.patterns := by
      rw [Nat.mod_eq_sub_mod hl,Nat.mod_eq_of_lt (by omega)]
    rw [if_pos (by simpa using hl),hm]
    omega
  · rw [if_neg (by simpa using hl),Nat.mod_eq_of_lt (by omega)]

end Bits

end Binary

section Widths

/-- The 32-bit format. -/
def single : Format := ⟨23,8⟩

/-- The 64-bit format. -/
def double : Format := ⟨52,11⟩

/-- The type `float`. -/
abbrev Single := Binary single

/-- The type `double`. -/
abbrev Double := Binary double

theorem single_shift : single.shift=149 := by decide

theorem double_shift : double.shift=1074 := by decide

theorem single_binade : single.binade=2^23 := rfl

theorem double_binade : double.binade=2^52 := rfl

/-- A finite single has 24 significant bits at an exponent of its range. -/
theorem single_short {x : ℚ} (hx : single.Exact x) :
    ∃ significand power : ℕ,significand<2^24 ∧ power≤277 ∧
      |x| *2^149=(significand*2^power : ℕ) := by
  obtain ⟨n,j,hn,hr,he⟩ := hx.short
  rw [single_shift] at he
  have hn' : n<2^24 := hn
  rcases Nat.eq_zero_or_pos n with rfl|hpos
  · exact ⟨0,0,by norm_num,by norm_num,by simpa using he⟩
  · refine ⟨n,j,hn',?_,he⟩
    have hu : single.units single.infinity=2^23*2^254 := single.units_infinity (by decide)
    have hm : 2^j≤n*2^j := Nat.le_mul_of_pos_left _ hpos
    rw [hu,← pow_add] at hr
    exact ((Nat.pow_lt_pow_iff_right (by norm_num)).mp (hm.trans_lt hr)).le

/-- The magnitude of a finite single. -/
theorem single_abs_le {x : ℚ} (hx : single.Exact x) : |x|≤2^128 := by
  obtain ⟨n,j,-,hr,he⟩ := hx.short
  have hu : single.units single.infinity=2^23*2^254 := single.units_infinity (by decide)
  rw [hu] at hr
  rw [single_shift] at he
  have hr' : ((n*2^j : ℕ) : ℚ)≤2^23*2^254 := by exact_mod_cast hr.le
  have hs : (2 : ℚ)^23*2^254=2^128*2^149 := by
    rw [←pow_add,←pow_add]
  rw [←he,hs] at hr'
  exact le_of_mul_le_mul_right hr' (by positivity)

/-- The least magnitude of a single that is not zero. -/
theorem single_least {x : ℚ} (hx : single.Exact x) (hne : x≠0) : 1/2^149≤|x| := by
  obtain ⟨n,j,-,-,he⟩ := single_short hx
  have hs : (0 : ℚ)<2^149 := by positivity
  have hpos : 0< |x| *2^149 := mul_pos (abs_pos.mpr hne) hs
  rw [he] at hpos
  have hone : 1≤n*2^j := by exact_mod_cast hpos
  rw [div_le_iff₀ hs,he]
  exact_mod_cast hone

/-- Every finite single is a double. -/
theorem Format.Exact.widen {x : ℚ} (hx : single.Exact x) : double.Exact x := by
  obtain ⟨n,j,hn,hj,he⟩ := single_short hx
  refine double.exact_ratio n j 149 ?_ ?_ ?_ he
  · rw [double_binade]
    omega
  · rw [double_shift]
    omega
  · have h2 : 2^double.exponentBits=2048 := rfl
    rw [double_shift,h2]
    omega

/-- The product of two finite singles is a double. -/
theorem Format.Exact.product {x y : ℚ} (hx : single.Exact x) (hy : single.Exact y) :
    double.Exact (x*y) := by
  obtain ⟨n,j,hn,hj,he⟩ := single_short hx
  obtain ⟨m,k,hm,hk,hf⟩ := single_short hy
  refine double.exact_ratio (n*m) (j+k) 298 ?_ ?_ ?_ ?_
  · have hl : n*m<2^24*2^24 := Nat.mul_lt_mul'' hn hm
    rw [double_binade]
    omega
  · rw [double_shift]
    omega
  · have h2 : 2^double.exponentBits=2048 := rfl
    rw [double_shift,h2]
    omega
  · have hs : (2 : ℚ)^298=2^149*2^149 := by rw [← pow_add]
    calc |x*y| *2^298=(|x| *2^149)*(|y| *2^149) := by rw [abs_mul,hs]; ring
      _=((n*2^j : ℕ) : ℚ)*(m*2^k : ℕ) := by rw [he,hf]
      _=(n*m*2^(j+k) : ℕ) := by push_cast; ring

/-- Powers of two times integers of 53 bits are doubles. -/
theorem double_exact_natCast (significand power : ℕ) (hs : significand<2^53) (hp : power≤900) :
    double.Exact (significand*2^power : ℕ) := by
  refine double.exact_ratio significand power 0 ?_ (Nat.zero_le _) ?_ ?_
  · rw [double_binade]
    omega
  · have h2 : 2^double.exponentBits=2048 := rfl
    rw [double_shift,h2]
    omega
  · rw [abs_of_nonneg (by positivity)]
    simp

/-- Powers of two times integers of 24 bits are singles. -/
theorem single_exact_natCast (significand power : ℕ) (hs : significand<2^24) (hp : power≤100) :
    single.Exact (significand*2^power : ℕ) := by
  refine single.exact_ratio significand power 0 ?_ (Nat.zero_le _) ?_ ?_
  · rw [single_binade]
    omega
  · have h2 : 2^single.exponentBits=256 := rfl
    rw [single_shift,h2]
    omega
  · rw [abs_of_nonneg (by positivity)]
    simp

/-- One is a single and a double. -/
theorem single_exact_one : single.Exact 1 := by
  have h := single_exact_natCast 1 0 (by norm_num) (by norm_num)
  simpa using h

theorem double_exact_one : double.Exact 1 := by
  have h := double_exact_natCast 1 0 (by norm_num) (by norm_num)
  simpa using h

theorem double_exact_zero : double.Exact 0 := double.exact_zero (by decide)

theorem single_one : (1 : Single).Finite ∧ (1 : Single).value=1 := by
  have h : (1 : Single).Finite ∧ (1 : Single).value=((1 : ℕ) : ℚ) :=
    Binary.ofNat_exact (by simpa using single_exact_one)
  rwa [Nat.cast_one] at h

theorem double_one : (1 : Double).Finite ∧ (1 : Double).value=1 := by
  have h : (1 : Double).Finite ∧ (1 : Double).value=((1 : ℕ) : ℚ) :=
    Binary.ofNat_exact (by simpa using double_exact_one)
  rwa [Nat.cast_one] at h

theorem finite_zero : (0 : Double).Finite := by decide

/-- Less than half a unit in the last place above one is rounded to one. -/
theorem single_round_unit (zeroSign : Bool) {x : ℚ} (hx : |x|<1+1/2^24) :
    (Binary.round zeroSign x : Single).Finite ∧ |(Binary.round zeroSign x : Single).value|≤1 := by
  have hu : single.units (127*2^23)=2^23*2^126 := by
    have h := single.units_normal 126 0 (by decide)
    rwa [Nat.add_zero,Nat.add_zero] at h
  have hv : single.units (127*2^23+1)=(2^23+1)*2^126 := single.units_normal 126 1 (by decide)
  have hm : 2*(|x| *2^single.shift)<single.units (127*2^23)+single.units (127*2^23+1) := by
    rw [hu,hv,single_shift]
    push_cast
    have hs : (2 : ℚ)^149=2^23*2^126 := by rw [←pow_add]
    rw [hs]
    nlinarith
  have h := Binary.abs_round_le zeroSign (by decide) hm
  rw [hu,single_shift] at h
  have he : (((2^23*2^126 : ℕ)) : ℚ)/2^149=1 := by
    rw [←pow_add]
    push_cast
    exact div_self (by positivity)
  rwa [he] at h

/-- Widening keeps the value. -/
theorem widen_value {a : Single} (ha : a.Finite) :
    (a.convert : Double).Finite ∧ (a.convert : Double).value=a.value := by
  rw [Binary.convert_eq ha]
  exact Binary.round_exact _ ha.exact.widen

/-- Products of widened singles are exact. -/
theorem widen_mul_value {a b : Single} (ha : a.Finite) (hb : b.Finite) :
    ((a.convert : Double)*b.convert).Finite ∧
      ((a.convert : Double)*b.convert).value=a.value*b.value := by
  obtain ⟨hfa,hva⟩ := widen_value ha
  obtain ⟨hfb,hvb⟩ := widen_value hb
  rw [Binary.mul_eq hfa hfb,hva,hvb]
  exact Binary.round_exact _ (ha.exact.product hb.exact)

end Widths

end Leann.BinaryFloat
