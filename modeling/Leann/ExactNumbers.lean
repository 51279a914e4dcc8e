import Leann.Training
import Mathlib.Algebra.Order.Field.Basic

/-!
# Exact arithmetic

The numbers of an ordered field with two infinities, as the numbers that the
product quantizer computes with. Nothing is rounded and no number is too
large, so that the sums of the program are those of the field.
-/

namespace Leann.ExactNumbers

open Exceptions Outcomes ProductQuantizer Training

/-- The numbers of a field and two infinities. -/
inductive Extended (K : Type) where
  /-- A number of the field. -/
  | finite (value : K)
  /-- Beyond all numbers on one side. -/
  | infinite (negative : Bool)

section Definitions

variable {K : Type}

namespace Extended

/-- The number, or zero. -/
def number [Zero K] : Extended K → K
  | .finite value => value
  | .infinite _ => 0

/-- An exact operation on numbers. An infinity stays one. -/
def lift (operation : K → K → K) : Extended K → Extended K → Extended K
  | .finite lhs,.finite rhs => .finite (operation lhs rhs)
  | .finite _,.infinite negative => .infinite negative
  | .infinite negative,_ => .infinite negative

/-- The opposite. -/
def opposite [Neg K] : Extended K → Extended K
  | .finite value => .finite (-value)
  | .infinite negative => .infinite (!negative)

/-- The order. -/
def less [LT K] : Extended K → Extended K → Prop
  | .finite lhs,.finite rhs => lhs< rhs
  | .finite _,.infinite negative => negative=false
  | .infinite negative,.finite _ => negative=true
  | .infinite lhs,.infinite rhs => lhs=true ∧ rhs=false

instance [LT K] [DecidableLT K] (lhs rhs : Extended K) : Decidable (less lhs rhs) :=
  match lhs,rhs with
  | .finite lhs,.finite rhs => inferInstanceAs (Decidable (lhs< rhs))
  | .finite _,.infinite negative => inferInstanceAs (Decidable (negative=false))
  | .infinite negative,.finite _ => inferInstanceAs (Decidable (negative=true))
  | .infinite lhs,.infinite rhs => inferInstanceAs (Decidable (lhs=true ∧ rhs=false))

end Extended

variable [Field K] [LinearOrder K]

instance : LT (Extended K) := ⟨Extended.less⟩

instance : LE (Extended K) := ⟨fun lhs rhs => ¬Extended.less rhs lhs⟩

instance : DecidableLT (Extended K) := fun lhs rhs => inferInstanceAs (Decidable (Extended.less lhs rhs))

instance : DecidableLE (Extended K) := fun lhs rhs => inferInstanceAs (Decidable (¬Extended.less rhs lhs))

/-- Whether it is a number of the field. -/
def Extended.isNumber : Extended K → Bool
  | .finite _ => true
  | .infinite _ => false

instance : WideNumber (Extended K) where
  zero := .finite 0
  one := .finite 1
  neg := Extended.opposite
  add := Extended.lift (·+·)
  sub := Extended.lift (·-·)
  mul := Extended.lift (·*·)
  div := Extended.lift (·/·)
  isFinite := Extended.isNumber
  ofCount count := .finite count
  decidableLT := inferInstance
  decidableLE := inferInstance

instance : VectorNumber (Extended K) (Extended K) where
  zero := .finite 0
  one := .finite 1
  isFinite := Extended.isNumber
  abs := fun
    | .finite value => .finite |value|
    | .infinite _ => .infinite false
  infinity := .infinite false
  largest := .infinite false
  widen value := value
  narrow value := value
  decidableLT := inferInstance
  decidableLE := inferInstance

/-- A vector of numbers of the field. -/
def exact (values : List K) : List (Extended K) := values.map .finite

/-- A coordinate inside the unit interval. -/
def Coordinate (value : Extended K) : Prop := ∃ number : K,value=.finite number ∧ |number|≤1

/-- The squared distance of two vectors. -/
def squares (lhs rhs : List K) : K := (List.zipWith (fun first second => (first-second)^2) lhs rhs).sum

/-- The inner product of two vectors. -/
def dot (lhs rhs : List K) : K := (List.zipWith (·*·) lhs rhs).sum

end Definitions

section Numbers

variable {K : Type}

@[simp] theorem length_exact (values : List K) : (exact values).length=values.length := List.length_map _

theorem getElem?_exact (values : List K) (i : ℕ) : (exact values)[i]?=values[i]?.map .finite :=
  List.getElem?_map

variable [Field K] [LinearOrder K]

/-- A vector of coordinates consists of numbers of the field. -/
theorem exact_numbers {values : List (Extended K)} (h : ∀ value∈values,Coordinate value) :
    exact (values.map Extended.number)=values := by
  rw [exact,List.map_map]
  refine (List.map_congr_left (fun value hv => ?_)).trans (List.map_id values)
  obtain ⟨number,hnumber,-⟩ := h value hv
  rw [hnumber]
  rfl

/-- Numbers of the field pass the checks of a result. -/
theorem finite_passes (value : K) :
    ¬(¬WideNumber.isFinite (Extended.finite value) ∨
      VectorNumber.widen (VectorNumber.largest : Extended K)<Extended.finite value ∨
      Extended.finite value< -VectorNumber.widen (VectorNumber.largest : Extended K)) := by
  intro h
  cases h with
  | inl h => exact h rfl
  | inr h =>
    cases h with
    | inl h => exact Bool.false_ne_true h
    | inr h => exact Bool.noConfusion (show (true : Bool)=false from h)

/-- Coordinates are finite and inside the unit interval. -/
theorem coordinate_passes {value : Extended K} (h : Coordinate value) :
    VectorNumber.isFinite value ∧ VectorNumber.abs value≤1 := by
  obtain ⟨number,hnumber,hle⟩ := h
  rw [hnumber]
  exact ⟨rfl,not_lt.mpr hle⟩

/-- The loop of `squared_distance` adds up squares. -/
theorem squaredDistance_exact {point centroid : List K} (hl : point.length=centroid.length) :
    squaredDistance (exact point) (exact centroid)=.ok (Extended.finite (squares point centroid)) := by
  have hzip : (List.zipWith (fun first second => (first-second)^2) point centroid).length=
      point.length := by
    rw [List.length_zipWith,hl,min_self]
  have hends : Ends (squaredDistance (exact point) (exact centroid)) (fun _ => False)
      (fun distance => distance=Extended.finite (squares point centroid)) := by
    unfold squaredDistance
    rw [length_exact]
    refine (Ends.foldlM_range point.length (fun i (result : Extended K) => result=Extended.finite
      ((List.zipWith (fun first second => (first-second)^2) point centroid).take i).sum) rfl
      (fun i result hi hresult => ?_)).bind (fun result hresult => ?_)
    · have hi' : i<centroid.length := hl ▸ hi
      have hpoint : element (exact point) i=.ok (Extended.finite point[i]) := by
        rw [element_ok,getElem?_exact,List.getElem?_eq_getElem hi]
        rfl
      have hcentroid : element (exact centroid) i=.ok (Extended.finite centroid[i]) := by
        rw [element_ok,getElem?_exact,List.getElem?_eq_getElem hi']
        rfl
      refine Ends.after hpoint (Ends.after hcentroid ?_)
      rw [hresult,List.sum_take_succ _ _ (hzip.symm ▸ hi),List.getElem_zipWith,pow_two]
      rfl
    · rw [List.take_of_length_le hzip.le] at hresult
      rw [hresult]
      have hpass := finite_passes (squares point centroid)
      refine (throwIf_ends (fun h => ?_)).bind (fun _ _ => rfl)
      exact hpass (h.imp (fun h => h) Or.inl)
  obtain ⟨distance,hdistance,hvalue⟩ := hends.returns
  rw [hdistance,hvalue]

end Numbers

end Leann.ExactNumbers
