import Mathlib.Algebra.BigOperators.Field
import Mathlib.Algebra.Order.BigOperators.Group.Finset
import Mathlib.Algebra.Order.Field.Basic
import Mathlib.Data.Finset.Lattice.Fold
import Mathlib.Tactic.Linarith
import Mathlib.Tactic.Ring

/-!
# Clusters and their means

Samples are compared with centers by the sum of their squared differences.
Moving every center that has samples to their mean, and every other center
anywhere, never makes the total distance to the nearest centers greater.
-/

namespace Leann.Clustering

variable {α β γ K : Type*} [Field K] [LinearOrder K] [IsStrictOrderedRing K]

/-- The squared distance of two vectors. -/
def gap (coordinates : Finset β) (x y : β → K) : K := ∑ i∈coordinates,(x i-y i)^2

/-- The squared distance of a vector to the nearest center. -/
def least (coordinates : Finset β) {kinds : Finset γ} (hk : kinds.Nonempty) (center : γ → β → K)
    (x : β → K) : K := kinds.inf' hk (fun kind => gap coordinates x (center kind))

/-- The total distance of all samples to their nearest centers. -/
def objective (coordinates : Finset β) {kinds : Finset γ} (hk : kinds.Nonempty) (samples : Finset α)
    (x : α → β → K) (center : γ → β → K) : K := ∑ s∈samples,least coordinates hk center (x s)

/-- No value is nearer to the samples of a cluster than their mean. -/
theorem mean_least (cluster : Finset α) (x : α → K) {mean : K}
    (hmean : mean*cluster.card=∑ s∈cluster,x s) (value : K) :
    ∑ s∈cluster,(x s-mean)^2≤∑ s∈cluster,(x s-value)^2 := by
  have hcross : ∑ s∈cluster,(x s-mean)=0 := by
    rw [Finset.sum_sub_distrib,Finset.sum_const,nsmul_eq_mul,←hmean]
    ring
  have hsplit : ∑ s∈cluster,(x s-value)^2=
      ∑ s∈cluster,(x s-mean)^2+cluster.card*(mean-value)^2 := by
    calc ∑ s∈cluster,(x s-value)^2
        =∑ s∈cluster,((x s-mean)^2+2*(mean-value)*(x s-mean)+(mean-value)^2) :=
          Finset.sum_congr rfl (fun s _ => by ring)
      _=∑ s∈cluster,(x s-mean)^2+2*(mean-value)*∑ s∈cluster,(x s-mean)+
          cluster.card*(mean-value)^2 := by
          rw [Finset.sum_add_distrib,Finset.sum_add_distrib,←Finset.mul_sum,Finset.sum_const,
            nsmul_eq_mul]
      _=∑ s∈cluster,(x s-mean)^2+cluster.card*(mean-value)^2 := by
          rw [hcross]
          ring
  have hpos : 0≤(cluster.card : K)*(mean-value)^2 :=
    mul_nonneg (Nat.cast_nonneg _) (sq_nonneg _)
  rw [hsplit]
  linarith

variable {coordinates : Finset β} {kinds : Finset γ} {samples : Finset α} {x : α → β → K}
  {center moved : γ → β → K} [DecidableEq γ]

/-- The mean of a cluster is nearest to it in all coordinates together. -/
theorem cluster_le (cluster : Finset α) (mean value : β → K)
    (hmean : ∀ i∈coordinates,mean i*cluster.card=∑ s∈cluster,x s i) :
    ∑ s∈cluster,gap coordinates (x s) mean≤∑ s∈cluster,gap coordinates (x s) value := by
  simp only [gap]
  rw [Finset.sum_comm,Finset.sum_comm (s := cluster)]
  exact Finset.sum_le_sum (fun i hi => mean_least cluster (fun s => x s i) (hmean i hi) (value i))

/-- The objective does not increase when every center that samples were
assigned to moves to their mean. -/
theorem objective_le (hk : kinds.Nonempty) {nearest : α → γ}
    (hmem : ∀ s∈samples,nearest s∈kinds)
    (hnearest : ∀ s∈samples,∀ kind∈kinds,
      gap coordinates (x s) (center (nearest s))≤gap coordinates (x s) (center kind))
    (hmean : ∀ kind∈kinds,0<(samples.filter (nearest ·=kind)).card → ∀ i∈coordinates,
      moved kind i*(samples.filter (nearest ·=kind)).card=
        ∑ s∈samples.filter (nearest ·=kind),x s i) :
    objective coordinates hk samples x moved≤objective coordinates hk samples x center := by
  have hleast (s : α) (hs : s∈samples) :
      gap coordinates (x s) (center (nearest s))≤least coordinates hk center (x s) :=
    Finset.le_inf' hk _ (fun kind hkind => hnearest s hs kind hkind)
  have hpart (c : γ → β → K) : ∑ s∈samples,gap coordinates (x s) (c (nearest s))=
      ∑ kind∈kinds,∑ s∈samples.filter (nearest ·=kind),gap coordinates (x s) (c kind) := by
    rw [←Finset.sum_fiberwise_of_maps_to hmem]
    refine Finset.sum_congr rfl (fun kind _ => Finset.sum_congr rfl (fun s hs => ?_))
    rw [(Finset.mem_filter.mp hs).2]
  calc objective coordinates hk samples x moved
      ≤∑ s∈samples,gap coordinates (x s) (moved (nearest s)) :=
        Finset.sum_le_sum (fun s hs => Finset.inf'_le _ (hmem s hs))
    _=∑ kind∈kinds,∑ s∈samples.filter (nearest ·=kind),gap coordinates (x s) (moved kind) :=
        hpart moved
    _≤∑ kind∈kinds,∑ s∈samples.filter (nearest ·=kind),gap coordinates (x s) (center kind) := by
        refine Finset.sum_le_sum (fun kind hkind => ?_)
        by_cases hempty : (samples.filter (nearest ·=kind)).card=0
        · rw [Finset.card_eq_zero.mp hempty,Finset.sum_empty,Finset.sum_empty]
        · exact cluster_le _ _ _ (hmean kind hkind (Nat.pos_of_ne_zero hempty))
    _=∑ s∈samples,gap coordinates (x s) (center (nearest s)) := (hpart center).symm
    _≤objective coordinates hk samples x center := Finset.sum_le_sum hleast

end Leann.Clustering
