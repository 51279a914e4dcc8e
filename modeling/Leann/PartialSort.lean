import Leann.Selection

/-!
# Partial sorting with equal keys

A partial sort brings so many of the smallest items to the front. Which of
several items with equal keys come to the front is not determined, but it
only matters where such items lie on both sides of the cut: then, and only
then, two partial sorts of the same items may select different items.
-/

namespace Leann.Selection

section Definitions

variable {α κ : Type}

/-- What a partial sort by a comparison may leave. -/
structure PartialSort (less : α → α → Prop) (count : ℕ) (items sorted : List α) : Prop where
  /-- The items are rearranged. -/
  perm : sorted.Perm items
  /-- The front is in order. -/
  ordered : (sorted.take count).Pairwise (fun first second => ¬less second first)
  /-- No item behind the front is smaller than one in it. -/
  below : ∀ item∈sorted.take count,∀ other∈sorted.drop count,¬less other item

/-- Items with equal keys lie on both sides of a cut. -/
def Straddled [LinearOrder κ] (key : α → κ) (cut : ℕ) (items : List α) : Prop :=
  ∃ item∈items,items.countP (fun other => decide (key other<key item))<cut ∧
    cut< items.countP (fun other => decide (key other≤key item))

/-- Comparisons that agree on the items sort them alike. -/
theorem PartialSort.congr {less less' : α → α → Prop} {count : ℕ} {items sorted : List α}
    (h : PartialSort less count items sorted)
    (he : ∀ first∈items,∀ second∈items,less' first second → less first second) :
    PartialSort less' count items sorted where
  perm := h.perm
  ordered := h.ordered.imp_of_mem (fun hf hs hn hl =>
    hn (he _ (h.perm.mem_iff.mp (List.mem_of_mem_take hs)) _
      (h.perm.mem_iff.mp (List.mem_of_mem_take hf)) hl))
  below item hi other ho hl := h.below item hi other ho
    (he _ (h.perm.mem_iff.mp (List.mem_of_mem_drop ho)) _
      (h.perm.mem_iff.mp (List.mem_of_mem_take hi)) hl)

end Definitions

section Cuts

variable {α κ : Type} [LinearOrder κ] {key : α → κ} {count cut : ℕ} {items sorted other : List α}

/-- Nothing behind a cut is smaller than anything in front of it. -/
structure Cut (key : α → κ) (cut : ℕ) (items sorted : List α) : Prop where
  /-- The items are rearranged. -/
  perm : sorted.Perm items
  /-- The front is not greater than the rest. -/
  below : ∀ item∈sorted.take cut,∀ other∈sorted.drop cut,key item≤key other

/-- A partial sort can be cut anywhere in its front. -/
theorem PartialSort.cutAt (h : PartialSort (fun first second => key first<key second) count items sorted)
    (hc : cut≤ count) : Cut key cut items sorted := by
  refine ⟨h.perm,fun item hi other ho => ?_⟩
  have htake : (sorted.take count).take cut=sorted.take cut := by
    rw [List.take_take,Nat.min_eq_left hc]
  have hpair := h.ordered
  rw [←List.take_append_drop cut (sorted.take count),htake,List.pairwise_append] at hpair
  have hdrop : other∈(sorted.take count).drop cut ∨ other∈sorted.drop count := by
    have hsplit : sorted.drop cut=(sorted.take count).drop cut++(sorted.drop count).drop
        (cut-(sorted.take count).length) := by
      rw [←List.drop_append,List.take_append_drop]
    rw [hsplit,List.mem_append] at ho
    exact ho.imp id List.mem_of_mem_drop
  cases hdrop with
  | inl ho => exact not_lt.mp (hpair.2.2 item hi other ho)
  | inr ho =>
    have hfront : item∈sorted.take count := by
      rw [←htake] at hi
      exact List.mem_of_mem_take hi
    exact not_lt.mp (h.below item hfront other ho)

/-- A sorted list can be cut anywhere. -/
theorem cut_of_sorted (hp : sorted.Perm items)
    (hs : sorted.Pairwise (fun first second => key first≤key second)) : Cut key cut items sorted := by
  refine ⟨hp,fun item hi other ho => ?_⟩
  rw [←List.take_append_drop cut sorted,List.pairwise_append] at hs
  exact hs.2.2 item hi other ho

/-- Items in front of a cut have fewer smaller ones than the cut. -/
theorem Cut.countP_lt (h : Cut key cut items sorted) {item : α} (hi : item∈sorted.take cut) :
    items.countP (fun other => decide (key other<key item))<cut := by
  have hrest : (sorted.drop cut).countP (fun other => decide (key other<key item))=0 := by
    refine List.countP_eq_zero.mpr (fun other ho => ?_)
    rw [decide_eq_true_eq,not_lt]
    exact h.below item hi other ho
  have hfront : (sorted.take cut).countP (fun other => decide (key other<key item))<
      (sorted.take cut).length := by
    refine lt_of_le_of_ne List.countP_le_length (fun he => ?_)
    have hself := List.countP_eq_length.mp he item hi
    rw [decide_eq_true_eq] at hself
    exact lt_irrefl _ hself
  rw [←h.perm.countP_eq,←List.take_append_drop cut sorted,List.countP_append,hrest]
  rw [List.length_take] at hfront
  omega

/-- Items behind a cut have more items than the cut that are not greater. -/
theorem Cut.lt_countP (h : Cut key cut items sorted) {item : α} (hi : item∈sorted.drop cut) :
    cut< items.countP (fun other => decide (key other≤key item)) := by
  have hfront : (sorted.take cut).countP (fun other => decide (key other≤key item))=
      (sorted.take cut).length := by
    refine List.countP_eq_length.mpr (fun other ho => ?_)
    rw [decide_eq_true_eq]
    exact h.below other ho item hi
  have hrest : 0<(sorted.drop cut).countP (fun other => decide (key other≤key item)) :=
    List.countP_pos_iff.mpr ⟨item,hi,by rw [decide_eq_true_eq]⟩
  have hlength := List.length_pos_of_mem hi
  rw [List.length_drop] at hlength
  rw [←h.perm.countP_eq,←List.take_append_drop cut sorted,List.countP_append,hfront,List.length_take]
  omega

/-- Without equal keys on both sides, what is in front of a cut is in front
of every cut at the same place. -/
theorem Cut.mem_of_mem (hs : Cut key cut items sorted)
    (ho : Cut key cut items other) (hcut : ¬Straddled key cut items) {item : α}
    (hi : item∈sorted.take cut) : item∈other.take cut := by
  by_contra hno
  have hitem : item∈items := hs.perm.mem_iff.mp (List.mem_of_mem_take hi)
  have hbehind : item∈other.drop cut := by
    have hm := ho.perm.mem_iff.mpr hitem
    rw [←List.take_append_drop cut other] at hm
    exact (List.mem_append.mp hm).resolve_left hno
  have hlt := hs.countP_lt hi
  have hgt := ho.lt_countP hbehind
  exact hcut ⟨item,hitem,hlt,hgt⟩

/-- Two sorts select the same items in front of a cut that no equal keys
straddle. -/
theorem Cut.mem_iff (hs : Cut key cut items sorted)
    (ho : Cut key cut items other) (hcut : ¬Straddled key cut items) (item : α) :
    item∈sorted.take cut ↔ item∈other.take cut :=
  ⟨hs.mem_of_mem ho hcut,ho.mem_of_mem hs hcut⟩

/-- The items around a cut inside a list. -/
theorem exists_around (hpos : 0<cut) (hlength : cut<sorted.length) :
    ∃ front first second back,sorted=front++first::second::back ∧ front.length+1=cut := by
  refine ⟨sorted.take (cut-1),sorted[cut-1],sorted[cut],sorted.drop (cut+1),?_,?_⟩
  · have hnext : sorted.drop (cut-1)=sorted[cut-1]::sorted.drop cut := by
      rw [List.drop_eq_getElem_cons (by omega),Nat.sub_add_cancel hpos]
    rw [←List.drop_eq_getElem_cons hlength,←hnext,List.take_append_drop]
  · rw [List.length_take]
    omega

/-- Around a cut that equal keys straddle the keys are equal. -/
theorem key_eq_around {front back : List α} {first second : α}
    (hp : (front++first::second::back).Perm items)
    (hs : (front++first::second::back).Pairwise (fun low high => key low≤key high))
    (hcut : Straddled key (front.length+1) items) : key first=key second := by
  obtain ⟨item,-,hlt,hgt⟩ := hcut
  rw [←hp.countP_eq,List.countP_append,List.countP_cons] at hlt hgt
  rw [List.pairwise_append,List.pairwise_cons,List.pairwise_cons] at hs
  obtain ⟨-,⟨hfirst,hsecond,-⟩,hfront⟩ := hs
  have hlow : key item≤key first := by
    by_contra hnot
    have hless : key first<key item := not_le.mp hnot
    have hall : front.countP (fun other => decide (key other<key item))=front.length := by
      refine List.countP_eq_length.mpr (fun other ho => ?_)
      rw [decide_eq_true_eq]
      exact (hfront other ho first List.mem_cons_self).trans_lt hless
    rw [hall,if_pos (decide_eq_true hless)] at hlt
    omega
  have hhigh : key second≤key item := by
    by_contra hnot
    have hless : key item<key second := not_le.mp hnot
    have hnone : (second::back).countP (fun other => decide (key other≤key item))=0 := by
      refine List.countP_eq_zero.mpr (fun other ho => ?_)
      rw [decide_eq_true_eq,not_le]
      cases List.mem_cons.mp ho with
      | inl ho => exact ho ▸ hless
      | inr ho => exact hless.trans_le (hsecond other ho)
    have hle : front.countP (fun other => decide (key other≤key item))≤front.length :=
      List.countP_le_length
    rw [hnone] at hgt
    split at hgt <;> omega
  exact le_antisymm (hfirst second List.mem_cons_self) (hhigh.trans hlow)

/-- Where equal keys straddle a cut, another sort selects other items. -/
theorem exists_other_sort (hn : items.Nodup) (hp : sorted.Perm items)
    (hs : sorted.Pairwise (fun first second => key first≤key second))
    (hcut : Straddled key cut items) (count : ℕ) :
    ∃ other,PartialSort (fun first second => key first<key second) count items other ∧
      ∃ item∈other.take cut,item∉sorted.take cut := by
  obtain ⟨item,-,hlt,hgt⟩ := id hcut
  have hlength : cut<sorted.length := by
    rw [hp.length_eq]
    exact hgt.trans_le List.countP_le_length
  obtain ⟨front,first,second,back,hsplit,hfront⟩ :=
    exists_around ((Nat.zero_le _).trans_lt hlt) hlength
  rw [hsplit] at hp hs
  rw [←hfront] at hcut
  have hkey := key_eq_around hp hs hcut
  have hswap : (front++second::first::back).Perm (front++first::second::back) :=
    (List.Perm.swap first second back).append_left front
  have hsorted : (front++second::first::back).Pairwise (fun low high => key low≤key high) := by
    have hmap : (front++second::first::back).map key=(front++first::second::back).map key := by
      rw [List.map_append,List.map_append,List.map_cons,List.map_cons,List.map_cons,List.map_cons,hkey]
    rw [←List.pairwise_map (f := key) (R := (·≤·)),hmap,List.pairwise_map]
    exact hs
  refine ⟨front++second::first::back,⟨hswap.trans hp,?_,?_⟩,second,?_,?_⟩
  · exact (hsorted.sublist (List.take_sublist _ _)).imp (fun h => not_lt.mpr h)
  · exact fun item hi other ho => not_lt.mpr ((cut_of_sorted (hswap.trans hp) hsorted).below item hi other ho)
  · rw [←hfront,List.take_append,List.take_of_length_le (by omega)]
    simp
  · have hnodup := hp.nodup_iff.mpr hn
    rw [hsplit,←hfront,List.take_append,List.take_of_length_le (by omega),Nat.add_sub_cancel_left,
      List.take_succ_cons,List.take_zero,List.mem_append,List.mem_singleton]
    rw [List.nodup_append,List.nodup_cons,List.mem_cons] at hnodup
    intro hm
    cases hm with
    | inl hm => exact hnodup.2.2 second hm second (by simp) rfl
    | inr hm => exact hnodup.2.1.1 (Or.inl hm.symm)

end Cuts

end Leann.Selection
