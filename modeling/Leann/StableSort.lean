import Mathlib.Data.Finset.Card
import Mathlib.Data.List.Sort
import Mathlib.Data.Prod.Lex

/-!
# Stable sorting and the front of a set

A stable sort by a key leaves items that were in the order of a second key in
the order of both. The front of a set are as many of its items as a cap
allows, in order and before all the others; a sorted list that is cut off is
the front of the set of its items.
-/

namespace Leann.StableSort

section Sorting

variable {α κ ι : Type} {items : List α}

/-- An insertion only compares the new item with the others. -/
theorem orderedInsert_congr {first second : α → α → Prop} [DecidableRel first] [DecidableRel second]
    {item : α} (h : ∀ other∈items,first item other ↔ second item other) :
    items.orderedInsert first item=items.orderedInsert second item := by
  induction items with
  | nil => rfl
  | cons head items ih =>
    rw [List.forall_mem_cons] at h
    rw [List.orderedInsert_cons,List.orderedInsert_cons,ih h.2,if_congr h.1 rfl rfl]

/-- A stable sort only compares items with those that stand behind them. -/
theorem insertionSort_congr {first second : α → α → Prop} [DecidableRel first]
    [DecidableRel second] (h : items.Pairwise (fun lhs rhs => first lhs rhs ↔ second lhs rhs)) :
    items.insertionSort first=items.insertionSort second := by
  induction items with
  | nil => rfl
  | cons item items ih =>
    rw [List.pairwise_cons] at h
    rw [List.insertionSort_cons,List.insertionSort_cons,ih h.2]
    exact orderedInsert_congr (fun other ho => h.1 other ((List.mem_insertionSort second).mp ho))

variable [LinearOrder κ] [LinearOrder ι] (key : α → κ) (tie : α → ι)

/-- By a key, and by a second one where the first is equal. -/
def Before (lhs rhs : α) : Prop := key lhs<key rhs ∨ key lhs=key rhs ∧ tie lhs<tie rhs

variable {key tie}

theorem before_irrefl (item : α) : ¬Before key tie item item := by
  simp [Before]

/-- A stable sort by the first key of items in the order of the second. -/
theorem insertionSort_before (h : items.Pairwise (fun lhs rhs => tie lhs<tie rhs)) :
    (items.insertionSort (fun lhs rhs => key lhs≤key rhs)).Pairwise (Before key tie) := by
  have hlex : items.insertionSort (fun lhs rhs => key lhs≤key rhs)=
      items.insertionSort (fun lhs rhs => toLex (key lhs,tie lhs)≤toLex (key rhs,tie rhs)) := by
    refine insertionSort_congr (h.imp (fun {lhs rhs} hlt => ?_))
    rw [Prod.Lex.toLex_le_toLex,le_iff_lt_or_eq]
    exact or_congr_right (and_iff_left hlt.le).symm
  have : Std.Total (fun lhs rhs : α => toLex (key lhs,tie lhs)≤toLex (key rhs,tie rhs)) :=
    ⟨fun lhs rhs => le_total _ _⟩
  have : IsTrans α (fun lhs rhs : α => toLex (key lhs,tie lhs)≤toLex (key rhs,tie rhs)) :=
    ⟨fun _ _ _ => le_trans⟩
  have hsorted := List.pairwise_insertionSort
    (fun lhs rhs : α => toLex (key lhs,tie lhs)≤toLex (key rhs,tie rhs)) items
  have hdistinct : (items.insertionSort (fun lhs rhs =>
      toLex (key lhs,tie lhs)≤toLex (key rhs,tie rhs))).Pairwise (fun lhs rhs => tie lhs≠tie rhs) :=
    ((List.perm_insertionSort _ items).pairwise_iff (fun hne => hne.symm)).mpr
      (h.imp (fun hlt => hlt.ne))
  rw [hlex]
  refine (hsorted.and hdistinct).imp (fun hboth => ?_)
  have hle := Prod.Lex.toLex_le_toLex.mp hboth.1
  exact hle.imp id (fun he => ⟨he.1,lt_of_le_of_ne he.2 hboth.2⟩)

end Sorting

section Fronts

variable {α : Type} {before : α → α → Prop} {pool : Finset α} {cap : ℕ} {front items : List α}

/-- As many items of a pool as a cap allows, before all the others. -/
structure Foremost (before : α → α → Prop) (pool : Finset α) (cap : ℕ) (front : List α) : Prop where
  /-- The items are in order. -/
  sorted : front.Pairwise before
  /-- They are taken from the pool. -/
  mem_pool : ∀ item∈front,item∈pool
  /-- There are as many as the cap allows. -/
  length_eq : front.length=min cap pool.card
  /-- What is left out comes behind them. -/
  before_rest : ∀ item∈front,∀ other∈pool,other∉front → before item other

/-- Sorted items differ. -/
theorem nodup_of_before (hs : items.Pairwise before) (hirrefl : ∀ item,¬before item item) :
    items.Nodup := by
  refine List.Pairwise.imp (fun {lhs rhs} hb => ?_) hs
  intro he
  rw [he] at hb
  exact hirrefl rhs hb

/-- A sorted list that is cut off. -/
theorem foremost_take (hs : items.Pairwise before) (hirrefl : ∀ item,¬before item item)
    (hm : ∀ item,item∈items ↔ item∈pool) : Foremost before pool cap (items.take cap) := by
  have hnodup := nodup_of_before hs hirrefl
  have hcard : pool.card=items.length := by
    classical
    rw [←List.toFinset_card_of_nodup hnodup]
    congr 1
    ext item
    rw [List.mem_toFinset,hm]
  refine ⟨hs.sublist (List.take_sublist cap items),
    fun item hi => (hm item).mp (List.mem_of_mem_take hi),by rw [List.length_take,hcard],
    fun item hi other ho hout => ?_⟩
  have hrest : other∈items.drop cap := by
    have hall := (hm other).mpr ho
    rw [←List.take_append_drop cap items,List.mem_append] at hall
    exact hall.resolve_left hout
  rw [←List.take_append_drop cap items,List.pairwise_append] at hs
  exact hs.2.2 item hi other hrest

/-- No item of a front is repeated. -/
theorem Foremost.nodup (h : Foremost before pool cap front) (hirrefl : ∀ item,¬before item item) :
    front.Nodup :=
  nodup_of_before h.sorted hirrefl

/-- A front that may have an item has one if the pool does. -/
theorem Foremost.length_pos (h : Foremost before pool cap front) (hcap : 0<cap) {item : α}
    (hi : item∈pool) : 0<front.length := by
  rw [h.length_eq]
  exact lt_min hcap (Finset.card_pos.mpr ⟨item,hi⟩)

theorem Foremost.length_le (h : Foremost before pool cap front) : front.length≤ cap :=
  h.length_eq.trans_le (min_le_left _ _)

end Fronts

end Leann.StableSort
