import Mathlib.Data.List.NodupEquivFin
import Mathlib.Data.List.Sort
import Mathlib.Data.Prod.Lex
import Mathlib.Order.Basic

/-!
# Selecting the items with the smallest keys

A bounded queue that is offered items one after another keeps those with
the smallest keys among everything it has seen. Which items these are does
not depend on the order of the offers, selections compose, and a selection
that is listed in order is a prefix of the sorted whole.
-/

namespace Leann.Selection

variable {α β : Type} [LinearOrder β]

/-- The kept items are so many of the seen ones, and no key among those left
out is smaller. -/
structure Smallest (key : α → β) (count : ℕ) (seen kept : List α) : Prop where
  /-- Only seen items are kept. -/
  subset : ∀ item∈kept,item∈seen
  /-- No item is kept twice. -/
  distinct : (kept.map key).Nodup
  /-- As many items are kept as there are, up to the bound. -/
  length : kept.length=min count seen.length
  /-- Items left out have greater keys. -/
  below : ∀ item∈kept,∀ other∈seen,other∉kept → key item<key other

namespace Smallest

variable {key : α → β} {count : ℕ} {seen kept : List α}

/-- Kept items are different items. -/
theorem nodup (h : Smallest key count seen kept) : kept.Nodup := List.Nodup.of_map key h.distinct

theorem length_le (h : Smallest key count seen kept) : kept.length≤ count := by
  rw [h.length]
  exact Nat.min_le_left _ _

/-- A queue with room to spare has kept everything. -/
theorem perm_seen (h : Smallest key count seen kept) (hl : kept.length<count ∨ seen.length≤ count) :
    kept.Perm seen := by
  have hlen := h.length
  have hn : List.Nodup kept := h.nodup
  have hs : kept.Subperm seen := List.subperm_of_subset hn h.subset
  exact hs.perm_of_length_le (by omega)

/-- Nothing has been seen. -/
theorem nil : Smallest key count [] [] := ⟨by simp,by simp,by simp,by simp⟩

/-- Only membership and size matter. -/
theorem perm {seen' kept' : List α} (h : Smallest key count seen kept) (hs : seen.Perm seen')
    (hk : kept.Perm kept') : Smallest key count seen' kept' where
  subset item hi := hs.mem_iff.mp (h.subset item (hk.mem_iff.mpr hi))
  distinct := (hk.map key).nodup_iff.mp h.distinct
  length := by rw [←hk.length_eq,←hs.length_eq,h.length]
  below item hi other ho hn := h.below item (hk.mem_iff.mpr hi) other (hs.mem_iff.mpr ho)
    (fun hm => hn (hk.mem_iff.mp hm))

/-- A selection of a selection is a selection of the whole. -/
theorem trans {fewer : ℕ} {last : List α} (h : Smallest key count seen kept)
    (hl : Smallest key fewer kept last) (hf : fewer≤ count) : Smallest key fewer seen last where
  subset item hi := h.subset item (hl.subset item hi)
  distinct := hl.distinct
  length := by
    rw [hl.length,h.length]
    omega
  below item hi other ho hn := by
    by_cases hk : other∈kept
    · exact hl.below item hi other hk hn
    · exact h.below item (hl.subset item hi) other ho hk

/-- Two selections of the same items keep the same items. -/
theorem unique {kept' : List α} (h : Smallest key count seen kept)
    (h' : Smallest key count seen kept') : kept.Perm kept' := by
  have hlen : kept.length=kept'.length := by rw [h.length,h'.length]
  have hnodup : List.Nodup kept := h.nodup
  have hnodup' : List.Nodup kept' := h'.nodup
  refine (List.subperm_of_subset hnodup (fun item hi => ?_)).perm_of_length_le hlen.ge
  by_contra hn
  have hsub : ¬∀ other∈kept',other∈kept := fun hall => by
    have hp := (List.subperm_of_subset hnodup' hall).perm_of_length_le hlen.le
    exact hn (hp.mem_iff.mpr hi)
  obtain ⟨other,ho,hno⟩ : ∃ other,other∈kept' ∧ other∉kept := by
    simpa only [not_forall,exists_prop] using hsub
  have h1 := h.below item hi other (h'.subset other ho) hno
  have h2 := h'.below other ho item (h.subset item hi) hn
  exact absurd h1 (not_lt.mpr h2.le)

/-- An item that is kept when more has been seen was kept before. -/
theorem kept_of_seen {seen' kept' : List α} (h : Smallest key count seen kept)
    (h' : Smallest key count seen' kept') (hs : seen⊆seen') {item : α} (hk : item∈kept')
    (hi : item∈seen) : item∈kept := by
  by_contra hno
  have hlonger : ∀ {items : List α},kept⊆items → item∈items → kept.length+1≤ items.length := by
    intro items hsub hmem
    have hn : (item::kept).Nodup := List.nodup_cons.mpr ⟨hno,h.nodup⟩
    exact (List.subperm_of_subset hn (List.cons_subset.mpr ⟨hmem,hsub⟩)).length_le
  have hkept : kept⊆kept' := by
    intro other ho
    by_contra hno'
    have hlow := h.below other ho item hi hno
    exact lt_asymm hlow (h'.below item hk other (hs (h.subset other ho)) hno')
  have hseen := hlonger h.subset hi
  have hlength := h.length
  have hmore := hlonger hkept hk
  have hle := h'.length_le
  omega

end Smallest

section Queue

variable (key : α → β)

/-- The greatest key first. -/
def Descending (queue : List α) : Prop := queue.Pairwise (fun first second => key second<key first)

/-- Insert behind all greater keys. -/
def push (item : α) (queue : List α) : List α :=
  queue.orderedInsert (fun first second => key second≤key first) item

/-- Insert, and drop the greatest key when there are too many. -/
def offer (count : ℕ) (item : α) (queue : List α) : List α :=
  if (push key item queue).length>count then (push key item queue).tail else push key item queue

/-- In order of their keys. -/
def ranked (items : List α) : List α :=
  items.insertionSort (fun first second => key first≤key second)

variable {key}

theorem push_perm (item : α) (queue : List α) : (push key item queue).Perm (item::queue) :=
  List.perm_orderedInsert _ item queue

@[simp] theorem mem_push {item other : α} {queue : List α} :
    other∈push key item queue ↔ other=item ∨ other∈queue := by
  rw [(push_perm item queue).mem_iff,List.mem_cons]

@[simp] theorem push_length (item : α) (queue : List α) :
    (push key item queue).length=queue.length+1 := by
  rw [(push_perm item queue).length_eq,List.length_cons]

/-- Only the offered item enters the queue. -/
theorem mem_offer {count : ℕ} {item other : α} {queue : List α}
    (h : other∈offer key count item queue) : other=item ∨ other∈queue := by
  unfold offer at h
  by_cases hc : (push key item queue).length>count
  · rw [if_pos hc] at h
    exact mem_push.mp (List.mem_of_mem_tail h)
  · rw [if_neg hc] at h
    exact mem_push.mp h

/-- Sorted by the order, and without equal keys strictly so. -/
theorem descending_of_nodup {queue : List α}
    (hs : queue.Pairwise (fun first second => key second≤key first))
    (hn : (queue.map key).Nodup) : Descending key queue := by
  rw [List.Nodup,List.pairwise_map] at hn
  exact (hs.and hn).imp (fun h => lt_of_le_of_ne h.1 (Ne.symm h.2))

/-- A queue stays in order. -/
theorem push_descending {item : α} {queue : List α} (hd : Descending key queue)
    (hn : ∀ other∈queue,key other≠key item) : Descending key (push key item queue) := by
  have : Std.Total (fun first second : α => key second≤key first) :=
    ⟨fun first second => le_total _ _⟩
  have : IsTrans α (fun first second : α => key second≤key first) :=
    ⟨fun _ _ _ h1 h2 => h2.trans h1⟩
  refine descending_of_nodup (List.Pairwise.orderedInsert item queue (hd.imp le_of_lt)) ?_
  have hq : (queue.map key).Nodup := by
    rw [List.Nodup,List.pairwise_map]
    exact hd.imp (fun h => h.ne')
  rw [((push_perm item queue).map key).nodup_iff,List.map_cons,List.nodup_cons]
  refine ⟨fun hm => ?_,hq⟩
  obtain ⟨other,ho,he⟩ := List.mem_map.mp hm
  exact hn other ho he

/-- Offering a new item keeps the smallest of everything seen. -/
theorem Smallest.offer {count : ℕ} {seen queue : List α} {item : α}
    (h : Smallest key count seen queue) (hd : Descending key queue)
    (hn : ∀ other∈seen,key other≠key item) :
    Smallest key count (item::seen) (offer key count item queue) ∧
      Descending key (Selection.offer key count item queue) := by
  have hq : ∀ other∈queue,key other≠key item := fun other ho => hn other (h.subset other ho)
  have hpd := push_descending hd hq
  have hlen := h.length
  have hdistinct : ((push key item queue).map key).Nodup := by
    rw [List.Nodup,List.pairwise_map]
    exact hpd.imp (fun h => h.ne')
  unfold Selection.offer
  by_cases hc : (push key item queue).length>count
  · rw [if_pos hc]
    rw [push_length] at hc
    obtain ⟨head,tail,ht⟩ : ∃ head tail,push key item queue=head::tail := by
      cases hp : push key item queue with
      | nil =>
        have hl : (push key item queue).length=queue.length+1 := push_length item queue
        rw [hp] at hl
        simp at hl
      | cons head tail => exact ⟨head,tail,rfl⟩
    have hmem : ∀ other,other∈head::tail ↔ other=item ∨ other∈queue := fun other => by
      rw [←ht,mem_push]
    have htl : tail.length=queue.length := by
      have hl : (push key item queue).length=queue.length+1 := push_length item queue
      rw [ht,List.length_cons] at hl
      omega
    rw [ht] at hpd hdistinct ⊢
    rw [List.tail_cons]
    rw [List.map_cons,List.nodup_cons] at hdistinct
    have hhead : ∀ other∈tail,key other<key head :=
      fun _ ho => List.rel_of_pairwise_cons hpd ho
    refine ⟨⟨fun other ho => ?_,hdistinct.2,?_,fun low hlow other ho hno => ?_⟩,
      (List.pairwise_cons.mp hpd).2⟩
    · rcases (hmem other).mp (List.mem_cons_of_mem _ ho) with rfl|hq'
      · exact List.mem_cons_self
      · exact List.mem_cons_of_mem _ (h.subset other hq')
    · rw [htl,List.length_cons]
      omega
    · by_cases hoh : other=head
      · rw [hoh]
        exact hhead low hlow
      · have hnl : other∉head::tail := fun hm => (List.mem_cons.mp hm).elim hoh hno
        have hno' : other≠item ∧ other∉queue := not_or.mp (fun hm => hnl ((hmem other).mpr hm))
        have hos : other∈seen := (List.mem_cons.mp ho).resolve_left hno'.1
        have hgreater : ∀ kept∈queue,key kept<key other :=
          fun kept hk => h.below kept hk other hos hno'.2
        rcases (hmem low).mp (List.mem_cons_of_mem _ hlow) with rfl|hlq
        · have hne : head≠low := fun he => by
            rw [he] at hhead
            exact lt_irrefl _ (hhead low hlow)
          have hhq := ((hmem head).mp List.mem_cons_self).resolve_left hne
          exact (hhead low hlow).trans (hgreater head hhq)
        · exact hgreater low hlq
  · rw [if_neg hc]
    rw [push_length] at hc
    have hall := h.perm_seen (Or.inl (by omega))
    refine ⟨⟨fun other ho => ?_,hdistinct,?_,fun low hlow other ho hno => ?_⟩,hpd⟩
    · rcases mem_push.mp ho with rfl|hq'
      · exact List.mem_cons_self
      · exact List.mem_cons_of_mem _ (h.subset other hq')
    · rw [push_length,List.length_cons]
      omega
    · refine absurd (mem_push.mpr ?_) hno
      rcases List.mem_cons.mp ho with rfl|hs
      · exact Or.inl rfl
      · exact Or.inr (hall.mem_iff.mpr hs)

/-- An item beyond a full queue needs not be offered. -/
theorem Smallest.skip {count : ℕ} {seen queue : List α} {item : α}
    (h : Smallest key count seen queue) (hfull : count≤queue.length)
    (hg : ∀ other∈queue,key other<key item) : Smallest key count (item::seen) queue where
  subset other ho := List.mem_cons_of_mem _ (h.subset other ho)
  distinct := h.distinct
  length := by
    have hl := h.length
    rw [List.length_cons]
    omega
  below low hlow other ho hno := by
    rcases List.mem_cons.mp ho with rfl|hs
    · exact hg low hlow
    · exact h.below low hlow other hs hno

/-- Everything is a selection of itself without a bound. -/
theorem Smallest.whole {count : ℕ} {items : List α} (hn : (items.map key).Nodup)
    (hc : items.length≤ count) : Smallest key count items items where
  subset _ hi := hi
  distinct := hn
  length := by omega
  below _ _ _ ho hno := absurd ho hno

end Queue

section Ranking

variable {key : α → β}

theorem ranked_perm (items : List α) : (ranked key items).Perm items := List.perm_insertionSort _ _

@[simp] theorem ranked_length (items : List α) : (ranked key items).length=items.length :=
  (ranked_perm items).length_eq

@[simp] theorem mem_ranked {item : α} {items : List α} : item∈ranked key items ↔ item∈items :=
  (ranked_perm items).mem_iff

theorem ranked_pairwise (items : List α) :
    (ranked key items).Pairwise (fun first second => key first≤key second) := by
  have : Std.Total (fun first second : α => key first≤key second) :=
    ⟨fun first second => le_total _ _⟩
  have : IsTrans α (fun first second : α => key first≤key second) := ⟨fun _ _ _ => le_trans⟩
  exact List.pairwise_insertionSort _ _

/-- Without equal keys the order is strict. -/
theorem ranked_strict {items : List α} (hn : (items.map key).Nodup) :
    (ranked key items).Pairwise (fun first second => key first<key second) := by
  have hn' : ((ranked key items).map key).Nodup := ((ranked_perm items).map key).nodup_iff.mpr hn
  rw [List.Nodup,List.pairwise_map] at hn'
  exact ((ranked_pairwise items).and hn').imp (fun h => lt_of_le_of_ne h.1 h.2)

/-- The first items in order of their keys are the smallest. -/
theorem smallest_take {items : List α} (hn : (items.map key).Nodup) (count : ℕ) :
    Smallest key count items ((ranked key items).take count) where
  subset item hi := mem_ranked.mp (List.mem_of_mem_take hi)
  distinct := by
    rw [List.map_take]
    exact (((ranked_perm items).map key).nodup_iff.mpr hn).sublist (List.take_sublist _ _)
  length := by rw [List.length_take,ranked_length]
  below item hi other ho hno := by
    have hs := ranked_strict hn
    rw [←List.take_append_drop count (ranked key items)] at hs
    have hd : other∈(ranked key items).drop count := by
      have hm : other∈ranked key items := mem_ranked.mpr ho
      rw [←List.take_append_drop count (ranked key items)] at hm
      exact (List.mem_append.mp hm).resolve_left hno
    exact (List.pairwise_append.mp hs).2.2 item hi other hd

/-- Ordered lists with the same items are the same list. -/
theorem eq_of_perm {first second : List α} (hp : first.Perm second)
    (hf : first.Pairwise (fun low high => key low<key high))
    (hs : second.Pairwise (fun low high => key low<key high)) : first=second :=
  List.Perm.eq_of_pairwise (fun _ _ _ _ h1 h2 => absurd h1 (lt_asymm h2)) hf hs hp

/-- A selection listed in order is a prefix of the sorted whole. -/
theorem Smallest.eq_take {count : ℕ} {seen kept : List α} (h : Smallest key count seen kept)
    (hn : (seen.map key).Nodup) : ranked key kept=(ranked key seen).take count := by
  have ht := smallest_take hn count
  refine eq_of_perm ((ranked_perm kept).trans (h.unique ht)) (ranked_strict h.distinct) ?_
  exact (ranked_strict hn).sublist (List.take_sublist _ _)

end Ranking

end Leann.Selection
