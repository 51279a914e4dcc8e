import Leann.GroundTruth
import Leann.Selection

/-!
# Exact neighbours block by block

The scores of one block of documents at a time are merged into the best seen
so far. A partition that is only specified around one place gives a threshold,
and what lies above it is completed by the lowest ids that lie on it. However
the corpus is cut, every query keeps the first documents of the whole order.
-/

namespace Leann.BlockwiseTopK

open Exceptions GroundTruth Outcomes Selection

variable {σ : Type} [LinearOrder σ]

/-- A document with its score. -/
structure Scored (σ : Type) where
  /-- The score of the document. -/
  score : σ
  /-- The id of the document. -/
  id : UInt32
  deriving DecidableEq

/-- Higher scores first, lower ids first among equal scores. -/
def Scored.key (entry : Scored σ) : σᵒᵈ×ₗℕ := toLex (OrderDual.toDual entry.score,entry.id.toNat)

section Library

/-- What `argpartition` promises: the indices in an order in which nothing
before the given place is greater than anything from it on. -/
structure Partitioned (values : List σ) (place : ℕ) (order : List ℕ) : Prop where
  /-- All indices occur once. -/
  perm : order.Perm (List.range values.length)
  /-- The place separates smaller values from greater ones. -/
  split : ∀ low∈order.take place,∀ high∈order.drop place,∀ small∈values[low]?,∀ great∈values[high]?,
    small≤great

/-- The entries that an array of indices selects. -/
def gather {α : Type} (values : List α) (indices : List ℕ) : List α :=
  indices.filterMap (values[·]?)

end Library

section Program

variable (argpartition : List σ → ℕ → List ℕ)

/-- `candidates`, when there are more entries than are taken. -/
def thresholdCandidates (taken : ℕ) (row : List (Scored σ)) : Except ScriptError (List (Scored σ)) := do
  let place := row.length-taken
  raiseIf (row.length≤place)
    (.valueError ("kth(="++toString place++") out of bounds ("++toString row.length++")"))
  let provisional := (argpartition (row.map Scored.score) place).drop place
  match (gather (row.map Scored.score) provisional).min? with
  | none => .error (.valueError "zero-size array to reduction operation minimum which has no identity")
  | some threshold =>
    let strict := row.filter (fun entry => threshold<entry.score)
    let ties := row.filter (fun entry => entry.score=threshold)
    let needed := taken-strict.length
    .ok (strict++(ranked (fun entry => entry.id.toNat) ties).take needed)

/-- One row of `_select_topk`. -/
def selectRow (topK : ℕ) (row : List (Scored σ)) : Except ScriptError (List (Scored σ)) := do
  let taken := min topK row.length
  let candidates ← if taken=row.length then pure row else thresholdCandidates argpartition taken row
  return (ranked Scored.key candidates).take taken

/-- `_select_topk`. -/
def selectTopK (topK : ℕ) : List (List (Scored σ)) → Except ScriptError (List (List (Scored σ)))
  | [] => return []
  | row::rows => do
    let ordered ← selectRow argpartition topK row
    let others ← selectTopK topK rows
    return ordered::others

/-- `arange` of 32-bit ids. -/
def arange (first stop : ℕ) : Except ScriptError (List UInt32) := do
  raiseIf (first<stop ∧ 2^32≤first) .overflowError
  return (List.range' first (stop-first)).map UInt32.ofNat

variable {Query Document : Type} (score : Query → Document → σ)

/-- The scores of a block, a row for each query, with the ids of its documents. -/
def scoreBlock (queries : List Query) (block : List Document) (ids : List UInt32) :
    List (List (Scored σ)) :=
  queries.map (fun query => List.zipWith (fun document id => ⟨score query document,id⟩) block ids)

/-- The loop of `exact_topk_block` over the blocks from one document on. -/
def mergeBlocks (queries : List Query) (corpus : List Document) (topK corpusBlockRows : ℕ)
    (hrows : 0<corpusBlockRows) (first : ℕ) (best : List (List (Scored σ))) :
    Except ScriptError (List (List (Scored σ))) :=
  if _ : first<corpus.length then do
    let stop := min corpus.length (first+corpusBlockRows)
    let block := (corpus.drop first).take (stop-first)
    let ids ← arange first stop
    let chosen ← selectTopK argpartition topK (scoreBlock score queries block ids)
    let merged ← selectTopK argpartition topK (List.zipWith (·++·) best chosen)
    mergeBlocks queries corpus topK corpusBlockRows hrows (first+corpusBlockRows) merged
  else return best
termination_by corpus.length-first
decreasing_by omega

/-- `exact_topk_block`. -/
def exactTopKBlock (queries : List Query) (corpus : List Document) (topK corpusBlockRows : ℕ) :
    Except ScriptError (List (List UInt32)) :=
  if hrows : 0<corpusBlockRows then do
    let best ← mergeBlocks argpartition score queries corpus topK corpusBlockRows hrows 0
      (queries.map (fun _ => []))
    return best.map (fun row => row.map Scored.id)
  else .error (.valueError "range() arg 3 must not be zero")

end Program

section Selecting

/-- Everything that is selected from two parts is selected from one of them. -/
theorem smallest_append {α β : Type} [LinearOrder β] {key : α → β} {count : ℕ}
    {first second kept kept' best : List α} (hfirst : Smallest key count first kept)
    (hsecond : Smallest key count second kept') (hbest : Smallest key count (first++second) best) :
    Smallest key count (kept++kept') best where
  subset item hi := by
    rcases List.mem_append.mp (hbest.subset item hi) with hm | hm
    · exact List.mem_append_left _
        (hfirst.kept_of_seen hbest (List.subset_append_left _ _) hi hm)
    · exact List.mem_append_right _
        (hsecond.kept_of_seen hbest (List.subset_append_right _ _) hi hm)
  distinct := hbest.distinct
  length := by
    rw [hbest.length,List.length_append,List.length_append,hfirst.length,hsecond.length]
    omega
  below item hi other ho hno := by
    refine hbest.below item hi other ?_ hno
    rcases List.mem_append.mp ho with hm | hm
    · exact List.mem_append_left _ (hfirst.subset other hm)
    · exact List.mem_append_right _ (hsecond.subset other hm)

/-- The best of two parts have different keys when the parts have. -/
theorem ranked_take_append_keys {α β : Type} [LinearOrder β] {key : α → β} (count : ℕ)
    {first second : List α} (hn : ((first++second).map key).Nodup) :
    (((ranked key first).take count++(ranked key second).take count).map key).Nodup := by
  have hwhole : (ranked key first++ranked key second).Perm (first++second) :=
    (ranked_perm first).append (ranked_perm second)
  refine List.Nodup.sublist ?_ ((hwhole.map key).nodup_iff.mpr hn)
  exact ((List.take_sublist _ _).append (List.take_sublist _ _)).map key

/-- The best of the best of two parts are the best of the whole. -/
theorem ranked_take_append {α β : Type} [LinearOrder β] {key : α → β} (count : ℕ)
    {first second : List α} (hn : ((first++second).map key).Nodup) :
    (ranked key ((ranked key first).take count++(ranked key second).take count)).take count=
      (ranked key (first++second)).take count := by
  have hparts : (first.map key).Nodup ∧ (second.map key).Nodup := by
    rw [List.map_append] at hn
    exact ⟨hn.of_append_left,hn.of_append_right⟩
  have hfirst := smallest_take hparts.1 count
  have hsecond := smallest_take hparts.2 count
  have hbest := smallest_take hn count
  have hmerged := smallest_append hfirst hsecond hbest
  have hkept := ranked_take_append_keys count hn
  rw [← hmerged.eq_take hkept]
  have hsorted : ((ranked key (first++second)).take count).Pairwise
      (fun low high => key low<key high) :=
    (ranked_strict hn).sublist (List.take_sublist count _)
  exact eq_of_perm (ranked_perm _) (ranked_strict hbest.distinct) hsorted

end Selecting

section Threshold

variable {values : List σ} {place : ℕ} {order : List ℕ}

theorem gather_append {α : Type} (items : List α) (first second : List ℕ) :
    gather items (first++second)=gather items first++gather items second :=
  List.filterMap_append

/-- All indices together select everything. -/
theorem gather_range {α : Type} (items : List α) :
    gather items (List.range items.length)=items := by
  induction items using List.reverseRecOn with
  | nil => rfl
  | append_singleton front last ih =>
    have hfront : gather (front++[last]) (List.range front.length)=
        gather front (List.range front.length) := by
      apply List.filterMap_congr
      intro index hindex
      rw [List.getElem?_append_left (List.mem_range.mp hindex)]
    rw [List.length_append,List.length_singleton,List.range_succ,gather_append,hfront,ih,gather,
      List.filterMap_cons_some (b := last) (by simp),List.filterMap_nil]

/-- The part behind the place holds as many values as there are places left. -/
theorem Partitioned.gather_drop_length (h : Partitioned values place order) :
    (gather values (order.drop place)).length=values.length-place := by
  have hall : ∀ index∈order.drop place,(values[index]?).isSome := by
    intro index hindex
    have hlt := List.mem_range.mp (h.perm.mem_iff.mp (List.mem_of_mem_drop hindex))
    rw [List.getElem?_eq_getElem hlt]
    rfl
  rw [gather,List.filterMap_length_eq_length.mpr hall,List.length_drop,h.perm.length_eq,
    List.length_range]

/-- The values that a partition gathers are those of the array. -/
theorem Partitioned.gather_perm (h : Partitioned values place order) :
    (gather values (order.take place)++gather values (order.drop place)).Perm values := by
  rw [← gather_append,List.take_append_drop]
  have hp := h.perm.filterMap (values[·]?)
  change (gather values order).Perm (gather values (List.range values.length)) at hp
  rwa [gather_range] at hp

/-- Nothing before the place is greater than anything behind it. -/
theorem Partitioned.le (h : Partitioned values place order) {small great : σ}
    (hsmall : small∈gather values (order.take place))
    (hgreat : great∈gather values (order.drop place)) : small≤great := by
  obtain ⟨low,hlow,hs⟩ := List.mem_filterMap.mp hsmall
  obtain ⟨high,hhigh,hg⟩ := List.mem_filterMap.mp hgreat
  exact h.split low hlow high hhigh small hs great hg

/-- Fewer values than are taken lie above the threshold, and with those on it
there are enough. -/
theorem Partitioned.threshold_counts (h : Partitioned values place order) {threshold : σ}
    (hmem : threshold∈gather values (order.drop place))
    (hleast : ∀ value∈gather values (order.drop place),threshold≤value) :
    values.countP (threshold<·)<values.length-place ∧
      values.length-place≤values.countP (threshold<·)+values.countP (·=threshold) := by
  have hperm := h.gather_perm
  have hlength := h.gather_drop_length
  have hle : ∀ small∈gather values (order.take place),small≤threshold :=
    fun small hsmall => h.le hsmall hmem
  generalize gather values (order.take place)=lows at hperm hle
  generalize gather values (order.drop place)=highs at hmem hleast hperm hlength
  have hover : values.countP (threshold<·)=highs.countP (threshold<·) := by
    rw [← hperm.countP_eq,List.countP_append,Nat.add_eq_right,List.countP_eq_zero]
    intro low hlow
    simpa using hle low hlow
  have hon : highs.countP (·=threshold)≤values.countP (·=threshold) := by
    rw [← hperm.countP_eq,List.countP_append]
    omega
  have hsplit : highs.length=highs.countP (threshold<·)+highs.countP (·=threshold) := by
    rw [List.length_eq_countP_add_countP (threshold<·)]
    congr 1
    apply List.countP_congr
    intro high hhigh
    have hequal : high=threshold ↔ high≤threshold := by
      rw [le_antisymm_iff,and_iff_left (hleast high hhigh)]
    simp [hequal]
  have hpos : 0<highs.countP (·=threshold) := List.countP_pos_iff.mpr ⟨threshold,hmem,by simp⟩
  omega

variable {argpartition : List σ → ℕ → List ℕ} {row : List (Scored σ)}

/-- What passes the threshold, completed from the ties, is the selection. -/
theorem candidates_smallest {threshold : σ} {taken : ℕ} (hn : (row.map Scored.key).Nodup)
    (hlt : taken< row.length)
    (hover : row.countP (fun entry => threshold<entry.score)<taken)
    (hon : taken≤ row.countP (fun entry => threshold<entry.score)+
      row.countP (fun entry => entry.score=threshold)) :
    Smallest Scored.key taken row (row.filter (fun entry => threshold<entry.score)++
      (ranked (fun entry => entry.id.toNat) (row.filter (fun entry => entry.score=threshold))).take
        (taken-(row.filter (fun entry => threshold<entry.score)).length)) := by
  rw [List.countP_eq_length_filter] at hover hon
  rw [List.countP_eq_length_filter] at hon
  have hstrict : ∀ entry,entry∈row.filter (fun entry => threshold<entry.score) ↔
      entry∈row ∧ threshold<entry.score := fun entry => by simp
  have hties : ∀ entry,entry∈row.filter (fun entry => entry.score=threshold) ↔
      entry∈row ∧ entry.score=threshold := fun entry => by simp
  have hstrictKeys : ((row.filter (fun entry => threshold<entry.score)).map Scored.key).Nodup :=
    hn.sublist (List.filter_sublist.map _)
  have htieKeys : ((row.filter (fun entry => entry.score=threshold)).map Scored.key).Nodup :=
    hn.sublist (List.filter_sublist.map _)
  generalize row.filter (fun entry => threshold<entry.score)=strict at *
  generalize row.filter (fun entry => entry.score=threshold)=ties at *
  have hids : (ties.map (fun entry => entry.id.toNat)).Nodup := by
    have hkeys : ties.map Scored.key=(ties.map (fun entry => entry.id.toNat)).map
        (fun number => toLex (OrderDual.toDual threshold,number)) := by
      rw [List.map_map]
      apply List.map_congr_left
      intro entry hentry
      rw [Scored.key,((hties entry).mp hentry).2]
      rfl
    rw [hkeys] at htieKeys
    exact htieKeys.of_map
  have hchosen := smallest_take hids (taken-strict.length)
  generalize (ranked (fun entry : Scored σ => entry.id.toNat) ties).take
    (taken-strict.length)=chosen at hchosen
  refine ⟨fun item hi => ?_,?_,?_,fun item hi other ho hno => ?_⟩
  · rcases List.mem_append.mp hi with hm | hm
    · exact ((hstrict item).mp hm).1
    · exact ((hties item).mp (hchosen.subset item hm)).1
  · have hchosenKeys : (chosen.map Scored.key).Nodup := by
      have hdistinct := hchosen.distinct
      have hsecond : chosen.map (fun entry => entry.id.toNat)=
          (chosen.map Scored.key).map (fun key => (ofLex key).2) := by
        rw [List.map_map]
        rfl
      rw [hsecond] at hdistinct
      exact hdistinct.of_map
    rw [List.map_append,List.nodup_append]
    refine ⟨hstrictKeys,hchosenKeys,fun key hkey key' hkey' hsame => ?_⟩
    obtain ⟨first,hfirst,rfl⟩ := List.mem_map.mp hkey
    obtain ⟨second,hsecond,rfl⟩ := List.mem_map.mp hkey'
    have hscore : first.score=second.score := (Prod.ext_iff.mp (toLex.injective hsame)).1
    have hlow := ((hties second).mp (hchosen.subset second hsecond)).2
    have hhigh := ((hstrict first).mp hfirst).2
    rw [hscore,hlow] at hhigh
    exact lt_irrefl _ hhigh
  · have hlength := hchosen.length
    rw [List.length_append]
    omega
  · obtain ⟨hnstrict,hnchosen⟩ : other∉strict ∧ other∉chosen := by
      rwa [List.mem_append,not_or] at hno
    have hbelow : other.score≤threshold := by
      by_contra hgreater
      exact hnstrict ((hstrict other).mpr ⟨ho,not_le.mp hgreater⟩)
    rw [Scored.key,Scored.key,Prod.Lex.toLex_lt_toLex,OrderDual.toDual_lt_toDual]
    rcases List.mem_append.mp hi with hm | hm
    · exact Or.inl (hbelow.trans_lt ((hstrict item).mp hm).2)
    · have hitem := ((hties item).mp (hchosen.subset item hm)).2
      rcases hbelow.lt_or_eq with hlt | heq
      · exact Or.inl (hlt.trans_eq hitem.symm)
      · refine Or.inr ⟨by rw [hitem,heq],?_⟩
        exact hchosen.below item hm other ((hties other).mpr ⟨ho,heq⟩) hnchosen

/-- The branch through a partition selects what is asked for. -/
theorem thresholdCandidates_ok {taken : ℕ} (hn : (row.map Scored.key).Nodup)
    (hpos : 0<taken) (hlt : taken< row.length)
    (hpartition : ∀ place< row.length,
      Partitioned (row.map Scored.score) place (argpartition (row.map Scored.score) place)) :
    ∃ candidates,thresholdCandidates argpartition taken row=.ok candidates ∧
      Smallest Scored.key taken row candidates := by
  have hpart := hpartition (row.length-taken) (by omega)
  have hlength := hpart.gather_drop_length
  rw [List.length_map] at hlength
  cases hmin : (gather (row.map Scored.score) ((argpartition (row.map Scored.score)
      (row.length-taken)).drop (row.length-taken))).min? with
  | none =>
    rw [List.min?_eq_none_iff.mp hmin,List.length_nil] at hlength
    omega
  | some threshold =>
    obtain ⟨hmem,hleast⟩ := List.min?_eq_some_iff.mp hmin
    obtain ⟨hover,hon⟩ := hpart.threshold_counts hmem hleast
    rw [List.length_map,List.countP_map] at hover hon
    rw [List.countP_map] at hon
    have htaken : row.length-(row.length-taken)=taken := by omega
    rw [htaken] at hover hon
    refine ⟨_,?_,candidates_smallest hn hlt hover hon⟩
    have hkth : ¬row.length≤ row.length-taken := by omega
    rw [thresholdCandidates,raiseIf,if_neg hkth]
    simp only [bind,Except.bind,hmin]

end Threshold

section Merging

variable {argpartition : List σ → ℕ → List ℕ} {topK : ℕ}

/-- The first entries of a row in the order of their keys. -/
def best (topK : ℕ) (row : List (Scored σ)) : List (Scored σ) := (ranked Scored.key row).take topK

/-- A row is replaced by its first entries. -/
theorem selectRow_eq (hpartition : ∀ (values : List σ) place,place<values.length →
      Partitioned values place (argpartition values place))
    (hpos : 0<topK) {row : List (Scored σ)} (hn : (row.map Scored.key).Nodup) :
    selectRow argpartition topK row=.ok (best topK row) := by
  rw [selectRow,best]
  by_cases hall : min topK row.length=row.length
  · have htake : (ranked Scored.key row).take row.length=(ranked Scored.key row).take topK := by
      rw [List.take_of_length_le (by simp),List.take_of_length_le (by simp; omega)]
    rw [hall,if_pos rfl,← htake]
    rfl
  · have hfew : min topK row.length=topK := by omega
    obtain ⟨candidates,hrun,hsmallest⟩ := thresholdCandidates_ok hn hpos (by omega)
      (fun place hplace => hpartition _ place (by rwa [List.length_map]))
    have hlength := hsmallest.length_le
    rw [hfew,if_neg (by omega),hrun]
    simp only [bind,Except.bind,pure,Except.pure]
    rw [List.take_of_length_le (by simpa using hlength),hsmallest.eq_take hn]

/-- So is every row of a matrix. -/
theorem selectTopK_eq (hpartition : ∀ (values : List σ) place,place<values.length →
      Partitioned values place (argpartition values place))
    (hpos : 0<topK) {rows : List (List (Scored σ))} (hn : ∀ row∈rows,(row.map Scored.key).Nodup) :
    selectTopK argpartition topK rows=.ok (rows.map (best topK)) := by
  induction rows with
  | nil => rfl
  | cons row rows ih =>
    rw [List.forall_mem_cons] at hn
    rw [selectTopK,selectRow_eq hpartition hpos hn.1,ih hn.2]
    rfl

variable {Query Document : Type} (score : Query → Document → σ)

/-- The documents from one number on, with their ids and scores for a query. -/
def entries (query : Query) (first : ℕ) (documents : List Document) : List (Scored σ) :=
  documents.zipIdx first |>.map (fun numbered => ⟨score query numbered.1,UInt32.ofNat numbered.2⟩)

omit [LinearOrder σ] in
theorem entries_append (query : Query) (first : ℕ) (documents others : List Document) :
    entries score query first (documents++others)=
      entries score query first documents++entries score query (first+documents.length) others := by
  rw [entries,List.zipIdx_append,List.map_append,entries,entries]

omit [LinearOrder σ] in
/-- A block is scored with the ids of its documents. -/
theorem scoreBlock_eq (queries : List Query) (first : ℕ) (block : List Document) :
    scoreBlock score queries block ((List.range' first block.length).map UInt32.ofNat)=
      queries.map (fun query => entries score query first block) := by
  apply List.map_congr_left
  intro query hquery
  rw [entries,List.zipIdx_eq_zip_range',List.zip,List.map_zipWith,List.zipWith_map_right]

omit [LinearOrder σ] in
/-- Documents that 32-bit ids can tell apart have different keys. -/
theorem entries_keys (query : Query) (first : ℕ) (documents : List Document)
    (hfits : first+documents.length≤2^32) :
    ((entries score query first documents).map Scored.key).Nodup := by
  have hids : ((entries score query first documents).map Scored.key).map (fun key => (ofLex key).2)=
      List.range' first documents.length := by
    rw [← List.zipIdx_map_snd first documents,entries,List.map_map,List.map_map]
    apply List.map_congr_left
    intro numbered hnumbered
    have hlt := List.snd_lt_add_of_mem_zipIdx hnumbered
    have hsmall : numbered.2<2^32 := by omega
    exact UInt32.toNat_ofNat_of_lt' hsmall
  exact (hids▸List.nodup_range').of_map

/-- The state of the loop: the first documents are ranked, for every query. -/
def bestOf (topK : ℕ) (queries : List Query) (documents : List Document) : List (List (Scored σ)) :=
  queries.map (fun query => best topK (entries score query 0 documents))

/-- One block more. -/
theorem merge_step (hpartition : ∀ (values : List σ) place,place<values.length →
      Partitioned values place (argpartition values place))
    (hpos : 0<topK) (queries : List Query) (seen block : List Document)
    (hfits : seen.length+block.length≤2^32) :
    (do
      let chosen ← selectTopK argpartition topK (scoreBlock score queries block
        ((List.range' seen.length block.length).map UInt32.ofNat))
      selectTopK argpartition topK (List.zipWith (·++·) (bestOf score topK queries seen) chosen))=
      .ok (bestOf score topK queries (seen++block)) := by
  have hblock : ∀ row∈queries.map (fun query => entries score query seen.length block),
      (row.map Scored.key).Nodup := by
    intro row hrow
    obtain ⟨query,_,rfl⟩ := List.mem_map.mp hrow
    exact entries_keys score query _ _ hfits
  have hkeys (query : Query) : ((entries score query 0 seen++
      entries score query seen.length block).map Scored.key).Nodup := by
    have hwhole := entries_keys score query 0 (seen++block) (by rw [List.length_append]; omega)
    rwa [entries_append,Nat.zero_add] at hwhole
  have hrows : List.zipWith (·++·) (bestOf score topK queries seen)
      ((queries.map (fun query => entries score query seen.length block)).map (best topK))=
      queries.map (fun query => best topK (entries score query 0 seen)++
        best topK (entries score query seen.length block)) := by
    rw [bestOf,List.map_map,List.zipWith_map,List.zipWith_self]
    rfl
  have hmerged : ∀ row∈queries.map (fun query => best topK (entries score query 0 seen)++
      best topK (entries score query seen.length block)),(row.map Scored.key).Nodup := by
    intro row hrow
    obtain ⟨query,_,rfl⟩ := List.mem_map.mp hrow
    exact ranked_take_append_keys topK (hkeys query)
  rw [scoreBlock_eq,selectTopK_eq hpartition hpos hblock]
  simp only [bind,Except.bind]
  rw [hrows,selectTopK_eq hpartition hpos hmerged,bestOf,List.map_map]
  congr 1
  apply List.map_congr_left
  intro query hquery
  rw [entries_append,Nat.zero_add]
  exact ranked_take_append topK (hkeys query)

/-- The loop ranks the whole corpus. -/
theorem mergeBlocks_eq (hpartition : ∀ (values : List σ) place,place<values.length →
      Partitioned values place (argpartition values place))
    (hpos : 0<topK) (queries : List Query) {corpus : List Document} (hfits : corpus.length≤2^32)
    {corpusBlockRows : ℕ} (hrows : 0<corpusBlockRows) (first : ℕ) :
    mergeBlocks argpartition score queries corpus topK corpusBlockRows hrows first
      (bestOf score topK queries (corpus.take first))=.ok (bestOf score topK queries corpus) := by
  induction hleft : corpus.length-first using Nat.strongRecOn generalizing first with
  | ind left ih =>
    rw [mergeBlocks]
    by_cases hfirst : first<corpus.length
    · have hrange : ¬(first< min corpus.length (first+corpusBlockRows) ∧ 2^32≤first) := by omega
      have hseen : (corpus.take first).length=first := by
        rw [List.length_take]
        omega
      have hblock : ((corpus.drop first).take
          (min corpus.length (first+corpusBlockRows)-first)).length=
          min corpus.length (first+corpusBlockRows)-first := by
        rw [List.length_take,List.length_drop]
        omega
      have hstep := merge_step score hpartition hpos queries (corpus.take first)
        ((corpus.drop first).take (min corpus.length (first+corpusBlockRows)-first))
        (by rw [hseen,hblock]; omega)
      rw [hseen,hblock] at hstep
      obtain ⟨chosen,hchosen,hmerged⟩ := (bind_eq_ok _ _ _).mp hstep
      have hids : arange first (min corpus.length (first+corpusBlockRows))=
          .ok ((List.range' first (min corpus.length (first+corpusBlockRows)-first)).map
            UInt32.ofNat) := by
        rw [arange,raiseIf,if_neg hrange]
        rfl
      have hnext : corpus.take first++
          (corpus.drop first).take (min corpus.length (first+corpusBlockRows)-first)=
          corpus.take (first+corpusBlockRows) := by
        rw [← List.take_add,List.take_eq_take_iff]
        omega
      rw [hnext] at hmerged
      rw [dif_pos hfirst]
      simp only [bind,Except.bind,hids,hchosen,hmerged]
      exact ih _ (by omega) _ rfl
    · rw [dif_neg hfirst,List.take_of_length_le (by omega)]
      rfl

/-- Sorting all indices is one way to partition them at any place. -/
def argsort (values : List σ) (_place : ℕ) : List ℕ :=
  (ranked (fun numbered : σ×ℕ => numbered.1) values.zipIdx).map (fun numbered => numbered.2)

theorem argsort_partitioned (values : List σ) (place : ℕ) :
    Partitioned values place (argsort values place) where
  perm := by
    have hp : (ranked (fun numbered : σ×ℕ => numbered.1) values.zipIdx).Perm values.zipIdx :=
      ranked_perm _
    have hindices := hp.map Prod.snd
    rw [List.zipIdx_map_snd,← List.range_eq_range'] at hindices
    exact hindices
  split low hlow high hhigh small hsmall great hgreat := by
    rw [argsort,← List.map_take] at hlow
    rw [argsort,← List.map_drop] at hhigh
    obtain ⟨first,hfirst,rfl⟩ := List.mem_map.mp hlow
    obtain ⟨second,hsecond,rfl⟩ := List.mem_map.mp hhigh
    have hsorted : (ranked (fun numbered : σ×ℕ => numbered.1) values.zipIdx).Pairwise
        (fun first second => first.1≤ second.1) := ranked_pairwise _
    rw [← List.take_append_drop place (ranked _ _)] at hsorted
    have hle := (List.pairwise_append.mp hsorted).2.2 first hfirst second hsecond
    have hvalue {numbered : σ×ℕ} (hm : numbered∈ranked (fun numbered : σ×ℕ => numbered.1) values.zipIdx) :
        values[numbered.2]?=some numbered.1 :=
      List.mk_mem_zipIdx_iff_getElem?.mp (mem_ranked.mp hm)
    rw [hvalue (List.mem_of_mem_take hfirst)] at hsmall
    rw [hvalue (List.mem_of_mem_drop hsecond)] at hgreat
    cases hsmall
    cases hgreat
    exact hle

/-- Every query gets the first documents in order of their scores, highest
first and lowest id first among equals, wherever the corpus is cut. -/
theorem exactTopKBlock_eq_global (hpartition : ∀ (values : List σ) place,place<values.length →
      Partitioned values place (argpartition values place))
    (queries : List Query) (corpus : List Document) (topK corpusBlockRows : ℕ)
    (hfits : corpus.length≤2^32) (hpos : 0<topK) (hle : topK≤ corpus.length)
    (hrows : 0<corpusBlockRows) :
    exactTopKBlock argpartition score queries corpus topK corpusBlockRows=
      .ok (queries.map (fun query => (best topK (entries score query 0 corpus)).map Scored.id)) ∧
    ∀ query∈queries,((best topK (entries score query 0 corpus)).map Scored.id).length=topK := by
  constructor
  · have hstart : queries.map (fun _ => [])=bestOf score topK queries (corpus.take 0) := by
      rw [bestOf]
      apply List.map_congr_left
      intro query hquery
      rw [List.take_zero]
      exact List.take_nil.symm
    rw [exactTopKBlock,dif_pos hrows,hstart,mergeBlocks_eq score hpartition hpos queries hfits hrows]
    simp only [bind,Except.bind,pure,Except.pure,bestOf,List.map_map]
    rfl
  · intro query hquery
    rw [List.length_map,best,List.length_take,ranked_length,entries,List.length_map,
      List.length_zipIdx]
    omega

/-- Ties across blocks of two are resolved by id. -/
theorem exactTopKBlock_eq_global_ties :
    exactTopKBlock argsort (fun query document => query*document) [1,0] [3,5,5,1,5] 3 2=
      .ok [[1,2,4],[0,1,2]] :=
  (exactTopKBlock_eq_global (fun query document : ℕ => query*document)
    (fun values place _ => argsort_partitioned values place) [1,0] [3,5,5,1,5] 3 2
    (by decide) (by decide) (by decide) (by decide)).1.trans (by decide)

end Merging

end Leann.BlockwiseTopK
