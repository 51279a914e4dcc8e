import Mathlib.Algebra.Order.Ring.Rat
import Mathlib.Data.List.Nodup

/-!
# Values that are written as JSON and read back

The values of Python that its JSON writer takes, the equality of Python on
them, and what the JSON reader makes of a written value: a tuple is read back
as a list, and a key of any type as a string. A value survives when it is
equal to what is read back of it.
-/

namespace Leann.PythonValues

section Exceptions

variable {ε : Type}

/-- Raise an exception when a condition holds. -/
def raiseWhen (condition : Prop) [Decidable condition] (failure : ε) : Except ε Unit :=
  if condition then .error failure else .ok ()

/-- A check passes exactly when its condition fails. -/
theorem raiseWhen_ok (condition : Prop) [Decidable condition] (failure : ε) (value : Unit) :
    raiseWhen condition failure=.ok value ↔ ¬condition := by
  unfold raiseWhen
  split <;> simp_all

/-- It raises its own exception only. -/
theorem raiseWhen_error (condition : Prop) [Decidable condition] (failure raised : ε) :
    raiseWhen condition failure=.error raised ↔ condition ∧ failure=raised := by
  unfold raiseWhen
  split <;> simp_all

end Exceptions

section Definitions

/-- A value without parts. -/
inductive Scalar where
  /-- `None`. -/
  | none
  /-- `True` and `False`. -/
  | flag (value : Bool)
  /-- An `int`. -/
  | int (value : ℤ)
  /-- A finite `float`, with what `repr` writes of it. -/
  | float (value : ℚ) (written : List Char)
  /-- An infinite `float`. -/
  | infinity (negative : Bool)
  /-- A `float` that is no number. The JSON reader has one such object. -/
  | nan (ofReader : Bool)
  /-- A `str`. -/
  | text (characters : List Char)
  deriving DecidableEq

/-- A value that the JSON writer takes. The entries of a `dict` are in no
particular order. -/
inductive Value where
  /-- A value without parts. -/
  | scalar (value : Scalar)
  /-- A `list`. -/
  | list (items : List Value)
  /-- A `tuple`. -/
  | tuple (items : List Value)
  /-- A `dict`. -/
  | dict (entries : List (Scalar×Value))

/-- The number that a flag or a number stands for. -/
def Scalar.number : Scalar → Option ℚ
  | .flag value => some value.toNat
  | .int value => some value
  | .float value _ => some value
  | _ => Option.none

/-- The comparison of two values inside others, which takes an object for equal
to itself. Two objects that are no numbers are never one, unless both come
from the JSON reader. -/
def Scalar.same : Scalar → Scalar → Bool
  | .none,.none => true
  | .infinity negative,.infinity negative' => negative=negative'
  | .nan ofReader,.nan ofReader' => ofReader && ofReader'
  | .text characters,.text characters' => characters=characters'
  | first,second =>
    match first.number,second.number with
    | some number,some number' => number=number'
    | _,_ => false

mutual

/-- The comparison of two values. -/
def Value.same : Value → Value → Bool
  | .scalar first,.scalar second => first.same second
  | .list first,.list second => sameItems first second
  | .tuple first,.tuple second => sameItems first second
  | .dict first,.dict second => decide (first.length=second.length) && sameEntries first second
  | _,_ => false

/-- The comparison of the items of two lists or tuples. -/
def sameItems : List Value → List Value → Bool
  | [],[] => true
  | first::firsts,second::seconds => first.same second && sameItems firsts seconds
  | _,_ => false

/-- Every entry has an equal one among some others. -/
def sameEntries : List (Scalar×Value) → List (Scalar×Value) → Bool
  | [],_ => true
  | first::firsts,seconds =>
    seconds.any (fun second => first.1.same second.1 && first.2.same second.2) &&
      sameEntries firsts seconds

end

/-- What the JSON writer writes for a key. -/
def Scalar.keyText : Scalar → List Char
  | .none => "null".toList
  | .flag value => (if value then "true" else "false").toList
  | .int value => (toString value).toList
  | .float _ written => written
  | .infinity negative => (if negative then "-Infinity" else "Infinity").toList
  | .nan _ => "NaN".toList
  | .text characters => characters

/-- What the JSON reader makes of a written value without parts. -/
def Scalar.reload : Scalar → Scalar
  | .nan _ => .nan true
  | value => value

mutual

/-- What the JSON reader makes of a written value. -/
def Value.reload : Value → Value
  | .scalar value => .scalar value.reload
  | .list items => .list (reloadItems items)
  | .tuple items => .list (reloadItems items)
  | .dict entries => .dict (reloadEntries entries)

/-- What it makes of the items of a list or a tuple. -/
def reloadItems : List Value → List Value
  | [] => []
  | item::items => item.reload::reloadItems items

/-- What it makes of the entries of a `dict`. -/
def reloadEntries : List (Scalar×Value) → List (Scalar×Value)
  | [] => []
  | entry::entries => (.text entry.1.keyText,entry.2.reload)::reloadEntries entries

end

/-- A value without parts that is equal to what is read back of it. -/
def Scalar.survives : Scalar → Bool
  | .nan ofReader => ofReader
  | _ => true

/-- A key that is read back as it is. -/
def Scalar.isText : Scalar → Bool
  | .text _ => true
  | _ => false

mutual

/-- No tuple, no key but strings, and no number that is none but that of the
reader. -/
def Value.survives : Value → Bool
  | .scalar value => value.survives
  | .list items => surviveItems items
  | .tuple _ => false
  | .dict entries => surviveEntries entries

/-- All items survive. -/
def surviveItems : List Value → Bool
  | [] => true
  | item::items => item.survives && surviveItems items

/-- All entries survive. -/
def surviveEntries : List (Scalar×Value) → Bool
  | [] => true
  | entry::entries => entry.1.isText && entry.2.survives && surviveEntries entries

end

/-- A key that is compared as a number. -/
def Scalar.isNumber : Scalar → Bool
  | .none => false
  | .text _ => false
  | _ => true

/-- The keys can be sorted: they are strings, or numbers, or there is one only. -/
def sortable (keys : List Scalar) : Bool :=
  keys.all Scalar.isText || keys.all Scalar.isNumber || decide (keys.length=1)

mutual

/-- The JSON writer takes a value, with its keys sorted. -/
def Value.serialisable : Value → Bool
  | .scalar _ => true
  | .list items => serialisableItems items
  | .tuple items => serialisableItems items
  | .dict entries => sortable (entries.map Prod.fst) && serialisableEntries entries

/-- It takes all items. -/
def serialisableItems : List Value → Bool
  | [] => true
  | item::items => item.serialisable && serialisableItems items

/-- It takes all entries. -/
def serialisableEntries : List (Scalar×Value) → Bool
  | [] => true
  | entry::entries => entry.2.serialisable && serialisableEntries entries

end

mutual

/-- No `dict` has a key twice. -/
def Value.distinct : Value → Bool
  | .scalar _ => true
  | .list items => distinctItems items
  | .tuple items => distinctItems items
  | .dict entries => decide (entries.map Prod.fst).Nodup && distinctEntries entries

/-- So in all items. -/
def distinctItems : List Value → Bool
  | [] => true
  | item::items => item.distinct && distinctItems items

/-- So in all entries. -/
def distinctEntries : List (Scalar×Value) → Bool
  | [] => true
  | entry::entries => entry.2.distinct && distinctEntries entries

end

end Definitions

section Reading

/-- What is read back of a value without parts is equal to it when it survives. -/
theorem Scalar.same_reload {value : Scalar} : value.reload.same value=value.survives := by
  cases value with
  | none => rfl
  | flag value => exact decide_eq_true rfl
  | int value => exact decide_eq_true rfl
  | float value written => exact decide_eq_true rfl
  | infinity negative => exact decide_eq_true rfl
  | nan ofReader => rfl
  | text characters => exact decide_eq_true rfl

/-- A value without parts is read back in one way only. -/
theorem Scalar.reload_reload (value : Scalar) : value.reload.reload=value.reload := by
  cases value <;> rfl

mutual

/-- Reading back what was read back changes nothing. -/
theorem Value.reload_reload : ∀ value : Value,value.reload.reload=value.reload
  | .scalar value => by rw [Value.reload,Value.reload,Scalar.reload_reload]
  | .list items => by rw [Value.reload,Value.reload,reload_reloadItems items]
  | .tuple items => by rw [Value.reload,Value.reload,reload_reloadItems items]
  | .dict entries => by rw [Value.reload,Value.reload,reload_reloadEntries entries]

/-- So for items. -/
theorem reload_reloadItems : ∀ items : List Value,reloadItems (reloadItems items)=reloadItems items
  | [] => rfl
  | item::items => by
    rw [reloadItems,reloadItems,Value.reload_reload item,reload_reloadItems items]

/-- So for entries. -/
theorem reload_reloadEntries : ∀ entries : List (Scalar×Value),
    reloadEntries (reloadEntries entries)=reloadEntries entries
  | [] => rfl
  | entry::entries => by
    rw [reloadEntries,reloadEntries,Value.reload_reload entry.2,reload_reloadEntries entries]
    rfl

end

/-- No entry is lost. -/
theorem length_reloadEntries (entries : List (Scalar×Value)) :
    (reloadEntries entries).length=entries.length := by
  induction entries with
  | nil => rfl
  | cons entry entries ih => rw [reloadEntries,List.length_cons,List.length_cons,ih]

mutual

/-- A value that survives is equal to what is read back of it. -/
theorem Value.same_of_survives : ∀ value : Value,value.survives=true → value.reload.same value=true
  | .scalar value,h => Scalar.same_reload.trans h
  | .list items,h => same_of_surviveItems items h
  | .tuple _,h => Bool.noConfusion h
  | .dict entries,h => by
    rw [Value.reload,Value.same,length_reloadEntries,
      same_of_surviveEntries entries entries h (fun _ hm => hm),Bool.and_true]
    exact decide_eq_true rfl

/-- So for items. -/
theorem same_of_surviveItems : ∀ items : List Value,surviveItems items=true →
    sameItems (reloadItems items) items=true
  | [],_ => rfl
  | item::items,h => by
    rw [surviveItems,Bool.and_eq_true] at h
    rw [reloadItems,sameItems,Value.same_of_survives item h.1,same_of_surviveItems items h.2]
    rfl

/-- So for entries, which are found among all. -/
theorem same_of_surviveEntries : ∀ entries all : List (Scalar×Value),surviveEntries entries=true →
    entries⊆all → sameEntries (reloadEntries entries) all=true
  | [],_,_,_ => rfl
  | entry::entries,all,h,hall => by
    rw [surviveEntries,Bool.and_eq_true,Bool.and_eq_true] at h
    rw [reloadEntries,sameEntries,same_of_surviveEntries entries all h.2
      (fun _ hm => hall (List.mem_cons_of_mem _ hm)),Bool.and_true,List.any_eq_true]
    refine ⟨entry,hall List.mem_cons_self,?_⟩
    rw [Value.same_of_survives entry.2 h.1.2,Bool.and_true]
    obtain ⟨key,value⟩ := entry
    cases key with
    | text characters => exact decide_eq_true rfl
    | _ => exact Bool.noConfusion h.1.1

end

/-- A string is equal to itself only. -/
theorem Scalar.eq_of_same_text {characters : List Char} {key : Scalar}
    (h : (Scalar.text characters).same key=true) : key=.text characters := by
  cases key with
  | text other => exact congrArg Scalar.text (of_decide_eq_true h).symm
  | _ => exact Bool.noConfusion h

/-- A string is sorted among strings only. -/
theorem isText_of_sortable {keys : List Scalar} (h : sortable keys=true) {characters : List Char}
    (hm : .text characters∈keys) : ∀ key∈keys,key.isText=true := by
  rw [sortable,Bool.or_eq_true,Bool.or_eq_true,List.all_eq_true,List.all_eq_true] at h
  rcases h with (h|h)|h
  · exact h
  · exact Bool.noConfusion (h _ hm)
  · obtain ⟨only,honly⟩ := List.length_eq_one_iff.mp (of_decide_eq_true h)
    rw [honly] at hm ⊢
    intro key hk
    rw [List.mem_singleton.mp hk,←List.mem_singleton.mp hm]
    rfl

/-- An entry is the only one with its key. -/
theorem eq_of_key_eq {entries : List (Scalar×Value)} (h : (entries.map Prod.fst).Nodup)
    {first second : Scalar×Value} (hf : first∈entries) (hs : second∈entries) (he : first.1=second.1) :
    first=second :=
  List.inj_on_of_nodup_map h hf hs he

mutual

/-- A value that is equal to what is read back of it survives. -/
theorem Value.survives_of_same : ∀ value : Value,value.serialisable=true → value.distinct=true →
    value.reload.same value=true → value.survives=true
  | .scalar value,_,_,h => Scalar.same_reload.symm.trans h
  | .list items,hs,hd,h => surviveItems_of_same items hs hd h
  | .tuple _,_,_,h => Bool.noConfusion h
  | .dict entries,hs,hd,h => by
    rw [Value.serialisable,Bool.and_eq_true] at hs
    rw [Value.distinct,Bool.and_eq_true] at hd
    rw [Value.reload,Value.same,Bool.and_eq_true] at h
    exact surviveEntries_of_same entries entries (fun _ hm => hm) hs.1 (of_decide_eq_true hd.1) hs.2 hd.2
      h.2

/-- So for items. -/
theorem surviveItems_of_same : ∀ items : List Value,serialisableItems items=true →
    distinctItems items=true → sameItems (reloadItems items) items=true → surviveItems items=true
  | [],_,_,_ => rfl
  | item::items,hs,hd,h => by
    rw [serialisableItems,Bool.and_eq_true] at hs
    rw [distinctItems,Bool.and_eq_true] at hd
    rw [reloadItems,sameItems,Bool.and_eq_true] at h
    rw [surviveItems,Value.survives_of_same item hs.1 hd.1 h.1,surviveItems_of_same items hs.2 hd.2 h.2]
    rfl

/-- So for entries among all. -/
theorem surviveEntries_of_same : ∀ entries all : List (Scalar×Value),entries⊆all →
    sortable (all.map Prod.fst)=true → (all.map Prod.fst).Nodup → serialisableEntries entries=true →
    distinctEntries entries=true → sameEntries (reloadEntries entries) all=true →
    surviveEntries entries=true
  | [],_,_,_,_,_,_,_ => rfl
  | entry::entries,all,hall,hsort,hnodup,hs,hd,h => by
    rw [serialisableEntries,Bool.and_eq_true] at hs
    rw [distinctEntries,Bool.and_eq_true] at hd
    rw [reloadEntries,sameEntries,Bool.and_eq_true,List.any_eq_true] at h
    obtain ⟨⟨found,hf,hfound⟩,hrest⟩ := h
    rw [Bool.and_eq_true] at hfound
    have hkey := Scalar.eq_of_same_text hfound.1
    have hentry : entry∈all := hall List.mem_cons_self
    have htext : entry.1.isText=true :=
      isText_of_sortable hsort (List.mem_map.mpr ⟨found,hf,hkey⟩) _ (List.mem_map_of_mem hentry)
    have hsame : found=entry := by
      refine eq_of_key_eq hnodup hf hentry ?_
      rw [hkey]
      cases hk : entry.1 with
      | text characters => rfl
      | _ =>
        rw [hk] at htext
        cases htext
    have hvalue := hfound.2
    rw [hsame] at hvalue
    rw [surviveEntries,htext,Value.survives_of_same entry.2 hs.1 hd.1 hvalue,
      surviveEntries_of_same entries all (fun _ hm => hall (List.mem_cons_of_mem _ hm)) hsort hnodup hs.2
        hd.2 hrest]
    rfl

end

end Reading

end Leann.PythonValues
