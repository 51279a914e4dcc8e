import Mathlib.Data.List.Basic

/-!
# Words between separators

A text is cut into words at separators, of which any number may stand
between two words and at the ends. The words of a text are those of its
parts wherever it is cut at a separator, and they do not depend on how the
symbols are represented.
-/

namespace Leann.Words

variable {α β : Type} (space : α → Bool)

/-- The words of a text, behind the symbols of a word already taken. -/
def words (word : List α) : List α → List (List α)
  | [] => if word.isEmpty then [] else [word]
  | symbol::rest =>
    if space symbol then (if word.isEmpty then [] else [word])++words [] rest
    else words (word++[symbol]) rest

variable {space}

/-- A separator ends a word. -/
theorem words_append (word first : List α) {separator : α} (h : space separator=true)
    (second : List α) :
    words space word (first++separator::second)=words space word first++words space [] second := by
  induction first generalizing word with
  | nil => rw [List.nil_append,words.eq_2,if_pos h,words.eq_1]
  | cons symbol first ih =>
    rw [List.cons_append,words,words]
    by_cases hs : space symbol=true
    · rw [if_pos hs,if_pos hs,ih,List.append_assoc]
    · rw [if_neg hs,if_neg hs,ih]

/-- Separators at the front do not matter. -/
theorem words_space {separator : α} (h : space separator=true) (rest : List α) :
    words space [] (separator::rest)=words space [] rest :=
  words_append [] [] h rest

/-- Symbols that are no separators belong to the word. -/
theorem words_symbols {symbols : List α} (h : ∀ symbol∈symbols,space symbol=false) (word rest : List α) :
    words space word (symbols++rest)=words space (word++symbols) rest := by
  induction symbols generalizing word with
  | nil => rw [List.nil_append,List.append_nil]
  | cons symbol symbols ih =>
    rw [List.forall_mem_cons] at h
    rw [List.cons_append,words,if_neg (by rw [h.1]; exact Bool.false_ne_true),ih h.2,List.append_assoc]
    rfl

/-- A word is its only word. -/
theorem words_word {word : List α} (h : ∀ symbol∈word,space symbol=false) (hne : word≠[]) :
    words space [] word=[word] := by
  have hall : words space [] (word++[])=words space ([]++word) [] := words_symbols h [] []
  rw [List.append_nil,List.nil_append] at hall
  rw [hall,words,if_neg (by rwa [List.isEmpty_iff])]

/-- Separators alone are no words. -/
theorem words_spaces {separators : List α} (h : ∀ symbol∈separators,space symbol=true) :
    words space [] separators=[] := by
  induction separators with
  | nil => rfl
  | cons separator separators ih =>
    rw [List.forall_mem_cons] at h
    rw [words_space h.1,ih h.2]

/-- Every symbol is a separator or belongs to a word. -/
theorem mem_words_of_mem (word : List α) {text : List α} {symbol : α} (hm : symbol∈text)
    (h : space symbol=false) : ∃ found∈words space word text,symbol∈found := by
  have hkeep : ∀ (rest word : List α),symbol∈word → ∃ found∈words space word rest,symbol∈found := by
    intro rest
    induction rest with
    | nil =>
      intro word hw
      rw [words,if_neg (by rw [List.isEmpty_iff]; exact List.ne_nil_of_mem hw)]
      exact ⟨word,List.mem_singleton.mpr rfl,hw⟩
    | cons other rest ih =>
      intro word hw
      rw [words]
      split
      · rw [if_neg (by rw [List.isEmpty_iff]; exact List.ne_nil_of_mem hw)]
        exact ⟨word,List.mem_append_left _ (List.mem_singleton.mpr rfl),hw⟩
      · exact ih (word++[other]) (List.mem_append_left _ hw)
  induction text generalizing word with
  | nil => exact absurd hm List.not_mem_nil
  | cons other text ih =>
    rw [words]
    rcases List.mem_cons.mp hm with he|hm
    · rw [←he,if_neg (by rw [h]; exact Bool.false_ne_true)]
      exact hkeep text _ (List.mem_append_right _ (List.mem_singleton.mpr rfl))
    · split
      · obtain ⟨found,hf,hs⟩ := ih [] hm
        exact ⟨found,List.mem_append_right _ hf,hs⟩
      · exact ih (word++[other]) hm

/-- A text without words is all separators. -/
theorem spaces_of_words {text : List α} (h : words space [] text=[]) :
    ∀ symbol∈text,space symbol=true := by
  intro symbol hm
  by_contra hs
  obtain ⟨found,hf,-⟩ := mem_words_of_mem [] hm (Bool.eq_false_iff.mpr hs)
  rw [h] at hf
  cases hf

/-- A word has a symbol, and none of its symbols is a separator. -/
theorem mem_words {word text found : List α} (hw : ∀ symbol∈word,space symbol=false)
    (hf : found∈words space word text) : found≠[] ∧ ∀ symbol∈found,space symbol=false := by
  have hend : ∀ {word : List α},(∀ symbol∈word,space symbol=false) →
      found∈(if word.isEmpty then [] else [word]) →
        found≠[] ∧ ∀ symbol∈found,space symbol=false := by
    intro word hw hf
    split at hf
    · cases hf
    · rename_i hne
      rw [List.mem_singleton.mp hf]
      exact ⟨by rwa [List.isEmpty_iff] at hne,hw⟩
  induction text generalizing word with
  | nil => exact hend hw hf
  | cons symbol text ih =>
    rw [words] at hf
    by_cases hs : space symbol=true
    · rw [if_pos hs] at hf
      rcases List.mem_append.mp hf with hf|hf
      · exact hend hw hf
      · exact ih (fun _ h => absurd h List.not_mem_nil) hf
    · rw [if_neg hs] at hf
      refine ih (fun other ho => ?_) hf
      rcases List.mem_append.mp ho with ho|ho
      · exact hw other ho
      · rw [List.mem_singleton.mp ho]
        exact Bool.eq_false_iff.mpr hs

/-- The symbols of a word stand in the text. -/
theorem mem_of_mem_words {word text found : List α} (hf : found∈words space word text) {symbol : α}
    (hs : symbol∈found) : symbol∈word ∨ symbol∈text := by
  have hend : ∀ {word : List α},found∈(if word.isEmpty then [] else [word]) → symbol∈word := by
    intro word hw
    split at hw
    · cases hw
    · rwa [←List.mem_singleton.mp hw]
  induction text generalizing word with
  | nil => exact Or.inl (hend hf)
  | cons other text ih =>
    rw [words] at hf
    split at hf
    · rcases List.mem_append.mp hf with hf|hf
      · exact Or.inl (hend hf)
      · exact Or.inr (List.mem_cons_of_mem _ ((ih hf).resolve_left List.not_mem_nil))
    · rcases ih hf with hw|ht
      · rcases List.mem_append.mp hw with hw|hw
        · exact Or.inl hw
        · rw [List.mem_singleton.mp hw]
          exact Or.inr List.mem_cons_self
      · exact Or.inr (List.mem_cons_of_mem _ ht)

/-- Words in another representation of the symbols. -/
theorem words_map {space' : β → Bool} {f : α → β} {word text : List α}
    (h : ∀ symbol∈text,space' (f symbol)=space symbol) :
    words space' (word.map f) (text.map f)=(words space word text).map (List.map f) := by
  have hend : ∀ word : List α,(if (word.map f).isEmpty then [] else [word.map f])=
      (if word.isEmpty then [] else [word]).map (List.map f) := by
    intro word
    cases word <;> rfl
  induction text generalizing word with
  | nil => exact hend word
  | cons symbol text ih =>
    rw [List.forall_mem_cons] at h
    rw [List.map_cons,words,words,h.1]
    by_cases hs : space symbol=true
    · have hrest : words space' ([].map f) (text.map f)=(words space [] text).map (List.map f) := ih h.2
      rw [List.map_nil] at hrest
      rw [if_pos hs,if_pos hs,List.map_append,hend,hrest]
    · have hmore : word.map f++[f symbol]=(word++[symbol]).map f := by rw [List.map_append]; rfl
      rw [if_neg hs,if_neg hs,hmore,ih h.2]

/-- Words that are joined by a separator. -/
theorem words_intercalate {separator : α} (hs : space separator=true) {items : List (List α)}
    (h : ∀ item∈items,item≠[] ∧ ∀ symbol∈item,space symbol=false) :
    words space [] (List.intercalate [separator] items)=items := by
  induction items with
  | nil => rfl
  | cons item items ih =>
    rw [List.forall_mem_cons] at h
    cases items with
    | nil =>
      rw [List.intercalate_singleton]
      exact words_word h.1.2 h.1.1
    | cons next items =>
      rw [List.intercalate_cons_cons,List.append_assoc]
      change words space [] (item++separator::List.intercalate [separator] (next::items))=_
      rw [words_append [] item hs,words_word h.1.2 h.1.1,ih h.2]
      rfl

/-- Words of the same length are told apart by their symbols in a row. -/
theorem eq_of_flatten_eq {rows rows' : List (List α)} {width : ℕ} (hpos : 0<width)
    (h : ∀ row∈rows,row.length=width) (h' : ∀ row∈rows',row.length=width)
    (he : rows.flatten=rows'.flatten) : rows=rows' := by
  have hnil : ∀ {rest : List (List α)},(∀ row∈rest,row.length=width) → rest.flatten=[] → rest=[] := by
    intro rest hr hflat
    cases rest with
    | nil => rfl
    | cons row rest =>
      rw [List.flatten_cons,List.append_eq_nil_iff] at hflat
      have hlength := hr row List.mem_cons_self
      rw [hflat.1,List.length_nil] at hlength
      omega
  induction rows generalizing rows' with
  | nil => exact (hnil h' he.symm).symm
  | cons row rows ih =>
    cases rows' with
    | nil => exact hnil h he
    | cons row' rows' =>
      rw [List.forall_mem_cons] at h h'
      rw [List.flatten_cons,List.flatten_cons] at he
      obtain ⟨hrow,hrest⟩ := List.append_inj he (h.1.trans h'.1.symm)
      rw [hrow,ih h.2 h'.2 hrest]

end Leann.Words
