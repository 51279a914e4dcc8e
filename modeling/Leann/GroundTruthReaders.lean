import Leann.GroundTruth
import Mathlib.Data.List.TakeWhile

/-!
# The two readers of ground truth

Both readers take the words of a file in a row. What the native one accepts
has only ASCII digits in its words, so the scripts cut and read the same
words; the encoded width then groups them into the same rows.
-/

namespace Leann.GroundTruth

open Exceptions Lines LockOwner Words

section Bytes

/-- A line that was read, and what is left. -/
theorem getline_some {line input : Text} {result : Text×Text} (h : getline line input=some result) :
    line++input=result.1++lineFeed::result.2 ∨ line++input=result.1 ∧ result.2=[] := by
  induction input generalizing line with
  | nil =>
    rw [getline] at h
    split at h
    · cases h
    · rw [←Option.some.inj h,List.append_nil]
      exact Or.inr ⟨rfl,rfl⟩
  | cons byte input ih =>
    rw [getline] at h
    split at h
    · rename_i hbyte
      rw [←Option.some.inj h,hbyte]
      exact Or.inl rfl
    · have hrest := ih h
      rwa [List.append_assoc] at hrest

/-- Nothing is left to be read. -/
theorem getline_none {line input : Text} (h : getline line input=none) : line++input=[] := by
  induction input generalizing line with
  | nil =>
    rw [getline] at h
    split at h
    · rename_i hempty
      rw [List.append_nil]
      exact List.isEmpty_iff.mp hempty
    · cases h
  | cons byte input ih =>
    rw [getline] at h
    split at h
    · cases h
    · have hrest := ih h
      rwa [List.append_assoc] at hrest

/-- Induction along the lines of a file. -/
theorem getlines_induction {motive : Text → Prop} (ended : motive [])
    (last : ∀ line : Text,getlines line=[line] → motive line)
    (line : ∀ line input : Text,getlines (line++lineFeed::input)=line::getlines input → motive input →
      motive (line++lineFeed::input)) (input : Text) : motive input := by
  induction hn : input.length using Nat.strong_induction_on generalizing input with
  | h n ih =>
    cases h : getline [] input with
    | none =>
      have hnil : []++input=[] := getline_none h
      rw [List.nil_append] at hnil
      exact hnil ▸ ended
    | some result =>
      have hlines : getlines input=result.1::getlines result.2 := by rw [getlines,h]
      have hlt := getline_length h
      rw [hn,List.length_nil,Nat.add_zero] at hlt
      rcases getline_some h with hfeed|hlast
      · rw [List.nil_append] at hfeed
        rw [hfeed] at hlines ⊢
        exact line _ _ hlines (ih _ hlt _ rfl)
      · obtain ⟨hall,hempty⟩ := hlast
        rw [List.nil_append] at hall
        have hend : getlines []=[] := by rw [getlines,getline]; rfl
        rw [hempty,hend,←hall] at hlines
        exact last input hlines

/-- The words of the lines are the words of the file. -/
theorem getlines_words (bytes : Text) :
    (getlines bytes).flatMap (words isCSpace [])=words isCSpace [] bytes := by
  induction bytes using getlines_induction with
  | ended =>
    have hend : getlines []=[] := by rw [getlines,getline]; rfl
    rw [hend]
    rfl
  | last line hlines => rw [hlines,List.flatMap_singleton]
  | line line input hlines ih =>
    rw [hlines,List.flatMap_cons,ih,words_append [] line (by decide)]

/-- A blank line has no words. -/
theorem words_blank {line : Text} (h : blank line=true) : words isCSpace [] line=[] := by
  refine words_spaces (fun byte hb => ?_)
  have hone := List.all_eq_true.mp h byte hb
  simp only [Bool.or_eq_true,decide_eq_true_eq] at hone
  rcases hone with hone|hone
  · rcases hone with hone|hone <;> rw [hone] <;> decide
  · rw [hone]
    decide

/-- Leaving out blank lines leaves out no words. -/
theorem flatMap_words_nonblank (lines : List Text) :
    (lines.filter (fun line => !blank line)).flatMap (words isCSpace [])=
      lines.flatMap (words isCSpace []) := by
  induction lines with
  | nil => rfl
  | cons line lines ih =>
    rw [List.flatMap_cons,List.filter_cons]
    cases hb : blank line with
    | true => rw [words_blank hb,List.nil_append]; exact ih
    | false => exact congrArg (words isCSpace [] line++·) ih

end Bytes

section Native

/-- The words of a row are its numbers. -/
structure RowOf (encodedK expectedCorpusSize : ℕ) (line : Text) (row : List UInt32) : Prop where
  /-- Every word is the number that stands there. -/
  words_eq : (words isCSpace [] line).map parseUnsigned=row.map (fun identifier => some identifier.toNat)
  /-- No number stands twice in a row. -/
  nodup : row.Nodup
  /-- The numbers are those of documents. -/
  below : ∀ identifier∈row,identifier.toNat<expectedCorpusSize
  /-- There are as many as the header says. -/
  length_eq : row.length=encodedK

/-- Every item of the first list has a partner. -/
theorem exists_of_forall₂ {α β : Type} {related : α → β → Prop} {first : List α} {second : List β}
    (h : List.Forall₂ related first second) {item : α} (hi : item∈first) : ∃ partner,related item partner := by
  induction h with
  | nil => cases hi
  | cons hone _ ih =>
    rcases List.mem_cons.mp hi with he|hrest
    · exact ⟨_,he ▸ hone⟩
    · exact ih hrest

/-- A number is read. -/
theorem parseDecimal_ok (token description : Text) (value : ℕ) :
    parseDecimal token description=.ok value ↔ parseUnsigned token=some value := by
  unfold parseDecimal
  cases parseUnsigned token with
  | none => exact iff_of_false (nomatch ·) (nomatch ·)
  | some found => exact (Except.ok.injEq _ _).to_iff.trans (Option.some.injEq _ _).to_iff.symm

/-- One more number. -/
theorem loadId_ok (expectedCorpusSize : ℕ) (row result : List UInt32) (token : Text) :
    loadId expectedCorpusSize row token=.ok result ↔ ∃ identifier,
      parseUnsigned token=some identifier.toNat ∧ identifier.toNat<expectedCorpusSize ∧
        identifier∉row ∧ result=row++[identifier] := by
  simp only [loadId,bind_eq_ok,throwIf_ok,parseDecimal_ok,pure_eq_ok,exists_and_left,not_or,
    not_lt,ge_iff_le,gt_iff_lt,not_le,exists_const]
  constructor
  · intro h
    obtain ⟨value,hparse,⟨hlt,hle⟩,hnew,hresult⟩ := h
    have hid : (UInt32.ofNat value).toNat=value :=
      UInt32.toNat_ofNat_of_lt' (by rw [UInt32.size]; omega)
    exact ⟨UInt32.ofNat value,by rw [hid]; exact hparse,by rw [hid]; exact hlt,hnew,hresult⟩
  · intro h
    obtain ⟨identifier,hparse,hlt,hnew,hresult⟩ := h
    have hmax := identifier.toNat_lt
    have hid : UInt32.ofNat identifier.toNat=identifier := UInt32.ofNat_toNat
    exact ⟨identifier.toNat,hparse,⟨hlt,by omega⟩,by rwa [hid],by rw [hid]; exact hresult⟩

/-- The numbers of a row behind those already taken. -/
theorem foldlM_loadId_ok (expectedCorpusSize : ℕ) (tokens : List Text) (row result : List UInt32)
    (hrow : row.Nodup) :
    tokens.foldlM (loadId expectedCorpusSize) row=.ok result ↔ ∃ more : List UInt32,
      tokens.map parseUnsigned=more.map (fun identifier => some identifier.toNat) ∧
        (∀ identifier∈more,identifier.toNat<expectedCorpusSize) ∧ (row++more).Nodup ∧
          result=row++more := by
  induction tokens generalizing row with
  | nil =>
    rw [List.foldlM_nil,pure_eq_ok]
    constructor
    · intro h
      exact ⟨[],rfl,by simp,by rwa [List.append_nil],by rwa [List.append_nil]⟩
    · intro h
      obtain ⟨more,hwords,-,-,hresult⟩ := h
      have hmore : more=[] := by simpa using hwords.symm
      rwa [hmore,List.append_nil] at hresult
  | cons token tokens ih =>
    rw [List.foldlM_cons,bind_eq_ok]
    constructor
    · intro h
      obtain ⟨next,hone,hrest⟩ := h
      obtain ⟨identifier,hparse,hlt,hnew,rfl⟩ := (loadId_ok _ _ _ _).mp hone
      have hnext : (row++[identifier]).Nodup := by
        rw [List.nodup_append]
        refine ⟨hrow,List.nodup_singleton _,fun first hf second hs he => hnew ?_⟩
        rw [←List.mem_singleton.mp hs,←he]
        exact hf
      obtain ⟨more,hwords,hbelow,hnodup,hresult⟩ := (ih _ hnext).mp hrest
      rw [List.append_assoc] at hnodup hresult
      refine ⟨identifier::more,?_,List.forall_mem_cons.mpr ⟨hlt,hbelow⟩,hnodup,hresult⟩
      rw [List.map_cons,List.map_cons,hparse,hwords]
    · intro h
      obtain ⟨more,hwords,hbelow,hnodup,hresult⟩ := h
      cases more with
      | nil => simp at hwords
      | cons identifier more =>
        obtain ⟨hparse,hrest⟩ := List.cons.inj hwords
        rw [List.forall_mem_cons] at hbelow
        rw [List.append_cons] at hnodup hresult
        have hnext : (row++[identifier]).Nodup := hnodup.sublist (List.sublist_append_left _ _)
        have hnew : identifier∉row := fun hm =>
          (List.nodup_append.mp hnext).2.2 identifier hm identifier (List.mem_singleton.mpr rfl) rfl
        exact ⟨row++[identifier],(loadId_ok _ _ _ _).mpr ⟨identifier,hparse,hbelow.1,hnew,rfl⟩,
          (ih _ hnext).mpr ⟨more,hrest,hbelow.2,hnodup,hresult⟩⟩

/-- A row is read. -/
theorem loadRow_ok (encodedK expectedCorpusSize : ℕ) (line : Text) (row : List UInt32) :
    loadRow encodedK expectedCorpusSize line=.ok row ↔ RowOf encodedK expectedCorpusSize line row := by
  simp only [loadRow,bind_eq_ok,throwIf_ok,pure_eq_ok,exists_and_left,exists_const,ne_eq,not_not,
    foldlM_loadId_ok _ _ _ _ List.nodup_nil,List.nil_append]
  constructor
  · intro h
    obtain ⟨found,⟨more,hwords,hbelow,hnodup,rfl⟩,hlength,rfl⟩ := h
    exact ⟨hwords,hnodup,hbelow,hlength⟩
  · intro h
    exact ⟨row,⟨row,h.words_eq,h.below,h.nodup,rfl⟩,h.length_eq,rfl⟩

/-- All rows are read, and no more than are expected. -/
theorem loadRows_ok (encodedK expectedQueries expectedK expectedCorpusSize : ℕ) (lines : List Text)
    (rows result : List (List UInt32)) (hrows : rows.length≤expectedQueries) :
    loadRows encodedK expectedQueries expectedK expectedCorpusSize rows lines=.ok result ↔
      ∃ more,List.Forall₂ (RowOf encodedK expectedCorpusSize)
          (lines.filter (fun line => !blank line)) more ∧
        rows.length+more.length≤expectedQueries ∧ result=rows++more.map (List.take expectedK) := by
  induction lines generalizing rows with
  | nil =>
    rw [loadRows,pure_eq_ok]
    constructor
    · intro h
      exact ⟨[],List.Forall₂.nil,hrows,by rwa [List.map_nil,List.append_nil]⟩
    · intro h
      obtain ⟨more,hmore,-,hresult⟩ := h
      cases hmore
      rwa [List.map_nil,List.append_nil] at hresult
  | cons line lines ih =>
    rw [loadRows,List.filter_cons]
    cases hb : blank line with
    | true => exact ih rows hrows
    | false =>
      simp only [Bool.false_eq_true,if_false,bind_eq_ok,throwIf_ok,exists_const,loadRow_ok,
        Bool.not_false,if_true,List.forall₂_cons_left_iff]
      constructor
      · intro h
        obtain ⟨hroom,row,hrow,hrest⟩ := h
        have hlonger : (rows++[row.take expectedK]).length≤expectedQueries := by
          rw [List.length_append,List.length_singleton]
          omega
        obtain ⟨more,hmore,hfits,hresult⟩ := (ih _ hlonger).mp hrest
        rw [List.length_append,List.length_singleton] at hfits
        refine ⟨row::more,⟨row,more,hrow,hmore,rfl⟩,by rw [List.length_cons]; omega,?_⟩
        rw [hresult,List.map_cons,List.append_assoc]
        rfl
      · intro h
        obtain ⟨all,⟨row,more,hrow,hmore,rfl⟩,hfits,hresult⟩ := h
        rw [List.length_cons] at hfits
        have hlonger : (rows++[row.take expectedK]).length≤expectedQueries := by
          rw [List.length_append,List.length_singleton]
          omega
        refine ⟨by omega,row,hrow,(ih _ hlonger).mpr ⟨more,hmore,?_,?_⟩⟩
        · rw [List.length_append,List.length_singleton]
          omega
        · rw [hresult,List.map_cons,List.append_assoc]
          rfl

/-- What a file holds that the native reader accepts. -/
structure Loaded (bytes : Text) (expectedQueries expectedK expectedCorpusSize encodedK : ℕ)
    (header : Text) (lines : List Text) (rows : List (List UInt32)) : Prop where
  /-- Behind blank lines comes the header. -/
  lines_eq : (getlines bytes).dropWhile blank=header::lines
  /-- The header has the magic and three numbers. -/
  header_eq : ∃ queriesToken kToken corpusToken : Text,
    words isCSpace [] header=[text "LEANN_GT1",queriesToken,kToken,corpusToken] ∧
      parseUnsigned queriesToken=some expectedQueries ∧ parseUnsigned kToken=some encodedK ∧
      parseUnsigned corpusToken=some expectedCorpusSize
  /-- The encoded number covers what is expected. -/
  expectedK_le : expectedK≤encodedK
  /-- There are enough documents. -/
  encodedK_le : encodedK≤expectedCorpusSize
  /-- Every other line that is not blank is a row. -/
  rows_eq : List.Forall₂ (RowOf encodedK expectedCorpusSize) (lines.filter (fun line => !blank line)) rows
  /-- There is a row for every query. -/
  rows_length : rows.length=expectedQueries

/-- The header is read. -/
theorem loadHeader_ok (line : Text) (encodedQueries encodedK encodedCorpus : ℕ) :
    loadHeader line=.ok (encodedQueries,encodedK,encodedCorpus) ↔
      ∃ queriesToken kToken corpusToken : Text,
        words isCSpace [] line=[text "LEANN_GT1",queriesToken,kToken,corpusToken] ∧
        parseUnsigned queriesToken=some encodedQueries ∧ parseUnsigned kToken=some encodedK ∧
        parseUnsigned corpusToken=some encodedCorpus := by
  unfold loadHeader
  split
  · rename_i magic queriesToken kToken corpusToken hwords
    simp only [bind_eq_ok,throwIf_ok,parseDecimal_ok,pure_eq_ok,exists_const,ne_eq,not_not,
      Prod.mk.injEq]
    constructor
    · intro h
      obtain ⟨rfl,queries,hqueries,k,hk,corpus,hcorpus,rfl,rfl,rfl⟩ := h
      exact ⟨queriesToken,kToken,corpusToken,hwords,hqueries,hk,hcorpus⟩
    · intro h
      obtain ⟨_,_,_,hsame,hqueries,hk,hcorpus⟩ := h
      rw [hwords] at hsame
      injection hsame with hmagic hsame
      injection hsame with hfirst hsame
      injection hsame with hsecond hsame
      injection hsame with hthird hsame
      subst hfirst hsecond hthird
      exact ⟨hmagic,_,hqueries,_,hk,_,hcorpus,rfl,rfl,rfl⟩
  · rename_i hother
    refine iff_of_false (fun h => by cases h) (fun h => ?_)
    obtain ⟨queriesToken,kToken,corpusToken,hwords,-⟩ := h
    exact hother _ _ _ _ hwords

/-- What the native reader accepts. -/
theorem loadGroundTruth_ok (bytes : Text) (expectedQueries expectedK expectedCorpusSize : ℕ)
    (result : List (List UInt32)) :
    loadGroundTruth bytes expectedQueries expectedK expectedCorpusSize=.ok result ↔
      ∃ encodedK header lines rows,Loaded bytes expectedQueries expectedK expectedCorpusSize encodedK
        header lines rows ∧ result=rows.map (List.take expectedK) := by
  unfold loadGroundTruth
  split
  · rename_i hlines
    refine iff_of_false (nomatch ·) (fun h => ?_)
    obtain ⟨_,_,_,_,h,-⟩ := h
    rw [h.lines_eq] at hlines
    cases hlines
  · rename_i header lines hlines
    have hload : ∀ k queries corpus found,loadRows k queries expectedK corpus [] lines=.ok found ↔
        ∃ rows,List.Forall₂ (RowOf k corpus) (lines.filter (fun line => !blank line)) rows ∧
          rows.length≤queries ∧ found=rows.map (List.take expectedK) := by
      intro k queries corpus found
      rw [loadRows_ok k queries expectedK corpus lines [] found (Nat.zero_le _)]
      simp only [List.length_nil,Nat.zero_add,List.nil_append]
    simp only [bind_eq_ok,throwIf_ok,pure_eq_ok,exists_const,ne_eq,not_not,Prod.exists,hload]
    constructor
    · intro h
      obtain ⟨queries,k,corpus,hheader,rfl,hcover,rfl,hfits,found,⟨rows,hrows,-,rfl⟩,hcount,rfl⟩ := h
      rw [List.length_map] at hcount
      exact ⟨k,header,lines,rows,⟨hlines,(loadHeader_ok _ _ _ _).mp hheader,by omega,by omega,hrows,
        hcount⟩,rfl⟩
    · intro h
      obtain ⟨k,header',lines',rows,h,rfl⟩ := h
      have hsame := hlines.symm.trans h.lines_eq
      injection hsame with hheader hrest
      subst hheader hrest
      have hk := h.encodedK_le
      have hcover := h.expectedK_le
      have hcount := h.rows_length
      refine ⟨_,_,_,(loadHeader_ok _ _ _ _).mpr h.header_eq,rfl,by omega,rfl,by omega,_,
        ⟨rows,h.rows_eq,?_,rfl⟩,?_,rfl⟩
      · omega
      · rw [List.length_map]
        exact hcount

/-- The words of an accepted file. -/
theorem Loaded.words_eq {bytes : Text} {expectedQueries expectedK expectedCorpusSize encodedK : ℕ}
    {header : Text} {lines : List Text} {rows : List (List UInt32)}
    (h : Loaded bytes expectedQueries expectedK expectedCorpusSize encodedK header lines rows) :
    words isCSpace [] bytes=words isCSpace [] header++
      (lines.filter (fun line => !blank line)).flatMap (words isCSpace []) := by
  have hskip : ∀ all : List Text,(all.dropWhile blank).flatMap (words isCSpace [])=
      all.flatMap (words isCSpace []) := by
    intro all
    induction all with
    | nil => rfl
    | cons line all ih =>
      rw [List.dropWhile_cons]
      cases hb : blank line with
      | true => rw [if_pos rfl,ih,List.flatMap_cons,words_blank hb,List.nil_append]
      | false => rfl
  rw [←getlines_words,←hskip,h.lines_eq,List.flatMap_cons,flatMap_words_nonblank]

end Native

section Scripts

/-- A check passes exactly when its condition fails. -/
theorem raiseIf_ok (condition : Prop) [Decidable condition] (failure : ScriptError) (value : Unit) :
    raiseIf condition failure=.ok value ↔ ¬condition := by
  unfold raiseIf
  split <;> simp_all

/-- Only the bytes of a text are decoded. -/
theorem decodeUtf8_ok (bytes : Text) (characters : List Char) :
    decodeUtf8 bytes=.ok characters ↔ bytes=encodeText characters := by
  have hencode : (encodeText characters).toByteArray=characters.utf8Encode := rfl
  unfold decodeUtf8
  constructor
  · intro h
    split at h
    · rename_i found hfound
      have hsome : bytes.toByteArray.utf8Decode?.isSome := by rw [hfound]; rfl
      have hback : (bytes.toByteArray.utf8Decode?.get hsome).toList.utf8Encode=bytes.toByteArray :=
        ByteArray.utf8Encode_get_utf8Decode?
      simp only [hfound,Option.get_some,Except.ok.inj h] at hback
      exact List.toByteArray_inj.mp (hback.symm.trans hencode.symm)
    · cases h
  · intro h
    rw [h,hencode,List.utf8Decode?_utf8Encode]

/-- The numbers of a row that the scripts read. -/
structure ReadsRow (topK corpusCount : ℤ) (line : List Char) (row : List UInt32) : Prop where
  /-- Every field is the number that stands there. -/
  fields_eq : (words isSpace [] line).map parseInt=row.map (fun identifier => some (identifier.toNat : ℤ))
  /-- There are as many as the header says. -/
  length_eq : (row.length : ℤ)=topK
  /-- The numbers are those of documents. -/
  below : ∀ identifier∈row,(identifier.toNat : ℤ)<corpusCount
  /-- No number stands twice in a row. -/
  nodup : row.Nodup

/-- The elements of a row of an array. -/
theorem mapM_toElement_ok {identifiers : List ℤ} {row : List UInt32}
    (h : identifiers.mapM toElement=.ok row) :
    identifiers=row.map (fun identifier => (identifier.toNat : ℤ)) := by
  induction identifiers generalizing row with
  | nil =>
    rw [List.mapM_nil,pure_eq_ok] at h
    rw [h]
    rfl
  | cons identifier identifiers ih =>
    simp only [List.mapM_cons,bind_eq_ok,pure_eq_ok] at h
    obtain ⟨first,hfirst,rest,hrest,rfl⟩ := h
    unfold toElement at hfirst
    split at hfirst
    · rename_i hrange
      have hvalue : (UInt32.ofNat identifier.toNat).toNat=identifier.toNat :=
        UInt32.toNat_ofNat_of_lt' (by rw [UInt32.size]; omega)
      rw [List.map_cons,←ih hrest,←Except.ok.inj hfirst,hvalue,Int.toNat_of_nonneg hrange.1]
    · cases hfirst

/-- All fields are numbers. -/
theorem mapM_parseInt_some {fields : List (List Char)} {identifiers : List ℤ}
    (h : fields.mapM parseInt=some identifiers) : fields.map parseInt=identifiers.map some := by
  induction fields generalizing identifiers with
  | nil =>
    rw [List.mapM_nil] at h
    rw [←Option.some.inj h]
    rfl
  | cons field fields ih =>
    simp only [List.mapM_cons,Option.bind_eq_bind,Option.bind_eq_some_iff,Option.pure_def,
      Option.some.injEq] at h
    obtain ⟨first,hfirst,rest,hrest,rfl⟩ := h
    rw [List.map_cons,List.map_cons,hfirst,ih hrest]

/-- A row that was read. -/
theorem readRow_ok {path : String} {topK corpusCount : ℤ} {rowIndex : ℕ} {line : List Char}
    {row : List UInt32} (h : readRow path topK corpusCount rowIndex line=.ok row) :
    ReadsRow topK corpusCount line row := by
  simp only [readRow,bind_eq_ok,raiseIf_ok,exists_const,ne_eq,not_not] at h
  obtain ⟨hlength,h⟩ := h
  split at h
  · cases h
  · rename_i identifiers hfields
    simp only [bind_eq_ok,raiseIf_ok,exists_const,not_exists,not_and,not_or,not_lt,not_not] at h
    obtain ⟨hrange,hdistinct,helements⟩ := h
    have hids := mapM_toElement_ok helements
    have hparsed := mapM_parseInt_some hfields
    have hsame : identifiers.length=row.length := by rw [hids,List.length_map]
    have hcount : (words isSpace [] line).length=identifiers.length := by
      rw [←List.length_map (f := parseInt),hparsed,List.length_map]
    have hdedup : identifiers.dedup=identifiers :=
      (List.dedup_sublist identifiers).eq_of_length (by omega)
    refine ⟨?_,by omega,fun identifier hi => ?_,?_⟩
    · rw [hparsed,hids,List.map_map]
      rfl
    · refine not_le.mp (hrange identifier.toNat ?_).2
      rw [hids]
      exact List.mem_map_of_mem hi
    · have hnodup : (row.map (fun identifier => (identifier.toNat : ℤ))).Nodup := by
        rw [←hids,←hdedup]
        exact List.nodup_dedup _
      exact hnodup.of_map

/-- All rows that were read. -/
theorem readRows_ok {path : String} {topK corpusCount : ℤ} {rowIndex : ℕ} {lines : List (List Char)}
    {rows : List (List UInt32)} (h : readRows path topK corpusCount rowIndex lines=.ok rows) :
    List.Forall₂ (ReadsRow topK corpusCount) lines rows := by
  induction lines generalizing rowIndex rows with
  | nil =>
    rw [readRows,pure_eq_ok] at h
    rw [h]
    exact List.Forall₂.nil
  | cons line lines ih =>
    simp only [readRows,bind_eq_ok,pure_eq_ok] at h
    obtain ⟨row,hrow,rest,hrest,rfl⟩ := h
    exact List.Forall₂.cons (readRow_ok hrow) (ih hrest)

/-- The header of a file that was read. -/
theorem readHeader_ok {path : String} {line : List Char} {queryCount topK corpusCount : ℤ}
    (h : readHeader path line=.ok (queryCount,topK,corpusCount)) :
    ∃ queries k corpus,words isSpace [] line=["LEANN_GT1".toList,queries,k,corpus] ∧
      parseInt queries=some queryCount ∧ parseInt k=some topK ∧ parseInt corpus=some corpusCount := by
  unfold readHeader at h
  split at h
  · rename_i magic queries k corpus hwords
    simp only [bind_eq_ok,raiseIf_ok,exists_const,ne_eq,not_not] at h
    obtain ⟨hmagic,h⟩ := h
    split at h
    · rename_i first second third hfirst hsecond hthird
      rw [pure_eq_ok,Prod.mk.injEq,Prod.mk.injEq] at h
      obtain ⟨rfl,rfl,rfl⟩ := h
      exact ⟨queries,k,corpus,hmagic ▸ hwords,hfirst,hsecond,hthird⟩
    · cases h
  · cases h

/-- What a file holds that the scripts accept. -/
structure Read (bytes : Text) (truth : Truth) (characters header : List Char)
    (lines : List (List Char)) : Prop where
  /-- The file is a text. -/
  bytes_eq : bytes=encodeText characters
  /-- It begins with a header. -/
  lines_eq : iterNonemptyLines characters=header::lines
  /-- The header has the magic and three numbers. -/
  header_eq : ∃ queries k corpus,words isSpace [] header=["LEANN_GT1".toList,queries,k,corpus] ∧
    parseInt queries=some truth.queryCount ∧ parseInt k=some truth.topK ∧
    parseInt corpus=some truth.corpusCount
  /-- A row has a number. -/
  topK_pos : 0<truth.topK
  /-- There are enough documents. -/
  topK_le : truth.topK≤truth.corpusCount
  /-- Every other line is a row. -/
  rows_eq : List.Forall₂ (ReadsRow truth.topK truth.corpusCount) lines truth.rows
  /-- There is a row for every query. -/
  lines_length : (lines.length : ℤ)=truth.queryCount

/-- A count is the expected one. -/
theorem expectCount_ok (path label : String) (wanted : Option ℤ) (observed : ℤ) (value : Unit) :
    expectCount path label wanted observed=.ok value ↔ ∀ count,wanted=some count → count=observed := by
  cases wanted with
  | none => exact iff_of_true rfl (fun _ h => nomatch h)
  | some count =>
    rw [expectCount,raiseIf_ok,ne_eq,not_not]
    constructor
    · intro h other ho
      exact Option.some.inj ho ▸ h
    · intro h
      exact h count rfl

/-- What the scripts accept. -/
theorem readGroundTruth_ok {path : String} {bytes : Text} {expectedQueries expectedK expectedCorpus : Option ℤ}
    {truth : Truth}
    (h : readGroundTruth path bytes expectedQueries expectedK expectedCorpus=.ok truth) :
    (∃ characters header lines,Read bytes truth characters header lines) ∧
      (∀ count,expectedQueries=some count → count=truth.queryCount) ∧
      (∀ count,expectedK=some count → count=truth.topK) ∧
      ∀ count,expectedCorpus=some count → count=truth.corpusCount := by
  simp only [readGroundTruth,bind_eq_ok,decodeUtf8_ok] at h
  obtain ⟨characters,hbytes,h⟩ := h
  split at h
  · cases h
  · rename_i header lines hlines
    simp only [bind_eq_ok,Prod.exists,raiseIf_ok,expectCount_ok,exists_const,pure_eq_ok,not_or,not_le,
      not_lt,ne_eq,not_not] at h
    obtain ⟨queryCount,topK,corpusCount,hheader,⟨-,htop,hcorpus⟩,hcount,rows,hrows,hq,hk,hc,rfl⟩ := h
    refine ⟨⟨characters,header,lines,hbytes,hlines,readHeader_ok hheader,htop,hcorpus,
      readRows_ok hrows,?_⟩,hq,hk,hc⟩
    rw [List.length_cons] at hcount
    change (lines.length : ℤ)=queryCount
    omega

/-- What is kept of a line keeps its words. -/
theorem words_finishCharacters (line : List Char) :
    (finishCharacters line).flatMap (words isSpace [])=words isSpace [] line := by
  have hkeep : ∀ kept : List Char,(if kept.isEmpty then [] else [kept]).flatMap (words isSpace [])=
      words isSpace [] kept := by
    intro kept
    cases kept <;> simp [words]
  rw [finishCharacters,hkeep]
  split
  · rename_i hlast
    obtain ⟨front,rfl⟩ : ∃ front,line=front++['\r'] :=
      ⟨line.dropLast,(List.dropLast_append_getLast? _ hlast).symm⟩
    rw [List.dropLast_concat,words_append [] front (by decide)]
    exact (List.append_nil _).symm
  · rfl

/-- The words of the lines are the words of the text. -/
theorem textLines_words {line : List Char} (text : List Char) (hfeed : '\n'∉line) :
    ((textLines line text).flatMap yieldLine).flatMap (words isSpace [])=
      words isSpace [] (line++text) := by
  have hreturn : ∀ line rest : List Char,words isSpace [] (line++ '\r'::rest)=
      words isSpace [] line++words isSpace [] rest :=
    fun line rest => words_append [] line (by decide) rest
  have hend : ∀ line : List Char,words isSpace [] (line++['\r'])=words isSpace [] line :=
    fun line => (hreturn line []).trans (List.append_nil _)
  induction line,text using textLines.induct with
  | case1 line hempty =>
    rw [textLines,if_pos hempty,List.isEmpty_iff.mp hempty]
    rfl
  | case2 line hempty =>
    rw [textLines,if_neg hempty,List.flatMap_singleton,yieldLine_unterminated
      (fun hlast => hfeed (List.mem_of_getLast? hlast)),words_finishCharacters,List.append_nil]
  | case3 line input ih =>
    rw [textLines,List.flatMap_cons,yieldLine_lineFeed,List.flatMap_append,ih List.not_mem_nil,
      words_finishCharacters,words_append [] line (by decide)]
    rfl
  | case4 line input ih =>
    have hterminated : line++['\r','\n']=line++['\r']++['\n'] := List.append_cons _ _ _
    rw [textLines,List.flatMap_cons,hterminated,yieldLine_lineFeed,List.flatMap_append,
      ih List.not_mem_nil,words_finishCharacters,hend,hreturn,words_space (by decide)]
    rfl
  | case5 line input hnext ih =>
    rw [textLines.eq_4 _ _ hnext,List.flatMap_cons,yieldLine_return,List.flatMap_append,
      ih List.not_mem_nil,words_finishCharacters,hend,hreturn]
    rfl
  | case6 line character input hother hpair hreturn ih =>
    rw [textLines.eq_5 _ _ _ hother hpair hreturn,ih (by simpa using ⟨hfeed,Ne.symm hother⟩),
      List.append_assoc]
    rfl

/-- The words of an accepted file. -/
theorem Read.words_eq {bytes : Text} {truth : Truth} {characters header : List Char}
    {lines : List (List Char)} (h : Read bytes truth characters header lines) :
    words isSpace [] characters=words isSpace [] header++lines.flatMap (words isSpace []) := by
  have hall : (iterNonemptyLines characters).flatMap (words isSpace [])=words isSpace [] characters :=
    textLines_words characters List.not_mem_nil
  rw [←hall,h.lines_eq,List.flatMap_cons]

end Scripts

section Agreement

/-- The byte of an ASCII character. -/
def asciiByte (character : Char) : UInt8 := UInt8.ofNat character.toNat

/-- The bytes of an ASCII text. -/
theorem encodeText_ascii {text : List Char} (h : ∀ character∈text,character.toNat<128) :
    encodeText text=text.map asciiByte := by
  induction text with
  | nil => rfl
  | cons character text ih =>
    rw [List.forall_mem_cons] at h
    have hone : String.utf8EncodeChar character=[asciiByte character] := by
      have hle : character.val.toNat≤0x7f := Nat.le_of_lt_succ h.1
      unfold String.utf8EncodeChar
      dsimp only
      rw [if_pos hle]
      rfl
    rw [encodeText,List.flatMap_cons,hone,List.map_cons,←ih h.2]
    rfl

/-- A text of ASCII bytes is an ASCII text. -/
theorem ascii_of_encodeText {text : List Char} (h : ∀ byte∈encodeText text,byte.toNat<128) :
    ∀ character∈text,character.toNat<128 := by
  intro character hc
  have hsub : ∀ byte∈String.utf8EncodeChar character,byte∈encodeText text :=
    fun byte hb => List.mem_flatMap.mpr ⟨character,hc,hb⟩
  obtain ⟨byte,hb⟩ := List.exists_mem_of_ne_nil _ (String.utf8EncodeChar_ne_nil (c := character))
  have hlt := h byte (hsub byte hb)
  rw [(utf8EncodeChar_ascii hb hlt).1]
  exact hlt

/-- A byte that native files of ground truth are made of: white space, or a
character that shows. -/
def Plain (byte : UInt8) : Prop := isCSpace byte=true ∨ 33≤byte.toNat ∧ byte.toNat<127

instance (byte : UInt8) : Decidable (Plain byte) := inferInstanceAs (Decidable (_∨_))

/-- Such bytes are ASCII. -/
theorem Plain.ascii {byte : UInt8} (h : Plain byte) : byte.toNat<128 := by
  rcases h with hspace|hshown
  · simp only [isCSpace,Bool.or_eq_true,Bool.and_eq_true,decide_eq_true_eq,UInt8.le_iff_toNat_le] at hspace
    rcases hspace with hrange|hblank
    · have hle : byte.toNat≤13 := hrange.2
      omega
    · rw [hblank]
      decide
  · omega

/-- Both readers take the same ones of them for white space. -/
theorem isSpace_of_plain {character : Char} (h : character.toNat<128)
    (hp : Plain (asciiByte character)) : isCSpace (asciiByte character)=isSpace character := by
  have hall : ∀ code<128,Plain (UInt8.ofNat code) → isCSpace (UInt8.ofNat code)=
      decide (code∈([0x9,0xa,0xb,0xc,0xd,0x1c,0x1d,0x1e,0x1f,0x20,0x85,0xa0,0x1680,0x2000,0x2001,0x2002,
    0x2003,0x2004,0x2005,0x2006,0x2007,0x2008,0x2009,0x200a,0x2028,0x2029,0x202f,0x205f,
    0x3000] : List ℕ)) := by decide +kernel
  exact hall character.toNat h hp

/-- A token is a number when it is made of digits, not too many of them. -/
theorem parseUnsigned_some {token : Text} {value : ℕ} (h : parseUnsigned token=some value) :
    token≠[] ∧ (∀ byte∈token,IsDigit byte) ∧ decimalValue token=value := by
  unfold parseUnsigned fromChars at h
  dsimp only at h
  split at h
  · rename_i found hfound
    split at hfound
    · cases hfound
    · rename_i hgood
      rw [not_or] at hgood
      obtain ⟨hvalue,hdrop⟩ := Prod.mk.inj (Option.some.inj hfound)
      have hall : token.takeWhile (fun byte => decide (IsDigit byte))=token := by
        have hle : token.length≤(token.takeWhile (fun byte => decide (IsDigit byte))).length :=
          List.drop_eq_nil_iff.mp hdrop
        exact (List.takeWhile_prefix _).eq_of_length_le hle
      rw [hall] at hgood hvalue
      refine ⟨hgood.1,fun byte hb => ?_,hvalue.trans (Option.some.inj h)⟩
      exact of_decide_eq_true (List.takeWhile_eq_self_iff.mp hall byte hb)
  · cases h

/-- And such a token is a number. -/
theorem parseUnsigned_digits {token : Text} (hne : token≠[]) (hdigits : ∀ byte∈token,IsDigit byte)
    (hlt : decimalValue token<2^64) : parseUnsigned token=some (decimalValue token) := by
  have hall : token.takeWhile (fun byte => decide (IsDigit byte))=token :=
    List.takeWhile_eq_self_iff.mpr (fun byte hb => decide_eq_true (hdigits byte hb))
  have hchars : fromChars token=some (decimalValue token,[]) := by
    unfold fromChars
    dsimp only
    rw [hall,if_neg (not_or.mpr ⟨hne,by omega⟩),List.drop_length]
  rw [parseUnsigned,hchars]

/-- The value of an ASCII digit. -/
theorem digitValue_ascii {character : Char} (h : IsDigit (asciiByte character))
    (hc : character.toNat<128) : digitValue character=some ((asciiByte character).toNat-48) ∧
      character≠ '_' ∧ character≠ '+' ∧ character≠ '-' := by
  have hbyte : (asciiByte character).toNat=character.toNat := by
    rw [asciiByte,UInt8.toNat_ofNat']
    exact Nat.mod_eq_of_lt (by omega)
  have hlow : 48≤ character.toNat := by
    have hle := UInt8.le_iff_toNat_le.mp h.1
    rw [hbyte] at hle
    exact hle
  have hhigh : character.toNat≤57 := by
    have hle := UInt8.le_iff_toNat_le.mp h.2
    rw [hbyte] at hle
    exact hle
  have hother : ∀ other : Char,other.toNat<48 ∨ 57<other.toNat → character≠other := by
    intro other ho he
    rw [he] at hlow hhigh
    omega
  refine ⟨?_,hother '_' (by decide),hother '+' (by decide),hother '-' (by decide)⟩
  have hfind : decimalZeros.find? (fun first => first≤ character.toNat && character.toNat<first+10)=
      some 0x30 := by
    rw [decimalZeros,List.find?_cons_of_pos]
    rw [Bool.and_eq_true,decide_eq_true_eq,decide_eq_true_eq]
    omega
  rw [digitValue,hfind,hbyte]
  rfl

/-- The digits of a field of ASCII digits. -/
theorem digitsOf_ascii {field : List Char} (h : ∀ character∈field,IsDigit (asciiByte character))
    (hc : ∀ character∈field,character.toNat<128) (behind : Bool) (hne : behind=true ∨ field≠[]) :
    digitsOf behind field=some (field.map (fun character => (asciiByte character).toNat-48)) := by
  induction field generalizing behind with
  | nil =>
    rw [digitsOf,if_pos (hne.resolve_right (fun h => h rfl))]
    rfl
  | cons character field ih =>
    rw [List.forall_mem_cons] at h hc
    obtain ⟨hvalue,hunder,-⟩ := digitValue_ascii h.1 hc.1
    rw [digitsOf.eq_3 _ _ _ hunder,hvalue,ih h.2 hc.2 true (Or.inl rfl)]
    rfl

/-- Both readers take a token for the same number. -/
theorem numbers_agree {field : List Char} (hc : ∀ character∈field,character.toNat<128) {value : ℕ}
    (hu : parseUnsigned (field.map asciiByte)=some value) {number : ℤ}
    (hi : parseInt field=some number) : number=value := by
  obtain ⟨hne,hdigits,hvalue⟩ := parseUnsigned_some hu
  have hdigits' : ∀ character∈field,IsDigit (asciiByte character) := fun character hm =>
    hdigits _ (List.mem_map_of_mem hm)
  have hnatural : parseInt field=naturalOf field := by
    cases field with
    | nil => rfl
    | cons character field =>
      obtain ⟨-,-,hplus,hminus⟩ := digitValue_ascii (hdigits' character List.mem_cons_self)
        (hc character List.mem_cons_self)
      unfold parseInt
      split
      · rename_i he
        exact absurd (List.cons.inj he).1 hplus
      · rename_i he
        exact absurd (List.cons.inj he).1 hminus
      · rfl
  have hfield : field≠[] := fun he => hne (by rw [he]; rfl)
  rw [hnatural,naturalOf,digitsOf_ascii hdigits' hc false (Or.inr hfield)] at hi
  simp only [Option.bind_eq_bind,Option.bind_some] at hi
  split at hi
  · cases hi
  · rw [←Option.some.inj hi,←hvalue,decimalValue,List.foldl_map,List.foldl_map]

/-- Both readers take some tokens for the same row. -/
theorem row_agree {fields : List (List Char)} (hc : ∀ field∈fields,∀ character∈field,character.toNat<128)
    {row row' : List UInt32}
    (hi : fields.map parseInt=row.map (fun identifier => some (identifier.toNat : ℤ)))
    (hu : (fields.map (List.map asciiByte)).map parseUnsigned=
      row'.map (fun identifier => some identifier.toNat)) : row=row' := by
  induction fields generalizing row row' with
  | nil =>
    have hrow : row=[] := by simpa using hi.symm
    have hrow' : row'=[] := by simpa using hu.symm
    rw [hrow,hrow']
  | cons field fields ih =>
    cases row with
    | nil => simp at hi
    | cons identifier row =>
      cases row' with
      | nil => simp at hu
      | cons identifier' row' =>
        rw [List.forall_mem_cons] at hc
        obtain ⟨hfirst,hrest⟩ := List.cons.inj hi
        obtain ⟨hfirst',hrest'⟩ := List.cons.inj hu
        have hsame : (identifier.toNat : ℤ)=identifier'.toNat := numbers_agree hc.1 hfirst' hfirst
        rw [ih hc.2 hrest hrest',UInt32.toNat_inj.mp (Int.ofNat_inj.mp hsame)]

/-- Both readers take lines of the same tokens for the same rows. -/
theorem rows_agree {topK corpusCount : ℤ} {encodedK expectedCorpusSize : ℕ} {lines : List (List Char)}
    {lines' : List Text} {rows rows' : List (List UInt32)}
    (hr : List.Forall₂ (ReadsRow topK corpusCount) lines rows)
    (hl : List.Forall₂ (RowOf encodedK expectedCorpusSize) lines' rows')
    (he : lines.map (fun line => (words isSpace [] line).map (List.map asciiByte))=
      lines'.map (words isCSpace []))
    (hc : ∀ line∈lines,∀ field∈words isSpace [] line,∀ character∈field,character.toNat<128) :
    rows=rows' := by
  induction hr generalizing lines' rows' with
  | nil =>
    have hnil : lines'=[] := by simpa using he.symm
    rw [hnil] at hl
    cases hl
    rfl
  | cons hrow hrows ih =>
    cases hl with
    | nil => simp at he
    | cons hrow' hrows' =>
      rw [List.forall_mem_cons] at hc
      obtain ⟨hfirst,hrest⟩ := List.cons.inj he
      have hu := hrow'.words_eq
      rw [←hfirst] at hu
      rw [row_agree hc.1 hrow.fields_eq hu,ih hrows' hrest hc.2]

/-- The bytes of a file that the native reader accepts are ASCII. -/
theorem Loaded.plain {bytes : Text} {expectedQueries expectedK expectedCorpusSize encodedK : ℕ}
    {header : Text} {lines : List Text} {rows : List (List UInt32)}
    (h : Loaded bytes expectedQueries expectedK expectedCorpusSize encodedK header lines rows) :
    ∀ byte∈bytes,Plain byte := by
  have hnumber : ∀ {token : Text} {value : ℕ},parseUnsigned token=some value →
      ∀ byte∈token,33≤byte.toNat ∧ byte.toNat<127 := by
    intro token value htoken byte hb
    obtain ⟨hlow,hhigh⟩ := (parseUnsigned_some htoken).2.1 byte hb
    have hge : 48≤byte.toNat := UInt8.le_iff_toNat_le.mp hlow
    have hle : byte.toNat≤57 := UInt8.le_iff_toNat_le.mp hhigh
    omega
  have hmagic : ∀ byte∈text "LEANN_GT1",33≤byte.toNat ∧ byte.toNat<127 := by decide +kernel
  have hrow : ∀ {line : Text} {row : List UInt32},RowOf encodedK expectedCorpusSize line row →
      ∀ token∈words isCSpace [] line,∃ value,parseUnsigned token=some value := by
    intro line row hline token ht
    have hm : parseUnsigned token∈(words isCSpace [] line).map parseUnsigned := List.mem_map_of_mem ht
    rw [hline.words_eq] at hm
    obtain ⟨identifier,-,he⟩ := List.mem_map.mp hm
    exact ⟨identifier.toNat,he.symm⟩
  intro byte hb
  cases hspace : isCSpace byte with
  | true => exact Or.inl hspace
  | false =>
    obtain ⟨token,ht,hm⟩ := mem_words_of_mem [] hb hspace
    rw [h.words_eq] at ht
    refine Or.inr ?_
    rcases List.mem_append.mp ht with ht|ht
    · obtain ⟨queriesToken,kToken,corpusToken,hwords,hq,hk,hcorpus⟩ := h.header_eq
      rw [hwords] at ht
      simp only [List.mem_cons,List.not_mem_nil,or_false] at ht
      rcases ht with ht|ht|ht|ht
      · exact hmagic byte (ht ▸ hm)
      · exact hnumber hq byte (ht ▸ hm)
      · exact hnumber hk byte (ht ▸ hm)
      · exact hnumber hcorpus byte (ht ▸ hm)
    · obtain ⟨line,hline,ht⟩ := List.mem_flatMap.mp ht
      obtain ⟨row,hof⟩ := exists_of_forall₂ h.rows_eq hline
      obtain ⟨value,hvalue⟩ := hrow hof token ht
      exact hnumber hvalue byte hm

/-- What both readers accept they read in the same way. -/
theorem readers_agree {bytes : Text} {expectedQueries expectedK expectedCorpusSize encodedK : ℕ}
    {header : Text} {lines : List Text} {rows : List (List UInt32)}
    (hl : Loaded bytes expectedQueries expectedK expectedCorpusSize encodedK header lines rows)
    {truth : Truth} {characters header' : List Char} {lines' : List (List Char)}
    (hr : Read bytes truth characters header' lines') : truth.rows=rows := by
  have hplain := hl.plain
  have hbytes := hr.bytes_eq
  have hascii : ∀ character∈characters,character.toNat<128 :=
    ascii_of_encodeText (fun byte hb => (hplain byte (hbytes ▸ hb)).ascii)
  rw [encodeText_ascii hascii] at hbytes
  have hspaces : ∀ character∈characters,isCSpace (asciiByte character)=isSpace character :=
    fun character hm => isSpace_of_plain (hascii character hm)
      (hplain _ (hbytes ▸ List.mem_map_of_mem hm))
  have hwords : words isCSpace [] bytes=(words isSpace [] characters).map (List.map asciiByte) := by
    have hmap : words isCSpace ([].map asciiByte) (characters.map asciiByte)=
        (words isSpace [] characters).map (List.map asciiByte) := words_map hspaces
    rw [List.map_nil] at hmap
    rw [hbytes,hmap]
  have hfield : ∀ field∈words isSpace [] characters,∀ character∈field,character.toNat<128 :=
    fun field hf character hm =>
      hascii character ((mem_of_mem_words hf hm).resolve_left List.not_mem_nil)
  obtain ⟨queriesToken,kToken,corpusToken,hheader,-,hk,-⟩ := hl.header_eq
  obtain ⟨queries,k,corpus,hheader',-,hk',-⟩ := hr.header_eq
  rw [hl.words_eq,hr.words_eq,List.map_append,hheader,hheader'] at hwords
  obtain ⟨hfour,hrest⟩ := List.append_inj hwords rfl
  have hkToken : kToken=k.map asciiByte := (List.cons.inj (List.cons.inj (List.cons.inj hfour).2).2).1
  have hall := hr.words_eq
  rw [hheader'] at hall
  have hkField : k∈words isSpace [] characters := by
    rw [hall]
    simp
  have hwidth : truth.topK=encodedK := numbers_agree (hfield k hkField) (hkToken ▸ hk) hk'
  have hpos := hr.topK_pos
  refine rows_agree hr.rows_eq hl.rows_eq ?_ (fun line hline field hf => ?_)
  · have hencoded : 0<encodedK := by omega
    refine eq_of_flatten_eq hencoded ?_ ?_ ?_
    · intro row hrow
      obtain ⟨line,hline,he⟩ := List.mem_map.mp hrow
      obtain ⟨found,hread⟩ := exists_of_forall₂ hr.rows_eq hline
      have hlength := congrArg List.length hread.fields_eq
      have hcount := hread.length_eq
      rw [List.length_map,List.length_map] at hlength
      rw [←he,List.length_map]
      omega
    · intro row hrow
      obtain ⟨line,hline,he⟩ := List.mem_map.mp hrow
      obtain ⟨found,hrowOf⟩ := exists_of_forall₂ hl.rows_eq hline
      have hlength := congrArg List.length hrowOf.words_eq
      rw [List.length_map,List.length_map,hrowOf.length_eq] at hlength
      rw [←he]
      exact hlength
    · rw [List.flatMap_def,List.flatMap_def,List.map_flatten,List.map_map] at hrest
      exact hrest.symm
  · refine hfield field ?_
    rw [hall]
    exact List.mem_append_right _ (List.mem_flatMap.mpr ⟨line,hline,hf⟩)

end Agreement

section Generated

/-- A number as the scripts write it. -/
theorem decimal_eq (value : ℕ) : decimal value=Nat.toDigits 10 value := by
  rw [decimal,Nat.toString_eq_repr,Nat.repr_eq_ofList_toDigits,String.toList_ofList]

/-- A character of a number is a decimal digit. -/
theorem decimal_digit {value : ℕ} {character : Char} (h : character∈decimal value) :
    48≤ character.toNat ∧ character.toNat≤57 := by
  rw [decimal_eq] at h
  have hd := Nat.isDigit_of_mem_toDigits (by decide) (by decide) h
  rw [Char.isDigit_iff_toNat] at hd
  exact hd

/-- A number has a digit. -/
theorem decimal_ne_nil (value : ℕ) : decimal value≠[] := by
  rw [decimal_eq,←List.length_pos_iff]
  exact Nat.length_toDigits_pos

/-- The digits of a number are no white space. -/
theorem decimal_word (value : ℕ) :
    decimal value≠[] ∧ ∀ character∈decimal value,isSpace character=false := by
  refine ⟨decimal_ne_nil value,fun character hc => ?_⟩
  obtain ⟨hlow,hhigh⟩ := decimal_digit hc
  rw [isSpace,decide_eq_false_iff_not]
  simp only [List.mem_cons,List.not_mem_nil,or_false]
  omega

/-- The native reader reads the number that was written. -/
theorem parseUnsigned_decimal {value : ℕ} (h : value<2^64) :
    parseUnsigned ((decimal value).map asciiByte)=some value := by
  have hbyte : ∀ character∈decimal value,(asciiByte character).toNat=character.toNat := by
    intro character hc
    have hhigh := (decimal_digit hc).2
    rw [asciiByte,UInt8.toNat_ofNat']
    exact Nat.mod_eq_of_lt (by omega)
  have hvalue : decimalValue ((decimal value).map asciiByte)=value := by
    have hfold : ∀ (digits : List Char) (start : ℕ),
        (∀ character∈digits,(asciiByte character).toNat=character.toNat) →
        (digits.map asciiByte).foldl (fun found byte => found*10+(byte.toNat-48)) start=
          Nat.ofDigitChars 10 digits start := by
      intro digits
      induction digits with
      | nil => exact fun start _ => Nat.ofDigitChars_nil.symm
      | cons character digits ih =>
        intro start hd
        rw [List.forall_mem_cons] at hd
        rw [List.map_cons,List.foldl_cons,Nat.ofDigitChars_cons,ih _ hd.2,hd.1,Nat.mul_comm start 10]
        rfl
    rw [decimalValue,hfold _ 0 hbyte,decimal_eq,Nat.ofDigitChars_ten_toDigits]
  have hdigits : ∀ byte∈(decimal value).map asciiByte,IsDigit byte := by
    intro byte hb
    obtain ⟨character,hc,rfl⟩ := List.mem_map.mp hb
    have hrange := decimal_digit hc
    rw [IsDigit,UInt8.le_iff_toNat_le,UInt8.le_iff_toNat_le,hbyte character hc]
    exact hrange
  have hne : (decimal value).map asciiByte≠[] := fun he =>
    decimal_ne_nil value (List.map_eq_nil_iff.mp he)
  rw [parseUnsigned_digits hne hdigits (by rw [hvalue]; exact h),hvalue]

/-- A line of characters that end no line. -/
def Unbroken (line : List Char) : Prop := ∀ character∈line,character≠ '\n' ∧ character≠ '\r'

/-- The scripts read an unbroken line, unless it is empty. -/
theorem iterNonemptyLines_line {line : List Char} (h : Unbroken line) (rest : List Char) :
    iterNonemptyLines (line++ '\n'::rest)=(if line.isEmpty then [] else [line])++iterNonemptyLines rest := by
  have hlines : ∀ (taken line : List Char),Unbroken line →
      textLines taken (line++ '\n'::rest)=(taken++line++['\n'])::textLines [] rest := by
    intro taken line
    induction line generalizing taken with
    | nil => exact fun _ => by rw [List.nil_append,textLines,List.append_nil]
    | cons character line ih =>
      intro hline
      obtain ⟨hfeed,hreturn⟩ := hline character List.mem_cons_self
      rw [List.cons_append,textLines.eq_5 _ _ _ hfeed (fun _ he => absurd he hreturn) hreturn,
        ih _ (fun other ho => hline other (List.mem_cons_of_mem _ ho)),List.append_assoc taken]
      rfl
  have hkeep : finishCharacters line=if line.isEmpty then [] else [line] := by
    have hlast : line.getLast?≠some '\r' := fun hlast =>
      (h '\r' (List.mem_of_getLast? hlast)).2 rfl
    simp only [finishCharacters,if_neg hlast]
  rw [iterNonemptyLines,hlines [] line h,List.flatMap_cons,List.nil_append,yieldLine_lineFeed,hkeep]
  rfl

/-- The native reader reads an unbroken line. -/
theorem getlines_line {line : Text} (h : lineFeed∉line) (rest : Text) :
    getlines (line++lineFeed::rest)=line::getlines rest := by
  have hline : ∀ (taken line : Text),lineFeed∉line →
      getline taken (line++lineFeed::rest)=some (taken++line,rest) := by
    intro taken line
    induction line generalizing taken with
    | nil => exact fun _ => by rw [List.nil_append,getline,if_pos rfl,List.append_nil]
    | cons byte line ih =>
      intro hl
      rw [List.mem_cons,not_or] at hl
      rw [List.cons_append,getline,if_neg (Ne.symm hl.1),ih _ hl.2,List.append_assoc]
      rfl
  rw [getlines,hline [] line h]
  rfl

/-- The characters of a line that the scripts write: no others but white space
and characters that show. -/
def Shown (line : List Char) : Prop :=
  ∀ character∈line,character= ' ' ∨ 33≤ character.toNat ∧ character.toNat<127

/-- Such a line is unbroken. -/
theorem Shown.unbroken {line : List Char} (h : Shown line) : Unbroken line := by
  intro character hc
  rcases h character hc with hspace|hshown
  · rw [hspace]
    decide
  · constructor
    · intro he
      rw [he] at hshown
      exact absurd hshown.1 (by decide)
    · intro he
      rw [he] at hshown
      exact absurd hshown.1 (by decide)

/-- Such a line is ASCII. -/
theorem Shown.ascii {line : List Char} (h : Shown line) : ∀ character∈line,character.toNat<128 := by
  intro character hc
  rcases h character hc with hspace|hshown
  · rw [hspace]
    decide
  · omega

/-- Its bytes are plain. -/
theorem Shown.plain {line : List Char} (h : Shown line) : ∀ character∈line,Plain (asciiByte character) := by
  intro character hc
  rcases h character hc with hspace|hshown
  · rw [hspace]
    decide
  · refine Or.inr ?_
    rw [asciiByte,UInt8.toNat_ofNat',Nat.mod_eq_of_lt (by omega)]
    exact hshown

/-- Its native words. -/
theorem Shown.words_eq {line : List Char} (h : Shown line) :
    words isCSpace [] (encodeText line)=(words isSpace [] line).map (List.map asciiByte) := by
  rw [encodeText_ascii h.ascii]
  exact @words_map _ _ _ _ _ [] _ (fun character hc =>
    isSpace_of_plain (h.ascii character hc) (h.plain character hc))

/-- It has no line feed. -/
theorem Shown.no_feed {line : List Char} (h : Shown line) : lineFeed∉encodeText line := by
  intro hm
  obtain ⟨character,hc,hb⟩ := List.mem_flatMap.mp hm
  exact (h.unbroken character hc).1 (utf8EncodeChar_lineFeed hb)

/-- A number shows. -/
theorem shown_decimal (value : ℕ) : Shown (decimal value) := fun character hc => by
  have hrange := decimal_digit hc
  omega

/-- Lines behind each other. -/
theorem Shown.append {first second : List Char} (h : Shown first) (h' : Shown second) :
    Shown (first++second) := fun character hc =>
  (List.mem_append.mp hc).elim (h character) (h' character)

/-- A line behind a blank. -/
theorem Shown.blank {line : List Char} (h : Shown line) : Shown (' '::line) :=
  List.forall_mem_cons.mpr ⟨Or.inl rfl,h⟩

/-- The header shows. -/
theorem shown_headerLine (queryCount topK corpusCount : ℕ) :
    Shown (headerLine queryCount topK corpusCount) := by
  have hmagic : Shown "LEANN_GT1".toList := by
    unfold Shown
    decide
  exact ((hmagic.append (shown_decimal _).blank).append (shown_decimal _).blank).append
    (shown_decimal _).blank

/-- The words of four words with blanks between them. -/
theorem words_four {first second third fourth : List Char}
    (h : ∀ word∈[first,second,third,fourth],word≠[] ∧ ∀ character∈word,isSpace character=false) :
    words isSpace [] (first++ ' '::second++ ' '::third++ ' '::fourth)=[first,second,third,fourth] := by
  have hspace : isSpace ' '=true := by decide
  simp only [List.forall_mem_cons] at h
  obtain ⟨h1,h2,h3,h4,-⟩ := h
  rw [words_append [] _ hspace,words_append [] _ hspace,words_append [] _ hspace,words_word h1.2 h1.1,
    words_word h2.2 h2.1,words_word h3.2 h3.1,words_word h4.2 h4.1]
  rfl

/-- The words of the header. -/
theorem words_headerLine (queryCount topK corpusCount : ℕ) :
    words isSpace [] (headerLine queryCount topK corpusCount)=
      ["LEANN_GT1".toList,decimal queryCount,decimal topK,decimal corpusCount] := by
  refine words_four ?_
  simp only [List.forall_mem_cons]
  exact ⟨⟨by decide,by decide⟩,decimal_word _,decimal_word _,decimal_word _,by simp⟩

/-- A row shows. -/
theorem shown_rowLine (row : List UInt32) : Shown (rowLine row) := by
  induction row with
  | nil => exact fun _ hc => absurd hc List.not_mem_nil
  | cons identifier row ih =>
    cases row with
    | nil =>
      have hline : rowLine [identifier]=decimal identifier.toNat := List.intercalate_singleton ..
      rw [hline]
      exact shown_decimal _
    | cons next row =>
      have hline : rowLine (identifier::next::row)=
          decimal identifier.toNat++[' ']++rowLine (next::row) := List.intercalate_cons_cons ..
      rw [hline,List.append_assoc]
      exact (shown_decimal _).append ih.blank

/-- The words of a row. -/
theorem words_rowLine (row : List UInt32) :
    words isSpace [] (rowLine row)=row.map (fun identifier => decimal identifier.toNat) := by
  refine words_intercalate (by decide) (fun item hitem => ?_)
  obtain ⟨identifier,-,rfl⟩ := List.mem_map.mp hitem
  exact decimal_word _

/-- A row is an empty line exactly when it has no numbers. -/
theorem rowLine_isEmpty (row : List UInt32) : (rowLine row).isEmpty=row.isEmpty := by
  cases row with
  | nil => rfl
  | cons identifier row =>
    have hwords := words_rowLine (identifier::row)
    cases hl : rowLine (identifier::row) with
    | nil =>
      rw [hl] at hwords
      cases hwords
    | cons character line => rfl

/-- The lines of a written file as the scripts read them. -/
theorem iterNonemptyLines_written (header : List Char) (hh : Shown header) (hne : header≠[])
    (rows : List (List UInt32)) :
    iterNonemptyLines (header++ '\n'::payload rows)=
      header::(rows.filter (fun row => !row.isEmpty)).map rowLine := by
  have hrows : iterNonemptyLines (payload rows)=
      (rows.filter (fun row => !row.isEmpty)).map rowLine := by
    induction rows with
    | nil => rfl
    | cons row rows ih =>
      have hpayload : payload (row::rows)=rowLine row++ '\n'::payload rows := by
        rw [payload,List.flatMap_cons,List.append_assoc]
        rfl
      rw [hpayload,iterNonemptyLines_line (shown_rowLine row).unbroken,ih,List.filter_cons,
        rowLine_isEmpty]
      cases row <;> rfl
  have hfull : header.isEmpty=false := List.isEmpty_eq_false_iff.mpr hne
  rw [iterNonemptyLines_line hh.unbroken,hrows,hfull]
  rfl

/-- The lines of a written file as the native reader reads them. -/
theorem getlines_written (header : List Char) (hh : Shown header) (rows : List (List UInt32)) :
    getlines (encodeText (header++ '\n'::payload rows))=
      encodeText header::rows.map (fun row => encodeText (rowLine row)) := by
  have hcut : ∀ line rest : List Char,encodeText (line++ '\n'::rest)=
      encodeText line++lineFeed::encodeText rest := fun line rest => encodeText_append line _
  have hrows : getlines (encodeText (payload rows))=rows.map (fun row => encodeText (rowLine row)) := by
    induction rows with
    | nil =>
      change getlines []=[]
      rw [getlines,getline]
      rfl
    | cons row rows ih =>
      have hpayload : payload (row::rows)=rowLine row++ '\n'::payload rows := by
        rw [payload,List.flatMap_cons,List.append_assoc]
        rfl
      rw [hpayload,hcut,getlines_line (shown_rowLine row).no_feed,ih,List.map_cons]
  rw [hcut,getlines_line hh.no_feed,hrows]

/-- The bytes of a written file. -/
theorem generateGroundTruth_ok {path : String} {queryCount topK corpusCount : ℕ}
    {blocks : List (List (List UInt32))} {bytes : Text}
    (h : generateGroundTruth path queryCount topK corpusCount blocks=.ok bytes) :
    0<topK ∧ topK≤ corpusCount ∧
      bytes=encodeText (headerLine queryCount topK corpusCount++ '\n'::payload blocks.flatten) ∧
      ∃ truth,readGroundTruth path bytes (some queryCount) (some topK) (some corpusCount)=.ok truth := by
  have hfold : ∀ (blocks : List (List (List UInt32))) (front : List Char),
      blocks.foldl (fun written identifiers => written++encodeText (payload identifiers))
        (encodeText front)=encodeText (front++payload blocks.flatten) := by
    intro blocks
    induction blocks with
    | nil => exact fun front => (congrArg encodeText (List.append_nil front)).symm
    | cons identifiers blocks ih =>
      intro front
      rw [List.foldl_cons,←encodeText_append,ih,List.flatten_cons,payload,payload,payload,
        List.flatMap_append,List.append_assoc]
  simp only [generateGroundTruth,bind_eq_ok,raiseIf_ok,exists_const,pure_eq_ok,not_or,not_le,not_lt,
    gt_iff_lt,hfold,List.append_assoc] at h
  obtain ⟨⟨hpos,hle⟩,truth,htruth,rfl⟩ := h
  exact ⟨hpos,hle,rfl,truth,htruth⟩

/-- The native reader takes a written row as the scripts do. -/
theorem rowOf_written {topK corpusCount : ℕ} {row found : List UInt32}
    (h : ReadsRow topK corpusCount (rowLine row) found) :
    RowOf topK corpusCount (encodeText (rowLine row)) row := by
  have hfields := words_rowLine row
  have hascii : ∀ field∈row.map (fun identifier => decimal identifier.toNat),
      ∀ character∈field,character.toNat<128 := by
    intro field hf character hc
    obtain ⟨identifier,-,rfl⟩ := List.mem_map.mp hf
    exact (shown_decimal _).ascii character hc
  have hnative : ((row.map (fun identifier => decimal identifier.toNat)).map
      (List.map asciiByte)).map parseUnsigned=row.map (fun identifier => some identifier.toNat) := by
    rw [List.map_map,List.map_map]
    refine List.map_congr_left (fun identifier _ => ?_)
    exact parseUnsigned_decimal (identifier.toNat_lt.trans (by norm_num))
  have hscripts := h.fields_eq
  rw [hfields] at hscripts
  have hsame : found=row := row_agree hascii hscripts hnative
  rw [hsame] at h
  refine ⟨?_,h.nodup,fun identifier hi => ?_,?_⟩
  · rw [(shown_rowLine row).words_eq,hfields,hnative]
  · exact_mod_cast h.below identifier hi
  · exact_mod_cast h.length_eq

/-- A file that is written is accepted by the native reader. -/
theorem written_loaded {path : String} {queryCount topK corpusCount : ℕ} (hq : queryCount<2^64)
    (hn : corpusCount<2^64) {blocks : List (List (List UInt32))} {bytes : Text}
    (h : generateGroundTruth path queryCount topK corpusCount blocks=.ok bytes) {expectedK : ℕ}
    (hk : expectedK≤topK) : ∃ header lines rows,
      Loaded bytes queryCount expectedK corpusCount topK header lines rows := by
  obtain ⟨hpos,hle,hbytes,truth,htruth⟩ := generateGroundTruth_ok h
  obtain ⟨⟨characters,header,lines,hread⟩,hqueries,htop,hcorpus⟩ := readGroundTruth_ok htruth
  have hqueries := hqueries _ rfl
  have htop := htop _ rfl
  have hcorpus := hcorpus _ rfl
  have hshown := shown_headerLine queryCount topK corpusCount
  have hsame : characters=headerLine queryCount topK corpusCount++ '\n'::payload blocks.flatten :=
    encodeText_injective (hread.bytes_eq.symm.trans hbytes)
  have hwords := words_headerLine queryCount topK corpusCount
  have hheader : headerLine queryCount topK corpusCount≠[] := by
    intro he
    rw [he] at hwords
    cases hwords
  have hlines := hread.lines_eq
  rw [hsame,iterNonemptyLines_written _ hshown hheader] at hlines
  obtain ⟨-,hlines⟩ := List.cons.inj hlines
  have hrows := hread.rows_eq
  rw [←hlines,List.forall₂_map_left_iff,←htop,←hcorpus] at hrows
  have hheaderWords := hshown.words_eq
  rw [hwords] at hheaderWords
  have hnonblank : blank (encodeText (headerLine queryCount topK corpusCount))=false := by
    cases hb : blank (encodeText (headerLine queryCount topK corpusCount)) with
    | false => rfl
    | true =>
      rw [words_blank hb] at hheaderWords
      cases hheaderWords
  have hblank : ∀ row,blank (encodeText (rowLine row))=row.isEmpty := by
    intro row
    cases row with
    | nil => rfl
    | cons identifier row =>
      cases hb : blank (encodeText (rowLine (identifier::row))) with
      | false => rfl
      | true =>
        have hrow := (shown_rowLine (identifier::row)).words_eq
        rw [words_blank hb,words_rowLine] at hrow
        cases hrow
  refine ⟨encodeText (headerLine queryCount topK corpusCount),
    blocks.flatten.map (fun row => encodeText (rowLine row)),
    blocks.flatten.filter (fun row => !row.isEmpty),?_,?_,hk,hle,?_,?_⟩
  · rw [hbytes,getlines_written _ hshown,List.dropWhile_cons,hnonblank]
    rfl
  · refine ⟨_,_,_,hheaderWords,parseUnsigned_decimal hq,parseUnsigned_decimal (by omega),
      parseUnsigned_decimal hn⟩
  · have hfilter : (blocks.flatten.map (fun row => encodeText (rowLine row))).filter
        (fun line => !blank line)=(blocks.flatten.filter (fun row => !row.isEmpty)).map
          (fun row => encodeText (rowLine row)) := by
      rw [List.filter_map]
      refine congrArg _ (List.filter_congr (fun row _ => ?_))
      exact congrArg (!·) (hblank row)
    rw [hfilter,List.forall₂_map_left_iff,List.forall₂_same]
    intro row hrow
    obtain ⟨found,hfound⟩ := exists_of_forall₂ hrows hrow
    exact rowOf_written hfound
  · have hcount := hread.lines_length
    rw [←hlines,List.length_map,←hqueries] at hcount
    exact_mod_cast hcount

/-- Every file that is written is accepted by both readers, and whatever both
readers accept they read in the same way. -/
theorem ground_truth_readers_agree :
    (∀ path (queryCount corpusCount : UInt64) topK blocks bytes,
      generateGroundTruth path queryCount.toNat topK corpusCount.toNat blocks=.ok bytes →
      (∃ truth,readGroundTruth path bytes (some queryCount.toNat) (some topK)
        (some corpusCount.toNat)=.ok truth) ∧
      ∀ expectedK,1≤expectedK → expectedK≤topK → ∃ rows,
        loadGroundTruth bytes queryCount.toNat expectedK corpusCount.toNat=.ok rows) ∧
    ∀ path bytes expectedQueries expectedTopK expectedCorpus truth selectedQueries expectedK
        expectedCorpusSize rows,
      readGroundTruth path bytes expectedQueries expectedTopK expectedCorpus=.ok truth →
      loadGroundTruth bytes selectedQueries expectedK expectedCorpusSize=.ok rows →
      rows=truth.rows.map (List.take expectedK) := by
  constructor
  · intro path queryCount corpusCount topK blocks bytes h
    obtain ⟨-,-,-,hread⟩ := generateGroundTruth_ok h
    refine ⟨hread,fun expectedK _ hk => ?_⟩
    obtain ⟨header,lines,rows,hloaded⟩ :=
      written_loaded queryCount.toNat_lt corpusCount.toNat_lt h hk
    exact ⟨_,(loadGroundTruth_ok _ _ _ _ _).mpr ⟨topK,header,lines,rows,hloaded,rfl⟩⟩
  · intro path bytes expectedQueries expectedTopK expectedCorpus truth selectedQueries expectedK
      expectedCorpusSize rows hread hload
    obtain ⟨⟨characters,header,lines,hr⟩,-⟩ := readGroundTruth_ok hread
    obtain ⟨encodedK,header',lines',found,hl,hrows⟩ := (loadGroundTruth_ok _ _ _ _ _).mp hload
    rw [hrows,readers_agree hl hr]

/-- The file of two queries. -/
theorem ground_truth_readers_agree_two :
    generateGroundTruth "t.gt" 2 2 3 [[[1,0],[2,1]]]=
      .ok (text "LEANN_GT1 2 2 3\n1 0\n2 1\n") ∧
    ∃ rows,loadGroundTruth (text "LEANN_GT1 2 2 3\n1 0\n2 1\n") 2 1 3=.ok rows := by
  have hwritten : generateGroundTruth "t.gt" (2 : UInt64).toNat 2 (3 : UInt64).toNat [[[1,0],[2,1]]]=
      .ok (text "LEANN_GT1 2 2 3\n1 0\n2 1\n") := by decide +kernel
  exact ⟨hwritten,((ground_truth_readers_agree.1 "t.gt" 2 3 2 _ _ hwritten).2 1 (by decide) (by decide))⟩

end Generated

end Leann.GroundTruth
