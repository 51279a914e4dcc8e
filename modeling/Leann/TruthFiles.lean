import Leann.GroundTruthReaders
import Leann.TruthGeneration
import Mathlib.Data.Nat.Digits.Defs

/-!
# The files of ground truth

A file is accepted by `read_ground_truth` exactly when it holds a header and one
row of distinct documents for every query. What is written for rows of this kind
is accepted, and no file with fewer rows is. The rows themselves do not depend on
the blocks in which they were found.
-/

namespace Leann.TruthFiles

open Exceptions GroundTruth Lines LockOwner Words BlockwiseTopK Selection TruthGeneration
open Embeddings (Embedding)
open Checksum (digest)

section Reading

/-- A number without a sign. -/
theorem parseInt_digits {field : List Char} (hne : field≠[])
    (hdigits : ∀ character∈field,48≤ character.toNat ∧ character.toNat≤57) (hlength : field.length≤4300) :
    ∃ number,parseInt field=some number := by
  have hbyte : ∀ character∈field,(asciiByte character).toNat=character.toNat := by
    intro character hc
    have hhigh := (hdigits character hc).2
    rw [asciiByte,UInt8.toNat_ofNat']
    exact Nat.mod_eq_of_lt (by omega)
  have hascii : ∀ character∈field,IsDigit (asciiByte character) := by
    intro character hc
    rw [IsDigit,UInt8.le_iff_toNat_le,UInt8.le_iff_toNat_le,hbyte character hc]
    exact hdigits character hc
  have hsmall : ∀ character∈field,character.toNat<128 := fun character hc => by
    have hhigh := (hdigits character hc).2
    omega
  have hnatural : parseInt field=naturalOf field := by
    obtain ⟨character,rest,rfl⟩ := List.exists_cons_of_ne_nil hne
    obtain ⟨-,-,hplus,hminus⟩ := digitValue_ascii (hascii character List.mem_cons_self)
      (hsmall character List.mem_cons_self)
    exact parseInt.eq_3 _ (fun _ he => hplus (List.cons.inj he).1) (fun _ he => hminus (List.cons.inj he).1)
  rw [hnatural,naturalOf,digitsOf_ascii hascii hsmall false (.inr hne)]
  refine ⟨_,if_neg ?_⟩
  rw [List.length_map]
  omega

/-- A number that was written is read. -/
theorem parseInt_decimal {value : ℕ} (h : value<2^64) : parseInt (decimal value)=some (value : ℤ) := by
  have hlength : (decimal value).length≤20 := by
    rw [decimal_eq]
    exact Nat.toDigits_length 10 value 20 (by norm_num) (h.trans (by norm_num))
  obtain ⟨number,hnumber⟩ := parseInt_digits (decimal_ne_nil value) (fun _ hc => decimal_digit hc) (by omega)
  have hsmall : ∀ character∈decimal value,character.toNat<128 := fun character hc => by
    have hrange := decimal_digit hc
    omega
  rw [hnumber,numbers_agree hsmall (parseUnsigned_decimal h) hnumber]

/-- Some fields that are numbers. -/
theorem mapM_parseInt {fields : List (List Char)} {identifiers : List ℤ}
    (h : fields.map parseInt=identifiers.map some) : fields.mapM parseInt=some identifiers := by
  induction fields generalizing identifiers with
  | nil =>
    have hnil : identifiers=[] := List.map_eq_nil_iff.mp h.symm
    rw [hnil]
    rfl
  | cons field fields ih =>
    cases identifiers with
    | nil => exact absurd h (List.cons_ne_nil _ _)
    | cons identifier identifiers =>
      obtain ⟨hfield,hfields⟩ := List.cons.inj h
      rw [List.mapM_cons,hfield,ih hfields]
      rfl

/-- The elements of an array. -/
theorem mapM_toElement (row : List UInt32) :
    (row.map (fun identifier => (identifier.toNat : ℤ))).mapM toElement=.ok row := by
  induction row with
  | nil => rfl
  | cons identifier row ih =>
    have helement : toElement (identifier.toNat : ℤ)=.ok identifier := by
      have hlt := identifier.toNat_lt
      rw [toElement,if_pos ⟨by omega,by exact_mod_cast hlt⟩,Int.toNat_natCast,UInt32.ofNat_toNat]
    rw [List.map_cons,List.mapM_cons,helement,ih]
    rfl

/-- A row is read from a line exactly when it stands there. -/
theorem readRow_iff {path : String} {topK corpusCount : ℤ} {rowIndex : ℕ} {line : List Char} {row : List UInt32} :
    readRow path topK corpusCount rowIndex line=.ok row ↔ ReadsRow topK corpusCount line row := by
  refine ⟨readRow_ok,fun h => ?_⟩
  have hmap : (words isSpace [] line).map parseInt=
      (row.map (fun identifier => (identifier.toNat : ℤ))).map some := by
    rw [h.fields_eq,List.map_map]
    rfl
  have hcount : ((words isSpace [] line).length : ℤ)=topK := by
    have hfields := congrArg List.length h.fields_eq
    rw [List.length_map,List.length_map] at hfields
    rw [←h.length_eq,hfields]
  have hnodup : (row.map (fun identifier => (identifier.toNat : ℤ))).Nodup :=
    h.nodup.map (fun first second he => UInt32.toNat_inj.mp (Int.ofNat_inj.mp he))
  simp only [readRow,bind_eq_ok,raiseIf_ok,exists_const,ne_eq,not_not,mapM_parseInt hmap]
  refine ⟨hcount,?_,?_,mapM_toElement row⟩
  · rintro ⟨identifier,hmem,hbad⟩
    obtain ⟨element,helement,rfl⟩ := List.mem_map.mp hmem
    have hbelow := h.below element helement
    omega
  · rw [hnodup.dedup,List.length_map]
    exact h.length_eq

/-- Rows are read from lines exactly when they stand there. -/
theorem readRows_iff {path : String} {topK corpusCount : ℤ} {rowIndex : ℕ} {lines : List (List Char)}
    {rows : List (List UInt32)} : readRows path topK corpusCount rowIndex lines=.ok rows ↔
      List.Forall₂ (ReadsRow topK corpusCount) lines rows := by
  refine ⟨readRows_ok,fun h => ?_⟩
  induction h generalizing rowIndex with
  | nil => rfl
  | cons hrow _ ih =>
    simp only [readRows,bind_eq_ok,pure_eq_ok]
    exact ⟨_,readRow_iff.mpr hrow,_,ih,rfl⟩

/-- A file is accepted exactly when it holds what is read from it. -/
theorem readGroundTruth_iff {path : String} {bytes : Text} {expectedQueries expectedK expectedCorpus : Option ℤ}
    {truth : Truth} : readGroundTruth path bytes expectedQueries expectedK expectedCorpus=.ok truth ↔
      (∃ characters header lines,Read bytes truth characters header lines) ∧
      (∀ count,expectedQueries=some count → count=truth.queryCount) ∧
      (∀ count,expectedK=some count → count=truth.topK) ∧
      (∀ count,expectedCorpus=some count → count=truth.corpusCount) ∧
      0<truth.queryCount ∧ truth.sizeBytes=bytes.length ∧ truth.sha256=digest bytes := by
  constructor
  · intro h
    obtain ⟨hread,hqueries,htop,hcorpus⟩ := readGroundTruth_ok h
    refine ⟨hread,hqueries,htop,hcorpus,?_⟩
    simp only [readGroundTruth,bind_eq_ok] at h
    obtain ⟨characters,-,h⟩ := h
    cases hlines : iterNonemptyLines characters with
    | nil =>
      rw [hlines] at h
      cases h
    | cons header lines =>
      simp only [hlines,bind_eq_ok,Prod.exists,pure_eq_ok,raiseIf_ok,not_or,not_le] at h
      obtain ⟨_,_,_,-,_,⟨hpos,-⟩,_,-,_,-,_,-,_,-,_,-,rfl⟩ := h
      exact ⟨hpos,rfl,rfl⟩
  · intro h
    obtain ⟨⟨characters,header,lines,hread⟩,hqueries,htop,hcorpus,hqueriesPos,hsize,hsha⟩ := h
    obtain ⟨queries,k,corpus,hwords,hq,hk,hn⟩ := hread.header_eq
    have hheader : readHeader path header=.ok (truth.queryCount,truth.topK,truth.corpusCount) := by
      simp only [readHeader,hwords,hq,hk,hn,bind_eq_ok,raiseIf_ok,ne_eq,not_true,not_false_iff,exists_const,true_and]
      rfl
    have hlength := hread.lines_length
    have hpos := hread.topK_pos
    have hle := hread.topK_le
    simp only [readGroundTruth,bind_eq_ok,decodeUtf8_ok]
    refine ⟨characters,hread.bytes_eq,?_⟩
    rw [hread.lines_eq]
    simp only [bind_eq_ok,hheader,raiseIf_ok,expectCount_ok,exists_const,pure_eq_ok,readRows_iff,Except.ok.injEq,
      Prod.exists,Prod.mk.injEq]
    refine ⟨_,_,_,⟨rfl,rfl,rfl⟩,?_,?_,truth.rows,hread.rows_eq,hqueries,htop,hcorpus,?_⟩
    · omega
    · rw [List.length_cons]
      omega
    · rw [←hsize,←hsha]

end Reading

section Written

/-- The bytes of a file. -/
def truthBytes (header : List Char) (rows : List (List UInt32)) : Text :=
  encodeText (header++['\n'])++encodeText (payload rows)

/-- A row names as many documents as it should, and none of them twice. -/
structure Distinct (topK corpusCount : ℕ) (row : List UInt32) : Prop where
  /-- There are as many as there should be. -/
  length_eq : row.length=topK
  /-- They are documents. -/
  below : ∀ identifier∈row,identifier.toNat<corpusCount
  /-- None of them is there twice. -/
  nodup : row.Nodup

/-- The text of a file. -/
theorem truthBytes_eq (header : List Char) (rows : List (List UInt32)) :
    truthBytes header rows=encodeText (header++ '\n'::payload rows) := by
  rw [truthBytes,←encodeText_append,List.append_assoc]
  rfl

/-- More rows make more bytes. -/
theorem truthBytes_append (header : List Char) (rows more : List (List UInt32)) :
    truthBytes header (rows++more)=truthBytes header rows++encodeText (payload more) := by
  rw [truthBytes,truthBytes,payload,payload,payload,List.flatMap_append,encodeText_append _ (List.flatMap _ more),
    List.append_assoc]

/-- The lines of a file. -/
theorem truthBytes_lines (queryCount topK corpusCount : ℕ) (rows : List (List UInt32)) :
    iterNonemptyLines (headerLine queryCount topK corpusCount++ '\n'::payload rows)=
      headerLine queryCount topK corpusCount::(rows.filter (fun row => !row.isEmpty)).map rowLine := by
  refine iterNonemptyLines_written _ (shown_headerLine _ _ _) (fun he => ?_) rows
  have hwords := words_headerLine queryCount topK corpusCount
  rw [he] at hwords
  cases hwords

/-- A row that was written is read. -/
theorem readsRow_written {topK corpusCount : ℕ} {row : List UInt32} (h : Distinct topK corpusCount row) :
    ReadsRow topK corpusCount (rowLine row) row where
  fields_eq := by
    rw [words_rowLine,List.map_map]
    refine List.map_congr_left (fun identifier _ => parseInt_decimal ?_)
    exact identifier.toNat_lt.trans (by norm_num)
  length_eq := by rw [h.length_eq]
  below identifier hi := by exact_mod_cast h.below identifier hi
  nodup := h.nodup

/-- What is written for rows of distinct documents is accepted. -/
theorem written_accepted (path : String) {topK corpusCount : ℕ} {rows : List (List UInt32)} (hne : rows≠[])
    (hqueries : rows.length<2^64) (hpos : 0<topK) (hle : topK≤ corpusCount) (hcorpus : corpusCount<2^64)
    (hrows : ∀ row∈rows,Distinct topK corpusCount row) :
    ∃ truth,readGroundTruth path (truthBytes (headerLine rows.length topK corpusCount) rows) (some (rows.length : ℤ))
      (some (topK : ℤ)) (some (corpusCount : ℤ))=.ok truth := by
  have hkeep : rows.filter (fun row => !row.isEmpty)=rows := by
    refine List.filter_eq_self.mpr (fun row hrow => ?_)
    have hlength := (hrows row hrow).length_eq
    cases row with
    | nil =>
      rw [List.length_nil] at hlength
      omega
    | cons identifier row => rfl
  have hlines := truthBytes_lines rows.length topK corpusCount rows
  rw [hkeep] at hlines
  have hcount := List.length_pos_iff.mpr hne
  let bytes := truthBytes (headerLine rows.length topK corpusCount) rows
  refine ⟨⟨rows,rows.length,topK,corpusCount,bytes.length,digest bytes⟩,readGroundTruth_iff.mpr ⟨⟨_,_,_,
    truthBytes_eq _ _,hlines,⟨_,_,_,words_headerLine _ _ _,parseInt_decimal hqueries,parseInt_decimal (by omega),
      parseInt_decimal hcorpus⟩,Int.natCast_pos.mpr hpos,Int.ofNat_le.mpr hle,?_,?_⟩,fun _ h => (Option.some.inj h).symm,
    fun _ h => (Option.some.inj h).symm,fun _ h => (Option.some.inj h).symm,Int.natCast_pos.mpr hcount,rfl,rfl⟩⟩
  · rw [List.forall₂_map_left_iff,List.forall₂_same]
    exact fun row hrow => readsRow_written (hrows row hrow)
  · exact congrArg Nat.cast (List.length_map _)

/-- What is accepted has a row with documents for every query. -/
theorem accepted_rows {path : String} {queryCount topK corpusCount : ℕ} {rows : List (List UInt32)} {truth : Truth}
    {expectedK expectedCorpus : Option ℤ}
    (h : readGroundTruth path (truthBytes (headerLine queryCount topK corpusCount) rows) (some (queryCount : ℤ))
      expectedK expectedCorpus=.ok truth) :
    (rows.filter (fun row => !row.isEmpty)).length=queryCount := by
  obtain ⟨⟨characters,header,lines,hread⟩,hqueries,-⟩ := readGroundTruth_iff.mp h
  have hsame : characters=headerLine queryCount topK corpusCount++ '\n'::payload rows :=
    encodeText_injective (hread.bytes_eq.symm.trans (truthBytes_eq _ _))
  have hlines := hread.lines_eq
  rw [hsame,truthBytes_lines] at hlines
  have hcount := hread.lines_length
  rw [←(List.cons.inj hlines).2,List.length_map,←hqueries _ rfl] at hcount
  exact_mod_cast hcount

/-- Another path makes no difference to what is read. -/
theorem readGroundTruth_path {path : String} (other : String) {bytes : Text}
    {expectedQueries expectedK expectedCorpus : Option ℤ} {truth : Truth}
    (h : readGroundTruth path bytes expectedQueries expectedK expectedCorpus=.ok truth) :
    readGroundTruth other bytes expectedQueries expectedK expectedCorpus=.ok truth :=
  readGroundTruth_iff.mpr (readGroundTruth_iff.mp h)

end Written

section Neighbours

variable {σ : Type} [LinearOrder σ] {argpartition : List σ → ℕ → List ℕ} (score : Embedding → Embedding → σ)
variable {job : TruthJob} {vectors : TruthVectors}

/-- The nearest documents of a query. -/
def nearest (job : TruthJob) (vectors : TruthVectors) (query : Embedding) : List UInt32 :=
  if job.corpusBlockRows<0 then [] else
    (best job.topK.toNat (entries score query 0 vectors.corpus)).map Scored.id

/-- What `argpartition` promises. -/
def Partitions (argpartition : List σ → ℕ → List ℕ) : Prop :=
  ∀ (values : List σ) place,place<values.length → Partitioned values place (argpartition values place)

/-- A block of queries is answered query by query. -/
theorem exactTopK_eq (hpartition : Partitions argpartition) (hfits : vectors.corpus.length≤2^32)
    (hpos : 0<job.topK) (hrows : job.corpusBlockRows≠0) (queries : List Embedding) :
    exactTopK argpartition score job vectors queries=.ok (queries.map (nearest score job vectors)) := by
  unfold exactTopK
  by_cases hdown : job.corpusBlockRows<0
  · rw [if_pos hdown]
    refine congrArg _ (List.map_congr_left (fun query _ => ?_))
    rw [nearest,if_pos hdown]
  · have hup : 0<job.corpusBlockRows.toNat := by omega
    have hstart : queries.map (fun _ => [])=bestOf score job.topK.toNat queries (vectors.corpus.take 0) := by
      refine List.map_congr_left (fun query _ => ?_)
      rw [List.take_zero]
      exact List.take_nil.symm
    rw [if_neg hdown,exactTopKBlock,dif_pos hup,hstart,mergeBlocks_eq score hpartition (by omega) queries hfits hup]
    simp only [bind,Except.bind,pure,Except.pure,bestOf,List.map_map]
    refine congrArg _ (List.map_congr_left (fun query _ => ?_))
    rw [nearest,if_neg hdown]
    rfl

/-- Whatever comes out of a block comes out of its queries. -/
theorem exactTopK_ok (hpartition : Partitions argpartition) (hfits : vectors.corpus.length≤2^32)
    (hpos : 0<job.topK) {queries : List Embedding} {identifiers : List (List UInt32)}
    (h : exactTopK argpartition score job vectors queries=.ok identifiers) :
    identifiers=queries.map (nearest score job vectors) := by
  by_cases hrows : job.corpusBlockRows=0
  · rw [exactTopK,hrows,if_neg (by decide),exactTopKBlock,dif_neg (by decide)] at h
    cases h
  · rw [exactTopK_eq score hpartition hfits hpos hrows] at h
    exact (Except.ok.inj h).symm

omit [LinearOrder σ] in
/-- The ids of the corpus. -/
theorem entries_ids (query : Embedding) (documents : List Embedding) (hfits : documents.length≤2^32) :
    ((entries score query 0 documents).map Scored.id).map UInt32.toNat=List.range documents.length := by
  rw [List.range_eq_range',←List.zipIdx_map_snd 0 documents,entries,List.map_map,List.map_map]
  refine List.map_congr_left (fun numbered hnumbered => ?_)
  have hlt := List.snd_lt_add_of_mem_zipIdx hnumbered
  exact UInt32.toNat_ofNat_of_lt' (by rw [UInt32.size]; omega)

/-- The nearest documents are distinct documents. -/
theorem nearest_distinct (hup : 0≤ job.corpusBlockRows) (hfits : vectors.corpus.length≤2^32)
    (hle : job.topK.toNat≤vectors.corpus.length) (query : Embedding) :
    Distinct job.topK.toNat vectors.corpus.length (nearest score job vectors query) := by
  have hids := entries_ids score query vectors.corpus hfits
  rw [nearest,if_neg (by omega),best]
  have hmem : ∀ entry∈(ranked Scored.key (entries score query 0 vectors.corpus)).take job.topK.toNat,
      entry∈entries score query 0 vectors.corpus := fun entry he => mem_ranked.mp (List.mem_of_mem_take he)
  refine ⟨?_,fun identifier hi => ?_,?_⟩
  · rw [List.length_map,List.length_take,ranked_length,entries,List.length_map,List.length_zipIdx]
    exact min_eq_left hle
  · obtain ⟨entry,he,rfl⟩ := List.mem_map.mp hi
    have hrange : entry.id.toNat∈List.range vectors.corpus.length := by
      rw [←hids]
      exact List.mem_map_of_mem (List.mem_map_of_mem (hmem entry he))
    exact List.mem_range.mp hrange
  · have hnodup : ((entries score query 0 vectors.corpus).map Scored.id).Nodup := by
      refine List.Nodup.of_map UInt32.toNat ?_
      rw [hids]
      exact List.nodup_range
    have hranked : ((ranked Scored.key (entries score query 0 vectors.corpus)).map Scored.id).Nodup :=
      ((ranked_perm _).map Scored.id).nodup_iff.mpr hnodup
    rw [List.map_take]
    exact hranked.sublist (List.take_sublist _ _)

end Neighbours

end Leann.TruthFiles
