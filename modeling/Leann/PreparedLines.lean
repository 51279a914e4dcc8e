import Leann.GroundTruth
import Leann.PythonValues
import Mathlib.Data.List.DropRight

/-!
# The lines of a prepared corpus

Every document of a prepared corpus is one line of a text file: its title and
its text without any line end, behind a prefix, and cut to a number of bytes
between two characters. The native program and the scripts read as many lines
as rows were written.
-/

namespace Leann.PreparedLines

open Exceptions Format Checksum Lines GroundTruth Words
open PythonValues (raiseWhen raiseWhen_ok)

section Texts

/-- The exceptions that end the preparation. -/
inductive PrepareError where
  /-- `RuntimeError`. -/
  | runtimeError (message : String)
  /-- `AssertionError`. -/
  | assertionError (message : String)
  deriving DecidableEq

/-- A value of a record, by its type. -/
inductive Value where
  /-- `None`. -/
  | none
  /-- A `str`. -/
  | text (characters : List Char)
  /-- A value of another type, with the name of the type. -/
  | other (typeName : String)

/-- The values of a record that a document is made of, where it has them. -/
structure Record where
  /-- `title`. -/
  title : Option Value
  /-- `text`. -/
  text : Option Value

/-- `DOCUMENT_PREFIX`. -/
def documentPrefix : List Char := "search_document: ".toList

/-- `replace("\x00", " ")`. -/
def replaceZero (character : Char) : Char := if character.toNat=0 then ' ' else character

/-- The words of a text, one space between them. -/
def cleanText (characters : List Char) : List Char :=
  List.intercalate [' '] (words isSpace [] (characters.map replaceZero))

/-- `clean_line`, with `repr` of the identifier. -/
def cleanLine (value : Value) (field quoted : String) : Except PrepareError (List Char) :=
  match value with
  | .none => .ok []
  | .other typeName => .error (.runtimeError
      (field++" for "++quoted++" must be a string, got "++typeName))
  | .text characters => .ok (cleanText characters)

/-- `decode("utf-8", errors="ignore")`: a byte at which no character begins is
skipped. The first number counts the bytes that belong to the last character. -/
def decodeIgnore : ℕ → Text → List Char
  | _,[] => []
  | skip+1,_::bytes => decodeIgnore skip bytes
  | 0,byte::bytes =>
    match (byte::bytes).toByteArray.utf8DecodeChar? 0 with
    | some character => character::decodeIgnore (character.utf8Size-1) bytes
    | none => decodeIgnore 0 bytes

/-- `rstrip`. -/
def rstrip (characters : List Char) : List Char := characters.rdropWhile isSpace

/-- `truncate_utf8`. -/
def truncateUtf8 (value : List Char) (maxBytes : ℕ) : Except PrepareError (List Char×Bool) :=
  let encoded := encodeText value
  if encoded.length≤ maxBytes then return (value,false)
  else do
    let truncated := rstrip (decodeIgnore 0 (encoded.take maxBytes))
    raiseWhen (truncated=[]) (.runtimeError "document byte budget removed all prepared text")
    raiseWhen ((encodeText truncated).length>maxBytes)
      (.assertionError "UTF-8 truncation exceeded its byte budget")
    return (truncated,true)

/-- `PreparedDocument`. -/
structure PreparedDocument where
  /-- The line of the document. -/
  text : List Char
  /-- The bytes of the document without the prefix. -/
  rawTextBytes : ℕ
  /-- The bytes of the line before it was cut. -/
  originalPreparedBytes : ℕ
  /-- Whether the line was cut. -/
  truncated : Bool
  deriving DecidableEq

/-- What is written of a document, from its title and its text. -/
def content (title text : List Char) : List Char :=
  if title≠[] ∧ text≠[] then title++['.',' ']++text else if title≠[] then title else text

/-- `document_text`, with `repr` of the identifier. -/
def documentText (record : Record) (quoted : String) (maxDocumentBytes : ℕ) :
    Except PrepareError PreparedDocument := do
  let title ← cleanLine (record.title.getD (.text [])) "title" quoted
  let text ← cleanLine (record.text.getD (.text [])) "text" quoted
  let content := content title text
  raiseWhen (content=[]) (.runtimeError ("corpus document "++quoted++" has no usable text"))
  let original := documentPrefix++content
  let (prepared,truncated) ← truncateUtf8 original maxDocumentBytes
  raiseWhen (¬documentPrefix<+:prepared) (.runtimeError
    ("document byte budget is too small to preserve the Nomic prefix: "++quoted))
  return ⟨prepared,(encodeText content).length,(encodeText original).length,truncated⟩

end Texts

section Writers

/-- `TrackedBinaryWriter`. -/
structure TrackedBinaryWriter where
  /-- The name of the file. -/
  path : String
  /-- The bytes written to the file. -/
  written : Text
  /-- Their number. -/
  bytes : ℕ
  /-- The number of lines. -/
  lines : ℕ

/-- A writer of a new file. -/
def TrackedBinaryWriter.new (path : String) : TrackedBinaryWriter := ⟨path,[],0,0⟩

/-- `write_line`. -/
def TrackedBinaryWriter.writeLine (writer : TrackedBinaryWriter) (value : List Char) :
    TrackedBinaryWriter :=
  let encoded := encodeText value++[lineFeed]
  {writer with
    written := writer.written++encoded,bytes := writer.bytes+encoded.length,lines := writer.lines+1}

/-- What `close` returns. -/
structure FileStats where
  /-- The name of the file. -/
  path : String
  /-- Its size. -/
  bytes : ℕ
  /-- The number of its lines. -/
  lines : ℕ
  /-- The digest of its bytes. -/
  sha256 : Sha256Digest

/-- `close`. -/
def TrackedBinaryWriter.close (writer : TrackedBinaryWriter) : FileStats :=
  ⟨writer.path,writer.bytes,writer.lines,digest writer.written⟩

/-- A row of the selected corpus, in the order of the query. -/
structure Row where
  /-- `corpus_id`. -/
  corpusId : List Char
  /-- `prepared_text`. -/
  prepared : List Char
  /-- `raw_text_bytes`. -/
  rawBytes : ℕ
  /-- `original_prepared_bytes`. -/
  originalBytes : ℕ
  /-- `prepared_bytes`. -/
  preparedBytes : ℕ
  /-- `truncated`. -/
  truncated : Bool

/-- The sums over the rows of a tier. -/
structure TierStats where
  /-- The bytes of the documents without the prefix. -/
  rawBytes : ℕ
  /-- The bytes of the lines before they were cut. -/
  originalPreparedBytes : ℕ
  /-- The bytes of the lines. -/
  preparedBytes : ℕ
  /-- The lines that were cut. -/
  truncatedDocuments : ℕ
  /-- The bytes of the longest line. -/
  maximumPreparedBytes : ℕ

/-- One more row of a tier. -/
def TierStats.add (stats : TierStats) (row : Row) : TierStats where
  rawBytes := stats.rawBytes+row.rawBytes
  originalPreparedBytes := stats.originalPreparedBytes+row.originalBytes
  preparedBytes := stats.preparedBytes+row.preparedBytes
  truncatedDocuments := stats.truncatedDocuments+row.truncated.toNat
  maximumPreparedBytes := max stats.maximumPreparedBytes row.preparedBytes

/-- The files and the sums of a tier. -/
structure Tier where
  /-- The lines of the documents. -/
  documents : TrackedBinaryWriter
  /-- Their positions and identifiers. -/
  documentIds : TrackedBinaryWriter
  /-- The sums over the rows. -/
  stats : TierStats

/-- A tier before the first row. -/
def Tier.new (documents documentIds : String) : Tier := ⟨.new documents,.new documentIds,⟨0,0,0,0,0⟩⟩

/-- One row goes into a tier. -/
def Tier.write (tier : Tier) (position : ℕ) (row : Row) : Tier where
  documents := tier.documents.writeLine row.prepared
  documentIds := tier.documentIds.writeLine ((toString position).toList++ '\t'::row.corpusId)
  stats := tier.stats.add row

/-- The loop of `write_documents` over the rows from a position on. -/
def writeRows (quote : List Char → String) (smallCount largeCount position : ℕ) (small large : Tier) :
    List Row → Except PrepareError (Tier×Tier)
  | [] => return (small,large)
  | row::rows => do
    raiseWhen (position≥largeCount) (.runtimeError "selected corpus unexpectedly exceeds large tier")
    raiseWhen ((encodeText row.prepared).length≠row.preparedBytes) (.runtimeError
      ("prepared-byte accounting mismatch for document "++quote row.corpusId))
    let large := large.write position row
    let small := if position<smallCount then small.write position row else small
    writeRows quote smallCount largeCount (position+1) small large rows

/-- What `write_documents` returns, with the bytes of the files. -/
structure Corpus where
  /-- The small tier. -/
  small : Tier
  /-- The large tier. -/
  large : Tier
  /-- What closing the four files returns. -/
  fileStats : List FileStats

/-- `write_documents`, up to its questions about duplicates. -/
def writeDocuments (quote : List Char → String) (smallCount largeCount : ℕ) (rows : List Row) :
    Except PrepareError Corpus := do
  let (small,large) ← writeRows quote smallCount largeCount 0
    (.new "documents-100k.txt" "document_ids-100k.tsv")
    (.new "documents-1m.txt" "document_ids-1m.tsv") rows
  raiseWhen (large.documents.lines≠largeCount) (.runtimeError ("wrote "++toString large.documents.lines++
    " large-tier documents; expected "++toString largeCount))
  raiseWhen (small.documents.lines≠smallCount) (.runtimeError ("wrote "++toString small.documents.lines++
    " small-tier documents; expected "++toString smallCount))
  return ⟨small,large,[small.documents.close,small.documentIds.close,large.documents.close,
    large.documentIds.close]⟩

end Writers

section Decoding

/-- The bytes of the last character are skipped. -/
theorem decodeIgnore_skip (skipped bytes : Text) :
    decodeIgnore skipped.length (skipped++bytes)=decodeIgnore 0 bytes := by
  induction skipped with
  | nil => rfl
  | cons byte skipped ih =>
    rw [List.length_cons,List.cons_append,decodeIgnore]
    exact ih

/-- A whole character is decoded. -/
theorem decodeIgnore_character (character : Char) (bytes : Text) :
    decodeIgnore 0 (String.utf8EncodeChar character++bytes)=character::decodeIgnore 0 bytes := by
  cases he : String.utf8EncodeChar character with
  | nil => exact absurd he String.utf8EncodeChar_ne_nil
  | cons byte rest =>
    have hsize : character.utf8Size-1=rest.length := by
      rw [←String.length_utf8EncodeChar,he]
      rfl
    have hfirst : (byte::(rest++bytes)).toByteArray.utf8DecodeChar? 0=some character := by
      rw [←List.cons_append,←he,List.toByteArray_append]
      exact ByteArray.utf8DecodeChar?_utf8EncodeChar_append
    rw [List.cons_append,decodeIgnore,hfirst]
    simp only [hsize,decodeIgnore_skip]

/-- Bytes at none of which a character begins. -/
theorem decodeIgnore_nothing {bytes : Text}
    (h : ∀ before byte after,bytes=before++byte::after →
      (byte::after).toByteArray.utf8DecodeChar? 0=none) : decodeIgnore 0 bytes=[] := by
  induction bytes with
  | nil => rfl
  | cons byte bytes ih =>
    rw [decodeIgnore,h [] byte bytes rfl]
    refine ih (fun before other after heq => h (byte::before) other after ?_)
    rw [heq]
    rfl

/-- A character that begins some bytes is at their front. -/
theorem encodes_of_decodes {bytes : Text} {character : Char}
    (h : bytes.toByteArray.utf8DecodeChar? 0=some character) :
    ∃ rest,bytes=String.utf8EncodeChar character++rest := by
  obtain ⟨rest,hrest⟩ := ByteArray.exists_of_utf8DecodeChar?_eq_some h
  refine ⟨rest.data.toList,?_⟩
  have hlist := congrArg (fun array : ByteArray => array.data.toList) hrest
  simpa using hlist

/-- The first bytes of a character alone are skipped. -/
theorem decodeIgnore_part {character : Char} {part rest : Text}
    (h : String.utf8EncodeChar character=part++rest) (hne : rest≠[]) : decodeIgnore 0 part=[] := by
  apply decodeIgnore_nothing
  intro before byte after hpart
  by_contra hsome
  obtain ⟨other,hother⟩ := Option.ne_none_iff_exists'.mp hsome
  obtain ⟨left,hleft⟩ := encodes_of_decodes hother
  have hall : String.utf8EncodeChar character=before++byte::(after++rest) := by
    rw [h,hpart,List.append_assoc]
    rfl
  -- only the first byte of a character begins one
  have hbefore : before=[] := by
    have hbyte : byte.IsUTF8FirstByte := by
      have hfirst := @UInt8.isUTF8FirstByte_getElem_zero_utf8EncodeChar other
      have hpos : 0<(String.utf8EncodeChar other).length := by simp [other.utf8Size_pos]
      have hhead : (String.utf8EncodeChar other)[0]=byte := by
        have hget : some byte=(String.utf8EncodeChar other++left)[0]? := by
          rw [←hleft]
          rfl
        rw [List.getElem?_append_left hpos,List.getElem?_eq_getElem hpos] at hget
        exact (Option.some.inj hget).symm
      rwa [hhead] at hfirst
    have hindex : before.length<(String.utf8EncodeChar character).length := by
      rw [hall,List.length_append,List.length_cons]
      omega
    have hget : (String.utf8EncodeChar character)[before.length]=byte := by
      simp [hall]
    rw [←hget,UInt8.isUTF8FirstByte_getElem_utf8EncodeChar] at hbyte
    exact List.length_eq_zero_iff.mp hbyte
  -- and the two characters that begin there are the same
  have hsame : other=character := by
    have hdecode : (String.utf8EncodeChar character++[]).toByteArray.utf8DecodeChar? 0=some other := by
      have hshort : String.utf8EncodeChar character=String.utf8EncodeChar other++(left++rest) := by
        rw [hall,hbefore,←List.append_assoc,←hleft]
        rfl
      rw [List.append_nil,hshort,List.toByteArray_append]
      exact ByteArray.utf8DecodeChar?_utf8EncodeChar_append
    rw [List.toByteArray_append,ByteArray.utf8DecodeChar?_utf8EncodeChar_append] at hdecode
    exact (Option.some.inj hdecode).symm
  rw [hsame] at hleft
  have hlength := congrArg List.length hall
  have hleftLength := congrArg List.length hleft
  have hrest : 0< rest.length := List.length_pos_iff.mpr hne
  rw [hbefore] at hlength
  simp only [List.nil_append,List.length_cons,List.length_append] at hlength hleftLength
  omega

/-- The longest part of a text, cut between two characters, that has no more
than some bytes. -/
structure Longest (text : List Char) (maxBytes : ℕ) (kept : List Char) : Prop where
  /-- It is the beginning of the text. -/
  beginning : kept<+:text
  /-- It has no more bytes. -/
  bounded : (encodeText kept).length≤ maxBytes
  /-- Every other one is part of it. -/
  longest : ∀ other,other<+:text → (encodeText other).length≤ maxBytes → other<+:kept

/-- The bytes of a text behind its first character. -/
theorem encodeText_cons (character : Char) (text : List Char) :
    encodeText (character::text)=String.utf8EncodeChar character++encodeText text :=
  List.flatMap_cons

/-- Cutting the bytes of a text and dropping what is left of a character gives
its longest part. -/
theorem decodeIgnore_longest (text : List Char) (maxBytes : ℕ) :
    Longest text maxBytes (decodeIgnore 0 ((encodeText text).take maxBytes)) := by
  induction text generalizing maxBytes with
  | nil =>
    rw [encodeText,List.flatMap_nil,List.take_nil]
    exact ⟨List.prefix_refl _,Nat.zero_le _,fun _ hp _ => hp⟩
  | cons character text ih =>
    rw [encodeText_cons]
    by_cases hfits : (String.utf8EncodeChar character).length≤ maxBytes
    · obtain ⟨hbeginning,hbounded,hlongest⟩ := ih (maxBytes-(String.utf8EncodeChar character).length)
      rw [List.take_append,List.take_of_length_le hfits,decodeIgnore_character]
      refine ⟨(List.prefix_cons_inj _).mpr hbeginning,?_,?_⟩
      · rw [encodeText_cons,List.length_append]
        omega
      · intro other hp hb
        cases other with
        | nil => exact List.nil_prefix
        | cons first other =>
          obtain ⟨hfirst,hp⟩ := List.cons_prefix_cons.mp hp
          rw [hfirst,encodeText_cons,List.length_append] at hb
          rw [hfirst]
          exact (List.prefix_cons_inj _).mpr (hlongest other hp (by omega))
    · have hpart : decodeIgnore 0 ((String.utf8EncodeChar character).take maxBytes)=[] := by
        refine decodeIgnore_part (List.take_append_drop maxBytes _).symm (fun hnil => hfits ?_)
        exact List.drop_eq_nil_iff.mp hnil
      rw [List.take_append_of_le_length (by omega),hpart]
      refine ⟨List.nil_prefix,Nat.zero_le _,?_⟩
      intro other hp hb
      cases other with
      | nil => exact List.nil_prefix
      | cons first other =>
        obtain ⟨hfirst,hp⟩ := List.cons_prefix_cons.mp hp
        rw [hfirst,encodeText_cons,List.length_append] at hb
        omega

/-- A text is its longest part where it fits. -/
theorem Longest.eq_of_fits {text kept : List Char} {maxBytes : ℕ} (h : Longest text maxBytes kept)
    (hfits : (encodeText text).length≤ maxBytes) : kept=text :=
  h.beginning.eq_of_length_le (h.longest text (List.prefix_refl _) hfits).length_le

end Decoding

section Lines

/-- A line that every reader returns as it is. -/
structure PlainLine (line : List Char) : Prop where
  /-- It has characters. -/
  ne_nil : line≠[]
  /-- None of them is a line feed. -/
  no_lineFeed : '\n'∉line
  /-- None of them is a carriage return. -/
  no_return : '\r'∉line

/-- The text of a file with some lines. -/
def fileText (lines : List (List Char)) : List Char := lines.flatMap (·++['\n'])

/-- Characters without a line feed belong to the line. -/
theorem characterLines_append {characters : List Char} (h : '\n'∉characters) (line text : List Char) :
    characterLines line (characters++text)=characterLines (line++characters) text := by
  induction characters generalizing line with
  | nil => rw [List.nil_append,List.append_nil]
  | cons character characters ih =>
    have hcharacter : character≠ '\n' := fun he => h (he ▸ List.mem_cons_self)
    rw [List.cons_append,characterLines,if_neg hcharacter,ih (fun hm => h (List.mem_cons_of_mem _ hm)),
      List.append_assoc]
    rfl

/-- A plain line stays as it is. -/
theorem finishCharacters_plain {line : List Char} (h : PlainLine line) : finishCharacters line=[line] := by
  have hlast : line.getLast?≠some '\r' := fun hlast => h.no_return (List.mem_of_getLast? hlast)
  have hempty : ¬line.isEmpty := by
    rw [List.isEmpty_iff]
    exact h.ne_nil
  rw [finishCharacters,if_neg hlast]
  exact if_neg hempty

/-- The native readers return the lines of a file. -/
theorem characterLines_fileText {lines : List (List Char)} (h : ∀ line∈lines,PlainLine line) :
    characterLines [] (fileText lines)=lines := by
  induction lines with
  | nil => rfl
  | cons line lines ih =>
    rw [List.forall_mem_cons] at h
    have htext : fileText (line::lines)=line++('\n'::fileText lines) := by
      rw [fileText,List.flatMap_cons,List.append_assoc]
      rfl
    rw [htext,characterLines_append h.1.no_lineFeed,List.nil_append,characterLines,if_pos rfl,
      finishCharacters_plain h.1,ih h.2]
    rfl

/-- No carriage return stands in such a file. -/
theorem no_return_fileText {lines : List (List Char)} (h : ∀ line∈lines,PlainLine line) :
    '\r'∉fileText lines := by
  intro hm
  obtain ⟨line,hl,hm⟩ := List.mem_flatMap.mp hm
  rcases List.mem_append.mp hm with hm|hm
  · exact (h line hl).no_return hm
  · exact absurd (List.mem_singleton.mp hm) (by decide)

/-- Where there is no carriage return, none is followed by anything. -/
theorem followedByFeed_of_no_return {text : List Char} (h : '\r'∉text) : text.IsChain FollowedByFeed := by
  rw [List.isChain_iff_forall_rel_of_append_cons_cons]
  intro first second before after htext hfirst
  refine absurd ?_ h
  rw [htext,hfirst]
  exact List.mem_append_right _ List.mem_cons_self

/-- The three line readers return the lines of a file. -/
structure ReadBack (lines : List (List Char)) (bytes : Text) : Prop where
  /-- `read_lines` of the native program. -/
  readLines_eq : readLines bytes=lines.map encodeText
  /-- `read_documents_source` of the native program, whatever its reads deliver,
  for a file that its digest can count. -/
  readDocumentsSource_eq : ∀ buffers : List Text,buffers.flatten=bytes → ∀ source,
    readDocumentsSource buffers=.ok source ↔ bytes.length≤uint64Max/8 ∧
      source=⟨lines.map encodeText,bytes.length,digest bytes⟩
  /-- `iter_nonempty_lines` of the scripts. -/
  iterNonemptyLines_eq : ∃ text,bytes=encodeText text ∧ iterNonemptyLines text=lines

/-- Files of plain lines are read back. -/
theorem readBack_fileText {lines : List (List Char)} (h : ∀ line∈lines,PlainLine line) :
    ReadBack lines (encodeText (fileText lines)) := by
  have hlines : readLines (encodeText (fileText lines))=lines.map encodeText := by
    rw [readLines_eq]
    change nativeLines (encodeText []) _=_
    rw [nativeLines_encodeText,characterLines_fileText h]
  refine ⟨hlines,?_,fileText lines,rfl,?_⟩
  · intro buffers hb source
    rw [readDocumentsSource_ok_iff,hb,hlines]
  · rw [←(characterLines_iff _).mpr (followedByFeed_of_no_return (no_return_fileText h)),
      characterLines_fileText h]

end Lines

section Documents

/-- A text in which only single characters of white space stand that are
spaces, and none at its end. -/
structure Clean (text : List Char) : Prop where
  /-- White space is a space. -/
  space_eq : ∀ character∈text,isSpace character=true → character= ' '
  /-- The last character is no white space. -/
  last_eq : ∀ character∈text.getLast?,isSpace character=false

/-- The empty text. -/
theorem clean_nil : Clean [] :=
  ⟨fun _ hm => absurd hm List.not_mem_nil,fun _ hm => absurd hm (by simp)⟩

/-- A text behind another one, in which white space is a space. -/
theorem Clean.append {first second : List Char} (hspace : ∀ character∈first,isSpace character=true →
    character= ' ') (h : Clean second) (hne : second≠[]) : Clean (first++second) := by
  refine ⟨fun character hm hs => ?_,fun character hm => ?_⟩
  · rcases List.mem_append.mp hm with hm|hm
    · exact hspace character hm hs
    · exact h.space_eq character hm hs
  · rw [List.getLast?_append_of_ne_nil _ hne] at hm
    exact h.last_eq character hm

/-- Words behind one another. -/
theorem clean_intercalate {items : List (List Char)}
    (h : ∀ item∈items,item≠[] ∧ ∀ character∈item,isSpace character=false) :
    Clean (List.intercalate [' '] items) := by
  have hword : ∀ item : List Char,(item≠[] ∧ ∀ character∈item,isSpace character=false) →
      Clean item := by
    intro item hi
    refine ⟨fun character hm hs => ?_,fun character hm => hi.2 character (List.mem_of_getLast? hm)⟩
    rw [hi.2 character hm] at hs
    cases hs
  induction items with
  | nil => exact clean_nil
  | cons item items ih =>
    rw [List.forall_mem_cons] at h
    cases items with
    | nil =>
      rw [List.intercalate_singleton]
      exact hword item h.1
    | cons next items =>
      rw [List.intercalate_cons_cons]
      refine Clean.append (fun character hm hs => ?_) (ih h.2) (fun hnil => ?_)
      · rcases List.mem_append.mp hm with hm|hm
        · exact (hword item h.1).space_eq character hm hs
        · exact List.mem_singleton.mp hm
      · have hnext := (h.2 next List.mem_cons_self).1
        cases items with
        | nil =>
          rw [List.intercalate_singleton] at hnil
          exact hnext hnil
        | cons other items =>
          rw [List.intercalate_cons_cons,List.append_eq_nil_iff,List.append_eq_nil_iff] at hnil
          exact hnext hnil.1.1

/-- A cleaned text. -/
theorem clean_cleanText (characters : List Char) : Clean (cleanText characters) :=
  clean_intercalate (fun _ hm => mem_words (fun _ h => absurd h List.not_mem_nil) hm)

/-- A cleaned value. -/
theorem clean_of_cleanLine {value : Value} {field quoted : String} {line : List Char}
    (h : cleanLine value field quoted=.ok line) : Clean line := by
  cases value with
  | none =>
    rw [←Except.ok.inj h]
    exact clean_nil
  | text characters =>
    rw [←Except.ok.inj h]
    exact clean_cleanText characters
  | other typeName => cases h

/-- What is written of a document. -/
theorem clean_content {title text : List Char} (ht : Clean title) (hx : Clean text) :
    Clean (content title text) := by
  unfold content
  split
  · rename_i hboth
    refine Clean.append (fun character hm hs => ?_) hx hboth.2
    rcases List.mem_append.mp hm with hm|hm
    · exact ht.space_eq character hm hs
    · rcases List.mem_cons.mp hm with hm|hm
      · rw [hm] at hs
        exact absurd hs (by decide)
      · exact List.mem_singleton.mp hm
  · split
    · exact ht
    · exact hx

/-- The prefix has one character of white space. -/
theorem documentPrefix_space : ∀ character∈documentPrefix,isSpace character=true → character= ' ' := by
  decide

/-- What `truncate_utf8` makes of a text. -/
theorem truncateUtf8_cases {value line : List Char} {maxBytes : ℕ} {truncated : Bool}
    (h : truncateUtf8 value maxBytes=.ok (line,truncated)) :
    (encodeText value).length≤ maxBytes ∧ line=value ∧ truncated=false ∨
      ¬(encodeText value).length≤ maxBytes ∧ truncated=true ∧ line≠[] ∧
      (encodeText line).length≤ maxBytes ∧
      line=rstrip (decodeIgnore 0 ((encodeText value).take maxBytes)) := by
  unfold truncateUtf8 at h
  by_cases hfits : (encodeText value).length≤ maxBytes
  · rw [if_pos hfits] at h
    have heq := Prod.mk.inj (Except.ok.inj h)
    exact Or.inl ⟨hfits,heq.1.symm,heq.2.symm⟩
  · rw [if_neg hfits] at h
    obtain ⟨_,hne,h⟩ := (bind_eq_ok _ _ _).mp h
    obtain ⟨_,hbound,h⟩ := (bind_eq_ok _ _ _).mp h
    rw [raiseWhen_ok] at hne hbound
    have heq := Prod.mk.inj (Except.ok.inj h)
    rw [heq.1] at hne hbound
    exact Or.inr ⟨hfits,heq.2.symm,hne,not_lt.mp hbound,heq.1.symm⟩

/-- A line that is left of a text is the beginning of it. -/
theorem truncateUtf8_beginning {value line : List Char} {maxBytes : ℕ} {truncated : Bool}
    (h : truncateUtf8 value maxBytes=.ok (line,truncated)) : line<+:value := by
  rcases truncateUtf8_cases h with ⟨-,hline,-⟩|⟨-,-,-,-,hline⟩
  · rw [hline]
  · rw [hline]
    exact (List.rdropWhile_prefix _ _).trans (decodeIgnore_longest value maxBytes).beginning

/-- What is left of a clean text is clean. -/
theorem clean_truncateUtf8 {value line : List Char} {maxBytes : ℕ} {truncated : Bool}
    (hc : Clean value) (h : truncateUtf8 value maxBytes=.ok (line,truncated)) : Clean line := by
  refine ⟨fun character hm => hc.space_eq character ((truncateUtf8_beginning h).subset hm),?_⟩
  rcases truncateUtf8_cases h with ⟨-,hline,-⟩|⟨-,-,hne,-,hline⟩
  · rw [hline]
    exact hc.last_eq
  · intro character hm
    rw [hline] at hne
    have hlast := List.rdropWhile_last_not _ _ hne
    rw [hline,List.getLast?_eq_some_getLast hne] at hm
    rw [←Option.some.inj hm]
    exact Bool.eq_false_iff.mpr hlast

/-- The line of a document before it is cut. -/
def originalText (title text : List Char) : List Char :=
  documentPrefix++content (cleanText title) (cleanText text)

/-- What `document_text` makes of a line. -/
structure Prepared (original : List Char) (maxBytes : ℕ) (document : PreparedDocument) : Prop where
  /-- The line begins with the prefix. -/
  beginning : documentPrefix<+:document.text
  /-- It has no more bytes than allowed. -/
  bounded : (encodeText document.text).length≤ maxBytes
  /-- Its first character is no white space. -/
  first_eq : ∀ character∈document.text.head?,isSpace character=false
  /-- Its last character is no white space. -/
  last_eq : ∀ character∈document.text.getLast?,isSpace character=false
  /-- It is not empty, and every reader returns it as it is. -/
  plain : PlainLine document.text
  /-- It is the whole line when it is not cut. -/
  whole : document.truncated=false → document.text=original
  /-- It is the longest part that fits, without white space at its end, when it
  is cut. -/
  longest : document.truncated=true →
    ∃ kept,Longest original maxBytes kept ∧ document.text=kept.rdropWhile isSpace

/-- What `document_text` found on its way to a document. -/
theorem documentText_ok {record : Record} {quoted : String} {maxBytes : ℕ} {document : PreparedDocument}
    (h : documentText record quoted maxBytes=.ok document) :
    ∃ title text,cleanLine (record.title.getD (.text [])) "title" quoted=.ok title ∧
      cleanLine (record.text.getD (.text [])) "text" quoted=.ok text ∧ content title text≠[] ∧
      truncateUtf8 (documentPrefix++content title text) maxBytes=.ok (document.text,document.truncated) ∧
      documentPrefix<+:document.text := by
  obtain ⟨title,htitle,h⟩ := (bind_eq_ok _ _ _).mp h
  obtain ⟨text,htext,h⟩ := (bind_eq_ok _ _ _).mp h
  obtain ⟨_,hcontent,h⟩ := (bind_eq_ok _ _ _).mp h
  obtain ⟨cut,hcut,h⟩ := (bind_eq_ok _ _ _).mp h
  obtain ⟨_,hbeginning,h⟩ := (bind_eq_ok _ _ _).mp h
  rw [raiseWhen_ok] at hcontent hbeginning
  refine ⟨title,text,htitle,htext,hcontent,?_,?_⟩
  · rw [hcut,←Except.ok.inj h]
  · rw [←Except.ok.inj h]
    exact not_not.mp hbeginning

/-- A line that begins with the prefix and has no white space but spaces. -/
theorem plain_of_clean {line : List Char} (hc : Clean line) (hp : documentPrefix<+:line) :
    PlainLine line := by
  refine ⟨fun hnil => ?_,fun hm => ?_,fun hm => ?_⟩
  · rw [hnil] at hp
    exact absurd (List.prefix_nil.mp hp) (by decide)
  · exact absurd (hc.space_eq _ hm (by decide)) (by decide)
  · exact absurd (hc.space_eq _ hm (by decide)) (by decide)

/-- A returned document is a clean line behind the prefix. -/
theorem clean_of_documentText {record : Record} {quoted : String} {maxBytes : ℕ}
    {document : PreparedDocument} (h : documentText record quoted maxBytes=.ok document) :
    Clean document.text ∧ PlainLine document.text := by
  obtain ⟨title,text,htitle,htext,hne,hcut,hbeginning⟩ := documentText_ok h
  have horiginal : Clean (documentPrefix++content title text) :=
    Clean.append documentPrefix_space (clean_content (clean_of_cleanLine htitle)
      (clean_of_cleanLine htext)) hne
  have hclean := clean_truncateUtf8 horiginal hcut
  exact ⟨hclean,plain_of_clean hclean hbeginning⟩

/-- Every returned document is what was promised. -/
theorem documentText_prepared {title text : List Char} {quoted : String} {maxBytes : ℕ}
    {document : PreparedDocument}
    (h : documentText ⟨some (.text title),some (.text text)⟩ quoted maxBytes=.ok document) :
    Prepared (originalText title text) maxBytes document := by
  obtain ⟨hclean,hplain⟩ := clean_of_documentText h
  obtain ⟨title',text',htitle,htext,-,hcut,hbeginning⟩ := documentText_ok h
  have hwhole : documentPrefix++content title' text'=originalText title text := by
    rw [←Except.ok.inj htitle,←Except.ok.inj htext]
    rfl
  rw [hwhole] at hcut
  have hfirst : document.text.head?=some 's' := by
    obtain ⟨rest,hrest⟩ := hbeginning
    rw [←hrest]
    rfl
  refine ⟨hbeginning,?_,fun character hm => ?_,hclean.last_eq,hplain,fun hf => ?_,fun ht => ?_⟩
  · rcases truncateUtf8_cases hcut with ⟨hfits,hline,-⟩|⟨-,-,-,hbound,-⟩
    · rw [hline]
      exact hfits
    · exact hbound
  · rw [hfirst] at hm
    rw [←Option.some.inj hm]
    decide
  · rcases truncateUtf8_cases hcut with ⟨-,hline,-⟩|⟨-,htrue,-,-,-⟩
    · exact hline
    · rw [hf] at htrue
      cases htrue
  · rcases truncateUtf8_cases hcut with ⟨-,-,hfalse⟩|⟨-,-,-,-,hline⟩
    · rw [ht] at hfalse
      cases hfalse
    · exact ⟨_,decodeIgnore_longest _ _,hline⟩

end Documents

section Tiers

/-- What a writer has written. -/
structure Wrote (writer : TrackedBinaryWriter) (lines : List (List Char)) : Prop where
  /-- The bytes are those of the lines. -/
  written_eq : writer.written=encodeText (fileText lines)
  /-- The bytes were counted. -/
  bytes_eq : writer.bytes=writer.written.length
  /-- The lines were counted. -/
  lines_eq : writer.lines=lines.length

/-- Nothing was written yet. -/
theorem wrote_new (path : String) : Wrote (.new path) [] := ⟨rfl,rfl,rfl⟩

/-- One more line. -/
theorem Wrote.writeLine {writer : TrackedBinaryWriter} {lines : List (List Char)} (h : Wrote writer lines)
    (line : List Char) : Wrote (writer.writeLine line) (lines++[line]) := by
  refine ⟨?_,?_,?_⟩
  · have htext : fileText (lines++[line])=fileText lines++(line++['\n']) := by
      rw [fileText,List.flatMap_append,List.flatMap_singleton]
      rfl
    rw [htext,encodeText_append,encodeText_append,←h.written_eq]
    rfl
  · change writer.bytes+(encodeText line++[lineFeed]).length=_
    rw [h.bytes_eq]
    exact List.length_append.symm
  · change writer.lines+1=_
    rw [h.lines_eq,List.length_append,List.length_singleton]

/-- The loop writes every row to the large tier, and the first ones to the
small tier. -/
theorem writeRows_wrote {quote : List Char → String} {smallCount largeCount position : ℕ}
    {small large small' large' : Tier} {smallLines largeLines : List (List Char)} {rows : List Row}
    (hs : Wrote small.documents smallLines) (hl : Wrote large.documents largeLines)
    (h : writeRows quote smallCount largeCount position small large rows=.ok (small',large')) :
    Wrote small'.documents (smallLines++((rows.take (smallCount-position)).map Row.prepared)) ∧
      Wrote large'.documents (largeLines++rows.map Row.prepared) := by
  induction rows generalizing position small large smallLines largeLines with
  | nil =>
    have heq := Prod.mk.inj (Except.ok.inj h)
    rw [List.take_nil,List.map_nil,List.append_nil,List.append_nil,←heq.1,←heq.2]
    exact ⟨hs,hl⟩
  | cons row rows ih =>
    obtain ⟨_,-,h⟩ := (bind_eq_ok _ _ _).mp h
    obtain ⟨_,-,h⟩ := (bind_eq_ok _ _ _).mp h
    have hl' : Wrote (large.write position row).documents (largeLines++[row.prepared]) := hl.writeLine _
    have hlarge : largeLines++(row::rows).map Row.prepared=
        largeLines++[row.prepared]++rows.map Row.prepared := by
      rw [List.map_cons,List.append_assoc]
      rfl
    by_cases hp : position<smallCount
    · rw [if_pos hp] at h
      have hs' : Wrote (small.write position row).documents (smallLines++[row.prepared]) :=
        hs.writeLine _
      have hsmall : smallLines++((row::rows).take (smallCount-position)).map Row.prepared=
          smallLines++[row.prepared]++((rows.take (smallCount-(position+1))).map Row.prepared) := by
        have hcount : smallCount-position=smallCount-(position+1)+1 := by omega
        rw [hcount,List.take_succ_cons,List.map_cons,List.append_assoc]
        rfl
      rw [hsmall,hlarge]
      exact ih hs' hl' h
    · rw [if_neg hp] at h
      obtain ⟨hsmall,hlast⟩ := ih hs hl' h
      rw [Nat.sub_eq_zero_of_le (by omega)] at hsmall ⊢
      rw [hlarge]
      exact ⟨hsmall,hlast⟩

/-- A document returned for some record. -/
def OfDocument (row : Row) : Prop :=
  ∃ record quoted maxBytes document,documentText record quoted maxBytes=.ok document ∧
    row.prepared=document.text

/-- Every prepared line is one line of the files it is written to: a returned
document is one plain line within the budget, whole or cut at the last
character that fits, and the tiers that `write_documents` writes from such
documents are read back row by row. -/
theorem prepared_lines :
    (∀ title text quoted maxBytes document,
      documentText ⟨some (.text title),some (.text text)⟩ quoted maxBytes=.ok document →
        Prepared (originalText title text) maxBytes document) ∧
    ∀ quote smallCount largeCount rows corpus,(∀ row∈rows,OfDocument row) →
      writeDocuments quote smallCount largeCount rows=.ok corpus →
      ReadBack (rows.map Row.prepared) corpus.large.documents.written ∧ rows.length=largeCount ∧
      ReadBack ((rows.take smallCount).map Row.prepared) corpus.small.documents.written ∧
        (rows.take smallCount).length=smallCount := by
  refine ⟨fun _ _ _ _ _ h => documentText_prepared h,?_⟩
  intro quote smallCount largeCount rows corpus hrows h
  obtain ⟨tiers,htiers,h⟩ := (bind_eq_ok _ _ _).mp h
  obtain ⟨_,hlarge,h⟩ := (bind_eq_ok _ _ _).mp h
  obtain ⟨_,hsmall,h⟩ := (bind_eq_ok _ _ _).mp h
  rw [raiseWhen_ok,not_not] at hlarge hsmall
  obtain ⟨hs,hl⟩ := writeRows_wrote (wrote_new _) (wrote_new _) htiers
  rw [List.nil_append] at hs hl
  have hplain : ∀ line∈rows.map Row.prepared,PlainLine line := by
    intro line hm
    obtain ⟨row,hr,hline⟩ := List.mem_map.mp hm
    obtain ⟨record,quoted,maxBytes,document,hdocument,hprepared⟩ := hrows row hr
    rw [←hline,hprepared]
    exact (clean_of_documentText hdocument).2
  have hfirst : ∀ line∈(rows.take smallCount).map Row.prepared,PlainLine line := by
    intro line hm
    rw [List.map_take] at hm
    exact hplain line (List.mem_of_mem_take hm)
  rw [←Except.ok.inj h]
  refine ⟨?_,?_,?_,?_⟩
  · rw [hl.written_eq]
    exact readBack_fileText hplain
  · rw [←hlarge,hl.lines_eq,List.length_map]
  · rw [hs.written_eq]
    exact readBack_fileText hfirst
  · rw [hs.lines_eq,List.length_map] at hsmall
    exact hsmall

/-- A title with a line feed and a text that is cut inside its last character,
and the tier of this one line. -/
theorem prepared_lines_cut :
    Prepared (originalText ['A','\n','B'] ['c',' ','é','é']) 25
        ⟨"search_document: A B. c".toList,11,28,true⟩ ∧
      ∃ corpus,writeDocuments String.ofList 1 1 [⟨['7'],"search_document: A B. c".toList,11,28,23,true⟩]=
          .ok corpus ∧ ReadBack ["search_document: A B. c".toList] corpus.large.documents.written := by
  have hdocument : documentText ⟨some (.text ['A','\n','B']),some (.text ['c',' ','é','é'])⟩ "7" 25=
      .ok ⟨"search_document: A B. c".toList,11,28,true⟩ := by
    decide +kernel
  refine ⟨prepared_lines.1 _ _ _ _ _ hdocument,?_⟩
  cases hw : writeDocuments String.ofList 1 1
      [⟨['7'],"search_document: A B. c".toList,11,28,23,true⟩] with
  | error failure =>
    have hok : (writeDocuments String.ofList 1 1
        [⟨['7'],"search_document: A B. c".toList,11,28,23,true⟩]).toBool=true := by
      decide +kernel
    rw [hw] at hok
    cases hok
  | ok corpus =>
    have hrows : ∀ row∈[(⟨['7'],"search_document: A B. c".toList,11,28,23,true⟩ : Row)],
        OfDocument row := by
      intro row hr
      rw [List.mem_singleton.mp hr]
      exact ⟨_,_,_,_,hdocument,rfl⟩
    exact ⟨corpus,rfl,(prepared_lines.2 _ _ _ _ _ hrows hw).1⟩

end Tiers

end Leann.PreparedLines
