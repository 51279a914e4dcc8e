import Leann.Checksum

/-!
# The three line readers

`read_lines` and `read_documents_source` of the native program and
`iter_nonempty_lines` of the scripts. The native readers end a line at a line
feed only. Python also ends it at a carriage return, so they agree exactly on
files in which nothing but a line feed or the end follows a carriage return.
-/

namespace Leann.Lines

open Exceptions Outcomes Format Checksum

section Native

/-- The byte that ends a line. -/
def lineFeed : UInt8 := 10

/-- The byte that is dropped from the end of a line. -/
def carriageReturn : UInt8 := 13

/-- `std::getline`, behind the bytes already taken: the line and what follows
it, unless the file is at its end. -/
def getline (line : Text) : Text → Option (Text×Text)
  | [] => if line.isEmpty then none else some (line,[])
  | byte::input => if byte=lineFeed then some (line,input) else getline (line++[byte]) input

/-- Drop a carriage return, and an empty line altogether. -/
def finishLine (line : Text) : List Text :=
  let line := if line.getLast?=some carriageReturn then line.dropLast else line
  if line.isEmpty then [] else [line]

/-- A line that was read makes the file shorter. -/
theorem getline_length {line input : Text} {result : Text×Text} (h : getline line input=some result) :
    result.2.length< input.length+line.length := by
  induction input generalizing line with
  | nil =>
    rw [getline] at h
    split at h
    · cases h
    · rename_i hne
      have hpos : 0<line.length := by
        rw [List.isEmpty_iff,←List.length_eq_zero_iff] at hne
        omega
      rw [←Option.some.inj h]
      rwa [List.length_nil,Nat.zero_add]
  | cons byte input ih =>
    rw [getline] at h
    split at h
    · have hresult : (line,input)=result := Option.some.inj h
      have hlength : result.2.length=input.length := by rw [←hresult]
      rw [hlength,List.length_cons]
      omega
    · have hlt := ih h
      rw [List.length_append,List.length_singleton] at hlt
      rw [List.length_cons]
      omega

/-- `read_lines`. -/
def readLines (input : Text) : List Text :=
  match _h : getline [] input with
  | none => []
  | some result => finishLine result.1++readLines result.2
termination_by input.length
decreasing_by exact getline_length _h

/-- `DocumentsSource`. -/
structure DocumentsSource where
  /-- The lines that are not empty. -/
  documents : List Text
  /-- The size of the file. -/
  fileSize : ℕ
  /-- The digest of the file. -/
  sha256 : Sha256Digest

/-- The variables of `read_documents_source`. -/
structure Scan where
  /-- The lines finished so far. -/
  documents : List Text
  /-- The line that is being read. -/
  line : Text
  /-- The bytes read so far. -/
  fileSize : ℕ
  /-- The digest of the bytes read so far. -/
  hasher : Sha256

/-- One byte of the buffer. -/
def scanByte (scan : Scan) (byte : UInt8) : Scan :=
  if byte=lineFeed then {scan with documents := scan.documents++finishLine scan.line,line := []}
  else {scan with line := scan.line++[byte]}

/-- One round of the loop, with what a read delivered. -/
def scanBuffer (scan : Scan) (buffer : Text) : Except Fault Scan :=
  if buffer.isEmpty then return scan
  else do
    throwIf (buffer.length>uint64Max-scan.fileSize) (runtimeError "documents file is too large")
    let hasher ← scan.hasher.update buffer
    return buffer.foldl scanByte
      {scan with fileSize := scan.fileSize+buffer.length,hasher := hasher}

/-- `read_documents_source`, with what its reads deliver. -/
def readDocumentsSource (buffers : List Text) : Except Fault DocumentsSource := do
  let scan ← buffers.foldlM scanBuffer ⟨[],[],0,.new⟩
  let documents := if scan.line.isEmpty then scan.documents
    else scan.documents++finishLine scan.line
  let sha256 ← scan.hasher.finish
  return ⟨documents,scan.fileSize,sha256⟩

end Native

section Python

/-- The lines of a text file that is opened with `newline=""`, with their
terminators, behind the characters already taken. -/
def textLines (line : List Char) : List Char → List (List Char)
  | [] => if line.isEmpty then [] else [line]
  | '\n'::input => (line++['\n'])::textLines [] input
  | '\r':: '\n'::input => (line++['\r','\n'])::textLines [] input
  | '\r'::input => (line++['\r'])::textLines [] input
  | character::input => textLines (line++[character]) input

/-- One round of the loop of `iter_nonempty_lines`. -/
def yieldLine (line : List Char) : List (List Char) :=
  let line := if line.getLast?=some '\n' then line.dropLast else line
  let line := if line.getLast?=some '\r' then line.dropLast else line
  if line.isEmpty then [] else [line]

/-- `iter_nonempty_lines`. -/
def iterNonemptyLines (text : List Char) : List (List Char) := (textLines [] text).flatMap yieldLine

/-- The UTF-8 encoding of a text. -/
def encodeText (text : List Char) : Text := text.flatMap String.utf8EncodeChar

end Python

section Readers

/-- The lines of a file behind the bytes already taken. -/
def nativeLines (line : Text) : Text → List Text
  | [] => finishLine line
  | byte::input =>
    if byte=lineFeed then finishLine line++nativeLines [] input else nativeLines (line++[byte]) input

/-- Reading line by line is reading byte by byte. -/
theorem nativeLines_getline (line input : Text) : nativeLines line input=
    match getline line input with
    | none => []
    | some result => finishLine result.1++nativeLines [] result.2 := by
  induction input generalizing line with
  | nil =>
    rw [nativeLines,getline]
    by_cases h : line.isEmpty
    · rw [if_pos h,List.isEmpty_iff.mp h]
      rfl
    · rw [if_neg h]
      exact (List.append_nil _).symm
  | cons byte input ih =>
    rw [nativeLines,getline]
    by_cases h : byte=lineFeed
    · rw [if_pos h,if_pos h]
    · rw [if_neg h,if_neg h]
      exact ih (line++[byte])

/-- `read_lines` ends lines at line feeds. -/
theorem readLines_eq (input : Text) : readLines input=nativeLines [] input := by
  induction hn : input.length using Nat.strong_induction_on generalizing input with
  | h n ih =>
    rw [nativeLines_getline,readLines]
    cases h : getline [] input with
    | none => rfl
    | some result =>
      have hlt := getline_length h
      rw [hn,List.length_nil,Nat.add_zero] at hlt
      exact congrArg (finishLine result.1++·) (ih _ hlt result.2 rfl)

/-- The lines of a scan once the rest of the file is read. -/
def Scan.lines (scan : Scan) (input : Text) : List Text :=
  scan.documents++nativeLines scan.line input

/-- One byte. -/
theorem scanByte_lines (scan : Scan) (byte : UInt8) (input : Text) :
    (scanByte scan byte).lines input=scan.lines (byte::input) := by
  unfold scanByte Scan.lines
  rw [nativeLines]
  by_cases h : byte=lineFeed
  · rw [if_pos h,if_pos h]
    exact List.append_assoc _ _ _
  · rw [if_neg h,if_neg h]

/-- A buffer. -/
theorem foldl_scanByte_lines (buffer : Text) (scan : Scan) (input : Text) :
    (buffer.foldl scanByte scan).lines input=scan.lines (buffer++input) ∧
      (buffer.foldl scanByte scan).fileSize=scan.fileSize ∧
      (buffer.foldl scanByte scan).hasher=scan.hasher := by
  induction buffer generalizing scan with
  | nil => exact ⟨rfl,rfl,rfl⟩
  | cons byte buffer ih =>
    obtain ⟨hl,hs,hh⟩ := ih (scanByte scan byte)
    have hkeep : (scanByte scan byte).fileSize=scan.fileSize ∧
        (scanByte scan byte).hasher=scan.hasher := by
      unfold scanByte
      split <;> exact ⟨rfl,rfl⟩
    rw [List.foldl_cons]
    exact ⟨hl.trans (scanByte_lines scan byte _),hs.trans hkeep.1,hh.trans hkeep.2⟩

/-- What has been read. -/
structure Scanned (input : Text) (scan : Scan) : Prop where
  /-- The lines are those of the bytes read. -/
  lines_eq : ∀ rest,scan.lines rest=nativeLines [] (input++rest)
  /-- The bytes were counted. -/
  fileSize_eq : scan.fileSize=input.length
  /-- The bytes were hashed. -/
  hashed : Absorbed scan.hasher input

/-- A buffer is read as long as the digest can count its bytes. -/
theorem scanBuffer_scanned {input : Text} {scan : Scan} (h : Scanned input scan) (buffer : Text)
    (hl : input.length+buffer.length≤uint64Max) :
    ∃ after,scanBuffer scan buffer=.ok after ∧ Scanned (input++buffer) after := by
  by_cases hempty : buffer.isEmpty
  · refine ⟨scan,if_pos hempty,?_⟩
    rw [List.isEmpty_iff.mp hempty,List.append_nil]
    exact h
  · obtain ⟨hasher,hu,ha⟩ := update_absorbed h.hashed buffer hl
    have hfits : ¬buffer.length>uint64Max-scan.fileSize := by
      rw [h.fileSize_eq]
      omega
    refine ⟨buffer.foldl scanByte
      {scan with fileSize := scan.fileSize+buffer.length,hasher := hasher},?_,?_⟩
    · rw [scanBuffer,if_neg hempty,(throwIf_ok _ _ ()).mpr hfits]
      change (scan.hasher.update buffer>>=_)=_
      rw [hu]
      rfl
    · have hfold := fun rest => foldl_scanByte_lines buffer
        {scan with fileSize := scan.fileSize+buffer.length,hasher := hasher} rest
      refine ⟨fun rest => ?_,?_,?_⟩
      · rw [(hfold rest).1,List.append_assoc,←h.lines_eq]
        rfl
      · rw [(hfold []).2.1,List.length_append,h.fileSize_eq]
      · rw [(hfold []).2.2]
        exact ha

/-- A buffer that was read could be counted. -/
theorem scanBuffer_ok {input : Text} {scan after : Scan} {buffer : Text} (h : Scanned input scan)
    (hok : scanBuffer scan buffer=.ok after) : Scanned (input++buffer) after := by
  have hl : input.length+buffer.length≤uint64Max := by
    by_contra hover
    have hb := h.hashed.bounded
    have hne : ¬buffer.isEmpty := by
      intro hempty
      rw [List.isEmpty_iff.mp hempty,List.length_nil] at hover
      omega
    have hlarge : buffer.length>uint64Max-scan.fileSize := by
      rw [h.fileSize_eq]
      omega
    rw [scanBuffer,if_neg hne,throwIf,if_pos hlarge] at hok
    cases hok
  obtain ⟨result,hresult,hscanned⟩ := scanBuffer_scanned h buffer hl
  rw [←Except.ok.inj (hresult.symm.trans hok)]
  exact hscanned

/-- The buffers that were read. -/
theorem foldlM_scanBuffer_ok {input : Text} {scan after : Scan} {buffers : List Text}
    (h : Scanned input scan) (hok : buffers.foldlM scanBuffer scan=.ok after) :
    Scanned (input++buffers.flatten) after := by
  induction buffers generalizing input scan with
  | nil =>
    rw [List.flatten_nil,List.append_nil,←Except.ok.inj hok]
    exact h
  | cons buffer buffers ih =>
    rw [List.foldlM_cons] at hok
    cases hfirst : scanBuffer scan buffer with
    | error e =>
      rw [hfirst] at hok
      cases hok
    | ok next =>
      rw [hfirst] at hok
      rw [List.flatten_cons,←List.append_assoc]
      exact ih (scanBuffer_ok h hfirst) hok

/-- Every file that the digest can count is read. -/
theorem foldlM_scanBuffer_scanned {input : Text} {scan : Scan} {buffers : List Text}
    (h : Scanned input scan) (hl : (input++buffers.flatten).length≤uint64Max) :
    ∃ after,buffers.foldlM scanBuffer scan=.ok after ∧ Scanned (input++buffers.flatten) after := by
  induction buffers generalizing input scan with
  | nil =>
    rw [List.flatten_nil,List.append_nil]
    exact ⟨scan,rfl,h⟩
  | cons buffer buffers ih =>
    rw [List.flatten_cons,←List.append_assoc] at hl ⊢
    have hfirst : input.length+buffer.length≤uint64Max := by
      rw [List.length_append,List.length_append] at hl
      omega
    obtain ⟨next,hnext,hscanned⟩ := scanBuffer_scanned h buffer hfirst
    obtain ⟨after,hafter,hlast⟩ := ih hscanned hl
    refine ⟨after,?_,hlast⟩
    rw [List.foldlM_cons,hnext]
    exact hafter

/-- The documents of a scan at the end of the file. -/
theorem documents_at_end {input : Text} {scan : Scan} (h : Scanned input scan) :
    (if scan.line.isEmpty then scan.documents else scan.documents++finishLine scan.line)=
      readLines input := by
  have hlines := h.lines_eq []
  rw [List.append_nil] at hlines
  rw [readLines_eq,←hlines,Scan.lines,nativeLines]
  by_cases hempty : scan.line.isEmpty
  · rw [if_pos hempty,List.isEmpty_iff.mp hempty]
    exact (List.append_nil _).symm
  · rw [if_neg hempty]

/-- Nothing was read yet. -/
theorem scanned_new : Scanned [] ⟨[],[],0,.new⟩ := ⟨fun _ => rfl,rfl,absorbed_new⟩

/-- `read_documents_source` reads the lines of every file whose length in bits
the digest can hold, whatever its reads deliver at a time. -/
theorem readDocumentsSource_ok_iff (buffers : List Text) (source : DocumentsSource) :
    readDocumentsSource buffers=.ok source ↔ buffers.flatten.length≤uint64Max/8 ∧
      source=⟨readLines buffers.flatten,buffers.flatten.length,digest buffers.flatten⟩ := by
  have hread : ∀ scan,buffers.foldlM scanBuffer ⟨[],[],0,.new⟩=.ok scan →
      readDocumentsSource buffers=scan.hasher.finish.map
        (⟨readLines buffers.flatten,buffers.flatten.length,·⟩) := by
    intro scan hscan
    have hs := foldlM_scanBuffer_ok scanned_new hscan
    rw [List.nil_append] at hs
    rw [readDocumentsSource,hscan,←documents_at_end hs,←hs.fileSize_eq]
    cases hfinish : scan.hasher.finish with
    | error e =>
      change (scan.hasher.finish>>=_)=_
      rw [hfinish]
      rfl
    | ok value =>
      change (scan.hasher.finish>>=_)=_
      rw [hfinish]
      rfl
  constructor
  · intro hok
    cases hscan : buffers.foldlM scanBuffer ⟨[],[],0,.new⟩ with
    | error e =>
      rw [readDocumentsSource,hscan] at hok
      cases hok
    | ok scan =>
      have hs := foldlM_scanBuffer_ok scanned_new hscan
      rw [List.nil_append] at hs
      rw [hread scan hscan] at hok
      have hl : buffers.flatten.length≤uint64Max/8 := by
        by_contra hover
        rw [finish_overflow hs.hashed (by omega)] at hok
        cases hok
      rw [finish_absorbed hs.hashed hl] at hok
      exact ⟨hl,(Except.ok.inj hok).symm⟩
  · rintro ⟨hl,rfl⟩
    have hmax : uint64Max/8≤uint64Max := Nat.div_le_self _ _
    have hcount : ([]++buffers.flatten : Text).length≤uint64Max := by
      rw [List.nil_append]
      omega
    obtain ⟨scan,hscan,hs⟩ := foldlM_scanBuffer_scanned scanned_new hcount
    rw [List.nil_append] at hs
    rw [hread scan hscan,finish_absorbed hs.hashed hl]
    rfl

end Readers

section Characters

/-- Drop a carriage return, and an empty line altogether. -/
def finishCharacters (line : List Char) : List (List Char) :=
  let line := if line.getLast?=some '\r' then line.dropLast else line
  if line.isEmpty then [] else [line]

/-- The native lines of a text behind the characters already taken. -/
def characterLines (line : List Char) : List Char → List (List Char)
  | [] => finishCharacters line
  | character::input =>
    if character= '\n' then finishCharacters line++characterLines [] input
    else characterLines (line++[character]) input

/-- A byte below 128 in the encoding of a character is the character. -/
theorem utf8EncodeChar_ascii {character : Char} {byte : UInt8}
    (h : byte∈String.utf8EncodeChar character) (hb : byte.toNat<128) :
    character.toNat=byte.toNat ∧ String.utf8EncodeChar character=[byte] := by
  unfold String.utf8EncodeChar at h ⊢
  dsimp only at h ⊢
  split
  · rename_i hle
    rw [if_pos hle] at h
    have hbyte := List.mem_singleton.mp h
    rw [hbyte,UInt8.toNat_ofNat']
    exact ⟨(Nat.mod_eq_of_lt (by change character.val.toNat<256; omega)).symm,rfl⟩
  · rename_i hle
    rw [if_neg hle] at h
    exfalso
    split at h
    · simp only [List.mem_cons,List.not_mem_nil,or_false] at h
      rcases h with h|h <;> rw [h,UInt8.toNat_ofNat'] at hb <;> omega
    · split at h
      · simp only [List.mem_cons,List.not_mem_nil,or_false] at h
        rcases h with h|h|h <;> rw [h,UInt8.toNat_ofNat'] at hb <;> omega
      · simp only [List.mem_cons,List.not_mem_nil,or_false] at h
        rcases h with h|h|h|h <;> rw [h,UInt8.toNat_ofNat'] at hb <;> omega

/-- A line feed is one byte, and no other character has it. -/
theorem utf8EncodeChar_lineFeed {character : Char} (h : lineFeed∈String.utf8EncodeChar character) :
    character= '\n' :=
  Char.toNat_inj.mp (utf8EncodeChar_ascii h (by decide)).1

/-- A carriage return is one byte, and no other character has it. -/
theorem utf8EncodeChar_carriageReturn {character : Char}
    (h : carriageReturn∈String.utf8EncodeChar character) : character= '\r' :=
  Char.toNat_inj.mp (utf8EncodeChar_ascii h (by decide)).1

/-- Texts with the same bytes are the same. -/
theorem encodeText_injective : Function.Injective encodeText := by
  intro first second h
  apply String.ofList_injective
  rw [←String.toByteArray_inj,String.toByteArray_ofList,String.toByteArray_ofList]
  exact congrArg List.toByteArray h

/-- Only the empty text has no bytes. -/
theorem encodeText_isEmpty (text : List Char) : (encodeText text).isEmpty=text.isEmpty := by
  cases text with
  | nil => rfl
  | cons character text =>
    have hne : encodeText (character::text)≠[] := by
      rw [encodeText,List.flatMap_cons]
      exact List.append_ne_nil_of_left_ne_nil String.utf8EncodeChar_ne_nil _
    rw [List.isEmpty_cons]
    exact List.isEmpty_eq_false_iff.mpr hne

/-- The bytes behind one more character. -/
theorem encodeText_append (first second : List Char) :
    encodeText (first++second)=encodeText first++encodeText second :=
  List.flatMap_append

/-- A finished line. -/
theorem finishLine_encodeText (line : List Char) :
    finishLine (encodeText line)=(finishCharacters line).map encodeText := by
  have hempty : ∀ rest : List Char,(if (encodeText rest).isEmpty then [] else [encodeText rest])=
      (if rest.isEmpty then [] else [rest]).map encodeText := by
    intro rest
    rw [encodeText_isEmpty]
    split <;> rfl
  unfold finishLine finishCharacters
  induction line using List.reverseRecOn with
  | nil => rfl
  | append_singleton line character _ =>
    rw [encodeText_append,List.getLast?_concat,List.dropLast_concat]
    by_cases h : character= '\r'
    · subst h
      have hbytes : encodeText ['\r']=[carriageReturn] := rfl
      rw [hbytes,List.getLast?_concat,List.dropLast_concat,if_pos rfl,if_pos rfl]
      exact hempty line
    · have hlast : (encodeText line++encodeText [character]).getLast?≠some carriageReturn := by
        intro hlast
        have hne : encodeText [character]≠[] := by
          rw [encodeText,List.flatMap_singleton]
          exact String.utf8EncodeChar_ne_nil
        rw [List.getLast?_append_of_ne_nil _ hne,encodeText,List.flatMap_singleton] at hlast
        exact h (utf8EncodeChar_carriageReturn (List.mem_of_getLast? hlast))
      rw [if_neg hlast,if_neg (fun hc => h (Option.some.inj hc)),←encodeText_append]
      exact hempty _

/-- Bytes without a line feed belong to the line. -/
theorem nativeLines_append {bytes : Text} (h : lineFeed∉bytes) (line input : Text) :
    nativeLines line (bytes++input)=nativeLines (line++bytes) input := by
  induction bytes generalizing line with
  | nil => rw [List.nil_append,List.append_nil]
  | cons byte bytes ih =>
    have hbyte : byte≠lineFeed := fun hb => h (hb ▸ List.mem_cons_self)
    rw [List.cons_append,nativeLines,if_neg hbyte,ih (fun hm => h (List.mem_cons_of_mem _ hm)),
      List.append_assoc]
    rfl

/-- The native readers read characters. -/
theorem nativeLines_encodeText (line text : List Char) :
    nativeLines (encodeText line) (encodeText text)=(characterLines line text).map encodeText := by
  induction text generalizing line with
  | nil => exact finishLine_encodeText line
  | cons character text ih =>
    rw [characterLines]
    by_cases h : character= '\n'
    · have hbytes : encodeText (character::text)=lineFeed::encodeText text := by
        rw [h]
        rfl
      rw [if_pos h,hbytes,nativeLines,if_pos rfl,List.map_append,finishLine_encodeText]
      exact congrArg _ (ih [])
    · have hbytes : encodeText (character::text)=String.utf8EncodeChar character++encodeText text :=
        List.flatMap_cons
      rw [if_neg h,hbytes,nativeLines_append (fun hm => h (utf8EncodeChar_lineFeed hm)),←ih,
        encodeText_append]
      exact congrArg (fun bytes => nativeLines (encodeText line++bytes) _)
        (List.flatMap_singleton _ _).symm

/-- Only a line feed follows a carriage return. -/
def FollowedByFeed (first second : Char) : Prop := first= '\r' → second= '\n'

instance : DecidableRel FollowedByFeed := fun first second =>
  inferInstanceAs (Decidable (first= '\r' → second= '\n'))

/-- A line read by the scripts is one of the characters before its terminator. -/
theorem yieldLine_lineFeed {line : List Char} : yieldLine (line++['\n'])=finishCharacters line := by
  rw [yieldLine,List.getLast?_concat,if_pos rfl,List.dropLast_concat]
  rfl

/-- A line without a line feed. -/
theorem yieldLine_unterminated {line : List Char} (h : line.getLast?≠some '\n') :
    yieldLine line=finishCharacters line := by
  rw [yieldLine,if_neg h]
  rfl

/-- A line that ends in a carriage return alone. -/
theorem yieldLine_return (line : List Char) :
    yieldLine (line++['\r'])=finishCharacters (line++['\r']) := by
  apply yieldLine_unterminated
  rw [List.getLast?_concat]
  decide

/-- What is kept of a line that ends in a carriage return. -/
theorem finishCharacters_return (line : List Char) :
    finishCharacters (line++['\r'])=if line.isEmpty then [] else [line] := by
  rw [finishCharacters,List.getLast?_concat,if_pos rfl,List.dropLast_concat]

/-- Where only line feeds follow carriage returns, the native lines are those
of the scripts. -/
theorem characterLines_textLines {text : List Char} (h : text.IsChain FollowedByFeed)
    {line : List Char} (hfeed : '\n'∉line) :
    characterLines line text=(textLines line text).flatMap yieldLine := by
  induction line,text using textLines.induct with
  | case1 line hempty =>
    rw [textLines,if_pos hempty,List.isEmpty_iff.mp hempty]
    rfl
  | case2 line hempty =>
    rw [textLines,if_neg hempty,List.flatMap_singleton,yieldLine_unterminated
      (fun hlast => hfeed (List.mem_of_getLast? hlast))]
    rfl
  | case3 line input ih =>
    rw [textLines,characterLines,if_pos rfl,List.flatMap_cons,yieldLine_lineFeed,
      ih h.tail List.not_mem_nil]
  | case4 line input ih =>
    have hterminated : line++['\r','\n']=line++['\r']++['\n'] := List.append_cons _ _ _
    rw [textLines,characterLines,if_neg (by decide),characterLines,if_pos rfl,List.flatMap_cons,
      hterminated,yieldLine_lineFeed,ih h.tail.tail List.not_mem_nil]
  | case5 line input hnext ih =>
    cases input with
    | nil =>
      rw [textLines.eq_4 _ _ hnext,List.flatMap_cons,yieldLine_return]
      exact (List.append_nil _).symm
    | cons character input =>
      have hcharacter := (List.isChain_cons_cons.mp h).1 rfl
      exact absurd (hcharacter ▸ rfl) (hnext input)
  | case6 line character input hother hpair hreturn ih =>
    rw [textLines.eq_5 _ _ _ hother hpair hreturn,characterLines,if_neg hother,
      ih h.tail (by simpa using ⟨hfeed,Ne.symm hother⟩)]

/-- What is kept of a line. -/
theorem mem_keep {line result : List Char} (h : result∈(if line.isEmpty then [] else [line])) :
    result=line := by
  split at h
  · cases h
  · exact List.mem_singleton.mp h

/-- A line that the scripts read has no carriage return. -/
theorem textLines_return_free {line text : List Char} (h : '\r'∉line) :
    ∀ result∈(textLines line text).flatMap yieldLine,'\r'∉result := by
  have hfree : ∀ line result : List Char,'\r'∉line → result∈finishCharacters line → '\r'∉result := by
    intro line result hline hr
    rw [finishCharacters,if_neg (fun hlast => hline (List.mem_of_getLast? hlast))] at hr
    rw [mem_keep hr]
    exact hline
  induction line,text using textLines.induct with
  | case1 line hempty =>
    rw [textLines,if_pos hempty]
    intro result hr
    cases hr
  | case2 line hempty =>
    rw [textLines,if_neg hempty,List.flatMap_singleton]
    intro result hr
    rw [yieldLine] at hr
    have hdrop : '\r'∉(if line.getLast?=some '\n' then line.dropLast else line) := by
      split
      · exact fun hm => h (List.dropLast_subset _ hm)
      · exact h
    exact hfree _ result hdrop hr
  | case3 line input ih =>
    rw [textLines,List.flatMap_cons,yieldLine_lineFeed]
    intro result hr
    rcases List.mem_append.mp hr with hr|hr
    · exact hfree line result h hr
    · exact ih List.not_mem_nil result hr
  | case4 line input ih =>
    have hterminated : line++['\r','\n']=line++['\r']++['\n'] := List.append_cons _ _ _
    rw [textLines,List.flatMap_cons,hterminated,yieldLine_lineFeed,finishCharacters_return]
    intro result hr
    rcases List.mem_append.mp hr with hr|hr
    · rw [mem_keep hr]
      exact h
    · exact ih List.not_mem_nil result hr
  | case5 line input hnext ih =>
    rw [textLines.eq_4 _ _ hnext,List.flatMap_cons,yieldLine_return,finishCharacters_return]
    intro result hr
    rcases List.mem_append.mp hr with hr|hr
    · rw [mem_keep hr]
      exact h
    · exact ih List.not_mem_nil result hr
  | case6 line character input hother hpair hreturn ih =>
    rw [textLines.eq_5 _ _ _ hother hpair hreturn]
    exact ih (by simpa using ⟨h,Ne.symm hreturn⟩)

/-- A carriage return before another character stays in its native line. -/
theorem finishCharacters_keeps_return {line : List Char} (h : ¬line.IsChain FollowedByFeed) :
    ∃ result∈finishCharacters line,'\r'∈result := by
  rw [List.isChain_iff_forall_rel_of_append_cons_cons] at h
  push Not at h
  obtain ⟨first,second,before,after,hline,hrel⟩ := h
  rw [FollowedByFeed,Classical.not_imp] at hrel
  have hdrop : '\r'∈line.dropLast := by
    rw [hline,List.dropLast_append_of_ne_nil (List.cons_ne_nil _ _),List.dropLast_cons_of_ne_nil
      (List.cons_ne_nil _ _),hrel.1]
    exact List.mem_append_right _ List.mem_cons_self
  have hkeep : ∀ kept : List Char,'\r'∈kept →
      ∃ result∈(if kept.isEmpty then [] else [kept]),'\r'∈result := by
    intro kept hk
    have hne : ¬kept.isEmpty := fun he => by
      rw [List.isEmpty_iff.mp he] at hk
      cases hk
    rw [if_neg hne]
    exact ⟨kept,List.mem_cons_self,hk⟩
  rw [finishCharacters]
  split
  · exact hkeep _ hdrop
  · exact hkeep _ (List.dropLast_subset _ hdrop)

/-- A carriage return before another character stays in a native line. -/
theorem characterLines_keeps_return {line text : List Char}
    (h : ¬(line++text).IsChain FollowedByFeed) : ∃ result∈characterLines line text,'\r'∈result := by
  induction text generalizing line with
  | nil =>
    rw [List.append_nil] at h
    exact finishCharacters_keeps_return h
  | cons character text ih =>
    rw [characterLines]
    by_cases hfeed : character= '\n'
    · rw [if_pos hfeed]
      by_cases hline : line.IsChain FollowedByFeed
      · have htext : ¬([]++text).IsChain FollowedByFeed := by
          intro htext
          rw [hfeed,List.isChain_append] at h
          have hrest : ('\n'::text).IsChain FollowedByFeed :=
            List.isChain_cons.mpr ⟨fun _ _ hr => absurd hr (by decide),htext⟩
          exact h ⟨hline,hrest,fun _ _ second hs _ => (Option.some.inj hs).symm⟩
        obtain ⟨result,hr,hm⟩ := ih htext
        exact ⟨result,List.mem_append_right _ hr,hm⟩
      · obtain ⟨result,hr,hm⟩ := finishCharacters_keeps_return hline
        exact ⟨result,List.mem_append_left _ hr,hm⟩
    · rw [if_neg hfeed]
      rw [List.append_cons] at h
      exact ih h

/-- The native lines are those of the scripts exactly where only line feeds
follow carriage returns. -/
theorem characterLines_iff (text : List Char) :
    characterLines [] text=iterNonemptyLines text ↔ text.IsChain FollowedByFeed := by
  constructor
  · intro heq
    by_contra h
    obtain ⟨result,hr,hm⟩ := @characterLines_keeps_return [] _ h
    rw [heq] at hr
    exact textLines_return_free List.not_mem_nil result hr hm
  · intro h
    exact characterLines_textLines h List.not_mem_nil

/-- The three line readers agree on a text exactly when nothing but a line feed
follows a carriage return and the digest can hold the length of the file. -/
theorem line_readers_agree_iff (text : List Char) (buffers : List Text)
    (h : buffers.flatten=encodeText text) :
    (readLines (encodeText text)=(iterNonemptyLines text).map encodeText ∧
      (readDocumentsSource buffers).map DocumentsSource.documents=
        .ok ((iterNonemptyLines text).map encodeText)) ↔
      text.IsChain FollowedByFeed ∧ (encodeText text).length≤uint64Max/8 := by
  have hread : readLines (encodeText text)=(iterNonemptyLines text).map encodeText ↔
      text.IsChain FollowedByFeed := by
    rw [readLines_eq,←characterLines_iff]
    change nativeLines (encodeText []) _=_ ↔ _
    rw [nativeLines_encodeText]
    exact (List.map_injective_iff.mpr encodeText_injective).eq_iff
  constructor
  · rintro ⟨hlines,hsource⟩
    cases hok : readDocumentsSource buffers with
    | error e =>
      rw [hok] at hsource
      cases hsource
    | ok source =>
      rw [readDocumentsSource_ok_iff,h] at hok
      exact ⟨hread.mp hlines,hok.1⟩
  · rintro ⟨hchain,hl⟩
    have hlines := hread.mpr hchain
    have hok := (readDocumentsSource_ok_iff buffers _).mpr ⟨h ▸ hl,rfl⟩
    rw [h] at hok
    rw [hok]
    exact ⟨hlines,congrArg Except.ok hlines⟩

/-- Two lines that end in carriage returns and line feeds. -/
theorem line_readers_agree_two_lines :
    readLines (encodeText ['a','\r','\n','b'])=(iterNonemptyLines ['a','\r','\n','b']).map encodeText ∧
      (readDocumentsSource [[97,13],[10,98]]).map DocumentsSource.documents=
        .ok ((iterNonemptyLines ['a','\r','\n','b']).map encodeText) :=
  (line_readers_agree_iff ['a','\r','\n','b'] [[97,13],[10,98]] rfl).mpr ⟨by decide,by decide⟩

/-- A carriage return in the middle of a line: one native line, two lines for
the scripts. -/
theorem line_readers_disagree :
    readLines (encodeText ['a','\r','b','\n'])=[[97,13,98]] ∧
    (iterNonemptyLines ['a','\r','b','\n']).map encodeText=[[97],[98]] ∧
    readLines (encodeText ['a','\r','b','\n'])≠
      (iterNonemptyLines ['a','\r','b','\n']).map encodeText := by
  rw [readLines_eq]
  decide

end Characters

end Leann.Lines
