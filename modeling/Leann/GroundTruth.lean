import Leann.LockOwner
import Leann.Words

/-!
# Ground-truth files

The nearest documents of every query, found once and read often:
`generate_ground_truth` writes them, `read_ground_truth` of the scripts and
`load_ground_truth` of the native program read them.
-/

namespace Leann.GroundTruth

open Exceptions Checksum Lines LockOwner Words

section Native

/-- `std::isspace` of the C locale, where `operator>>` ends a word. -/
def isCSpace (byte : UInt8) : Bool := (9≤byte && byte≤13) || byte=32

/-- `find_first_not_of(" \t\r")` finds nothing. -/
def blank (line : Text) : Bool := line.all (fun byte => byte=32 || byte=9 || byte=13)

/-- The lines that `std::getline` delivers until it fails. -/
def getlines (input : Text) : List Text :=
  match _h : getline [] input with
  | none => []
  | some result => result.1::getlines result.2
termination_by input.length
decreasing_by exact getline_length _h

/-- `parse_decimal`. -/
def parseDecimal (token description : Text) : Except Fault ℕ :=
  match parseUnsigned token with
  | some value => return value
  | none =>
    throwing (runtimeError (text "invalid "++description++text " in ground-truth file"))

/-- The text of the error about the header. -/
def headerError : Exception :=
  runtimeError "ground-truth header must be: LEANN_GT1 <query-count> <k> <corpus-count>"

/-- The numbers of queries, of documents for each and of all documents. -/
def loadHeader (line : Text) : Except Fault (ℕ×ℕ×ℕ) :=
  match words isCSpace [] line with
  | [magic,queriesToken,kToken,corpusToken] => do
    throwIf (magic≠"LEANN_GT1") headerError
    let encodedQueries ← parseDecimal queriesToken "query count"
    let encodedK ← parseDecimal kToken "k"
    let encodedCorpus ← parseDecimal corpusToken "corpus count"
    return (encodedQueries,encodedK,encodedCorpus)
  | _ => throwing headerError

/-- One number of a row, behind those already taken. -/
def loadId (expectedCorpusSize : ℕ) (row : List UInt32) (token : Text) : Except Fault (List UInt32) := do
  let value ← parseDecimal token "neighbor ID"
  throwIf (value≥expectedCorpusSize ∨ value>2^32-1)
    (runtimeError "ground-truth neighbor ID is out of range")
  throwIf (UInt32.ofNat value∈row) (runtimeError "ground-truth row contains a duplicate ID")
  return row++[UInt32.ofNat value]

/-- One row. -/
def loadRow (encodedK expectedCorpusSize : ℕ) (line : Text) : Except Fault (List UInt32) := do
  let row ← (words isCSpace [] line).foldlM (loadId expectedCorpusSize) []
  throwIf (row.length≠encodedK)
    (runtimeError "ground-truth row does not contain its encoded k IDs")
  return row

/-- The loop over the rows, behind those already taken. -/
def loadRows (encodedK expectedQueries expectedK expectedCorpusSize : ℕ) (rows : List (List UInt32)) :
    List Text → Except Fault (List (List UInt32))
  | [] => return rows
  | line::lines =>
    if blank line then loadRows encodedK expectedQueries expectedK expectedCorpusSize rows lines
    else do
      throwIf (rows.length=expectedQueries) (runtimeError "ground-truth file has too many rows")
      let row ← loadRow encodedK expectedCorpusSize line
      loadRows encodedK expectedQueries expectedK expectedCorpusSize (rows++[row.take expectedK]) lines

/-- `load_ground_truth` of a file with these bytes. -/
def loadGroundTruth (bytes : Text) (expectedQueries expectedK expectedCorpusSize : ℕ) :
    Except Fault (List (List UInt32)) :=
  match (getlines bytes).dropWhile blank with
  | [] => throwing (runtimeError "ground-truth file is empty")
  | header::lines => do
    let (encodedQueries,encodedK,encodedCorpus) ← loadHeader header
    throwIf (encodedQueries≠expectedQueries)
      (runtimeError "ground-truth query count does not match selected queries")
    throwIf (encodedK<expectedK) (runtimeError "ground-truth k does not cover --top-k")
    throwIf (encodedCorpus≠expectedCorpusSize)
      (runtimeError "ground-truth corpus count does not match the index")
    throwIf (encodedK>expectedCorpusSize) (runtimeError "ground-truth k exceeds the corpus size")
    let rows ← loadRows encodedK expectedQueries expectedK expectedCorpusSize [] lines
    throwIf (rows.length≠expectedQueries)
      (runtimeError "ground-truth row count does not match selected queries")
    return rows

end Native

section Scripts

/-- The exceptions that end a script. -/
inductive ScriptError where
  /-- `ValueError`. -/
  | valueError (message : String)
  /-- `UnicodeDecodeError`. -/
  | unicodeDecodeError
  /-- `OverflowError`. -/
  | overflowError
  deriving DecidableEq

/-- Raise an exception when a condition holds. -/
def raiseIf (condition : Prop) [Decidable condition] (failure : ScriptError) : Except ScriptError Unit :=
  if condition then .error failure else .ok ()

/-- The characters of a file that is opened with `encoding="utf-8"`. -/
def decodeUtf8 (bytes : Text) : Except ScriptError (List Char) :=
  match bytes.toByteArray.utf8Decode? with
  | some characters => .ok characters.toList
  | none => .error .unicodeDecodeError

/-- `str.isspace`. -/
def isSpace (character : Char) : Bool :=
  character.toNat∈([0x9,0xa,0xb,0xc,0xd,0x1c,0x1d,0x1e,0x1f,0x20,0x85,0xa0,0x1680,0x2000,0x2001,0x2002,
    0x2003,0x2004,0x2005,0x2006,0x2007,0x2008,0x2009,0x200a,0x2028,0x2029,0x202f,0x205f,
    0x3000] : List ℕ)

/-- Where the ten decimal digits of each script begin. -/
def decimalZeros : List ℕ :=
  [0x30,0x660,0x6f0,0x7c0,0x966,0x9e6,0xa66,0xae6,0xb66,0xbe6,0xc66,0xce6,0xd66,0xde6,0xe50,0xed0,
    0xf20,0x1040,0x1090,0x17e0,0x1810,0x1946,0x19d0,0x1a80,0x1a90,0x1b50,0x1bb0,0x1c40,0x1c50,0xa620,
    0xa8d0,0xa900,0xa9d0,0xa9f0,0xaa50,0xabf0,0xff10,0x104a0,0x10d30,0x11066,0x110f0,0x11136,0x111d0,
    0x112f0,0x11450,0x114d0,0x11650,0x116c0,0x11730,0x118e0,0x11950,0x11c50,0x11d50,0x11da0,0x16a60,
    0x16ac0,0x16b50,0x1d7ce,0x1d7d8,0x1d7e2,0x1d7ec,0x1d7f6,0x1e140,0x1e2f0,0x1e950,0x1fbf0]

/-- The value of a decimal digit of any script. -/
def digitValue (character : Char) : Option ℕ :=
  (decimalZeros.find? (fun first => first≤ character.toNat && character.toNat<first+10)).map
    (character.toNat-·)

/-- The digits of a number, between which single underscores may stand. The
flag tells whether a digit is in front. -/
def digitsOf (behind : Bool) : List Char → Option (List ℕ)
  | [] => if behind then some [] else none
  | '_'::rest => if behind then digitsOf false rest else none
  | character::rest => do
    let digit ← digitValue character
    let digits ← digitsOf true rest
    return digit::digits

/-- The number of some digits, of which there may be up to 4300. -/
def naturalOf (field : List Char) : Option ℤ := do
  let digits ← digitsOf false field
  let value : ℕ := digits.foldl (fun value digit => value*10+digit) 0
  if digits.length>4300 then none else some value

/-- `int` of a text without white space. -/
def parseInt : List Char → Option ℤ
  | '+'::field => naturalOf field
  | '-'::field => (naturalOf field).map (-·)
  | field => naturalOf field

/-- What `read_ground_truth` returns. -/
structure Truth where
  /-- The nearest documents of every query. -/
  rows : List (List UInt32)
  /-- `query_count`. -/
  queryCount : ℤ
  /-- `top_k`. -/
  topK : ℤ
  /-- `corpus_count`. -/
  corpusCount : ℤ
  /-- `size_bytes`. -/
  sizeBytes : ℕ
  /-- `sha256`. -/
  sha256 : Sha256Digest

/-- An element of an array of unsigned 32-bit numbers. -/
def toElement (identifier : ℤ) : Except ScriptError UInt32 :=
  if 0≤ identifier ∧ identifier<2^32 then .ok (UInt32.ofNat identifier.toNat) else .error .overflowError

/-- One round of the loop over the rows. -/
def readRow (path : String) (topK corpusCount : ℤ) (rowIndex : ℕ) (line : List Char) :
    Except ScriptError (List UInt32) := do
  let fields := words isSpace [] line
  raiseIf (fields.length≠topK) (.valueError (path++": row "++toString rowIndex++" does not have k IDs"))
  match fields.mapM parseInt with
  | none => .error (.valueError (path++": non-integer ID in row "++toString rowIndex))
  | some identifiers =>
    raiseIf (∃ identifier∈identifiers,identifier<0 ∨ identifier≥corpusCount)
      (.valueError (path++": out-of-range ID in row "++toString rowIndex))
    raiseIf (identifiers.dedup.length≠topK)
      (.valueError (path++": duplicate ID in row "++toString rowIndex))
    identifiers.mapM toElement

/-- The loop over the rows from a row number on. -/
def readRows (path : String) (topK corpusCount : ℤ) (rowIndex : ℕ) :
    List (List Char) → Except ScriptError (List (List UInt32))
  | [] => return []
  | line::lines => do
    let row ← readRow path topK corpusCount rowIndex line
    let rows ← readRows path topK corpusCount (rowIndex+1) lines
    return row::rows

/-- The header of a file: the numbers of queries, of documents for each and of
all documents. -/
def readHeader (path : String) (line : List Char) : Except ScriptError (ℤ×ℤ×ℤ) :=
  match words isSpace [] line with
  | [magic,queries,k,corpus] => do
    raiseIf (magic≠"LEANN_GT1".toList) (.valueError (path++": invalid ground-truth header"))
    match parseInt queries,parseInt k,parseInt corpus with
    | some queryCount,some topK,some corpusCount => return (queryCount,topK,corpusCount)
    | _,_,_ => .error (.valueError (path++": non-integer ground-truth header"))
  | _ => .error (.valueError (path++": invalid ground-truth header"))

/-- One of the last checks of `read_ground_truth`. -/
def expectCount (path label : String) (wanted : Option ℤ) (observed : ℤ) : Except ScriptError Unit :=
  match wanted with
  | none => return ()
  | some wanted => raiseIf (wanted≠observed) (.valueError (path++": ground-truth "++label++
      " mismatch: "++toString observed++" vs "++toString wanted))

/-- `read_ground_truth` of a file with these bytes. -/
def readGroundTruth (path : String) (bytes : Text)
    (expectedQueries expectedK expectedCorpus : Option ℤ) : Except ScriptError Truth := do
  let characters ← decodeUtf8 bytes
  match iterNonemptyLines characters with
  | [] => .error (.valueError (path++": empty ground-truth file"))
  | header::lines =>
    let (queryCount,topK,corpusCount) ← readHeader path header
    raiseIf (queryCount≤0 ∨ topK≤0 ∨ corpusCount<topK)
      (.valueError (path++": invalid ground-truth dimensions"))
    raiseIf (((header::lines).length : ℤ)≠queryCount+1)
      (.valueError (path++": ground-truth row count mismatch"))
    let rows ← readRows path topK corpusCount 0 lines
    expectCount path "query count" expectedQueries queryCount
    expectCount path "top-k" expectedK topK
    expectCount path "corpus count" expectedCorpus corpusCount
    return ⟨rows,queryCount,topK,corpusCount,bytes.length,digest bytes⟩

/-- A number as the scripts write it. -/
def decimal (value : ℕ) : List Char := (toString value).toList

/-- The first line of a file. -/
def headerLine (queryCount topK corpusCount : ℕ) : List Char :=
  "LEANN_GT1".toList++ ' '::decimal queryCount++ ' '::decimal topK++ ' '::decimal corpusCount

/-- The line of a query. -/
def rowLine (row : List UInt32) : List Char :=
  List.intercalate [' '] (row.map (fun identifier => decimal identifier.toNat))

/-- The lines of a block of queries. -/
def payload (identifiers : List (List UInt32)) : List Char :=
  identifiers.flatMap (fun row => rowLine row++['\n'])

/-- `generate_ground_truth`, from what `exact_topk_block` finds for one block of
queries after another, in this run or in those it resumes. -/
def generateGroundTruth (path : String) (queryCount topK corpusCount : ℕ)
    (blocks : List (List (List UInt32))) : Except ScriptError Text := do
  raiseIf (topK≤0 ∨ topK>corpusCount) (.valueError "top-k must be in [1, corpus count]")
  let header := encodeText (headerLine queryCount topK corpusCount++['\n'])
  let written := blocks.foldl (fun written identifiers => written++encodeText (payload identifiers)) header
  let _ ← readGroundTruth path written (some queryCount) (some topK) (some corpusCount)
  return written

end Scripts

end Leann.GroundTruth
