import Leann.BuildLocks
import Leann.Namespaces
import Leann.Words

/-!
# The text of a path

A path is its bytes. Its elements are the words between separators, with an
empty one behind a separator at the end. The file system follows them from
the root or from the current directory; `lexically_normal` reads them without
the file system.
-/

namespace Leann.PathNames

open Exceptions Namespaces Words

/-- The byte between the elements of a path. -/
def separator : UInt8 := 47

/-- The byte in front of an extension. -/
def dot : UInt8 := 46

/-- A name that an entry of a directory may have. -/
def Named (name : Text) : Prop := name≠[] ∧ name≠"." ∧ name≠".." ∧ separator∉name

instance (name : Text) : Decidable (Named name) :=
  inferInstanceAs (Decidable (_ ∧ _ ∧ _ ∧ _))

/-- The names of entries. -/
abbrev FileName := {name : Text // Named name}

/-- What one element of a path tells the file system. -/
def step (element : Text) : Step FileName :=
  if element=".." then .up
  else if h : Named element then .into ⟨element,h⟩
  else .stay

/-- The elements of a path behind its root. -/
def elements (path : Text) : List Text :=
  let names := words (·==separator) [] path
  if path.getLast?=some separator ∧ names≠[] then names++[[]] else names

/-- `path::is_absolute`. -/
def isAbsolute (path : Text) : Bool := path.head?=some separator

/-- The directory in which the file system begins to follow a path. -/
def start (current : Directory FileName) (path : Text) : Directory FileName :=
  if isAbsolute path then [] else current

/-- What a path tells the file system. -/
def steps (path : Text) : List (Step FileName) := (elements path).map step

/-- The links that one resolution expands. -/
def mostLinks : ℕ := 40

variable {File : Type} (tree : Tree FileName File) (current : Directory FileName)

/-- What the file system finds under a path. -/
def find (path : Text) : Except Namespaces.Fault (Found FileName File) :=
  if path=[] then .error .missing
  else (resolve tree mostLinks (start current path) (steps path)).map Prod.snd

/-- The entry that a path names to be created, renamed or removed: the
directory it stands in and its name there. -/
def placeOf (path : Text) : Option (Directory FileName×FileName) :=
  match (steps path).getLast? with
  | some (.into name) =>
    (directoryAt tree mostLinks (start current path) (steps path).dropLast).map (·,name)
  | _ => none

/-- `is_directory`, with its error ignored. -/
def isDirectory (path : Text) : Bool :=
  match find tree current path with
  | .ok (.directory _) => true
  | _ => false

/-- `strerror` of what the file system answers. -/
def message : Namespaces.Fault → Text
  | .missing => "No such file or directory"
  | .notDirectory => "Not a directory"
  | .tooManyLinks => "Too many levels of symbolic links"

/-! ### Normal forms -/

/-- An absolute path in normal form. -/
structure Normal where
  /-- Its names. -/
  names : Directory FileName
  /-- Whether a separator follows the last of them. -/
  trailing : Bool
  deriving DecidableEq

/-- The elements of `absolute`: those of the current directory first. -/
def absoluteSteps (path : Text) : List (Step FileName) :=
  (start current path).map .into++steps path

/-- Whether a path ends in something else than a name. -/
def endsOpen (elements : List (Step FileName)) : Bool :=
  match elements.getLast? with
  | some (.into _) => false
  | some _ => true
  | none => false

/-- `lexically_normal` of an absolute path. -/
def lexicallyNormal (elements : List (Step FileName)) : Normal where
  names := cancel [] elements
  trailing := endsOpen elements && !(cancel [] elements).isEmpty

/-- The text of a directory, with a separator behind each name. -/
def directoryText (names : Directory FileName) : Text :=
  separator::names.flatMap (fun name => name.val++[separator])

/-- `path::string`. -/
def Normal.string (path : Normal) : Text :=
  if path.trailing then directoryText path.names
  else match path.names.getLast? with
    | none => [separator]
    | some name => directoryText path.names.dropLast++name.val

/-- What a path in normal form tells the file system. -/
def Normal.steps (path : Normal) : List (Step FileName) :=
  path.names.map .into++(if path.trailing then [.stay] else [])

/-- `absolute(path).lexically_normal()`, for a path that is not empty. -/
def normalPath (path : Text) : Normal := lexicallyNormal (absoluteSteps current path)

/-! ### Names and extensions -/

/-- A text that ends where a name may begin. -/
def Leading (directory : Text) : Prop := directory=[] ∨ ∃ front,directory=front++[separator]

/-- What stands before the last name. -/
def directoryPart (path : Text) : Text := (path.reverse.dropWhile (·≠separator)).reverse

/-- `path::filename`. -/
def filename (path : Text) : Text := (path.reverse.takeWhile (·≠separator)).reverse

/-- `path::extension`: from the last dot of the name on, unless the name begins
with that dot or is `..`. -/
def extension (path : Text) : Text :=
  let name := filename path
  let after := (name.reverse.takeWhile (·≠dot)).reverse
  if name.length≤2 ∧ name.head?=some dot then []
  else if dot∈name ∧ after.length+1<name.length then dot::after
  else []

/-- `path::replace_extension` with nothing in its place. -/
def withoutExtension (path : Text) : Text := path.take (path.length-(extension path).length)

end Leann.PathNames
