import Leann.BuildScopes
import Leann.LockOwner
import Leann.StructuredOutput

/-!
# `leann doctor`

The live pair is loaded and validated, both locks are inspected, and the
directory is scanned for what builds left behind. On request the leftovers
are removed, unless a lock is present, and backups only when the live pair
validates. Locks go only when that is asked for by name. The report is
printed at the end.
-/

namespace Leann.Doctor

open Effects Exceptions Documents IndexFile Search ArtifactPublisher Host BuildProgram
open BuildLocks hiding World building ofLocks
open BuildScopes (dot)
open LockOwner StructuredOutput

section Names

/-- `extension`. -/
def extension (path : Text) : Text :=
  let name := fileName path
  let front := name.reverse.dropWhile (·≠dot)
  if name=".." ∨ front.length≤1 then [] else dot::(name.reverse.takeWhile (·≠dot)).reverse

/-- `replace_extension` with nothing. -/
def withoutExtension (path : Text) : Text := path.take (path.length-(extension path).length)

/-- `index_file_from_prefix`. -/
def indexFileFromPrefix (path : Text) : Text :=
  if extension path=".leann" then path else path++".leann"

/-- `documents_file_from_prefix`. -/
def documentsFileFromPrefix (path : Text) : Text :=
  (if extension path=".leann" then withoutExtension path else path)++".docs"

end Names

section Report

/-- `LeftoverKind`. -/
inductive LeftoverKind where
  /-- `Temporary`. -/
  | temporary
  /-- `Backup`. -/
  | backup
  deriving DecidableEq

/-- `Leftover`. -/
structure Leftover where
  /-- `kind`. -/
  kind : LeftoverKind
  /-- `path`. -/
  path : Text
  /-- `bytes`. -/
  bytes : ℕ := 0

/-- `LockReport`. -/
structure LockReport where
  /-- `path`. -/
  path : Text
  /-- `present`. -/
  present : Bool := false
  /-- `owner`. -/
  owner : Option Owner := none
  /-- `liveness`. -/
  liveness : OwnerLiveness := .unknown

/-- `DoctorReport`. -/
structure DoctorReport where
  /-- `index_path`. -/
  indexPath : Text
  /-- `documents_path`. -/
  documentsPath : Text
  /-- `index_present`. -/
  indexPresent : Bool
  /-- `documents_present`. -/
  documentsPresent : Bool
  /-- `pair_valid`. -/
  pairValid : Bool := false
  /-- `pair_error`. -/
  pairError : Text := []
  /-- `pair_identity`. -/
  pairIdentity : Text := []
  /-- `locks`. -/
  locks : List LockReport := []
  /-- `leftovers`. -/
  leftovers : List Leftover := []
  /-- `removed`. -/
  removed : List Text := []
  /-- `retained`. -/
  retained : List Text := []

/-- The options. -/
structure DoctorArguments where
  /-- `--repair`. -/
  repair : Bool
  /-- `--force-unlock`. -/
  forceUnlock : Bool

/-- `OutputFormat`. -/
inductive OutputFormat where
  /-- `Text`. -/
  | text
  /-- `Json`. -/
  | json
  deriving DecidableEq

end Report

section Steps

/-- `inspect_lock`. -/
def inspectLock (target : Text) : HostProgram LockReport := do
  let present ← perform (.lockPresent (lockPathFor target))
  if present then
    let bytes ← perform (.readOwner (lockPathFor target))
    let liveness ← ownerLiveness (bytes.bind readLockOwner)
    return ⟨lockPathFor target,true,bytes.bind readLockOwner,liveness⟩
  else return {path := lockPathFor target}

/-- What a file beside the pair is, by its name. -/
def leftoverOf (stems : List Text) (path : Text) : Option Leftover :=
  stems.findSome? (fun stem =>
    if stem++(".tmp." : Text)<+:fileName path then some {kind := .temporary,path := path}
    else if stem++(".bak." : Text)<+:fileName path then some {kind := .backup,path := path}
    else none)

/-- The size of a leftover, where it can be found. -/
def measure (leftover : Leftover) : HostProgram Leftover := do
  match ← perform (.fileSize leftover.path) with
  | .ok size => return {leftover with bytes := size}
  | .error _ => return leftover

/-- The order of the leftovers. -/
def sortLeftovers (leftovers : List Leftover) : List Leftover :=
  leftovers.insertionSort (fun lhs rhs => ¬before rhs.path lhs.path)

/-- `parent_path`, where the working directory has a name. -/
def directoryName (path : Text) : Text :=
  if parentPath path=[] then "." else
    let name := ((parentPath path).reverse.dropWhile (·=slash)).reverse
    if name=[] then [slash] else name

/-- `collect_leftovers`. -/
def collectLeftovers (index documents : Text) : Throwing (List Leftover) := do
  let present ← (perform (.isDirectory (parentPath index)) : HostProgram Bool)
  if present then
    match ← (perform (.listDirectory (parentPath index)) : HostProgram (Except Text (List Text))) with
    | .error reason => throw (.thrown (runtimeError
        ("cannot scan '"++directoryName index++"' for build leftovers: "++reason)))
    | .ok paths =>
      let leftovers ← ((paths.filterMap (leftoverOf [fileName index,fileName documents])).mapM
        measure : HostProgram (List Leftover))
      return sortLeftovers leftovers
  else return []

/-- The full load path of the live pair. -/
def checkPair (index documents : Text) : Throwing Index := do
  let loaded ← loadIndex index
  let store ← openDocumentStore documents
  computed (validateDocumentStore loaded store)
  return loaded

/-- `hex_digest`. -/
def hexDigest (digest : Text) : Text :=
  digest.flatMap (fun byte : UInt8 => [hexDigit (byte>>>(4 : UInt8)),hexDigit (byte &&& (0x0f : UInt8))])

/-- The text of what was caught. -/
def describe : Fault → Text
  | .thrown exception => exception.what
  | _ => []

/-- What is known of the live pair. It is valid before its statistics are
asked for, which need the size of the index file. -/
def inspectPair (index documents : Text) : HostProgram DoctorReport := do
  let indexPresent := (← perform (.isRegularFile index))
  let documentsPresent := (← perform (.isRegularFile documents))
  match indexPresent,documentsPresent with
  | .ok true,.ok true =>
    let report : DoctorReport := ⟨index,documents,true,true,false,[],[],[],[],[],[]⟩
    match ← (checkPair index documents).run with
    | .ok loaded =>
      match ← perform (.fileSize index) with
      | .ok _ =>
        return {report with pairValid := true,pairIdentity := hexDigest loaded.pairIdentity.toList}
      | .error reason => return {report with pairValid := true,pairError := reason}
    | .error fault => return {report with pairError := describe fault}
  | .ok true,_ => return ⟨index,documents,true,false,false,
      "document store is missing; the index alone cannot be used",[],[],[],[],[]⟩
  | _,.ok true => return ⟨index,documents,false,true,false,
      "index is missing; a build may have been interrupted before its commit",[],[],[],[],[]⟩
  | _,_ => return ⟨index,documents,false,false,false,"no artifact pair at this prefix",[],[],[],[],[]⟩

/-- `remove_path`, with a way to remove. -/
def removePath (removal : HostProgram (Option Text)) (path reason : Text) (report : DoctorReport) :
    HostProgram DoctorReport := do
  match ← removal with
  | some error => return {report with retained := report.retained++[path++": "++error]}
  | none => return {report with removed := report.removed++[path++" ("++reason++")"]}

/-- One round of `--repair`. -/
def repairLeftover (locked : Bool) (report : DoctorReport) (leftover : Leftover) :
    HostProgram DoctorReport :=
  if locked then return {report with retained := report.retained++[leftover.path++
    ": a build lock is present, so a build may still be using this file"]}
  else match leftover.kind with
    | .temporary =>
      removePath (perform (.remove leftover.path)) leftover.path "abandoned build temporary" report
    | .backup =>
      if report.pairValid then removePath (perform (.remove leftover.path)) leftover.path
        "superseded backup; live pair validates" report
      else return {report with retained := report.retained++[leftover.path++
        ": the live pair does not validate, so this backup may be the only usable artifact"]}

/-- One round of `--force-unlock`. -/
def forceUnlock (report : DoctorReport) (lock : LockReport) : HostProgram DoctorReport := do
  if lock.present then
    let _ ← perform (.lock (.removeOwner lock.path))
    removePath (perform (.lock (.removeDirectory lock.path))) lock.path
      "build lock removed by --force-unlock" report
  else return report

/-- `command_doctor` on the two files, without its output. -/
def doctor (arguments : DoctorArguments) (index documents : Text) : Throwing DoctorReport := do
  let report ← (inspectPair index documents : HostProgram DoctorReport)
  let first ← (inspectLock index : HostProgram LockReport)
  let second ← (inspectLock documents : HostProgram LockReport)
  let leftovers ← collectLeftovers index documents
  let locks := [first,second]
  let report := {report with locks := locks,leftovers := leftovers}
  if arguments.forceUnlock ∧
      locks.any (fun lock => lock.present && lock.liveness=.running) then
    throw (.thrown (runtimeError
      "refusing --force-unlock: a lock names a process that is running on this host"))
  let report ← (if arguments.repair then
      leftovers.foldlM (repairLeftover (locks.any LockReport.present)) report
    else return report : HostProgram DoctorReport)
  let report ← (if arguments.forceUnlock then locks.foldlM forceUnlock report
    else return report : HostProgram DoctorReport)
  return report

end Steps

section Output

/-- `liveness_text`. -/
def livenessText : OwnerLiveness → Text
  | .running => "running"
  | .absent => "absent"
  | .unknown => "unknown"

/-- How a kind is written. -/
def kindText : LeftoverKind → Text
  | .temporary => "temporary"
  | .backup => "backup"

/-- What a lock is in a document. -/
def writeLock (lock : LockReport) : Writing := do
  beginObject
  fieldString "path" lock.path
  fieldFlag "present" lock.present
  fieldNumber "owner_pid" ((lock.owner.map Owner.pid).getD 0)
  fieldString "owner_host" ((lock.owner.map Owner.host).getD [])
  fieldNumber "owner_started_unix" ((lock.owner.map Owner.startedUnix).getD 0)
  fieldString "owner_liveness" (livenessText lock.liveness)
  endObject

/-- What a leftover is. -/
def writeLeftover (leftover : Leftover) : Writing := do
  beginObject
  fieldString "path" leftover.path
  fieldString "kind" (kindText leftover.kind)
  fieldNumber "bytes" leftover.bytes
  endObject

/-- What was done about one. -/
def writeDetail (entry : Text) : Writing := do
  beginObject
  fieldString "detail" entry
  endObject

/-- The report as a document. -/
def writeReport (report : DoctorReport) : Writing := do
  beginObject
  fieldString "index_path" report.indexPath
  fieldString "documents_path" report.documentsPath
  fieldFlag "index_present" report.indexPresent
  fieldFlag "documents_present" report.documentsPresent
  fieldFlag "pair_valid" report.pairValid
  fieldString "pair_identity" report.pairIdentity
  fieldString "pair_error" report.pairError
  beginArray "locks"
  report.locks.forM writeLock
  endArray
  beginArray "leftovers"
  report.leftovers.forM writeLeftover
  endArray
  beginArray "removed"
  report.removed.forM writeDetail
  endArray
  beginArray "retained"
  report.retained.forM writeDetail
  endArray
  endObject

/-- Whether a file is there. -/
def presence (present : Bool) : Text := if present then "present" else "missing"

/-- The line about a lock. -/
def lockLine (lock : LockReport) : Text :=
  if lock.present then text "lock: "++lock.path++text " held by "++(match lock.owner with
    | some owner => text "pid "++toText owner.pid++text " on host "++
        (if owner.host=[] then text "?" else owner.host)++text ", owner "++livenessText lock.liveness
    | none => text "an unrecorded owner, liveness unknown")++text "\n"
  else []

/-- The line about a leftover. -/
def leftoverLine (leftover : Leftover) : Text :=
  (match leftover.kind with
    | .temporary => text "temporary: "
    | .backup => text "backup: ")++leftover.path++text " ("++toText leftover.bytes++text " bytes)\n"

/-- The report as text. -/
def reportText (arguments : DoctorArguments) (report : DoctorReport) : Text :=
  text "index: "++report.indexPath++text " ("++presence report.indexPresent++text ")\n"++
  text "documents: "++report.documentsPath++text " ("++presence report.documentsPresent++text ")\n"++
  text "pair: "++(if report.pairValid then text "valid (identity "++report.pairIdentity++text ")"
    else text "unusable — "++report.pairError)++text "\n"++
  report.locks.flatMap lockLine++
  (if report.locks.any LockReport.present then [] else text "lock: none\n")++
  report.leftovers.flatMap leftoverLine++
  (if report.leftovers.isEmpty then text "leftovers: none\n" else [])++
  report.removed.flatMap (fun entry => text "removed: "++entry++text "\n")++
  report.retained.flatMap (fun entry => text "retained: "++entry++text "\n")++
  (if arguments.repair=false ∧ report.leftovers.isEmpty=false then
    text "hint: rerun with --repair to remove what is provably safe to remove\n" else [])

/-- The end of `command_doctor`. -/
def printReport (format : OutputFormat) (arguments : DoctorArguments) (report : DoctorReport) :
    Except Fault Text :=
  match format with
  | .json => jsonDocument (writeReport report)
  | .text => .ok (reportText arguments report)

/-- `command_doctor`: the report and what it prints. -/
def commandDoctor (format : OutputFormat) (arguments : DoctorArguments) (path : Text) :
    Throwing (DoctorReport×Text) := do
  let report ← doctor arguments (indexFileFromPrefix path) (documentsFileFromPrefix path)
  let output ← computed (printReport format arguments report)
  return (report,output)

end Output

end Leann.Doctor
