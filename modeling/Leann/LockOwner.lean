import Leann.Host
import Leann.Lines

/-!
# Who holds a lock

The owner file of a lock has lines of a key and a value. It is advisory:
unknown keys are ignored, and an owner without a process is no owner. Whether
the owner runs is a probe on the host that the file names.
-/

namespace Leann.LockOwner

open Exceptions Host Lines

section Numbers

/-- A decimal digit. -/
def IsDigit (byte : UInt8) : Prop := 48≤byte ∧ byte≤57

instance (byte : UInt8) : Decidable (IsDigit byte) := inferInstanceAs (Decidable (_ ∧ _))

/-- The number that some digits write. -/
def decimalValue (digits : Text) : ℕ :=
  digits.foldl (fun value byte => value*10+(byte.toNat-48)) 0

/-- `std::from_chars` for 64 bits without a sign: the number and what follows
it, unless there is no digit or the number is too large. -/
def fromChars (input : Text) : Option (ℕ×Text) :=
  let digits := input.takeWhile IsDigit
  if digits=[] ∨ 2^64≤decimalValue digits then none
  else some (decimalValue digits,input.drop digits.length)

/-- `parse_unsigned`. -/
def parseUnsigned (input : Text) : Option ℕ :=
  match fromChars input with
  | some (value,[]) => some value
  | _ => none

end Numbers

section Owners

/-- `LockOwner`. -/
structure Owner where
  /-- `pid`. -/
  pid : ℕ := 0
  /-- `host`. -/
  host : Text := []
  /-- `started_unix`. -/
  startedUnix : ℕ := 0
  deriving DecidableEq

/-- `OwnerLiveness`. -/
inductive OwnerLiveness where
  /-- `Unknown`. -/
  | unknown
  /-- `Running`. -/
  | running
  /-- `Absent`. -/
  | absent
  deriving DecidableEq

/-- What stands between a key and its value. -/
def equalsSign : UInt8 := 61

/-- One round of the loop of `read_lock_owner`, with `saw_pid` in front. -/
def readOwnerLine (seen : Bool×Owner) (line : Text) : Bool×Owner :=
  if equalsSign∉line then seen
  else
    let key := line.takeWhile (·≠equalsSign)
    let value := (line.dropWhile (·≠equalsSign)).tail
    if key="pid" then
      match parseUnsigned value with
      | some pid => (true,{seen.2 with pid := pid})
      | none => (false,seen.2)
    else if key="host" then (seen.1,{seen.2 with host := value})
    else if key="started_unix" then
      match parseUnsigned value with
      | some started => (seen.1,{seen.2 with startedUnix := started})
      | none => seen
    else seen

/-- `read_lock_owner` on what the file holds. An empty line has no key. -/
def readLockOwner (bytes : Text) : Option Owner :=
  let seen := (readLines bytes).foldl readOwnerLine (false,{})
  if seen.1 then some seen.2 else none

/-- `process_exists`. -/
def processExists (pid : ℕ) : HostProgram Bool :=
  if pid=0 ∨ 2^31-1<pid then return false else perform (.signalProcess pid)

/-- `owner_liveness`. -/
def ownerLiveness : Option Owner → HostProgram OwnerLiveness
  | none => return .unknown
  | some owner => do
    let host ← perform .hostName
    if host=[] ∨ owner.host=[] ∨ owner.host≠host then return .unknown
    else
      let found ← processExists owner.pid
      return if found then .running else .absent

end Owners

end Leann.LockOwner
