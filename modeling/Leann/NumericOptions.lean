import Leann.DecimalScanner
import Leann.GroundTruth

/-!
# Numeric options of the command line

The arguments behind the command are options with a value, flags without one
and positional arguments. A command rejects what it does not know before it
reads the numbers of its options. Three readers turn the value of an option
into a number, and an absent option has a fallback.
-/

namespace Leann.NumericOptions

open Exceptions Outcomes LockOwner Numerals BinaryFloat DecimalScanner GroundTruth

section Parsing

/-- `boolean_flag_names`. -/
def booleanFlagNames : List Text := ["--help","--repair","--force-unlock"]

/-- `is_boolean_flag`. -/
def isBooleanFlag (key : Text) : Bool := decide (key∈booleanFlagNames)

/-- `Arguments`. The hashed containers are listed in the order in which they
are gone through. -/
structure Arguments where
  /-- `values_`. -/
  values : List (Text×Text) := []
  /-- `flags_`. -/
  flags : List Text := []
  /-- `valueless_`. -/
  valueless : List Text := []
  /-- `positional_`. -/
  positional : List Text := []

/-- `values_[key] = value`. -/
def assignValue (values : List (Text×Text)) (key value : Text) : List (Text×Text) :=
  (key,value)::values.filter (fun entry => decide (entry.1≠key))

/-- The loop of the constructor over the arguments behind the command. -/
def parseArguments (arguments : Arguments) : List Text → Arguments
  | [] => arguments
  | key::[] =>
    if (text "--").isPrefixOf key then
      if isBooleanFlag key then {arguments with flags := arguments.flags.insert key}
      else {arguments with valueless := arguments.valueless.insert key}
    else {arguments with positional := arguments.positional++[key]}
  | key::value::rest =>
    if (text "--").isPrefixOf key then
      if isBooleanFlag key then
        parseArguments {arguments with flags := arguments.flags.insert key} (value::rest)
      else if isBooleanFlag value then
        parseArguments {arguments with valueless := arguments.valueless.insert key} (value::rest)
      else parseArguments {arguments with values := assignValue arguments.values key value} rest
    else parseArguments {arguments with positional := arguments.positional++[key]} (value::rest)

/-- The command line of a process. No operating system passes longer
arguments. -/
structure CommandLine where
  /-- `argv`. -/
  argv : List Text
  /-- The lengths of the arguments are limited. -/
  bounded : ∀ argument∈argv,argument.length<999000

/-- The constructor of `Arguments`. -/
def CommandLine.arguments (line : CommandLine) : Arguments := parseArguments {} (line.argv.drop 2)

/-- `CommandSpec`, as far as it decides which options a command has. -/
structure Command where
  /-- `name`. -/
  name : Text
  /-- Whether `find_option` finds an option. -/
  knows : Text → Bool
  /-- `suggest_option`. -/
  suggestion : Text → Text

/-- `reject_unknown`. -/
def rejectUnknown (command : Command) (flag : Text) : Except Fault Unit :=
  if command.knows flag then .ok ()
  else .error (.thrown (invalidArgument ("unknown option for leann "++command.name++text ": "++
    flag++command.suggestion flag)))

/-- `validate_arguments`. -/
def validateArguments (command : Command) (arguments : Arguments) : Except Fault Unit := do
  arguments.values.forM (fun entry => rejectUnknown command entry.1)
  arguments.flags.forM (rejectUnknown command)
  arguments.valueless.forM (fun flag => do
    rejectUnknown command flag
    .error (.thrown (invalidArgument ("missing value for "++flag))))
  match arguments.positional with
  | [] => .ok ()
  | front::_ =>
    .error (.thrown (invalidArgument ("unexpected argument for leann "++command.name++text ": "++front)))

end Parsing

section Reading

/-- `Arguments::get` with an empty fallback. -/
def Arguments.get (arguments : Arguments) (key : Text) : Text := (arguments.values.lookup key).getD []

/-- `Arguments::unsigned_value`. -/
def Arguments.unsignedValue (arguments : Arguments) (key : Text) (fallback : UInt32) :
    Except Fault UInt32 :=
  let value := arguments.get key
  if value=[] then .ok fallback
  else
    let (digits,rest) := splitDigits value
    if digits.val≠[] ∧ 2^32≤decimalValue digits.val then
      .error (.thrown (invalidArgument (key++text " is too large")))
    else if digits.val=[] ∨ rest≠[] then
      .error (.thrown (invalidArgument (key++text " must be an unsigned integer")))
    else .ok (UInt32.ofNat (decimalValue digits.val))

/-- `std::stoi` in base ten. It passes white space in front of a number and
does not look at what stands behind one. -/
def stoi (value : Text) : Except Fault ℤ :=
  let (sign,unsigned) := readSign (value.dropWhile isCSpace)
  let (digits,_) := splitDigits unsigned
  if h : digits.val≠[] then
    let number := (Integer.mk sign digits h).value
    if -2^31≤number ∧ number<2^31 then .ok number
    else .error (.thrown (outOfRange "stoi"))
  else .error (.thrown (invalidArgument "stoi"))

/-- `Arguments::int_value`. -/
def Arguments.intValue (arguments : Arguments) (key : Text) (fallback : ℤ) : Except Fault ℤ :=
  let value := arguments.get key
  if value=[] then .ok fallback else stoi value

/-- `Arguments::double_value`. -/
def Arguments.doubleValue (strtod : Text → Double×ℕ) (arguments : Arguments) (key : Text)
    (fallback : Double) : Except Fault Double := do
  let value := arguments.get key
  if value=[] then return fallback
  match ← parseFiniteDecimal strtod value with
  | none => .error (.thrown (invalidArgument (key++text " must be a finite number")))
  | some parsed => return parsed

/-- A number that a command reads. -/
inductive Number where
  /-- An unsigned 32-bit integer. -/
  | unsigned (value : UInt32)
  /-- An `int`. -/
  | int (value : ℤ)
  /-- A double. -/
  | double (value : Double)
  deriving DecidableEq

/-- How a command reads a numeric option, with the fallback of its absence. -/
inductive Reader where
  /-- `unsigned_value`. -/
  | unsigned (fallback : UInt32)
  /-- `int_value`. -/
  | int (fallback : ℤ)
  /-- `double_value`. -/
  | double (fallback : Double)

/-- The fallback. -/
def Reader.fallback : Reader → Number
  | .unsigned value => .unsigned value
  | .int value => .int value
  | .double value => .double value

/-- Read the number of an option. -/
def Reader.read (strtod : Text → Double×ℕ) (arguments : Arguments) (key : Text) :
    Reader → Except Fault Number
  | .unsigned fallback => Number.unsigned<$>arguments.unsignedValue key fallback
  | .int fallback => Number.int<$>arguments.intValue key fallback
  | .double fallback => Number.double<$>arguments.doubleValue strtod key fallback

/-- A command validates its arguments and reads the number of an option. -/
def numericOption (strtod : Text → Double×ℕ) (command : Command) (line : CommandLine) (key : Text)
    (reader : Reader) : Except Fault Number := do
  validateArguments command line.arguments
  reader.read strtod line.arguments key

end Reading

section Strictness

/-- The whole of a text is a number of the kind that a reader returns. -/
def Denotes (reader : Reader) (text : Text) (number : Number) : Prop :=
  match reader with
  | .unsigned _ => ∃ (digits : Digits) (value : UInt32),digits.val=text ∧ text≠[] ∧
      decimalValue text=value.toNat ∧ number=.unsigned value
  | .int _ => ∃ integer : Integer,integer.spelled=text ∧
      (-2^31≤ integer.value ∧ integer.value<2^31) ∧ number=.int integer.value
  | .double _ => ∃ numeral : Numeral,numeral.spelled=text ∧ Representable numeral ∧
      number=.double (rounded numeral)

/-- A numeric option is strict: what is used is the number of the whole value
string, the fallback is used when the option is absent, and everything else
is thrown. -/
structure Strict (strtod : Text → Double×ℕ) (command : Command) (line : CommandLine) (key : Text)
    (reader : Reader) : Prop where
  /-- Nothing but an exception stands in the way of a number. -/
  thrown : ∀ fault,numericOption strtod command line key reader=.error fault →
    ∃ exception,fault=.thrown exception
  /-- The option has no value string only where it is absent. -/
  absent : ∀ number,numericOption strtod command line key reader=.ok number →
    line.arguments.values.lookup key=none → key∉line.arguments.valueless ∧ number=reader.fallback
  /-- What is used is the number of the whole value string. -/
  whole : ∀ number,numericOption strtod command line key reader=.ok number →
    ∀ value,line.arguments.values.lookup key=some value → Denotes reader value number
  /-- A whole value string that is a number is used. -/
  used : validateArguments command line.arguments=.ok () →
    ∀ value,line.arguments.values.lookup key=some value → ∀ number,Denotes reader value number →
      numericOption strtod command line key reader=.ok number

/-- The value string is not empty, and no `int` in it has white space in front
or other characters behind. -/
def WholeNumber (reader : Reader) (value : Text) : Prop :=
  value≠[] ∧ match reader with
    | .int _ => ∀ (spaces rest : Text) (integer : Integer),value=spaces++integer.spelled++rest →
        (∀ byte∈spaces,isCSpace byte=true) → (∀ byte∈rest.head?,¬IsDigit byte) →
          -2^31≤ integer.value ∧ integer.value<2^31 → spaces=[] ∧ rest=[]
    | _ => True

/-- Failures that a caller sees. -/
def Thrown (fault : Fault) : Prop := ∃ exception,fault=.thrown exception

/-- A validated command line has no option without a value. -/
theorem validateArguments_ends (command : Command) (arguments : Arguments) :
    Ends (validateArguments command arguments) Thrown (fun _ => arguments.valueless=[]) := by
  have hreject : ∀ flag,Ends (rejectUnknown command flag) Thrown (fun _ => True) := by
    intro flag
    unfold rejectUnknown
    split
    · exact trivial
    · exact ⟨_,rfl⟩
  unfold validateArguments
  refine (@Ends.forM _ _ _ _ (fun _ => True) arguments.values (fun entry _ => hreject entry.1)).bind
    (fun _ _ => ?_)
  refine (@Ends.forM _ _ _ _ (fun _ => True) arguments.flags (fun flag _ => hreject flag)).bind
    (fun _ _ => ?_)
  refine (@Ends.forM _ _ _ _ (fun _ => False) arguments.valueless (fun flag _ => ?_)).bind
    (fun _ hnone => ?_)
  · exact (hreject flag).bind (fun _ _ => ⟨_,rfl⟩)
  · have hvalueless : arguments.valueless=[] := List.eq_nil_iff_forall_not_mem.mpr hnone
    cases arguments.positional with
    | nil => exact hvalueless
    | cons front rest => exact ⟨_,rfl⟩

/-- An assignment gives one key its value. -/
theorem lookup_assignValue (values : List (Text×Text)) (key value other : Text) :
    (assignValue values key value).lookup other=
      if other=key then some value else values.lookup other := by
  by_cases h : other=key
  · rw [if_pos h,h]
    exact List.lookup_cons_self
  · have hfilter : (values.filter (fun entry => decide (entry.1≠key))).lookup other=
        values.lookup other := by
      induction values with
      | nil => rfl
      | cons entry values ih =>
        obtain ⟨name,found⟩ := entry
        by_cases hname : name=key
        · have hother : (other==name)=false := by
            rw [hname]
            exact beq_eq_false_iff_ne.mpr h
          rw [List.filter_cons_of_neg (by simpa using hname),ih,List.lookup_cons,hother]
        · rw [List.filter_cons_of_pos (by simpa using hname),List.lookup_cons,List.lookup_cons,ih]
    rw [if_neg h,assignValue,List.lookup_cons,beq_eq_false_iff_ne.mpr h]
    exact hfilter

/-- The value of an option stands on the command line. -/
theorem lookup_parseArguments {bounded : Text → Prop} (arguments : Arguments) (rest : List Text)
    (h0 : ∀ key value,arguments.values.lookup key=some value → bounded value)
    (h : ∀ argument∈rest,bounded argument) (key value : Text)
    (hv : (parseArguments arguments rest).values.lookup key=some value) : bounded value := by
  fun_induction parseArguments arguments rest with
  | case1 => exact h0 key value hv
  | case2 => exact h0 key value hv
  | case3 => exact h0 key value hv
  | case4 => exact h0 key value hv
  | case5 arguments name next rest hd hflag ih =>
    exact ih h0 (fun argument ha => h argument (List.mem_cons_of_mem _ ha)) hv
  | case6 arguments name next rest hd hflag hvalue ih =>
    exact ih h0 (fun argument ha => h argument (List.mem_cons_of_mem _ ha)) hv
  | case7 arguments name next rest hd hflag hvalue ih =>
    refine ih (fun other found hf => ?_)
      (fun argument ha => h argument (List.mem_cons_of_mem _ (List.mem_cons_of_mem _ ha))) hv
    rw [lookup_assignValue] at hf
    split at hf
    · rw [←Option.some.inj hf]
      exact h next (List.mem_cons_of_mem _ List.mem_cons_self)
    · exact h0 other found hf
  | case8 arguments name next rest hd ih =>
    exact ih h0 (fun argument ha => h argument (List.mem_cons_of_mem _ ha)) hv

/-- What stands in front of an integer is no part of it. -/
theorem dropWhile_spaces {spaces : Text} (hs : ∀ byte∈spaces,isCSpace byte=true) (integer : Integer)
    (rest : Text) :
    (spaces++(integer.spelled++rest)).dropWhile isCSpace=integer.spelled++rest := by
  have hhead : ∀ byte∈(integer.spelled++rest).head?,isCSpace byte=false := by
    have hdigit : ∀ byte : UInt8,IsDigit byte → isCSpace byte=false := by
      intro byte hb
      have hlow : 48≤byte.toNat := hb.1
      rw [isCSpace,Bool.or_eq_false_iff,Bool.and_eq_false_iff]
      refine ⟨Or.inr (decide_eq_false (fun hle => ?_)),decide_eq_false (fun he => ?_)⟩
      · have hhigh : byte.toNat≤13 := hle
        omega
      · rw [he] at hlow
        exact absurd hlow (by decide)
    intro byte hb
    obtain ⟨sign,digits,hne⟩ := integer
    cases sign with
    | some sign =>
      have hsign : byte=sign.val := (Option.some.inj hb).symm
      rw [hsign]
      rcases sign.property with h|h <;> rw [h] <;> rfl
    | none =>
      obtain ⟨first,others,hdigits⟩ := List.exists_cons_of_ne_nil hne
      have hfirst : byte=first := by
        have hspelled : (Integer.mk none digits hne).spelled=first::others := hdigits
        rw [hspelled] at hb
        exact (Option.some.inj hb).symm
      rw [hfirst]
      exact hdigit first (digits.property first (by rw [hdigits]; exact List.mem_cons_self))
  rw [List.dropWhile_append_of_pos hs]
  cases hrest : integer.spelled++rest with
  | nil => rfl
  | cons byte others =>
    rw [hrest] at hhead
    exact List.dropWhile_cons_of_neg (by rw [hhead byte rfl]; exact Bool.false_ne_true)

/-- `std::stoi` reads the integer behind white space, whatever follows it. -/
theorem stoi_eq {spaces rest : Text} {integer : Integer} (hs : ∀ byte∈spaces,isCSpace byte=true)
    (hr : ∀ byte∈rest.head?,¬IsDigit byte) :
    stoi (spaces++integer.spelled++rest)=
      if -2^31≤ integer.value ∧ integer.value<2^31 then .ok integer.value
      else .error (.thrown (outOfRange "stoi")) := by
  rw [stoi,List.append_assoc,dropWhile_spaces hs,readSign_eq]
  dsimp only
  rw [splitDigits_eq integer.digits hr]
  exact dif_pos integer.digits_ne

/-- Whatever `std::stoi` returns is the number of an integer behind white space. -/
theorem stoi_ok {value : Text} {number : ℤ} (h : stoi value=.ok number) :
    ∃ (spaces rest : Text) (integer : Integer),value=spaces++integer.spelled++rest ∧
      (∀ byte∈spaces,isCSpace byte=true) ∧ (∀ byte∈rest.head?,¬IsDigit byte) ∧
        (-2^31≤ integer.value ∧ integer.value<2^31) ∧ number=integer.value := by
  unfold stoi at h
  dsimp only at h
  split at h
  · rename_i hne
    split at h
    · rename_i hrange
      refine ⟨value.takeWhile isCSpace,
        (splitDigits (readSign (value.dropWhile isCSpace)).2).2,_,?_,
        fun byte hb => List.mem_takeWhile_imp hb,splitDigits_head _,hrange,
        (Except.ok.inj h).symm⟩
      have hspelled := readSign_spelled (value.dropWhile isCSpace)
      rw [←splitDigits_append (readSign (value.dropWhile isCSpace)).2,←List.append_assoc] at hspelled
      rw [List.append_assoc]
      refine Eq.trans (List.takeWhile_append_dropWhile (p := isCSpace)).symm ?_
      exact congrArg (value.takeWhile isCSpace++·) hspelled.symm
    · cases h
  · cases h

/-- An integer that is all of a text stands nowhere else in it. -/
theorem integer_alone {spaces rest : Text} {integer other : Integer}
    (hs : ∀ byte∈spaces,isCSpace byte=true) (hr : ∀ byte∈rest.head?,¬IsDigit byte)
    (h : other.spelled=spaces++integer.spelled++rest) : spaces=[] ∧ rest=[] := by
  have hfirst := dropWhile_spaces hs integer rest
  have hsecond := @dropWhile_spaces [] (fun _ hb => (List.not_mem_nil hb).elim) other []
  rw [List.nil_append,List.append_nil,h,List.append_assoc,hfirst] at hsecond
  have hspaces : spaces=[] := List.self_eq_append_left.mp hsecond
  rw [hspaces,List.nil_append] at h
  have hsign := readSign_eq other []
  rw [List.append_nil,h,readSign_eq] at hsign
  have hdigits := splitDigits_eq integer.digits hr
  rw [(Prod.mk.inj hsign).2,splitDigits_eq other.digits (fun _ hb => by cases hb)] at hdigits
  exact ⟨hspaces,(Prod.mk.inj hdigits).2.symm⟩

/-- The value string of an option that has one. -/
theorem get_of_lookup {arguments : Arguments} {key value : Text}
    (h : arguments.values.lookup key=some value) : arguments.get key=value := by
  rw [Arguments.get,h]
  rfl

/-- The reader of unsigned numbers takes digits only. -/
theorem unsignedValue_iff {arguments : Arguments} {key value : Text} (fallback number : UInt32)
    (hv : arguments.get key=value) (hne : value≠[]) :
    arguments.unsignedValue key fallback=.ok number ↔
      ∃ digits : Digits,digits.val=value ∧ decimalValue value=number.toNat := by
  have happend := splitDigits_append value
  unfold Arguments.unsignedValue
  rw [hv]
  dsimp only
  rw [if_neg hne]
  constructor
  · intro h
    split at h
    · cases h
    · rename_i hrange
      split at h
      · cases h
      · rename_i hwhole
        rw [not_or,not_not] at hwhole
        rw [hwhole.2,List.append_nil] at happend
        have hlt : decimalValue (splitDigits value).1.val<2^32 := by
          by_contra hge
          exact hrange ⟨hwhole.1,not_lt.mp hge⟩
        refine ⟨(splitDigits value).1,happend,?_⟩
        rw [←Except.ok.inj h,UInt32.toNat_ofNat',Nat.mod_eq_of_lt hlt,happend]
  · rintro ⟨digits,hdigits,hnumber⟩
    have hsplit := @splitDigits_eq digits [] (fun _ hb => by cases hb)
    rw [List.append_nil,hdigits] at hsplit
    have hlt : number.toNat<2^32 := number.toNat_lt
    rw [hsplit]
    dsimp only
    rw [hdigits,if_neg (by omega),if_neg (by simp [hne]),hnumber,UInt32.ofNat_toNat]

/-- The reader of decimals takes numerals that can be represented. -/
theorem doubleValue_iff {strtod : Text → Double×ℕ} (h : CorrectlyRounds strtod)
    {arguments : Arguments} {key value : Text} (fallback number : Double)
    (hv : arguments.get key=value) (hne : value≠[]) (hl : value.length<999000) :
    (arguments.doubleValue strtod key fallback=.ok number ↔
      ∃ numeral : Numeral,numeral.spelled=value ∧ Representable numeral ∧ number=rounded numeral) ∧
    Ends (arguments.doubleValue strtod key fallback) Thrown (fun _ => True) := by
  obtain ⟨found,hparse,hfound⟩ := parseFiniteDecimal_exact h hl
  have hnumber : (∃ numeral : Numeral,numeral.spelled=value ∧ Representable numeral ∧
      number=rounded numeral) ↔ found=some number := by
    rw [hfound]
    refine exists_congr (fun numeral => and_congr_right (fun _ => and_congr_right (fun _ =>
      ⟨fun he => ⟨he,?_⟩,fun he => he.1⟩)))
    rw [he,rounded_negative]
  unfold Arguments.doubleValue
  rw [hv]
  dsimp only
  rw [if_neg hne,hparse,hnumber]
  cases found with
  | none => exact ⟨⟨nofun,nofun⟩,⟨_,rfl⟩⟩
  | some parsed =>
    refine ⟨⟨fun he => ?_,fun he => ?_⟩,trivial⟩
    · exact congrArg some (Except.ok.inj he)
    · exact congrArg Except.ok (Option.some.inj he)

/-- A number is wrapped for its reader. -/
theorem map_eq_ok {α : Type} {x : Except Fault α} {wrap : α → Number} {number : Number} :
    wrap<$>x=.ok number ↔ ∃ value,x=.ok value ∧ number=wrap value := by
  cases x with
  | ok value =>
    constructor
    · intro h
      exact ⟨value,rfl,(Except.ok.inj h).symm⟩
    · rintro ⟨other,hother,rfl⟩
      rw [Except.ok.inj hother]
      rfl
  | error fault => exact ⟨nofun,nofun⟩

/-- Wrapping changes no failure. -/
theorem map_ends {α : Type} {x : Except Fault α} {wrap : α → Number}
    (h : Ends x Thrown (fun _ => True)) : Ends (wrap<$>x) Thrown (fun _ => True) := by
  cases x with
  | ok value => exact trivial
  | error fault => exact h

/-- The value string of an option is no longer than an argument. -/
theorem CommandLine.get_length (line : CommandLine) (key : Text) :
    (line.arguments.get key).length<999000 := by
  unfold Arguments.get
  cases hv : line.arguments.values.lookup key with
  | none => exact Nat.lt_of_sub_pos (by decide)
  | some value =>
    have hall : ∀ argument∈line.argv.drop 2,argument.length<999000 :=
      fun argument ha => line.bounded argument (List.mem_of_mem_drop ha)
    exact @lookup_parseArguments (fun found => found.length<999000) {} (line.argv.drop 2)
      nofun hall key value hv

/-- A reader either returns a number or throws. -/
theorem read_ends {strtod : Text → Double×ℕ} (h : CorrectlyRounds strtod) (line : CommandLine)
    (key : Text) (reader : Reader) :
    Ends (reader.read strtod line.arguments key) Thrown (fun _ => True) := by
  cases reader with
  | unsigned fallback =>
    refine map_ends ?_
    unfold Arguments.unsignedValue
    dsimp only
    split
    · exact trivial
    · split
      · exact ⟨_,rfl⟩
      · split
        · exact ⟨_,rfl⟩
        · exact trivial
  | int fallback =>
    refine map_ends ?_
    unfold Arguments.intValue stoi
    dsimp only
    split
    · exact trivial
    · split
      · split
        · exact trivial
        · exact ⟨_,rfl⟩
      · exact ⟨_,rfl⟩
  | double fallback =>
    refine map_ends ?_
    by_cases hempty : line.arguments.get key=[]
    · unfold Arguments.doubleValue
      dsimp only
      rw [if_pos hempty]
      exact trivial
    · exact (doubleValue_iff h fallback fallback rfl hempty (line.get_length key)).2

/-- A reader returns the number that the whole value string denotes, when the
string is a whole number. -/
theorem read_iff {strtod : Text → Double×ℕ} (h : CorrectlyRounds strtod) {line : CommandLine}
    {key value : Text} {reader : Reader} (hv : line.arguments.values.lookup key=some value)
    (hw : WholeNumber reader value) (number : Number) :
    reader.read strtod line.arguments key=.ok number ↔ Denotes reader value number := by
  have hget := get_of_lookup hv
  have hlength := line.get_length key
  rw [hget] at hlength
  cases reader with
  | unsigned fallback =>
    rw [Reader.read,map_eq_ok,Denotes]
    simp only [unsignedValue_iff fallback _ hget hw.1]
    constructor
    · rintro ⟨found,⟨digits,hdigits,hfound⟩,hnumber⟩
      exact ⟨digits,found,hdigits,hw.1,hfound,hnumber⟩
    · rintro ⟨digits,found,hdigits,-,hfound,hnumber⟩
      exact ⟨found,⟨digits,hdigits,hfound⟩,hnumber⟩
  | int fallback =>
    rw [Reader.read,map_eq_ok,Denotes,Arguments.intValue,hget,if_neg hw.1]
    constructor
    · rintro ⟨found,hfound,hnumber⟩
      obtain ⟨spaces,rest,integer,hspelled,hs,hr,hrange,hinteger⟩ := stoi_ok hfound
      obtain ⟨hspaces,hrest⟩ := hw.2 spaces rest integer hspelled hs hr hrange
      rw [hspaces,hrest,List.nil_append,List.append_nil] at hspelled
      exact ⟨integer,hspelled.symm,hrange,by rw [hnumber,hinteger]⟩
    · rintro ⟨integer,hspelled,hrange,hnumber⟩
      have hstoi := @stoi_eq [] [] integer
        (fun _ hb => (List.not_mem_nil hb).elim) (fun _ hb => by cases hb)
      rw [List.nil_append,List.append_nil,hspelled,if_pos hrange] at hstoi
      exact ⟨_,hstoi,hnumber⟩
  | double fallback =>
    rw [Reader.read,map_eq_ok,Denotes]
    simp only [(doubleValue_iff h fallback _ hget hw.1 hlength).1]
    constructor
    · rintro ⟨found,⟨numeral,hspelled,hr,hfound⟩,hnumber⟩
      exact ⟨numeral,hspelled,hr,by rw [hnumber,hfound]⟩
    · rintro ⟨numeral,hspelled,hr,hnumber⟩
      exact ⟨_,⟨numeral,hspelled,hr,rfl⟩,hnumber⟩

/-- An empty value string is read as the fallback. -/
theorem read_of_empty {strtod : Text → Double×ℕ} {arguments : Arguments} {key : Text}
    (h : arguments.get key=[]) (reader : Reader) :
    reader.read strtod arguments key=.ok reader.fallback := by
  cases reader with
  | unsigned fallback => rw [Reader.read,Arguments.unsignedValue,if_pos h]; rfl
  | int fallback => rw [Reader.read,Arguments.intValue,if_pos h]; rfl
  | double fallback => rw [Reader.read,Arguments.doubleValue,if_pos h]; rfl

/-- An empty string is no number. -/
theorem not_denotes_nil (reader : Reader) (number : Number) : ¬Denotes reader [] number := by
  intro h
  cases reader with
  | unsigned fallback =>
    obtain ⟨digits,value,-,hne,-⟩ := h
    exact hne rfl
  | int fallback =>
    obtain ⟨integer,hspelled,-⟩ := h
    exact integer.digits_ne (List.append_eq_nil_iff.mp hspelled).2
  | double fallback =>
    obtain ⟨numeral,hspelled,-⟩ := h
    have hread := numeral.read_spelled
    rw [hspelled] at hread
    cases hread

/-- **Numeric options are strict for whole numbers only.** The number used for
an option of a validated command line is that of the whole value string, or an
exception is thrown, exactly if the value string is not empty and `std::stoi`
is not given an integer with white space in front or other characters behind. -/
theorem numericOption_strict_iff {strtod : Text → Double×ℕ} (h : CorrectlyRounds strtod)
    (command : Command) (line : CommandLine) (key : Text) (reader : Reader) :
    Strict strtod command line key reader ↔
      (validateArguments command line.arguments=.ok () →
        ∀ value,line.arguments.values.lookup key=some value → WholeNumber reader value) := by
  have hvalidate := validateArguments_ends command line.arguments
  have hread := read_ends h line key reader
  cases hv : validateArguments command line.arguments with
  | error fault =>
    rw [hv] at hvalidate
    have hused : numericOption strtod command line key reader=.error fault := by
      rw [numericOption,hv]
      rfl
    refine ⟨fun _ => nofun,fun _ => ⟨?_,?_,?_,?_⟩⟩
    · intro other hother
      rw [hused] at hother
      rw [←Except.error.inj hother]
      exact hvalidate
    · intro number hok
      rw [hused] at hok
      cases hok
    · intro number hok
      rw [hused] at hok
      cases hok
    · intro hok
      cases hv.symm.trans hok
  | ok done =>
    rw [hv] at hvalidate
    have hused : numericOption strtod command line key reader=
        reader.read strtod line.arguments key := by
      rw [numericOption,hv]
      rfl
    constructor
    · intro strict _ value hvalue
      have hget := get_of_lookup hvalue
      refine ⟨fun hempty => ?_,?_⟩
      · have hfallback := @read_of_empty strtod _ _ (hget.trans hempty) reader
        have hdenotes := strict.whole _ (hused.trans hfallback) value hvalue
        rw [hempty] at hdenotes
        exact not_denotes_nil reader _ hdenotes
      · cases reader with
        | unsigned fallback => exact trivial
        | double fallback => exact trivial
        | int fallback =>
          intro spaces rest integer hspelled hs hr hrange
          have hne : value≠[] := by
            rw [hspelled]
            refine List.append_ne_nil_of_left_ne_nil (List.append_ne_nil_of_right_ne_nil _ ?_) _
            exact List.append_ne_nil_of_right_ne_nil _ integer.digits_ne
          have hstoi : line.arguments.intValue key fallback=.ok integer.value := by
            rw [Arguments.intValue,hget,if_neg hne,hspelled,stoi_eq hs hr,if_pos hrange]
          have hok : numericOption strtod command line key (.int fallback)=
              .ok (.int integer.value) := by
            rw [hused,Reader.read,hstoi]
            rfl
          obtain ⟨other,hother,-⟩ := strict.whole _ hok value hvalue
          exact integer_alone hs hr (hother.trans hspelled)
    · intro hwhole
      refine ⟨?_,?_,?_,?_⟩
      · intro fault hfault
        rw [hused] at hfault
        exact hread.of_error hfault
      · intro number hok hnone
        have hget : line.arguments.get key=[] := by
          rw [Arguments.get,hnone]
          rfl
        rw [hused,read_of_empty hget] at hok
        refine ⟨?_,(Except.ok.inj hok).symm⟩
        rw [show line.arguments.valueless=[] from hvalidate]
        exact List.not_mem_nil
      · intro number hok value hvalue
        rw [hused] at hok
        exact (read_iff h hvalue (hwhole rfl value hvalue) number).mp hok
      · intro _ value hvalue number hnumber
        rw [hused]
        exact (read_iff h hvalue (hwhole rfl value hvalue) number).mpr hnumber

end Strictness

section Searching

/-- The flags of `search_groups`. -/
def searchFlags : List Text :=
  ["--index","--query","--top-k","--ef-search","--recompute-batch","--scan-limit","--rerank-ratio",
    "--embedder","--model","--hash-dim","--ctx","--batch-tokens","--parallel","--threads",
    "--gpu-layers","--format","--help"]

/-- The command `search`, with what it suggests for unknown options. -/
def searchCommand (suggestion : Text → Text) : Command where
  name := "search"
  knows := fun flag => decide (flag∈searchFlags)
  suggestion := suggestion

/-- A search whose number of results is an empty string. -/
def emptyTopK : CommandLine where
  argv := ["leann","search","--index","corpus","--query","graph","--top-k",""]
  bounded := by decide

/-- A search with a letter behind its number of threads. -/
def trailingThreads : CommandLine where
  argv := ["leann","search","--index","corpus","--query","graph","--embedder","llama","--model",
    "model.gguf","--threads","8x"]
  bounded := by decide

/-- The statement holds of the threads of the second search. -/
theorem numericOption_strict_iff_threads :
    Strict exactStrtod (searchCommand (fun _ => [])) trailingThreads "--threads" (.int 0) ↔
      (validateArguments (searchCommand (fun _ => [])) trailingThreads.arguments=.ok () →
        ∀ value,trailingThreads.arguments.values.lookup (text "--threads")=some value →
          WholeNumber (.int 0) value) :=
  numericOption_strict_iff exactStrtod_correct _ _ _ _

/-- The first search returns three results, and the second one runs eight
threads. -/
theorem numericOption_not_strict :
    ¬Strict exactStrtod (searchCommand (fun _ => [])) emptyTopK "--top-k" (.unsigned 3) ∧
      ¬Strict exactStrtod (searchCommand (fun _ => [])) trailingThreads "--threads" (.int 0) := by
  constructor
  · intro strict
    have hused : numericOption exactStrtod (searchCommand (fun _ => [])) emptyTopK "--top-k"
        (.unsigned 3)=.ok (.unsigned 3) := by decide +kernel
    exact not_denotes_nil _ _ (strict.whole _ hused [] (by decide +kernel))
  · intro strict
    have hused : numericOption exactStrtod (searchCommand (fun _ => [])) trailingThreads "--threads"
        (.int 0)=.ok (.int 8) := by decide +kernel
    obtain ⟨integer,hspelled,-⟩ := strict.whole _ hused (text "8x") (by decide +kernel)
    let eight : Integer := ⟨none,⟨text "8",by decide⟩,by decide⟩
    have halone := @integer_alone [] (text "x") eight _ (by decide)
      (fun byte hb => by cases hb; decide) (hspelled.trans (by decide))
    exact absurd halone.2 (by decide)

end Searching

end Leann.NumericOptions
