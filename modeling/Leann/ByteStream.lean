import Mathlib.Algebra.Order.Ring.Nat
import Mathlib.Data.List.Basic
import Mathlib.Data.Nat.Bitwise
import Mathlib.Tactic.Ring

/-!
# Byte streams and the grammars their readers recognise

A reader consumes a prefix of a positioned byte stream. `Recognises` says
that its successful runs are exactly the prefixes of a grammar, so one
composition rule carries both directions of a round trip: what is accepted
has the shape of the grammar, and everything of that shape is accepted.
-/

namespace Leann.ByteStream

section LittleEndian

/-- The low bytes of a value, least significant first. -/
def littleEndian : ℕ → ℕ → List UInt8
  | 0,_ => []
  | width+1,value => UInt8.ofNat value::littleEndian width (value/256)

/-- The value of bytes stored least significant first. -/
def ofLittleEndian : List UInt8 → ℕ
  | [] => 0
  | byte::bytes => byte.toNat+256*ofLittleEndian bytes

@[simp] theorem littleEndian_length (width value : ℕ) :
    (littleEndian width value).length=width := by
  induction width generalizing value with
  | zero => rfl
  | succ width ih => simp only [littleEndian,List.length_cons,ih]

/-- A value stays below the power its number of bytes allows. -/
theorem ofLittleEndian_lt (bytes : List UInt8) : ofLittleEndian bytes<256^bytes.length := by
  induction bytes with
  | nil => simp [ofLittleEndian]
  | cons byte bytes ih =>
    have hb : byte.toNat<256 := byte.toNat_lt
    simp only [ofLittleEndian,List.length_cons,pow_succ]
    omega

/-- Decoding an encoded value keeps what its width can hold. -/
theorem ofLittleEndian_littleEndian (width value : ℕ) :
    ofLittleEndian (littleEndian width value)=value%256^width := by
  induction width generalizing value with
  | zero => simp [littleEndian,ofLittleEndian,Nat.mod_one]
  | succ width ih =>
    have hb : (UInt8.ofNat value).toNat=value%256 := by simp
    rw [littleEndian,ofLittleEndian,ih,hb,pow_succ',Nat.mod_mul]

/-- Encoding a decoded value gives the same bytes back. -/
theorem littleEndian_ofLittleEndian (bytes : List UInt8) :
    littleEndian bytes.length (ofLittleEndian bytes)=bytes := by
  induction bytes with
  | nil => rfl
  | cons byte bytes ih =>
    have hb : byte.toNat<256 := byte.toNat_lt
    have hq : (byte.toNat+256*ofLittleEndian bytes)/256=ofLittleEndian bytes := by omega
    have hm : UInt8.ofNat (byte.toNat+256*ofLittleEndian bytes)=byte := by
      apply UInt8.toNat_inj.mp
      rw [UInt8.toNat_ofNat']
      omega
    simp only [List.length_cons,ofLittleEndian,littleEndian,hq,ih,hm]

/-- Appending one most significant byte adds its multiple of the power. -/
theorem ofLittleEndian_concat (bytes : List UInt8) (byte : UInt8) :
    ofLittleEndian (bytes++[byte])=ofLittleEndian bytes+256^bytes.length*byte.toNat := by
  induction bytes with
  | nil => simp [ofLittleEndian]
  | cons head bytes ih =>
    simp only [List.cons_append,ofLittleEndian,ih,List.length_cons,pow_succ]
    ring

/-- The byte at an index is the value shifted down and truncated. -/
theorem littleEndian_eq_map (width value : ℕ) :
    littleEndian width value=
      (List.range width).map (fun i => UInt8.ofNat ((value>>>(i*8))&&&0xff)) := by
  induction width generalizing value with
  | zero => rfl
  | succ width ih =>
    rw [littleEndian,ih,List.range_succ_eq_map]
    simp only [List.map_cons,List.map_map,Nat.zero_mul,Nat.shiftRight_zero]
    have hm (n : ℕ) : UInt8.ofNat (n&&&0xff)=UInt8.ofNat n := by
      apply UInt8.toNat_inj.mp
      rw [UInt8.toNat_ofNat',UInt8.toNat_ofNat',Nat.and_two_pow_sub_one_eq_mod n 8]
      omega
    rw [hm]
    congr 2
    funext i
    simp only [Function.comp_apply]
    rw [Nat.succ_mul,Nat.add_comm (i*8) 8,Nat.shiftRight_add,Nat.shiftRight_eq_div_pow value 8]

end LittleEndian

/-- A positioned stream over fixed contents. -/
structure Stream where
  /-- Every byte of the file. -/
  contents : List UInt8
  /-- How many bytes lie before the next one. -/
  position : ℕ
  deriving DecidableEq

namespace Stream

/-- The bytes not read yet. -/
def rest (stream : Stream) : List UInt8 := stream.contents.drop stream.position

/-- The stream some bytes further on. -/
def skip (stream : Stream) (bytes : ℕ) : Stream := ⟨stream.contents,stream.position+bytes⟩

@[simp] theorem skip_zero (stream : Stream) : stream.skip 0=stream := rfl

@[simp] theorem skip_contents (stream : Stream) (bytes : ℕ) :
    (stream.skip bytes).contents=stream.contents := rfl

@[simp] theorem skip_position (stream : Stream) (bytes : ℕ) :
    (stream.skip bytes).position=stream.position+bytes := rfl

@[simp] theorem skip_skip (stream : Stream) (first second : ℕ) :
    (stream.skip first).skip second=stream.skip (first+second) := by
  simp [skip,Nat.add_assoc]

@[simp] theorem skip_rest (stream : Stream) (bytes : ℕ) :
    (stream.skip bytes).rest=stream.rest.drop bytes := by
  simp [rest,skip,List.drop_drop]

end Stream

/-- A computation that reads a stream and may end early. -/
abbrev Reader (ε α : Type) := StateT Stream (Except ε) α

/-- The byte strings of a language, each with the value it stands for. -/
abbrev Grammar (α : Type) := List UInt8 → α → Prop

section Readers

variable {ε α β : Type}

/-- Read the next bytes, all of them or none. -/
def take (truncated : ε) (size : ℕ) : Reader ε (List UInt8) := fun stream =>
  if size≤ stream.rest.length then .ok (stream.rest.take size,stream.skip size)
  else .error truncated

/-- Continue at an absolute position. -/
def seek (position : ℕ) : Reader ε Unit := fun stream => .ok ((),⟨stream.contents,position⟩)

/-- The current absolute position. -/
def tell : Reader ε ℕ := fun stream => .ok (stream.position,stream)

/-- End early with a failure. -/
def fail (failure : ε) : Reader ε α := fun _ => .error failure

/-- End early when a condition holds. -/
def failIf (condition : Prop) [Decidable condition] (failure : ε) : Reader ε Unit :=
  if condition then fail failure else pure ()

/-- Run a computation that reads nothing. -/
def attempt (result : Except ε α) : Reader ε α := fun stream => result.map (fun value => (value,stream))

/-- End early unless so many bytes are still to come. -/
def demand (missing : ε) (size : ℕ) : Reader ε Unit := fun stream =>
  if size≤ stream.rest.length then .ok ((),stream) else .error missing

/-- Read a counted sequence of values. -/
def readMany (reader : Reader ε α) : ℕ → Reader ε (List α)
  | 0 => pure []
  | count+1 => do
    let value ← reader
    let values ← readMany reader count
    return value::values

/-- A sequenced reader succeeds when both parts do, one after the other. -/
theorem run_bind_ok (reader : Reader ε α) (next : α → Reader ε β) (start stop : Stream) (result : β) :
    (reader>>=next) start=.ok (result,stop) ↔
      ∃ value middle,reader start=.ok (value,middle) ∧ next value middle=.ok (result,stop) := by
  cases h : reader start with
  | error failure => simp [bind,StateT.bind,Except.bind,h]
  | ok pair =>
    obtain ⟨value,middle⟩ := pair
    simp [bind,StateT.bind,Except.bind,h,and_assoc]

/-- Returning succeeds in place. -/
theorem run_pure_ok (result value : α) (start stop : Stream) :
    (pure result : Reader ε α) start=.ok (value,stop) ↔ value=result ∧ stop=start := by
  change (Except.ok (result,start) : Except ε (α×Stream))=.ok (value,stop) ↔ _
  rw [Except.ok.injEq,Prod.mk.injEq]
  exact and_congr eq_comm eq_comm

/-- A seek always succeeds. -/
theorem run_seek_ok (position : ℕ) (value : Unit) (start stop : Stream) :
    (seek position : Reader ε Unit) start=.ok (value,stop) ↔ stop=⟨start.contents,position⟩ := by
  simp only [seek,Except.ok.injEq,Prod.mk.injEq,true_and]
  exact eq_comm

/-- The position is read in place. -/
theorem run_tell_ok (value : ℕ) (start stop : Stream) :
    (tell : Reader ε ℕ) start=.ok (value,stop) ↔ value=start.position ∧ stop=start := by
  simp only [tell,Except.ok.injEq,Prod.mk.injEq]
  exact and_congr eq_comm eq_comm

/-- A check passes in place when its condition fails. -/
theorem run_failIf_ok (condition : Prop) [Decidable condition] (failure : ε) (value : Unit)
    (start stop : Stream) :
    failIf condition failure start=.ok (value,stop) ↔ ¬condition ∧ stop=start := by
  unfold failIf
  by_cases hc : condition
  · simp [hc,fail]
  · rw [if_neg hc,run_pure_ok]
    simp [hc]

/-- A computation without reads succeeds in place. -/
theorem run_attempt_ok (result : Except ε α) (value : α) (start stop : Stream) :
    attempt result start=.ok (value,stop) ↔ result=.ok value ∧ stop=start := by
  cases result with
  | error failure => simp [attempt,Except.map]
  | ok given => simp [attempt,Except.map,eq_comm]

/-- A block is read when enough bytes are left. -/
theorem run_take_ok (truncated : ε) (size : ℕ) (value : List UInt8) (start stop : Stream) :
    take truncated size start=.ok (value,stop) ↔
      size≤ start.rest.length ∧ value=start.rest.take size ∧ stop=start.skip size := by
  unfold take
  split <;> simp_all [eq_comm]

/-- A demand is met in place when enough bytes are left. -/
theorem run_demand_ok (missing : ε) (size : ℕ) (value : Unit) (start stop : Stream) :
    demand missing size start=.ok (value,stop) ↔ size≤ start.rest.length ∧ stop=start := by
  unfold demand
  split <;> simp_all [eq_comm]

/-- The successful runs of a reader are exactly the prefixes of its stream
that its grammar contains, each with its value and leaving its rest. -/
def Recognises (reader : Reader ε α) (grammar : Grammar α) : Prop :=
  ∀ start value stop,reader start=.ok (value,stop) ↔
    ∃ bytes,grammar bytes value ∧ bytes<+:start.rest ∧ stop=start.skip bytes.length

namespace Recognises

/-- Grammars that agree describe the same reader. -/
theorem congr {reader : Reader ε α} {grammar grammar' : Grammar α}
    (h : Recognises reader grammar) (same : ∀ bytes value,grammar bytes value ↔ grammar' bytes value) :
    Recognises reader grammar' := by
  intro start value stop
  rw [h start value stop]
  simp only [same]

/-- Returning reads nothing. -/
theorem pure (result : α) :
    Recognises (Pure.pure result : Reader ε α) (fun bytes value => bytes=[] ∧ value=result) := by
  intro start value stop
  rw [run_pure_ok]
  constructor
  · rintro ⟨rfl,rfl⟩
    exact ⟨[],⟨rfl,rfl⟩,List.nil_prefix,rfl⟩
  · rintro ⟨bytes,⟨rfl,rfl⟩,-,rfl⟩
    exact ⟨rfl,rfl⟩

/-- A sequence of two readers recognises the concatenations, when the second
reads its grammar behind whatever the first accepts. -/
theorem bindOf {reader : Reader ε α} {next : α → Reader ε β} {first : Grammar α}
    {second : α → Grammar β} (h : Recognises reader first)
    (hn : ∀ value front,first front value → Recognises (next value) (second value)) :
    Recognises (reader>>=next) (fun bytes result =>
      ∃ value front back,bytes=front++back ∧ first front value ∧ second value back result) := by
  intro start result stop
  rw [run_bind_ok]
  constructor
  · rintro ⟨value,middle,hr,hs⟩
    obtain ⟨front,hf,hp,rfl⟩ := (h _ _ _).mp hr
    obtain ⟨back,hb,hq,rfl⟩ := (hn _ _ hf _ _ _).mp hs
    obtain ⟨later,hl⟩ := hp
    rw [Stream.skip_rest,←hl,List.drop_left] at hq
    obtain ⟨last,rfl⟩ := hq
    refine ⟨front++back,⟨value,front,back,rfl,hf,hb⟩,⟨last,?_⟩,?_⟩
    · rw [←hl,List.append_assoc]
    · rw [Stream.skip_skip,List.length_append]
  · rintro ⟨_,⟨value,front,back,rfl,hf,hb⟩,⟨last,hl⟩,rfl⟩
    refine ⟨value,start.skip front.length,(h _ _ _).mpr ⟨front,hf,⟨back++last,?_⟩,rfl⟩,
      (hn _ _ hf _ _ _).mpr ⟨back,hb,⟨last,?_⟩,?_⟩⟩
    · rw [←hl,List.append_assoc]
    · rw [Stream.skip_rest,←hl,List.append_assoc,List.drop_left]
    · rw [Stream.skip_skip,List.length_append]

/-- A sequence of two readers recognises the concatenations. -/
theorem bind {reader : Reader ε α} {next : α → Reader ε β} {first : Grammar α}
    {second : α → Grammar β} (h : Recognises reader first)
    (hn : ∀ value,Recognises (next value) (second value)) :
    Recognises (reader>>=next) (fun bytes result =>
      ∃ value front back,bytes=front++back ∧ first front value ∧ second value back result) :=
  h.bindOf (fun value _ _ => hn value)

/-- A check reads nothing and passes exactly when its condition fails. -/
theorem failIf (condition : Prop) [Decidable condition] (failure : ε) :
    Recognises (failIf condition failure) (fun bytes _ => bytes=[] ∧ ¬condition) := by
  intro start value stop
  rw [run_failIf_ok]
  constructor
  · rintro ⟨hc,rfl⟩
    exact ⟨[],⟨rfl,hc⟩,List.nil_prefix,rfl⟩
  · rintro ⟨bytes,⟨rfl,hc⟩,-,rfl⟩
    exact ⟨hc,rfl⟩

/-- A computation without reads recognises the empty string. -/
theorem attempt (result : Except ε α) :
    Recognises (attempt result) (fun bytes value => bytes=[] ∧ result=.ok value) := by
  intro start value stop
  rw [run_attempt_ok]
  constructor
  · rintro ⟨hr,rfl⟩
    exact ⟨[],⟨rfl,hr⟩,List.nil_prefix,rfl⟩
  · rintro ⟨bytes,⟨rfl,hr⟩,-,rfl⟩
    exact ⟨hr,rfl⟩

/-- A block of bytes is any string of its size. -/
theorem take (truncated : ε) (size : ℕ) :
    Recognises (take truncated size) (fun bytes value => value=bytes ∧ bytes.length=size) := by
  intro start value stop
  rw [run_take_ok]
  constructor
  · rintro ⟨hs,rfl,rfl⟩
    have hl : (start.rest.take size).length=size := by rw [List.length_take,Nat.min_eq_left hs]
    exact ⟨start.rest.take size,⟨rfl,hl⟩,List.take_prefix _ _,by rw [hl]⟩
  · rintro ⟨bytes,⟨rfl,rfl⟩,⟨last,hl⟩,rfl⟩
    refine ⟨?_,?_,rfl⟩
    · rw [←hl]
      simp
    · rw [←hl,List.take_left]

/-- A demand is met by whatever the reader behind it is going to read. -/
theorem demand {reader : Reader ε α} {grammar : Grammar α} (missing : ε) {size : ℕ}
    (h : Recognises reader grammar) (covered : ∀ bytes value,grammar bytes value → size≤bytes.length) :
    Recognises (do ByteStream.demand missing size; reader) grammar := by
  intro start value stop
  refine (run_bind_ok (ByteStream.demand missing size) (fun _ => reader) start stop value).trans ?_
  constructor
  · rintro ⟨_,middle,hd,hr⟩
    obtain ⟨-,rfl⟩ := (run_demand_ok _ _ _ _ _).mp hd
    exact (h _ _ _).mp hr
  · rintro ⟨bytes,hg,hp,rfl⟩
    have hs : size≤ start.rest.length := (covered _ _ hg).trans hp.length_le
    exact ⟨(),start,(run_demand_ok _ _ _ _ _).mpr ⟨hs,rfl⟩,(h _ _ _).mpr ⟨bytes,hg,hp,rfl⟩⟩

/-- A check in front of a reader restricts its grammar. -/
theorem guarded (condition : Prop) [Decidable condition] (failure : ε) {reader : Reader ε α}
    {grammar : Grammar α} (h : Recognises reader grammar) :
    Recognises (do ByteStream.failIf condition failure; reader) (fun bytes value =>
      ¬condition ∧ grammar bytes value) := by
  refine ((failIf condition failure).bind (fun _ => h)).congr (fun bytes value => ?_)
  constructor
  · rintro ⟨_,_,back,rfl,⟨rfl,hc⟩,hg⟩
    exact ⟨hc,hg⟩
  · rintro ⟨hc,hg⟩
    exact ⟨(),[],bytes,rfl,⟨rfl,hc⟩,hg⟩

/-- A transformed reader recognises the same strings. -/
theorem returning {reader : Reader ε α} {grammar : Grammar α} (f : α → β)
    (h : Recognises reader grammar) :
    Recognises (reader>>=fun value => Pure.pure (f value)) (fun bytes result =>
      ∃ value,grammar bytes value ∧ result=f value) := by
  refine (h.bind (fun value => pure (f value))).congr (fun bytes result => ?_)
  constructor
  · rintro ⟨value,front,_,rfl,hf,rfl,rfl⟩
    exact ⟨value,by simpa using hf,rfl⟩
  · rintro ⟨value,hg,rfl⟩
    exact ⟨value,bytes,[],by simp,hg,rfl,rfl⟩

/-- A computation without reads in front of a reader fixes its parameter. -/
theorem attemptedOf (result : Except ε α) {next : α → Reader ε β} {second : α → Grammar β}
    (hn : ∀ value,result=.ok value → Recognises (next value) (second value)) :
    Recognises (ByteStream.attempt result>>=next) (fun bytes value =>
      ∃ given,result=.ok given ∧ second given bytes value) := by
  refine ((attempt result).bindOf (fun given _ hg => hn given hg.2)).congr (fun bytes value => ?_)
  constructor
  · rintro ⟨given,_,back,rfl,⟨rfl,hr⟩,hs⟩
    exact ⟨given,hr,hs⟩
  · rintro ⟨given,hr,hs⟩
    exact ⟨given,[],bytes,rfl,⟨rfl,hr⟩,hs⟩

/-- A computation without reads in front of a reader fixes its parameter. -/
theorem attempted (result : Except ε α) {next : α → Reader ε β} {second : α → Grammar β}
    (hn : ∀ value,Recognises (next value) (second value)) :
    Recognises (ByteStream.attempt result>>=next) (fun bytes value =>
      ∃ given,result=.ok given ∧ second given bytes value) :=
  attemptedOf result (fun value _ => hn value)

/-- An encoded field in front of a reader is a prefix of its strings. -/
theorem field {reader : Reader ε α} {next : α → Reader ε β} {encode : α → List UInt8}
    {valid : α → Prop} {second : α → Grammar β}
    (h : Recognises reader (fun bytes value => bytes=encode value ∧ valid value))
    (hn : ∀ value,Recognises (next value) (second value)) :
    Recognises (reader>>=next) (fun bytes result =>
      ∃ value,valid value ∧ ∃ back,bytes=encode value++back ∧ second value back result) := by
  refine (h.bind hn).congr (fun bytes result => ?_)
  constructor
  · rintro ⟨value,_,back,rfl,⟨rfl,hv⟩,hs⟩
    exact ⟨value,hv,back,rfl,hs⟩
  · rintro ⟨value,hv,back,rfl,hs⟩
    exact ⟨value,_,back,rfl,⟨rfl,hv⟩,hs⟩

/-- A counted sequence of encoded values is the concatenation of their
encodings. -/
theorem readMany {reader : Reader ε α} {encode : α → List UInt8} {valid : α → Prop}
    (h : Recognises reader (fun bytes value => bytes=encode value ∧ valid value)) (count : ℕ) :
    Recognises (readMany reader count) (fun bytes values =>
      bytes=values.flatMap encode ∧ values.length=count ∧ ∀ value∈values,valid value) := by
  induction count with
  | zero =>
    refine (pure []).congr (fun bytes values => ?_)
    constructor
    · rintro ⟨rfl,rfl⟩
      simp
    · rintro ⟨rfl,hl,-⟩
      simp [List.length_eq_zero_iff.mp hl]
  | succ count ih =>
    refine (h.bind (fun value => ih.returning (fun values => value::values))).congr
      (fun bytes values => ?_)
    constructor
    · rintro ⟨value,_,_,rfl,⟨rfl,hv⟩,tail,⟨rfl,hl,ht⟩,rfl⟩
      exact ⟨by simp,by simp [hl],by simpa [hv] using ht⟩
    · rintro ⟨rfl,hl,ht⟩
      cases values with
      | nil => simp at hl
      | cons value tail =>
        have hc : tail.length=count := by simpa using hl
        rw [List.forall_mem_cons] at ht
        exact ⟨value,encode value,tail.flatMap encode,by simp,⟨rfl,ht.1⟩,tail,⟨rfl,hc,ht.2⟩,rfl⟩

/-- Running a reader at a known point of known contents. -/
theorem run_append {reader : Reader ε α} {grammar : Grammar α} (h : Recognises reader grammar)
    (before bytes after : List UInt8) {value : α} (hg : grammar bytes value) :
    reader ⟨before++(bytes++after),before.length⟩=
      .ok (value,⟨before++(bytes++after),before.length+bytes.length⟩) := by
  refine (h _ _ _).mpr ⟨bytes,hg,?_,rfl⟩
  simp [Stream.rest]

/-- A successful run splits the contents around the bytes it read. -/
theorem split {reader : Reader ε α} {grammar : Grammar α} (h : Recognises reader grammar)
    {before rest : List UInt8} {value : α} {stop : Stream}
    (hr : reader ⟨before++rest,before.length⟩=.ok (value,stop)) :
    ∃ bytes after,grammar bytes value ∧ rest=bytes++after ∧
      stop=⟨before++(bytes++after),before.length+bytes.length⟩ := by
  obtain ⟨bytes,hg,⟨after,ha⟩,rfl⟩ := (h _ _ _).mp hr
  have hd : rest=bytes++after := by simpa [Stream.rest] using ha.symm
  exact ⟨bytes,after,hg,hd,by rw [Stream.skip,hd]⟩

end Recognises

end Readers

end Leann.ByteStream
