import Leann.Format
import Mathlib.Data.List.Range

/-!
# SHA-256 and CRC-32C of artifact files

The streaming hasher keeps a partly filled block between updates. Its
invariant ties that state to the bytes absorbed so far, so any way of
feeding a file gives the digest of the file. Footers are appended and
verified over the same digest.
-/

namespace Leann.Checksum

open ByteStream Exceptions Outcomes Format

section Constants

/-- `round_constants`. -/
def roundConstants : Vector UInt32 64 := #v[
  0x428a2f98,0x71374491,0xb5c0fbcf,0xe9b5dba5,0x3956c25b,
  0x59f111f1,0x923f82a4,0xab1c5ed5,0xd807aa98,0x12835b01,
  0x243185be,0x550c7dc3,0x72be5d74,0x80deb1fe,0x9bdc06a7,
  0xc19bf174,0xe49b69c1,0xefbe4786,0x0fc19dc6,0x240ca1cc,
  0x2de92c6f,0x4a7484aa,0x5cb0a9dc,0x76f988da,0x983e5152,
  0xa831c66d,0xb00327c8,0xbf597fc7,0xc6e00bf3,0xd5a79147,
  0x06ca6351,0x14292967,0x27b70a85,0x2e1b2138,0x4d2c6dfc,
  0x53380d13,0x650a7354,0x766a0abb,0x81c2c92e,0x92722c85,
  0xa2bfe8a1,0xa81a664b,0xc24b8b70,0xc76c51a3,0xd192e819,
  0xd6990624,0xf40e3585,0x106aa070,0x19a4c116,0x1e376c08,
  0x2748774c,0x34b0bcb5,0x391c0cb3,0x4ed8aa4a,0x5b9cca4f,
  0x682e6ff3,0x748f82ee,0x78a5636f,0x84c87814,0x8cc70208,
  0x90befffa,0xa4506ceb,0xbef9a3f7,0xc67178f2]

/-- `choose`. -/
def choose (x y z : UInt32) : UInt32 := (x&&&y)^^^(~~~x&&&z)

/-- `majority`. -/
def majority (x y z : UInt32) : UInt32 := (x&&&y)^^^(x&&&z)^^^(y&&&z)

/-- `std::rotr` by less than the width. -/
def rotr (value shift : UInt32) : UInt32 := (value>>>shift)|||(value<<<(32-shift))

/-- `big_sigma0`. -/
def bigSigma0 (value : UInt32) : UInt32 := rotr value 2^^^rotr value 13^^^rotr value 22

/-- `big_sigma1`. -/
def bigSigma1 (value : UInt32) : UInt32 := rotr value 6^^^rotr value 11^^^rotr value 25

/-- `small_sigma0`. -/
def smallSigma0 (value : UInt32) : UInt32 := rotr value 7^^^rotr value 18^^^(value>>>3)

/-- `small_sigma1`. -/
def smallSigma1 (value : UInt32) : UInt32 := rotr value 17^^^rotr value 19^^^(value>>>10)

end Constants

section Compression

/-- One input block. -/
abbrev Block := Vector UInt8 64

/-- `Sha256Digest`. -/
abbrev Sha256Digest := Vector UInt8 32

/-- The first sixteen words of the schedule, most significant byte first. -/
def blockWord (block : Block) (word : Fin 16) : UInt32 :=
  (block[word.val*4].toUInt32<<<24)|||(block[word.val*4+1].toUInt32<<<16)|||
    (block[word.val*4+2].toUInt32<<<8)|||block[word.val*4+3].toUInt32

/-- The message schedule of one block. -/
def schedule (block : Block) : Vector UInt32 64 :=
  (List.finRange 48).foldl (fun words i =>
    words.set (i.val+16) (smallSigma1 words[i.val+14]+words[i.val+9]+
      smallSigma0 words[i.val+1]+words[i.val]))
    (Vector.ofFn (fun i => if h : i.val<16 then blockWord block ⟨i.val,h⟩ else 0))

/-- The eight working variables, which are also the hash state. -/
structure Registers where
  /-- First variable. -/
  a : UInt32
  /-- Second variable. -/
  b : UInt32
  /-- Third variable. -/
  c : UInt32
  /-- Fourth variable. -/
  d : UInt32
  /-- Fifth variable. -/
  e : UInt32
  /-- Sixth variable. -/
  f : UInt32
  /-- Seventh variable. -/
  g : UInt32
  /-- Eighth variable. -/
  h : UInt32
  deriving DecidableEq

/-- One round of the compression loop. -/
def Registers.round (r : Registers) (constant word : UInt32) : Registers :=
  let first := r.h+bigSigma1 r.e+choose r.e r.f r.g+constant+word
  let second := bigSigma0 r.a+majority r.a r.b r.c
  ⟨first+second,r.a,r.b,r.c,r.d+first,r.e,r.f,r.g⟩

/-- `Sha256::transform`. -/
def transform (state : Registers) (block : Block) : Registers :=
  let words := schedule block
  let r := (List.finRange 64).foldl
    (fun r i => r.round roundConstants[i.val] words[i.val]) state
  ⟨state.a+r.a,state.b+r.b,state.c+r.c,state.d+r.d,
    state.e+r.e,state.f+r.f,state.g+r.g,state.h+r.h⟩

/-- The state of a fresh hasher. -/
def initialState : Registers :=
  ⟨0x6a09e667,0xbb67ae85,0x3c6ef372,0xa54ff53a,0x510e527f,0x9b05688c,0x1f83d9ab,0x5be0cd19⟩

/-- The four bytes of a word, most significant first. -/
def wordBytes (word : UInt32) : List UInt8 :=
  [(word>>>24).toUInt8,(word>>>16).toUInt8,(word>>>8).toUInt8,word.toUInt8]

/-- The digest stored in a final state. -/
def Registers.digest (r : Registers) : Sha256Digest :=
  ⟨(wordBytes r.a++wordBytes r.b++wordBytes r.c++wordBytes r.d++
    wordBytes r.e++wordBytes r.f++wordBytes r.g++wordBytes r.h).toArray,rfl⟩

end Compression

section Hasher

/-- The streaming hasher. -/
structure Sha256 where
  /-- Chaining value of the blocks absorbed so far. -/
  state : Registers
  /-- Storage of the partly filled block. -/
  buffer : Block
  /-- How much of the buffer is filled. -/
  buffered : ℕ
  /-- How many bytes were given so far. -/
  totalBytes : ℕ
  /-- The digest has been taken. -/
  finished : Bool

/-- A fresh hasher. -/
def Sha256.new : Sha256 := ⟨initialState,.replicate 64 0,0,0,false⟩

/-- Copy bytes into the block at an offset, which must be inside it. -/
def overwrite (buffer : Block) (offset : ℕ) (bytes : List UInt8) : Except Fault Block :=
  if h : offset+bytes.length≤64 then
    .ok ⟨(buffer.toList.take offset++bytes++buffer.toList.drop (offset+bytes.length)).toArray,by
      simp; omega⟩
  else .error .outOfBounds

/-- The block at the front of an input that holds one. -/
def leadingBlock (bytes : List UInt8) (h : 64≤bytes.length) : Block :=
  ⟨(bytes.take 64).toArray,by simp [h]⟩

/-- Absorb the whole blocks at the front of the input and return the rest. -/
def absorbBlocks (state : Registers) (bytes : List UInt8) : Registers×List UInt8 :=
  if h : 64≤bytes.length then absorbBlocks (transform state (leadingBlock bytes h)) (bytes.drop 64)
  else (state,bytes)
termination_by bytes.length
decreasing_by simp; omega

/-- Fill up a partly filled block first and compress it when it is full. -/
def Sha256.topUp (hasher : Sha256) (bytes : List UInt8) : Except Fault (Sha256×List UInt8) :=
  if hasher.buffered≠0 then do
    let copied := min (64-hasher.buffered) bytes.length
    let buffer ← overwrite hasher.buffer hasher.buffered (bytes.take copied)
    if hasher.buffered+copied=64 then
      return ({hasher with state := transform hasher.state buffer,buffer := buffer,buffered := 0},
        bytes.drop copied)
    else return ({hasher with buffer := buffer,buffered := hasher.buffered+copied},bytes.drop copied)
  else return (hasher,bytes)

/-- Compress whole blocks and keep what remains in the buffer. -/
def Sha256.absorb (hasher : Sha256) (bytes : List UInt8) : Except Fault Sha256 := do
  let (state,remaining) := absorbBlocks hasher.state bytes
  if remaining.isEmpty then return {hasher with state := state}
  let buffer ← overwrite hasher.buffer 0 remaining
  return {hasher with state := state,buffer := buffer,buffered := remaining.length}

/-- `Sha256::update`. -/
def Sha256.update (hasher : Sha256) (bytes : List UInt8) : Except Fault Sha256 :=
  if hasher.finished then throwing (logicError "SHA-256 update after finish")
  else if bytes.length>uint64Max-hasher.totalBytes then
    throwing (overflowError "SHA-256 input is too large")
  else do
    let counted := {hasher with totalBytes := hasher.totalBytes+bytes.length}
    if bytes.isEmpty then return counted
    let (aligned,rest) ← counted.topUp bytes
    aligned.absorb rest

/-- The eight bytes of the bit length, most significant first. -/
def lengthBytes (totalBits : ℕ) : List UInt8 :=
  (List.range 8).map (fun byte => UInt8.ofNat (totalBits>>>(56-8*byte)))

/-- Compress a block that has no room left for the length. -/
def makeRoom (state : Registers) (buffer : Block) (buffered : ℕ) :
    Except Fault (Registers×Block×ℕ) :=
  if buffered>56 then do
    let buffer ← overwrite buffer buffered (List.replicate (64-buffered) 0)
    return (transform state buffer,buffer,0)
  else return (state,buffer,buffered)

/-- `Sha256::finish`. -/
def Sha256.finish (hasher : Sha256) : Except Fault Sha256Digest :=
  if hasher.finished then throwing (logicError "SHA-256 finish called twice")
  else if hasher.totalBytes>uint64Max/8 then
    throwing (overflowError "SHA-256 bit length is too large")
  else do
    let totalBits := hasher.totalBytes*8
    let marked ← overwrite hasher.buffer hasher.buffered [0x80]
    let (state,buffer,buffered) ← makeRoom hasher.state marked (hasher.buffered+1)
    let buffer ← overwrite buffer buffered (List.replicate (56-buffered) 0)
    let buffer ← overwrite buffer 56 (lengthBytes totalBits)
    return (transform state buffer).digest

end Hasher

section Absorption

/-- Input shorter than a block stays in the buffer. -/
theorem absorbBlocks_short (state : Registers) {bytes : List UInt8} (h : bytes.length<64) :
    absorbBlocks state bytes=(state,bytes) := by
  rw [absorbBlocks,dif_neg (by omega)]

/-- Input that holds a block has it compressed first. -/
theorem absorbBlocks_long (state : Registers) {bytes : List UInt8} (h : 64≤bytes.length) :
    absorbBlocks state bytes=absorbBlocks (transform state (leadingBlock bytes h)) (bytes.drop 64) := by
  rw [absorbBlocks,dif_pos h]

/-- The front block of an input does not depend on what follows it. -/
theorem leadingBlock_append {first : List UInt8} (second : List UInt8) (h : 64≤first.length)
    (ha : 64≤(first++second).length) : leadingBlock (first++second) ha=leadingBlock first h := by
  simp only [leadingBlock,List.take_append_of_le_length h]

/-- Splitting the input anywhere leaves what the first part left over in
front of the second. -/
theorem absorbBlocks_append (state : Registers) (first second : List UInt8) :
    absorbBlocks state (first++second)=
      absorbBlocks (absorbBlocks state first).1 ((absorbBlocks state first).2++second) := by
  by_cases h : 64≤first.length
  · have hl : 64≤(first++second).length := by
      rw [List.length_append]
      omega
    rw [absorbBlocks_long state hl,absorbBlocks_long state h,leadingBlock_append second h hl,
      List.drop_append_of_le_length h]
    exact absorbBlocks_append _ (first.drop 64) second
  · rw [absorbBlocks_short state (Nat.lt_of_not_le h)]
termination_by first.length
decreasing_by simp only [List.length_drop]; omega

/-- What is left over is the input modulo the block size. -/
theorem absorbBlocks_rest_length (state : Registers) (bytes : List UInt8) :
    (absorbBlocks state bytes).2.length=bytes.length%64 := by
  by_cases h : 64≤bytes.length
  · have hr := absorbBlocks_rest_length (transform state (leadingBlock bytes h)) (bytes.drop 64)
    rw [absorbBlocks_long state h,hr,List.length_drop]
    omega
  · have hs := Nat.lt_of_not_le h
    rw [absorbBlocks_short state hs,Nat.mod_eq_of_lt hs]
termination_by bytes.length
decreasing_by simp only [List.length_drop]; omega

/-- A full block is compressed at once. -/
theorem absorbBlocks_block (state : Registers) (block : Block) :
    absorbBlocks state block.toList=(transform state block,[]) := by
  have hl : 64≤block.toList.length := by simp
  have hn : block.toList.drop 64=[] := by simp
  have hb : leadingBlock block.toList hl=block := by
    apply Vector.toArray_inj.mp
    simp [leadingBlock,List.take_of_length_le,Vector.toList]
  rw [absorbBlocks_long state hl,hn,hb,absorbBlocks_short _ (by simp)]

/-- Bytes that fit are copied behind what lies below their offset. -/
theorem overwrite_ok (buffer : Block) {offset : ℕ} {bytes : List UInt8}
    (h : offset+bytes.length≤64) :
    ∃ after,overwrite buffer offset bytes=.ok after ∧
      after.toList.take (offset+bytes.length)=buffer.toList.take offset++bytes := by
  have hl : (buffer.toList.take offset++bytes).length=offset+bytes.length := by
    rw [List.length_append,List.length_take,Vector.length_toList]
    omega
  rw [overwrite,dif_pos h]
  refine ⟨_,rfl,?_⟩
  rw [Vector.toList_mk,List.take_append_of_le_length hl.ge,List.take_of_length_le hl.le]

/-- A block filled to its end is all of what was copied. -/
theorem toList_eq_of_take {buffer : Block} {bytes : List UInt8}
    (h : buffer.toList.take 64=bytes) : buffer.toList=bytes := by
  rw [←h,List.take_of_length_le (by simp)]

/-- State and buffer hold exactly these bytes. -/
structure Chained (hasher : Sha256) (bytes : List UInt8) : Prop where
  /-- The state chains the whole blocks. -/
  state : hasher.state=(absorbBlocks initialState bytes).1
  /-- The filled part of the buffer is what they leave over. -/
  filled : hasher.buffer.toList.take hasher.buffered=(absorbBlocks initialState bytes).2
  /-- The fill level is its length. -/
  buffered : hasher.buffered=bytes.length%64

/-- The hasher has absorbed exactly these bytes. -/
structure Absorbed (hasher : Sha256) (bytes : List UInt8) : Prop extends Chained hasher bytes where
  /-- Every byte was counted. -/
  total : hasher.totalBytes=bytes.length
  /-- The count did not overflow. -/
  bounded : bytes.length≤uint64Max
  /-- The digest was not taken yet. -/
  unfinished : hasher.finished=false

/-- The message padded to whole blocks with its length in bits. -/
def padded (bytes : List UInt8) : List UInt8 :=
  bytes++(0x80 : UInt8)::(List.replicate ((119-bytes.length%64)%64) (0 : UInt8)++
    lengthBytes (bytes.length*8))

/-- The digest of a byte string. -/
def digest (bytes : List UInt8) : Sha256Digest := (absorbBlocks initialState (padded bytes)).1.digest

/-- A fresh hasher has absorbed nothing. -/
theorem absorbed_new : Absorbed .new [] := by
  have he : absorbBlocks initialState []=(initialState,[]) := absorbBlocks_short _ (by simp)
  refine ⟨⟨?_,?_,?_⟩,?_,?_,?_⟩ <;> simp [Sha256.new,he]

/-- A buffer that is filled up continues the bytes it holds. -/
theorem Chained.topUp {hasher : Sha256} {bytes : List UInt8} (hc : Chained hasher bytes)
    (more : List UInt8) : ∃ after front rest,hasher.topUp more=.ok (after,rest) ∧ more=front++rest ∧
      Chained after (bytes++front) ∧ (after.buffered=0 ∨ rest=[]) ∧
      after.totalBytes=hasher.totalBytes ∧ after.finished=hasher.finished := by
  have hb := hc.buffered
  by_cases hz : hasher.buffered=0
  · refine ⟨hasher,[],more,?_,rfl,by simpa using hc,.inl hz,rfl,rfl⟩
    rw [Sha256.topUp,if_neg (by omega)]
    rfl
  have hlen : (more.take (min (64-hasher.buffered) more.length)).length=
      min (64-hasher.buffered) more.length := by
    rw [List.length_take]
    omega
  obtain ⟨buffer,hcopy,hfilled⟩ := overwrite_ok hasher.buffer
    (show hasher.buffered+(more.take (min (64-hasher.buffered) more.length)).length≤64 by omega)
  rw [hlen,hc.filled] at hfilled
  have hsplit := absorbBlocks_append initialState bytes
    (more.take (min (64-hasher.buffered) more.length))
  have hrest := absorbBlocks_rest_length initialState
    (bytes++more.take (min (64-hasher.buffered) more.length))
  rw [List.length_append,hlen] at hrest
  by_cases hf : hasher.buffered+min (64-hasher.buffered) more.length=64
  · rw [hf] at hfilled
    rw [←toList_eq_of_take hfilled,absorbBlocks_block] at hsplit
    refine ⟨{hasher with state := transform hasher.state buffer,buffer := buffer,buffered := 0},
      more.take (min (64-hasher.buffered) more.length),
      more.drop (min (64-hasher.buffered) more.length),?_,(List.take_append_drop _ _).symm,
      ⟨?_,?_,?_⟩,.inl rfl,rfl,rfl⟩
    · rw [Sha256.topUp,if_pos hz]
      simp [hcopy,hf,bind,Except.bind,pure,Except.pure]
    · rw [hsplit,hc.state]
    · rw [hsplit]
      simp
    · rw [List.length_append,hlen]
      dsimp only
      omega
  · have hs : ((absorbBlocks initialState bytes).2++
        more.take (min (64-hasher.buffered) more.length)).length<64 := by
      rw [List.length_append,hlen,absorbBlocks_rest_length]
      omega
    rw [absorbBlocks_short _ hs] at hsplit
    refine ⟨⟨hasher.state,buffer,hasher.buffered+min (64-hasher.buffered) more.length,
        hasher.totalBytes,hasher.finished⟩,
      more.take (min (64-hasher.buffered) more.length),
      more.drop (min (64-hasher.buffered) more.length),?_,(List.take_append_drop _ _).symm,
      ⟨?_,?_,?_⟩,.inr ?_,rfl,rfl⟩
    · rw [Sha256.topUp,if_pos hz]
      simp [hcopy,hf,bind,Except.bind,pure,Except.pure]
    · rw [hsplit]
      exact hc.state
    · rw [hsplit]
      exact hfilled
    · rw [List.length_append,hlen]
      dsimp only
      omega
    · rw [List.drop_eq_nil_iff]
      omega

/-- Whole blocks and a new rest follow bytes that left nothing over. -/
theorem Chained.absorb {hasher : Sha256} {bytes rest : List UInt8} (hc : Chained hasher bytes)
    (ha : hasher.buffered=0 ∨ rest=[]) : ∃ after,hasher.absorb rest=.ok after ∧
      Chained after (bytes++rest) ∧ after.totalBytes=hasher.totalBytes ∧
      after.finished=hasher.finished := by
  have hsplit := absorbBlocks_append initialState bytes rest
  have hrest := absorbBlocks_rest_length initialState (bytes++rest)
  cases ha with
  | inr hn =>
    subst hn
    have he : absorbBlocks hasher.state []=(hasher.state,[]) := absorbBlocks_short _ (by simp)
    refine ⟨hasher,?_,by simpa using hc,rfl,rfl⟩
    simp [Sha256.absorb,he,pure,Except.pure]
  | inl hz =>
    have hempty : (absorbBlocks initialState bytes).2=[] := by
      rw [←hc.filled,hz,List.take_zero]
    rw [hempty,List.nil_append,←hc.state] at hsplit
    rw [hsplit] at hrest
    by_cases hr : (absorbBlocks hasher.state rest).2=[]
    · refine ⟨{hasher with state := (absorbBlocks hasher.state rest).1},?_,⟨?_,?_,?_⟩,rfl,rfl⟩
      · simp [Sha256.absorb,hr,pure,Except.pure]
      · rw [hsplit]
      · rw [hsplit,hr]
        simp [hz]
      · rw [←hrest,hr]
        exact hz
    · obtain ⟨buffer,hcopy,hfilled⟩ := overwrite_ok hasher.buffer
        (show 0+(absorbBlocks hasher.state rest).2.length≤64 by omega)
      rw [List.take_zero,Nat.zero_add,List.nil_append] at hfilled
      refine ⟨⟨(absorbBlocks hasher.state rest).1,buffer,(absorbBlocks hasher.state rest).2.length,
        hasher.totalBytes,hasher.finished⟩,?_,⟨?_,?_,?_⟩,rfl,rfl⟩
      · simp [Sha256.absorb,hr,hcopy,bind,Except.bind,pure,Except.pure]
      · rw [hsplit]
      · rw [hsplit]
        exact hfilled
      · exact hrest

/-- Input that would overflow the byte count is refused. -/
theorem update_overflow {hasher : Sha256} {bytes : List UInt8} (ha : Absorbed hasher bytes)
    (more : List UInt8) (h : uint64Max<bytes.length+more.length) :
    hasher.update more=throwing (overflowError "SHA-256 input is too large") := by
  have hb := ha.bounded
  rw [Sha256.update,if_neg (by simp [ha.unfinished]),if_pos]
  rw [ha.total]
  omega

/-- An update absorbs its bytes. -/
theorem update_absorbed {hasher : Sha256} {bytes : List UInt8} (ha : Absorbed hasher bytes)
    (more : List UInt8) (h : bytes.length+more.length≤uint64Max) :
    ∃ after,hasher.update more=.ok after ∧ Absorbed after (bytes++more) := by
  have htotal : hasher.totalBytes+more.length=(bytes++more).length := by
    rw [ha.total,List.length_append]
  have hbound : (bytes++more).length≤uint64Max := by
    rw [List.length_append]
    exact h
  rw [Sha256.update,if_neg (by simp [ha.unfinished]),if_neg (by rw [ha.total]; omega)]
  by_cases hn : more=[]
  · subst hn
    refine ⟨_,rfl,⟨⟨?_,?_,?_⟩,htotal,hbound,ha.unfinished⟩⟩
    · simpa using ha.state
    · simpa using ha.filled
    · simpa using ha.buffered
  · have hcounted : Chained {hasher with totalBytes := hasher.totalBytes+more.length} bytes :=
      ⟨ha.state,ha.filled,ha.buffered⟩
    obtain ⟨aligned,front,rest,hup,hsplit,hc,hr,ht,hf⟩ := hcounted.topUp more
    obtain ⟨after,hafter,hc,ht',hf'⟩ := hc.absorb hr
    refine ⟨after,?_,⟨by rw [hsplit,←List.append_assoc]; exact hc,?_,hbound,?_⟩⟩
    · simp [hn,hup,hafter,bind,Except.bind]
    · rw [ht',ht]
      exact htotal
    · rw [hf',hf]
      exact ha.unfinished

/-- A digest over too many bytes is refused. -/
theorem finish_overflow {hasher : Sha256} {bytes : List UInt8} (ha : Absorbed hasher bytes)
    (h : uint64Max/8<bytes.length) :
    hasher.finish=throwing (overflowError "SHA-256 bit length is too large") := by
  rw [Sha256.finish,if_neg (by simp [ha.unfinished]),if_pos]
  rw [ha.total]
  exact h

/-- A block built up to its end is compressed as a whole. -/
theorem absorbBlocks_filled (state : Registers) {buffer : Block} {bytes : List UInt8}
    (h : buffer.toList.take 64=bytes) (more : List UInt8) :
    absorbBlocks state (bytes++more)=absorbBlocks (transform state buffer) more := by
  rw [absorbBlocks_append,←toList_eq_of_take h,absorbBlocks_block,List.nil_append]

/-- Making room for the length supplies the zeros of a full block. -/
theorem makeRoom_ok (state : Registers) {buffer : Block} {buffered : ℕ} (h : buffered≤64)
    {content : List UInt8} (hc : buffer.toList.take buffered=content) :
    ∃ state' buffer' buffered' content',makeRoom state buffer buffered=.ok (state',buffer',buffered') ∧
      buffered'≤56 ∧ buffer'.toList.take buffered'=content' ∧ ∀ tail,
      absorbBlocks state (content++(List.replicate ((120-buffered)%64) 0++tail))=
        absorbBlocks state' (content'++(List.replicate (56-buffered') 0++tail)) := by
  by_cases hl : buffered>56
  · obtain ⟨filled,hfill,hf⟩ := overwrite_ok buffer
      (show buffered+(List.replicate (64-buffered) (0 : UInt8)).length≤64 by
        rw [List.length_replicate]; omega)
    have hs : buffered+(64-buffered)=64 := by omega
    rw [List.length_replicate,hs,hc] at hf
    refine ⟨transform state filled,filled,0,[],?_,by omega,List.take_zero,fun tail => ?_⟩
    · rw [makeRoom,if_pos hl,hfill]
      rfl
    · have hz : (120-buffered)%64=64-buffered+56 := by omega
      rw [hz,List.replicate_add,List.append_assoc,←List.append_assoc content,
        absorbBlocks_filled state hf]
      rfl
  · refine ⟨state,buffer,buffered,content,?_,by omega,hc,fun tail => ?_⟩
    · rw [makeRoom,if_neg hl]
      rfl
    · have hz : (120-buffered)%64=56-buffered := by omega
      rw [hz]

/-- The digest taken is that of the bytes absorbed. -/
theorem finish_absorbed {hasher : Sha256} {bytes : List UInt8} (ha : Absorbed hasher bytes)
    (h : bytes.length≤uint64Max/8) : hasher.finish=.ok (digest bytes) := by
  have hbits : (lengthBytes (bytes.length*8)).length=8 := by simp [lengthBytes]
  have hb : hasher.buffered=bytes.length%64 := ha.buffered
  obtain ⟨marked,hmark,hm⟩ := overwrite_ok hasher.buffer
    (show hasher.buffered+[(0x80 : UInt8)].length≤64 by simp; omega)
  rw [List.length_singleton,ha.filled] at hm
  obtain ⟨state,buffer,buffered,content,hroom,hle,hcontent,habsorb⟩ :=
    makeRoom_ok hasher.state (show hasher.buffered+1≤64 by omega) hm
  obtain ⟨zeroed,hzero,hz⟩ := overwrite_ok buffer
    (show buffered+(List.replicate (56-buffered) (0 : UInt8)).length≤64 by
      rw [List.length_replicate]; omega)
  have hs : buffered+(56-buffered)=56 := by omega
  rw [List.length_replicate,hs,hcontent] at hz
  obtain ⟨final,hfinal,hl⟩ := overwrite_ok zeroed
    (show 56+(lengthBytes (bytes.length*8)).length≤64 by omega)
  rw [hbits,hz] at hl
  have hpad : absorbBlocks initialState (padded bytes)=(transform state final,[]) := by
    have hd : 119-bytes.length%64=120-(hasher.buffered+1) := by omega
    calc absorbBlocks initialState (padded bytes)
        =absorbBlocks hasher.state ((absorbBlocks initialState bytes).2++[0x80]++
          (List.replicate ((120-(hasher.buffered+1))%64) 0++lengthBytes (bytes.length*8))) := by
          rw [padded,absorbBlocks_append,←ha.state,hd]
          simp
      _=absorbBlocks state (content++(List.replicate (56-buffered) 0++
          lengthBytes (bytes.length*8))) := habsorb _
      _=absorbBlocks state (content++List.replicate (56-buffered) 0++
          lengthBytes (bytes.length*8)++[]) := by simp
      _=(transform state final,[]) := by
          rw [absorbBlocks_filled state hl,absorbBlocks_short _ (by simp)]
  rw [Sha256.finish,if_neg (by simp [ha.unfinished]),if_neg (by rw [ha.total]; omega),digest,hpad]
  dsimp only
  rw [ha.total,hmark]
  simp only [bind,Except.bind,pure,Except.pure,hroom,hzero,hfinal]

end Absorption

section Files

/-- The size of the buffer `sha256_stream_prefix` reads into. -/
def chunkSize : ℕ := 1024*1024

/-- `stream_size`, which fails when no offset can express the end. -/
def streamSize (artifactName : Text) : Reader Fault ℕ := fun stream =>
  if stream.contents.length>streamoffMax then
    throwing (runtimeError ("cannot determine "++artifactName++" size"))
  else .ok (stream.contents.length,⟨stream.contents,0⟩)

/-- Hash the bytes still wanted, one buffer after another. -/
def hashChunks (artifactName : Text) (hasher : Sha256) (remaining : ℕ) : Reader Fault Sha256 :=
  if remaining=0 then pure hasher
  else do
    let requested := min remaining chunkSize
    let chunk ← take (.thrown (runtimeError
      ("truncated "++artifactName++" while computing SHA-256"))) requested
    let hasher ← attempt (hasher.update chunk)
    hashChunks artifactName hasher (remaining-requested)
termination_by remaining
decreasing_by simp only [chunkSize]; omega

/-- `sha256_stream_prefix`. -/
def sha256StreamPrefix (bytes : ℕ) (artifactName : Text) : Reader Fault Sha256Digest := do
  seek 0
  let hasher ← hashChunks artifactName .new bytes
  attempt hasher.finish

/-- `sha256_file_prefix` of the whole file written so far. -/
def sha256FilePrefix (path : Text) : Output Sha256Digest := fun file => do
  let (computed,_) ← sha256StreamPrefix file.length path ⟨file,0⟩
  return (computed,file)

/-- `append_sha256_footer`. -/
def appendSha256Footer (path : Text) : Output Unit := do
  let computed ← sha256FilePrefix path
  fun file =>
    if file.length+computed.toList.length≤ streamoffMax then .ok ((),file++computed.toList)
    else throwing (runtimeError ("failed to finalize SHA-256 footer: "++path))

/-- `verify_sha256_footer`. -/
def verifySha256Footer (artifactName : Text) : Reader Fault ℕ := do
  let fileSize ← streamSize artifactName
  failIf (fileSize<32) (.thrown (runtimeError (artifactName++" is missing its SHA-256 footer")))
  let payloadSize := fileSize-32
  failIf (payloadSize>streamoffMax)
    (.thrown (runtimeError (artifactName++" is too large for stream offsets")))
  seek payloadSize
  let stored ← take (.thrown (runtimeError (artifactName++" has a truncated SHA-256 footer"))) 32
  let computed ← sha256StreamPrefix payloadSize artifactName
  failIf (stored≠computed.toList)
    (.thrown (runtimeError (artifactName++" SHA-256 checksum mismatch")))
  seek 0
  return payloadSize

/-- The chunks of a prefix are absorbed when they are there and the total
can be counted; otherwise the computation ends early. -/
theorem hashChunks_spec (artifactName : Text) (remaining : ℕ) {hasher : Sha256}
    {bytes : List UInt8} (ha : Absorbed hasher bytes) (stream : Stream) :
    (remaining≤ stream.rest.length ∧ bytes.length+remaining≤uint64Max →
      ∃ after,hashChunks artifactName hasher remaining stream=.ok (after,stream.skip remaining) ∧
        Absorbed after (bytes++stream.rest.take remaining)) ∧
    (¬(remaining≤ stream.rest.length ∧ bytes.length+remaining≤uint64Max) →
      ∃ exception,hashChunks artifactName hasher remaining stream=throwing exception) := by
  induction remaining using Nat.strong_induction_on generalizing hasher bytes stream with
  | _ remaining ih =>
    have hbound := ha.bounded
    by_cases hz : remaining=0
    · subst hz
      refine ⟨fun _ => ⟨hasher,?_,by simpa using ha⟩,fun h => absurd ⟨by omega,by omega⟩ h⟩
      rw [hashChunks,if_pos rfl]
      rfl
    have hpos : 0<chunkSize := by decide
    obtain ⟨requested,hreq⟩ : ∃ requested,requested=min remaining chunkSize := ⟨_,rfl⟩
    rw [hashChunks,if_neg hz,←hreq]
    by_cases hr : requested≤ stream.rest.length
    · have htake (truncated : Fault) : take truncated requested stream=
          .ok (stream.rest.take requested,stream.skip requested) :=
        (run_take_ok _ _ _ _ _).mpr ⟨hr,rfl,rfl⟩
      have hlen : (stream.rest.take requested).length=requested := by
        rw [List.length_take,Nat.min_eq_left hr]
      have hskip : (stream.skip requested).rest.length=stream.rest.length-requested := by
        rw [Stream.skip_rest,List.length_drop]
      by_cases hu : bytes.length+requested≤uint64Max
      · obtain ⟨middle,hup,hm⟩ := update_absorbed ha (stream.rest.take requested)
          (by rw [hlen]; exact hu)
        obtain ⟨hok,herr⟩ := ih (remaining-requested) (by omega) hm (stream.skip requested)
        rw [List.length_append,hlen,hskip] at hok herr
        simp only [bind,StateT.bind,Except.bind,htake,attempt,hup,Except.map]
        constructor
        · rintro ⟨hle,hsum⟩
          obtain ⟨after,hrun,hafter⟩ := hok ⟨by omega,by omega⟩
          refine ⟨after,?_,?_⟩
          · rw [hrun,Stream.skip_skip]
            congr 3
            omega
          · rw [Stream.skip_rest,List.append_assoc,←List.take_add] at hafter
            rw [show requested+(remaining-requested)=remaining by omega] at hafter
            exact hafter
        · intro hn
          exact herr (fun hc => hn ⟨by omega,by omega⟩)
      · have hup := update_overflow ha (stream.rest.take requested) (by rw [hlen]; omega)
        simp only [bind,StateT.bind,Except.bind,htake,attempt,hup,Except.map,throwing]
        exact ⟨fun hc => absurd hc.2 (by omega),fun _ => ⟨_,rfl⟩⟩
    · simp only [bind,StateT.bind,Except.bind,take,if_neg hr]
      exact ⟨fun hc => absurd hc.1 (by omega),fun _ => ⟨_,rfl⟩⟩

/-- The digest of a prefix is computed when the file holds that prefix and
its bit length can be counted, wherever the stream stood before. -/
theorem sha256StreamPrefix_ok (bytes : ℕ) (artifactName : Text) (stream stop : Stream)
    (value : Sha256Digest) :
    sha256StreamPrefix bytes artifactName stream=.ok (value,stop) ↔
      bytes≤ stream.contents.length ∧ bytes≤uint64Max/8 ∧ value=digest (stream.contents.take bytes) ∧
        stop=⟨stream.contents,bytes⟩ := by
  obtain ⟨hok,herr⟩ := hashChunks_spec artifactName bytes absorbed_new ⟨stream.contents,0⟩
  have hrest : (⟨stream.contents,0⟩ : Stream).rest=stream.contents := by simp [Stream.rest]
  rw [hrest] at hok herr
  simp only [List.length_nil,Nat.zero_add,List.nil_append] at hok herr
  simp only [sha256StreamPrefix,seek,bind,StateT.bind,Except.bind]
  by_cases hc : bytes≤ stream.contents.length ∧ bytes≤uint64Max
  · obtain ⟨hasher,hrun,ha⟩ := hok hc
    have hlen : (stream.contents.take bytes).length=bytes := by
      rw [List.length_take,Nat.min_eq_left hc.1]
    rw [hrun]
    by_cases hl : bytes≤uint64Max/8
    · have hf := finish_absorbed ha (by rw [hlen]; exact hl)
      simp only [attempt,hf,Except.map,Except.ok.injEq,Prod.mk.injEq]
      simp [hc.1,hl,Stream.skip,eq_comm]
    · have hf := finish_overflow ha (by rw [hlen]; omega)
      simp only [attempt,hf,Except.map,throwing]
      simp [hl]
  · obtain ⟨exception,hrun⟩ := herr hc
    rw [hrun]
    simp only [throwing,reduceCtorEq,false_iff]
    rintro ⟨hb,hl,-⟩
    exact hc ⟨hb,by omega⟩

/-- A digest that cannot be computed is an exception. -/
theorem sha256StreamPrefix_reported (bytes : ℕ) (artifactName : Text) :
    Yields (sha256StreamPrefix bytes artifactName) Reported (fun _ => True) := by
  intro start
  obtain ⟨hok,herr⟩ := hashChunks_spec artifactName bytes absorbed_new ⟨start.contents,0⟩
  unfold Meets
  simp only [sha256StreamPrefix,seek,bind,StateT.bind,Except.bind]
  by_cases hc : bytes≤(⟨start.contents,0⟩ : Stream).rest.length ∧ ([] : List UInt8).length+bytes≤uint64Max
  · obtain ⟨hasher,hrun,ha⟩ := hok hc
    rw [hrun]
    rcases Nat.lt_or_ge (uint64Max/8)
      ([]++(⟨start.contents,0⟩ : Stream).rest.take bytes).length with hover|hfits
    · simp only [attempt,finish_overflow ha hover,throwing,Except.map]
      exact ⟨_,rfl⟩
    · simp only [attempt,finish_absorbed ha hfits,Except.map]
      trivial
  · obtain ⟨exception,hrun⟩ := herr hc
    rw [hrun]
    exact ⟨exception,rfl⟩

/-- A digest is computed or an exception says why not. -/
theorem sha256StreamPrefix_meets (bytes : ℕ) (name : Text) (stream : Stream) :
    Meets (sha256StreamPrefix bytes name) stream Reported
      (fun _ after => after.contents=stream.contents) := by
  refine reported_meets (sha256StreamPrefix_reported bytes name stream) (fun value stop hok => ?_)
  obtain ⟨-,-,-,rfl⟩ := (sha256StreamPrefix_ok _ _ _ _ _).mp hok
  rfl

/-- The digest of everything written so far. -/
theorem sha256FilePrefix_ok (path : Text) (file after : List UInt8) (value : Sha256Digest) :
    sha256FilePrefix path file=.ok (value,after) ↔
      file.length≤uint64Max/8 ∧ value=digest file ∧ after=file := by
  have hs := sha256StreamPrefix_ok file.length path ⟨file,0⟩
  simp only [List.take_length,le_refl,true_and] at hs
  cases hr : sha256StreamPrefix file.length path ⟨file,0⟩ with
  | error fault =>
    have hn : ¬file.length≤uint64Max/8 := fun hl => by
      have hc := (hs _ _).mpr ⟨hl,rfl,rfl⟩
      rw [hr] at hc
      cases hc
    simp [sha256FilePrefix,hr,bind,Except.bind,hn]
  | ok pair =>
    obtain ⟨hl,hv,-⟩ := (hs _ _).mp hr
    simp [sha256FilePrefix,hr,bind,Except.bind,pure,Except.pure,hl,hv,eq_comm]

/-- A footer is appended when the digest can be computed. -/
theorem appendSha256Footer_ok (path : Text) (file after : List UInt8) (value : Unit) :
    appendSha256Footer path file=.ok (value,after) ↔
      file.length≤uint64Max/8 ∧ after=file++(digest file).toList := by
  have hb := output_bind_ok (sha256FilePrefix path) (fun computed file =>
    if file.length+computed.toList.length≤ streamoffMax then .ok ((),file++computed.toList)
    else throwing (runtimeError ("failed to finalize SHA-256 footer: "++path))) file after value
  refine hb.trans ?_
  constructor
  · rintro ⟨computed,middle,hd,hw⟩
    obtain ⟨hl,rfl,rfl⟩ := (sha256FilePrefix_ok _ _ _ _).mp hd
    split at hw
    · cases hw
      exact ⟨hl,rfl⟩
    · cases hw
  · rintro ⟨hl,rfl⟩
    refine ⟨digest file,file,(sha256FilePrefix_ok _ _ _ _).mpr ⟨hl,rfl,rfl⟩,?_⟩
    rw [if_pos]
    rw [Vector.length_toList]
    unfold uint64Max at hl
    unfold streamoffMax
    omega

/-- The size is reported when an offset can express it. -/
theorem streamSize_ok (artifactName : Text) (stream stop : Stream) (size : ℕ) :
    streamSize artifactName stream=.ok (size,stop) ↔ stream.contents.length≤ streamoffMax ∧
      size=stream.contents.length ∧ stop=⟨stream.contents,0⟩ := by
  unfold streamSize throwing
  split <;> simp_all [eq_comm]

/-- A size that cannot be expressed is reported. -/
theorem streamSize_meets (artifactName : Text) (stream : Stream) :
    Meets (streamSize artifactName) stream Reported (fun size after =>
      size=stream.contents.length ∧ after=⟨stream.contents,0⟩ ∧ size≤ streamoffMax) := by
  unfold Meets streamSize
  split
  · exact ⟨_,rfl⟩
  · rename_i hfits
    exact ⟨rfl,rfl,Nat.le_of_not_lt hfits⟩

/-- A footer is accepted exactly behind a payload whose digest it is. -/
theorem verifySha256Footer_ok (artifactName : Text) (stream stop : Stream) (size : ℕ) :
    verifySha256Footer artifactName stream=.ok (size,stop) ↔
      ∃ payload,stream.contents=payload++(digest payload).toList ∧ payload.length≤uint64Max/8 ∧
        size=payload.length ∧ stop=⟨stream.contents,0⟩ := by
  simp only [verifySha256Footer,run_bind_ok,streamSize_ok,run_failIf_ok,run_seek_ok,run_take_ok,
    sha256StreamPrefix_ok,run_pure_ok,exists_and_left,exists_eq_left,exists_const,and_assoc,
    ne_eq,not_not,Stream.rest,List.length_drop,Stream.skip]
  constructor
  · rintro ⟨-,hl,-,-,hp,hs,hd,rfl,rfl⟩
    have hlen : (stream.contents.take (stream.contents.length-32)).length=
        stream.contents.length-32 := by rw [List.length_take,Nat.min_eq_left hp]
    refine ⟨stream.contents.take (stream.contents.length-32),?_,by rw [hlen]; exact hs,hlen.symm,rfl⟩
    have hrest : (stream.contents.drop (stream.contents.length-32)).take 32=
        stream.contents.drop (stream.contents.length-32) := by
      apply List.take_of_length_le
      rw [List.length_drop]
      omega
    rw [←hd,hrest,List.take_append_drop]
  · rintro ⟨payload,hc,hs,rfl,rfl⟩
    have hlen : stream.contents.length=payload.length+32 := by
      rw [hc,List.length_append,Vector.length_toList]
    have htake : stream.contents.take payload.length=payload := by rw [hc,List.take_left]
    have hdrop : (stream.contents.drop payload.length).take 32=(digest payload).toList := by
      rw [hc,List.drop_left,List.take_of_length_le (by simp)]
    rw [hlen,Nat.add_sub_cancel,htake,hdrop]
    unfold uint64Max at hs
    unfold streamoffMax
    exact ⟨by omega,by omega,by omega,by omega,by omega,by exact hs,rfl,rfl,rfl⟩

end Files

section Crc32c

/-- One step of the table computation. -/
def crc32cShift (value : UInt32) : UInt32 := (value>>>1)^^^(0x82f63b78&&&(0-(value&&&1)))

/-- `make_crc32c_table`. -/
def crc32cTable : Vector UInt32 256 :=
  Vector.ofFn (fun entry => Nat.repeat crc32cShift 8 (UInt32.ofNat entry.val))

/-- The checksum after one more byte. -/
def crc32cStep (checksum : UInt32) (byte : UInt8) : UInt32 :=
  crc32cTable.get ⟨((checksum^^^byte.toUInt32)&&&0xff).toNat,by
    rw [UInt32.toNat_and]; exact Nat.lt_succ_of_le Nat.and_le_right⟩^^^(checksum>>>8)

/-- `crc32c`. -/
def crc32c (bytes : List UInt8) : UInt32 := ~~~(bytes.foldl crc32cStep 0xffffffff)

end Crc32c

end Leann.Checksum
