import Mathlib.Data.Nat.NthRoot.Defs
import Mathlib.Data.Nat.Count
import Mathlib.Data.Nat.Nth
import Mathlib.Data.Nat.Prime.Defs
import Mathlib.Data.Nat.Sqrt

/-!
# The secure hash standard with 256 bits

FIPS 180-4 hashes a string of bits. The constants are defined as the roots of
primes they are, the schedule by its recurrence and the hash values as a chain
over the blocks of 512 bits. Words read a string of bits highest bit first.
-/

namespace Leann.SecureHash

section Words

/-- The bits of a word, highest first. -/
def bits {width : ℕ} (value : BitVec width) : List Bool := (List.range width).map value.getMsbD

/-- The word that a string of as many bits spells. -/
def word (width : ℕ) (digits : List Bool) : BitVec width :=
  (BitVec.ofBoolListBE digits).setWidth width

@[simp] theorem bits_length {width : ℕ} (value : BitVec width) : (bits value).length=width := by
  simp [bits]

/-- A word spells itself. -/
@[simp] theorem word_bits {width : ℕ} (value : BitVec width) : word width (bits value)=value := by
  apply BitVec.eq_of_getLsbD_eq
  intro i hi
  have hl : width-1-i<(bits value).length := by
    rw [bits_length]
    omega
  rw [word,BitVec.getLsbD_setWidth,BitVec.getLsbD_ofBoolListBE,bits_length,
    List.getD_eq_getElem _ _ hl]
  simp only [bits,List.getElem_map,List.getElem_range,BitVec.getMsbD_eq_getLsbD]
  simp [hi,show width-1-i<width by omega,show width-1-(width-1-i)=i by omega]

/-- The high part of a number is spelled before the low part. -/
theorem bits_split (high low value : ℕ) : bits (BitVec.ofNat (high+low) value)=
    bits (BitVec.ofNat high (value>>>low))++bits (BitVec.ofNat low value) := by
  rw [bits,List.range_add,List.map_append,List.map_map]
  refine congrArg₂ _ (List.map_congr_left ?_) (List.map_congr_left ?_)
  · intro i hi
    have hi := List.mem_range.mp hi
    simp only [BitVec.getMsbD_eq_getLsbD,BitVec.getLsbD_ofNat,Nat.testBit_shiftRight]
    simp [hi,show i<high+low by omega,show high+low-1-i=low+(high-1-i) by omega,
      show low+(high-1-i)<high+low by omega,show high-1-i<high by omega]
  · intro i hi
    have hi := List.mem_range.mp hi
    simp only [Function.comp_apply,BitVec.getMsbD_eq_getLsbD,BitVec.getLsbD_ofNat]
    simp [hi,show high+low-1-(high+i)=low-1-i by omega,show low-1-i<high+low by omega,
      show low-1-i<low by omega]

end Words

section Numbers

/-- The numbers below a bound with a property are the first that have it. -/
theorem getElem_filter_range (p : ℕ → Prop) [DecidablePred p] {bound t : ℕ}
    (h : t<((List.range bound).filter p).length) :
    ((List.range bound).filter p)[t]=Nat.nth p t := by
  have hsub (n : ℕ) (hn : n≤bound) : (List.range n).filter p <+: (List.range bound).filter p := by
    obtain ⟨k,rfl⟩ := Nat.exists_eq_add_of_le hn
    rw [List.range_add,List.filter_append]
    exact List.prefix_append _ _
  have hmem := List.getElem_mem h
  rw [List.mem_filter,List.mem_range,decide_eq_true_eq] at hmem
  generalize hv : ((List.range bound).filter p)[t]=value at hmem
  have hnext : (List.range (value+1)).filter p=(List.range value).filter p++[value] := by
    rw [List.range_succ,List.filter_append,List.filter_singleton]
    simp [hmem.2]
  have hcount : ((List.range value).filter p).length=Nat.count p value := by
    rw [Nat.count_eq_card_filter_range]
    rfl
  obtain ⟨rest,hrest⟩ := hsub (value+1) hmem.1
  rw [hnext] at hrest
  have hnodup : ((List.range bound).filter p).Nodup := List.nodup_range.filter _
  have hcl : Nat.count p value<((List.range bound).filter p).length := by
    rw [←hrest,←hcount]
    simp
  have hc : ((List.range bound).filter p)[Nat.count p value]=value := by
    simp only [←hrest,←hcount]
    simp
  have ht : t=Nat.count p value := (hnodup.getElem_inj_iff).mp (hv.trans hc.symm)
  rw [ht,Nat.nth_count hmem.2]

end Numbers

section Functions

/-- `Ch`. -/
def ch (x y z : BitVec 32) : BitVec 32 := (x&&&y)^^^(~~~x&&&z)

/-- `Maj`. -/
def maj (x y z : BitVec 32) : BitVec 32 := (x&&&y)^^^(x&&&z)^^^(y&&&z)

/-- The upper case sigma of the first working variable. -/
def bigSigma0 (x : BitVec 32) : BitVec 32 := x.rotateRight 2^^^x.rotateRight 13^^^x.rotateRight 22

/-- The upper case sigma of the fifth working variable. -/
def bigSigma1 (x : BitVec 32) : BitVec 32 := x.rotateRight 6^^^x.rotateRight 11^^^x.rotateRight 25

/-- The lower case sigma of the word fifteen places back. -/
def smallSigma0 (x : BitVec 32) : BitVec 32 := x.rotateRight 7^^^x.rotateRight 18^^^(x>>>3)

/-- The lower case sigma of the word two places back. -/
def smallSigma1 (x : BitVec 32) : BitVec 32 := x.rotateRight 17^^^x.rotateRight 19^^^(x>>>10)

/-- The first 32 bits of the fractional part of the cube root of a prime. -/
noncomputable def constant (t : ℕ) : BitVec 32 :=
  BitVec.ofNat 32 (Nat.nthRoot 3 (Nat.nth Nat.Prime t*2^96))

/-- The first 32 bits of the fractional part of the square root of a prime. -/
noncomputable def initialWord (t : ℕ) : BitVec 32 :=
  BitVec.ofNat 32 (Nat.sqrt (Nat.nth Nat.Prime t*2^64))

end Functions

section Compression

/-- Eight words, the working variables as well as a hash value. -/
@[ext] structure Variables where
  /-- First word. -/
  a : BitVec 32
  /-- Second word. -/
  b : BitVec 32
  /-- Third word. -/
  c : BitVec 32
  /-- Fourth word. -/
  d : BitVec 32
  /-- Fifth word. -/
  e : BitVec 32
  /-- Sixth word. -/
  f : BitVec 32
  /-- Seventh word. -/
  g : BitVec 32
  /-- Eighth word. -/
  h : BitVec 32

/-- The initial hash value. -/
noncomputable def initial : Variables :=
  ⟨initialWord 0,initialWord 1,initialWord 2,initialWord 3,
    initialWord 4,initialWord 5,initialWord 6,initialWord 7⟩

/-- A word of the message schedule of a block. -/
def scheduled (block : List Bool) (t : ℕ) : BitVec 32 :=
  if t<16 then word 32 ((block.drop (32*t)).take 32)
  else smallSigma1 (scheduled block (t-2))+scheduled block (t-7)+
    smallSigma0 (scheduled block (t-15))+scheduled block (t-16)
termination_by t

/-- One round. -/
def Variables.step (v : Variables) (constant word : BitVec 32) : Variables :=
  let first := v.h+bigSigma1 v.e+ch v.e v.f v.g+constant+word
  let second := bigSigma0 v.a+maj v.a v.b v.c
  ⟨first+second,v.a,v.b,v.c,v.d+first,v.e,v.f,v.g⟩

/-- The working variables after some rounds. -/
noncomputable def rounds (block : List Bool) (hash : Variables) : ℕ → Variables
  | 0 => hash
  | t+1 => (rounds block hash t).step (constant t) (scheduled block t)

/-- The hash value after one more block. -/
noncomputable def compress (hash : Variables) (block : List Bool) : Variables :=
  let v := rounds block hash 64
  ⟨v.a+hash.a,v.b+hash.b,v.c+hash.c,v.d+hash.d,v.e+hash.e,v.f+hash.f,v.g+hash.g,v.h+hash.h⟩

/-- A block of a message. -/
def block (message : List Bool) (i : ℕ) : List Bool := (message.drop (512*i)).take 512

/-- The hash value after the first blocks of a message. -/
noncomputable def chain (message : List Bool) : ℕ → Variables
  | 0 => initial
  | i+1 => compress (chain message i) (block message i)

end Compression

section Messages

/-- How many zeros stand between the marking bit and the length. -/
def zeros (length : ℕ) : ℕ := (959-length%512)%512

/-- The message with its marking bit, zeros and length. -/
def pad (message : List Bool) : List Bool :=
  message++true::(List.replicate (zeros message.length) false++
    bits (BitVec.ofNat 64 message.length))

/-- The digest of a message. -/
noncomputable def digest (message : List Bool) : List Bool :=
  let v := chain (pad message) ((pad message).length/512)
  bits v.a++bits v.b++bits v.c++bits v.d++bits v.e++bits v.f++bits v.g++bits v.h

/-- The number of zeros is the least that leaves just the length to a block. -/
theorem zeros_least (length k : ℕ) : (length+1+zeros length)%512=448 ∧
    ((length+1+k)%512=448 → zeros length≤k) := by
  rw [zeros]
  omega

/-- A padded message consists of whole blocks. -/
theorem pad_length (message : List Bool) : (pad message).length%512=0 := by
  have hz := (zeros_least message.length 0).1
  simp only [pad,List.length_append,List.length_cons,List.length_replicate,bits_length]
  omega

/-- The chain over the front of a message does not look further. -/
theorem chain_take (message : List Bool) {count i : ℕ} (h : 512*i≤ count) :
    chain (message.take count) i=chain message i := by
  induction i with
  | zero => rfl
  | succ i ih =>
    have hb : block (message.take count) i=block message i := by
      rw [block,block,List.drop_take,List.take_take,Nat.min_eq_left (by omega)]
    rw [chain,chain,ih (by omega),hb]

end Messages

end Leann.SecureHash
