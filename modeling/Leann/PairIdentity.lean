import Leann.Search

/-!
# The identity of a list of documents

The identity is the digest of an encoding that can be decoded in one way
only: the number of the documents, and each document behind its length. It
is read back from an index and from a document store wherever they are.
-/

namespace Leann.PairIdentity

open Exceptions Outcomes ByteStream Format Checksum Documents IndexFile Search

section Encoding

/-- Every document behind its length. -/
def encodeDocuments : List Text → Text
  | [] => []
  | document::documents => encode (UInt64.ofNat document.length)++(document++encodeDocuments documents)

/-- What `make_pair_identity` hashes. -/
def identityPreimage (documents : List Text) : Text :=
  corpusIdentityDomain++(encode (UInt64.ofNat documents.length)++encodeDocuments documents)

/-- The numbers in the encoding fit in 64 bits, as sizes do. -/
structure Fits (documents : List Text) : Prop where
  /-- The number of the documents. -/
  count : documents.length<2^64
  /-- The length of each. -/
  lengths : ∀ document∈documents,document.length<2^64

/-- A number that fits is determined by its bytes. -/
theorem encode_inj {first second : ℕ} (h1 : first<2^64) (h2 : second<2^64)
    (h : encode (UInt64.ofNat first)=encode (UInt64.ofNat second)) : first=second := by
  have hvalue := congrArg UInt64.toNat (encode_injective UInt64 h)
  rwa [UInt64.toNat_ofNat_of_lt' h1,UInt64.toNat_ofNat_of_lt' h2] at hvalue

/-- Numbers have eight bytes. -/
theorem encode_cut {first second : ℕ} {rest rest' : Text} (h1 : first<2^64) (h2 : second<2^64)
    (h : encode (UInt64.ofNat first)++rest=encode (UInt64.ofNat second)++rest') :
    first=second ∧ rest=rest' := by
  obtain ⟨hnumber,hrest⟩ := List.append_inj h (by rw [encode_length,encode_length])
  exact ⟨encode_inj h1 h2 hnumber,hrest⟩

/-- As many documents with the same encoding are the same. -/
theorem encodeDocuments_inj {documents other : List Text}
    (hd : ∀ document∈documents,document.length<2^64) (ho : ∀ document∈other,document.length<2^64)
    (count : documents.length=other.length) (h : encodeDocuments documents=encodeDocuments other) :
    documents=other := by
  induction documents generalizing other with
  | nil => exact (List.length_eq_zero_iff.mp count.symm).symm
  | cons document documents ih =>
    cases other with
    | nil => cases count
    | cons document' other =>
      obtain ⟨hlength,hrest⟩ := encode_cut (hd document List.mem_cons_self)
        (ho document' List.mem_cons_self) h
      obtain ⟨hsame,hothers⟩ := List.append_inj hrest hlength
      rw [hsame,ih (fun d hm => hd d (List.mem_cons_of_mem _ hm))
        (fun d hm => ho d (List.mem_cons_of_mem _ hm)) (Nat.succ.inj count) hothers]

/-- The encoding can be decoded in one way only. -/
theorem identityPreimage_inj {documents other : List Text} (hd : Fits documents) (ho : Fits other)
    (h : identityPreimage documents=identityPreimage other) : documents=other := by
  obtain ⟨hcount,hrest⟩ := encode_cut hd.count ho.count (List.append_cancel_left h)
  exact encodeDocuments_inj hd.lengths ho.lengths hcount hrest

/-- Every document is in the encoding, behind eight bytes. -/
theorem encodeDocuments_length (documents : List Text) :
    8*documents.length≤(encodeDocuments documents).length ∧
      ∀ document∈documents,document.length≤(encodeDocuments documents).length := by
  induction documents with
  | nil => exact ⟨le_refl _,fun _ h => nomatch h⟩
  | cons document documents ih =>
    have hlength : (encodeDocuments (document::documents)).length=
        8+(document.length+(encodeDocuments documents).length) := by
      rw [encodeDocuments,List.length_append,List.length_append,encode_length]
      rfl
    rw [hlength]
    refine ⟨?_,fun d hd => ?_⟩
    · rw [List.length_cons]
      omega
    · rcases List.mem_cons.mp hd with rfl|hd
      · omega
      · have := ih.2 d hd
        omega

/-- An encoding that is short enough for a digest is one of sizes that fit. -/
theorem fits_of_length {documents : List Text}
    (h : (identityPreimage documents).length≤uint64Max/8) : Fits documents := by
  have hencoded := encodeDocuments_length documents
  have hle : (encodeDocuments documents).length≤uint64Max/8 := by
    rw [identityPreimage,List.length_append,List.length_append] at h
    omega
  have hmax : uint64Max/8<2^64 := by decide
  refine ⟨by omega,fun document hd => ?_⟩
  have := hencoded.2 document hd
  omega

end Encoding

section Hashing

variable {hasher : Sha256} {bytes : Text} {identity : PairIdentity}

/-- The digest of what was absorbed, when there is one. -/
def IsDigest (bytes : Text) (identity : PairIdentity) : Prop :=
  bytes.length≤uint64Max/8 ∧ identity=digest bytes

/-- Taking the digest. -/
theorem finish_ok (ha : Absorbed hasher bytes) :
    hasher.finish=.ok identity ↔ IsDigest bytes identity := by
  by_cases h : bytes.length≤uint64Max/8
  · rw [finish_absorbed ha h]
    constructor
    · intro he
      exact ⟨h,(Except.ok.inj he).symm⟩
    · rintro ⟨-,rfl⟩
      rfl
  · rw [finish_overflow ha (by omega)]
    constructor
    · intro he
      cases he
    · intro he
      exact absurd he.1 h

/-- What is hashed next is part of it. -/
theorem update_then {rest : Sha256 → Except Fault PairIdentity} {more bytes' : Text}
    (ha : Absorbed hasher bytes) (hle : (bytes++more).length≤bytes'.length)
    (h : ∀ after,Absorbed after (bytes++more) → (rest after=.ok identity ↔ IsDigest bytes' identity)) :
    (hasher.update more>>=rest)=.ok identity ↔ IsDigest bytes' identity := by
  rw [List.length_append] at hle
  by_cases hb : bytes.length+more.length≤uint64Max
  · obtain ⟨after,hafter,habsorbed⟩ := update_absorbed ha more hb
    rw [hafter]
    exact h after habsorbed
  · rw [update_overflow ha more (by omega)]
    constructor
    · intro he
      cases he
    · intro he
      have := he.1
      omega

/-- Hashing documents and taking the digest. -/
theorem hashDocuments_then (documents : List Text) (ha : Absorbed hasher bytes) :
    (hashDocuments hasher documents>>=Sha256.finish)=.ok identity ↔
      IsDigest (bytes++encodeDocuments documents) identity := by
  induction documents generalizing hasher bytes with
  | nil =>
    rw [encodeDocuments,List.append_nil]
    exact finish_ok ha
  | cons document documents ih =>
    have hsplit : bytes++encodeDocuments (document::documents)=
        bytes++encode (UInt64.ofNat document.length)++document++encodeDocuments documents := by
      rw [encodeDocuments,List.append_assoc,List.append_assoc]
    have hbind : (hashDocuments hasher (document::documents)>>=Sha256.finish)=
        (hasher.update (encode (UInt64.ofNat document.length))>>=fun hasher =>
          hasher.update document>>=fun hasher => hashDocuments hasher documents>>=Sha256.finish) := by
      simp only [hashDocuments,hashU64Le,bind_assoc]
    rw [hbind,hsplit]
    refine update_then ha ?_ (fun first h1 => update_then h1 ?_ (fun second h2 => ih h2))
    · simp only [List.length_append]
      omega
    · simp only [List.length_append]
      omega

/-- The identity is the digest of the encoding. -/
theorem makePairIdentity_ok (documents : List Text) :
    makePairIdentity documents=.ok identity ↔ IsDigest (identityPreimage documents) identity := by
  have hsplit : identityPreimage documents=[]++corpusIdentityDomain++
      encode (UInt64.ofNat documents.length)++encodeDocuments documents := by
    rw [identityPreimage,List.nil_append,List.append_assoc]
  have hbind : makePairIdentity documents=(Sha256.new.update corpusIdentityDomain>>=fun hasher =>
      hasher.update (encode (UInt64.ofNat documents.length))>>=fun hasher =>
        hashDocuments hasher documents>>=Sha256.finish) := rfl
  rw [hbind,hsplit]
  refine update_then absorbed_new ?_ (fun first h1 => update_then h1 ?_
    (fun second h2 => hashDocuments_then documents h2))
  · simp only [List.length_append]
    omega
  · simp only [List.length_append]
    omega

/-- Lists with one identity are the same, as far as the digest tells their
encodings apart. -/
theorem makePairIdentity_inj {corpora : Set (List Text)}
    (collision_free : Set.InjOn digest (identityPreimage '' corpora)) {documents other : List Text}
    (hd : documents∈corpora) (ho : other∈corpora) (h1 : makePairIdentity documents=.ok identity)
    (h2 : makePairIdentity other=.ok identity) : documents=other := by
  obtain ⟨hb1,hi1⟩ := (makePairIdentity_ok documents).mp h1
  obtain ⟨hb2,hi2⟩ := (makePairIdentity_ok other).mp h2
  have hpreimage := collision_free (Set.mem_image_of_mem _ hd) (Set.mem_image_of_mem _ ho)
    (hi1.symm.trans hi2)
  exact identityPreimage_inj (fits_of_length hb1) (fits_of_length hb2) hpreimage

end Hashing

section Loading

/-- The identity is at a fixed place of an index. -/
theorem sealed_identity (index : Index) :
    ((sealBytes (indexBytes index index.size)).drop 16).take 32=index.pairIdentity.toList := by
  have hfront : (indexMagic++(encode indexVersion++encode cosineMetric)).length=16 := by
    rw [List.length_append,List.length_append,indexMagic_length,encode_length,encode_length]
    rfl
  have hsplit : sealBytes (indexBytes index index.size)=
      (indexMagic++(encode indexVersion++encode cosineMetric))++(index.pairIdentity.toList++
        ((parameterBytes index.toParameters++(countBytes (index.counts index.size)++tableBytes index))++
          (digest (indexBytes index index.size)).toList)) := by
    rw [sealBytes]
    simp only [indexBytes,bodyBytes,List.append_assoc]
  rw [hsplit,←hfront,List.drop_left]
  exact List.take_left' Vector.length_toList

/-- An index holds one identity, whatever its path is. -/
theorem load_identity {path other : Text} {file : Text} {first second : Index}
    (h1 : load path file=.ok first) (h2 : load other file=.ok second) :
    first.pairIdentity=second.pairIdentity := by
  obtain ⟨-,-,-,hf1⟩ := (load_ok path file first).mp h1
  obtain ⟨-,-,-,hf2⟩ := (load_ok other file second).mp h2
  have hsame : first.pairIdentity.toList=second.pairIdentity.toList := by
    rw [←sealed_identity,←sealed_identity,←hf1,←hf2]
  exact Vector.toList_inj.mp hsame

end Loading

end Leann.PairIdentity
