import Leann.EmbeddingCache

/-!
# Serving a build from its embedding cache

The decoder fills the rows of a batch value by value while the buffer cuts
them anywhere. Its state is a function of the values decoded so far, so a
batch is the next rows of the file, and successive batches are the file.
-/

namespace Leann.CacheServing

open ByteStream Exceptions Outcomes Format Checksum Lines BinaryFloat IndexFile EmbeddingCache
open Embeddings hiding Unit

section Buffers

/-- The first of several values has four bytes. -/
theorem exists_first {count : ℕ} {bytes : List UInt8} (h : bytes.length=(count+1)*4) :
    ∃ first second third fourth rest,bytes=first::second::third::fourth::rest ∧
      rest.length=count*4 := by
  match bytes,h with
  | first::second::third::fourth::rest,h =>
    simp only [List.length_cons] at h
    exact ⟨first,second,third,fourth,rest,rfl,by omega⟩
  | [],h => simp only [List.length_nil] at h; omega
  | [_],h => simp only [List.length_cons,List.length_nil] at h; omega
  | [_,_],h => simp only [List.length_cons,List.length_nil] at h; omega
  | [_,_,_],h => simp only [List.length_cons,List.length_nil] at h; omega

/-- A buffer has a value for every four bytes. -/
theorem bufferValues_length (count : ℕ) {bytes : List UInt8} (h : bytes.length=count*4) :
    (bufferValues bytes).length=count := by
  induction count generalizing bytes with
  | zero =>
    rw [Nat.zero_mul,List.length_eq_zero_iff] at h
    rw [h]
    rfl
  | succ count ih =>
    obtain ⟨first,second,third,fourth,rest,rfl,hrest⟩ := exists_first h
    rw [bufferValues,List.length_cons,ih hrest]

/-- Whole values in front of others are decoded on their own. -/
theorem bufferValues_append (count : ℕ) {front : List UInt8} (h : front.length=count*4)
    (back : List UInt8) : bufferValues (front++back)=bufferValues front++bufferValues back := by
  induction count generalizing front with
  | zero =>
    rw [Nat.zero_mul,List.length_eq_zero_iff] at h
    rw [h]
    rfl
  | succ count ih =>
    obtain ⟨first,second,third,fourth,rest,rfl,hrest⟩ := exists_first h
    simp only [List.cons_append,bufferValues,ih hrest]

/-- A value is decoded from its encoding. -/
theorem bufferValues_encode (values : List UInt32) : bufferValues (values.flatMap encode)=values := by
  induction values with
  | nil => rfl
  | cons value values ih =>
    have hdecode : decodeLittleU32 (encode value)=value := by
      rw [decodeLittleU32,encode,ofLittleEndian_littleEndian,
        Nat.mod_eq_of_lt (Unsigned.toNat_lt value)]
      exact Unsigned.ofNat_toNat value
    obtain ⟨first,second,third,fourth,hbytes⟩ :
        ∃ first second third fourth,encode value=[first,second,third,fourth] := ⟨_,_,_,_,rfl⟩
    rw [List.flatMap_cons,hbytes]
    rw [hbytes] at hdecode
    simp only [List.cons_append,List.nil_append,bufferValues,hdecode,ih]

/-- The floats of a buffer. -/
def cells (bytes : List UInt8) : List Single := (bufferValues bytes).map ofBitCast

/-- The floats of a payload are its values in row-major order. -/
theorem cells_payload (vectors : List Embedding) : cells (payload vectors)=vectors.flatten := by
  have hbytes : payload vectors=(vectors.flatten.map bitCast).flatMap encode :=
    (List.flatMap_map bitCast encode vectors.flatten).symm
  rw [cells,hbytes,bufferValues_encode,List.map_map]
  exact List.map_id''  (fun value => ofBitCast_bitCast value) _

end Buffers

section Rows

/-- The values of a row that are there. -/
def rowAt (dimension row : ℕ) (values : List Single) : Embedding :=
  (values.drop (row*dimension)).take dimension

/-- The sum of the squares, added up in order. -/
def squares (values : Embedding) : Double :=
  values.foldl (fun norm value => norm+value.convert*value.convert) 0

/-- The norm of a row is one within the tolerance. -/
def Normalized (vector : Embedding) : Prop :=
  (squares vector).sqrt.Finite ∧ ¬tolerance<((squares vector).sqrt-1).abs

instance (vector : Embedding) : Decidable (Normalized vector) := inferInstanceAs (Decidable (_∧_))

/-- Fill a row up with zeros. -/
def padded (dimension : ℕ) (values : Embedding) : Embedding :=
  values++.replicate (dimension-values.length) 0

theorem rowAt_length_le (dimension row : ℕ) (values : List Single) :
    (rowAt dimension row values).length≤dimension := by
  rw [rowAt,List.length_take]
  omega

theorem padded_length {dimension : ℕ} {values : Embedding} (h : values.length≤dimension) :
    (padded dimension values).length=dimension := by
  rw [padded,List.length_append,List.length_replicate]
  omega

/-- The next value replaces the first zero. -/
theorem padded_set {dimension : ℕ} {values : Embedding} (h : values.length<dimension)
    (value : Single) :
    (padded dimension values).set values.length value=padded dimension (values++[value]) := by
  obtain ⟨missing,hm⟩ : ∃ missing,dimension-values.length=missing+1 :=
    ⟨dimension-values.length-1,by omega⟩
  have hrest : dimension-(values++[value]).length=missing := by
    rw [List.length_append,List.length_singleton]
    omega
  rw [padded,padded,hm,hrest,List.set_append_right _ _ (Nat.le_refl _),Nat.sub_self,
    List.replicate_succ,List.set_cons_zero,List.append_assoc]
  rfl

/-- A full row has no zeros behind it. -/
theorem padded_full {dimension : ℕ} {values : Embedding} (h : values.length=dimension) :
    padded dimension values=values := by
  rw [padded,h,Nat.sub_self]
  exact List.append_nil _

variable {dimension : ℕ} {done : List Single}

/-- The row of the next value holds the values of its earlier columns. -/
theorem rowAt_current (hd : 0<dimension) :
    (rowAt dimension (done.length/dimension) done).length=done.length%dimension := by
  have hsplit := Nat.div_add_mod done.length dimension
  have hlt := Nat.mod_lt done.length hd
  rw [rowAt,List.length_take,List.length_drop,Nat.mul_comm]
  omega

/-- The next value goes to the end of its row. -/
theorem rowAt_concat (hd : 0<dimension) (value : Single) :
    rowAt dimension (done.length/dimension) (done++[value])=
      rowAt dimension (done.length/dimension) done++[value] := by
  have hsplit := Nat.div_add_mod done.length dimension
  have hlt := Nat.mod_lt done.length hd
  rw [Nat.mul_comm] at hsplit
  have hdrop : (done.drop (done.length/dimension*dimension)).length=done.length%dimension := by
    rw [List.length_drop]
    omega
  rw [rowAt,rowAt,List.drop_append_of_le_length (by omega),List.take_of_length_le,
    List.take_of_length_le (by omega)]
  rw [List.length_append,List.length_singleton]
  omega

/-- The next value leaves every other row alone. -/
theorem rowAt_other (hd : 0<dimension) (value : Single) {row : ℕ} (h : row≠done.length/dimension) :
    rowAt dimension row (done++[value])=rowAt dimension row done := by
  have hsplit := Nat.div_add_mod done.length dimension
  have hlt := Nat.mod_lt done.length hd
  rw [Nat.mul_comm] at hsplit
  rcases Nat.lt_or_gt_of_ne h with hl|hg
  · have hrows : (row+1)*dimension≤done.length/dimension*dimension := Nat.mul_le_mul_right _ hl
    rw [Nat.add_mul,Nat.one_mul] at hrows
    rw [rowAt,rowAt,List.drop_append_of_le_length (by omega),List.take_append_of_le_length]
    rw [List.length_drop]
    omega
  · have hrows : (done.length/dimension+1)*dimension≤ row*dimension := Nat.mul_le_mul_right _ hg
    rw [Nat.add_mul,Nat.one_mul] at hrows
    rw [rowAt,rowAt,List.drop_eq_nil_of_le,List.drop_eq_nil_of_le (by omega)]
    rw [List.length_append,List.length_singleton]
    omega

/-- The row and the column behind the next value. -/
theorem next_position (hd : 0<dimension) (number : ℕ) :
    ((number+1)/dimension,(number+1)%dimension)=
      if number%dimension+1=dimension then (number/dimension+1,0)
      else (number/dimension,number%dimension+1) := by
  have hsplit := Nat.div_add_mod number dimension
  have hlt := Nat.mod_lt number hd
  split
  · rename_i h
    have hnext : number+1=dimension*(number/dimension+1) := by
      rw [Nat.mul_add,Nat.mul_one]
      omega
    rw [hnext,Nat.mul_div_cancel_left _ hd,Nat.mul_mod_right]
  · have hnext : number+1=dimension*(number/dimension)+(number%dimension+1) := by omega
    have hsmall : number%dimension+1<dimension := by omega
    rw [hnext,Nat.mul_add_div hd,Nat.div_eq_of_lt hsmall,Nat.mul_add_mod,Nat.mod_eq_of_lt hsmall,
      Nat.add_zero]

/-- The rows of a matrix are found by their numbers. -/
theorem rowAt_flatten {vectors : List Embedding} (h : ∀ vector∈vectors,vector.length=dimension)
    {row : ℕ} (hrow : row<vectors.length) : rowAt dimension row vectors.flatten=vectors[row] := by
  induction vectors generalizing row with
  | nil => exact absurd hrow (Nat.not_lt_zero _)
  | cons vector vectors ih =>
    obtain ⟨hvector,hrest⟩ := List.forall_mem_cons.mp h
    cases row with
    | zero =>
      rw [rowAt,Nat.zero_mul,List.drop_zero,List.flatten_cons,←hvector]
      exact List.take_left
    | succ row =>
      have hdrop : (vector::vectors).flatten.drop ((row+1)*dimension)=
          vectors.flatten.drop (row*dimension) := by
        rw [List.flatten_cons,Nat.add_mul,Nat.one_mul,Nat.add_comm,←List.drop_drop,←hvector,
          List.drop_left]
      rw [rowAt,hdrop]
      exact ih hrest (Nat.lt_of_succ_lt_succ hrow)

end Rows

section Decoder

/-- The exception for a value that is not finite. -/
def notFinite : Fault :=
  .thrown (runtimeError "build embedding cache contains NaN or infinity")

/-- The exception at the end of the file. -/
def truncatedCache : Fault := .thrown (runtimeError "truncated embedding cache")

/-- The decoder is a function of the values decoded so far. -/
structure Filled (dimension count : ℕ) (done : List UInt32) (decoder : Decoder) : Prop where
  /-- Every row has the values that are there, and zeros behind them. -/
  result_eq : decoder.result=(List.range count).map (fun row =>
    padded dimension (rowAt dimension row (done.map ofBitCast)))
  /-- The squares of every row are added up. -/
  norms_eq : decoder.squaredNorms=(List.range count).map (fun row =>
    squares (rowAt dimension row (done.map ofBitCast)))
  /-- The next value goes to this row. -/
  row_eq : decoder.row=done.length/dimension
  /-- And to this column. -/
  column_eq : decoder.column=done.length%dimension

variable {dimension count : ℕ}

/-- Nothing is decoded yet. -/
theorem filled_nil : Filled dimension count []
    ⟨.replicate count (.replicate dimension 0),.replicate count 0,0,0⟩ := by
  have hrow (row : ℕ) : rowAt dimension row ([] : List Single)=[] := by
    rw [rowAt,List.drop_nil,List.take_nil]
  refine ⟨?_,?_,(Nat.zero_div _).symm,(Nat.zero_mod _).symm⟩
  · simp only [List.map_nil,hrow,padded,List.length_nil,Nat.sub_zero,List.nil_append,
      List.map_const',List.length_range]
  · simp only [List.map_nil,hrow,squares,List.foldl_nil,List.map_const',List.length_range]

/-- Replacing the element of one number. -/
theorem set_map_range {α : Type} {first second : ℕ → α} {number : ℕ} {value : α}
    (hvalue : second number=value) (hother : ∀ i,i≠number → second i=first i) :
    ((List.range count).map first).set number value=(List.range count).map second := by
  apply List.ext_getElem
  · rw [List.length_set,List.length_map,List.length_map]
  · intro i hi _
    rw [List.getElem_set]
    split
    · rename_i h
      rw [List.getElem_map,List.getElem_range,←h,hvalue]
    · rename_i h
      rw [List.getElem_map,List.getElem_map,List.getElem_range,hother i (Ne.symm h)]

/-- One value is put at its place, unless it is not finite. -/
theorem decodeValue_filled (hd : 0<dimension) {done : List UInt32} {decoder : Decoder}
    (h : Filled dimension count done decoder) (hroom : done.length<count*dimension) (raw : UInt32) :
    Ends (decodeValue dimension decoder raw)
      (fun fault => fault=notFinite ∧ ¬(ofBitCast raw).Finite)
      (fun after => (ofBitCast raw).Finite ∧ Filled dimension count (done++[raw]) after) := by
  have hlength : (done.map ofBitCast).length=done.length := List.length_map _
  have hrow : decoder.row<count := by
    rw [h.row_eq]
    exact (Nat.div_lt_iff_lt_mul hd).mpr hroom
  have hcolumn : decoder.column<dimension := by
    rw [h.column_eq]
    exact Nat.mod_lt _ hd
  have hcurrent : (rowAt dimension decoder.row (done.map ofBitCast)).length=decoder.column := by
    have hc : (rowAt dimension ((done.map ofBitCast).length/dimension) (done.map ofBitCast)).length=
        (done.map ofBitCast).length%dimension := rowAt_current hd
    rwa [hlength,←h.row_eq,←h.column_eq] at hc
  have hconcat : rowAt dimension decoder.row ((done++[raw]).map ofBitCast)=
      rowAt dimension decoder.row (done.map ofBitCast)++[ofBitCast raw] := by
    rw [List.map_append,h.row_eq,←hlength]
    exact rowAt_concat hd (ofBitCast raw)
  have hother (row : ℕ) (hne : row≠decoder.row) : rowAt dimension row ((done++[raw]).map ofBitCast)=
      rowAt dimension row (done.map ofBitCast) := by
    rw [List.map_append]
    exact rowAt_other hd _ (by rwa [hlength,←h.row_eq])
  have hnext := next_position hd done.length
  rw [←h.row_eq,←h.column_eq] at hnext
  refine (throwIf_ends (fun hbad => ⟨rfl,hbad⟩)).bind (fun _ hfinite => ?_)
  rw [not_not] at hfinite
  refine (element_ends (by rw [h.result_eq]; simpa using hrow)).bind (fun embedding he => ?_)
  rw [h.result_eq,List.getElem?_map,List.getElem?_range hrow,Option.map_some,Option.some.injEq] at he
  have hwide : decoder.column<embedding.length := by
    rw [←he,padded_length (rowAt_length_le _ _ _)]
    exact hcolumn
  refine (assign_ends hwide _).bind (fun changed hchanged => ?_)
  rw [←he,←hcurrent,padded_set (by omega),←hconcat] at hchanged
  refine (assign_ends (by rw [h.result_eq]; simpa using hrow) _).bind (fun result hresult => ?_)
  refine (element_ends (by rw [h.norms_eq]; simpa using hrow)).bind (fun squaredNorm hnorm => ?_)
  rw [h.norms_eq,List.getElem?_map,List.getElem?_range hrow,Option.map_some,
    Option.some.injEq] at hnorm
  refine (assign_ends (by rw [h.norms_eq]; simpa using hrow) _).bind (fun norms hnorms => ?_)
  have hresult' : result=(List.range count).map (fun row =>
      padded dimension (rowAt dimension row ((done++[raw]).map ofBitCast))) := by
    rw [hresult,h.result_eq,hchanged]
    exact set_map_range rfl (fun row hne => by rw [hother row hne])
  have hnorms' : norms=(List.range count).map (fun row =>
      squares (rowAt dimension row ((done++[raw]).map ofBitCast))) := by
    rw [hnorms,h.norms_eq]
    refine set_map_range ?_ (fun row hne => by rw [hother row hne])
    rw [hconcat,squares,List.foldl_append,←hnorm]
    rfl
  have hgrown : (done++[raw]).length=done.length+1 := List.length_append
  split
  · rename_i hlast
    rw [if_pos hlast,Prod.mk.injEq] at hnext
    exact ⟨hfinite,hresult',hnorms',by rw [hgrown,hnext.1],by rw [hgrown,hnext.2]⟩
  · rename_i hlast
    rw [if_neg hlast,Prod.mk.injEq] at hnext
    exact ⟨hfinite,hresult',hnorms',by rw [hgrown,hnext.1],by rw [hgrown,hnext.2]⟩

/-- A buffer is decoded unless one of its values is not finite. -/
theorem buffer_filled (hd : 0<dimension) {done : List UInt32} {decoder : Decoder}
    (h : Filled dimension count done decoder) (buffer : List UInt32)
    (hroom : done.length+buffer.length≤ count*dimension) :
    Ends (buffer.foldlM (decodeValue dimension) decoder)
      (fun fault => fault=notFinite ∧ ∃ raw∈buffer,¬(ofBitCast raw).Finite)
      (fun after => (∀ raw∈buffer,(ofBitCast raw).Finite) ∧
        Filled dimension count (done++buffer) after) := by
  refine Ends.foldlM buffer (fun taken after => (∀ raw∈taken,(ofBitCast raw).Finite) ∧
    Filled dimension count (done++taken) after) ⟨nofun,by rwa [List.append_nil]⟩ ?_
  intro taken raw rest state hsplit hstate
  have hfit : (done++taken).length<count*dimension := by
    rw [hsplit,List.length_append,List.length_cons] at hroom
    rw [List.length_append]
    omega
  refine (decodeValue_filled hd hstate.2 hfit raw).mono (fun fault hf => ?_) (fun after ha => ?_)
  · exact ⟨hf.1,raw,by rw [hsplit]; exact List.mem_append_right _ List.mem_cons_self,hf.2⟩
  · rw [List.append_assoc] at ha
    refine ⟨fun value hv => ?_,ha.2⟩
    rcases List.mem_append.mp hv with hv|hv
    · exact hstate.1 value hv
    · rw [List.mem_singleton.mp hv]
      exact ha.1

/-- What the outer loop leaves of the stream, and how it ends. -/
structure Chunked (dimension count : ℕ) (done : List UInt32) (needed : ℕ) (input : Stream)
    (outcome : Except Fault Decoder×Stream) : Prop where
  /-- The file is the same. -/
  contents_eq : outcome.2.contents=input.contents
  /-- Nothing is read twice. -/
  advances : input.position≤outcome.2.position
  /-- The values are there and finite, or an exception says otherwise. -/
  ends : Ends outcome.1
    (fun fault => fault=truncatedCache ∧ input.rest.length<needed*4 ∨
      fault=notFinite ∧ ∃ raw∈bufferValues (input.rest.take (needed*4)),¬(ofBitCast raw).Finite)
    (fun decoder => needed*4≤ input.rest.length ∧ outcome.2=input.skip (needed*4) ∧
      (∀ raw∈bufferValues (input.rest.take (needed*4)),(ofBitCast raw).Finite) ∧
      Filled dimension count (done++bufferValues (input.rest.take (needed*4))) decoder)

/-- Nothing is read when everything is decoded. -/
theorem chunked_finished {done : List UInt32} {decoder : Decoder} (input : Stream)
    (h : Filled dimension count done decoder) (hall : count*dimension≤done.length) :
    Chunked dimension count done (count*dimension-done.length) input (.ok decoder,input) := by
  have hneeded : count*dimension-done.length=0 := by omega
  have hnone : bufferValues []=[] := rfl
  rw [hneeded]
  refine ⟨rfl,Nat.le_refl _,?_⟩
  rw [ends_ok,Nat.zero_mul,List.take_zero,hnone,List.append_nil]
  exact ⟨Nat.zero_le _,rfl,nofun,h⟩

/-- Wherever the buffer cuts the rows, the rounds of the outer loop decode the
values one behind the other. -/
theorem decodeChunks_chunked (hd : 0<dimension) {bufferSize : ℕ}
    (hb : 0<count*dimension → 0<bufferSize) (rounds : ℕ) {done : List UInt32} {decoder : Decoder} (input : Stream)
    (h : Filled dimension count done decoder) (hdone : done.length≤ count*dimension)
    (hrounds : count*dimension-done.length≤ rounds) :
    Chunked dimension count done (count*dimension-done.length) input
      (decodeChunks dimension (count*dimension) bufferSize rounds done.length decoder input) := by
  induction rounds generalizing done decoder input with
  | zero =>
    rw [decodeChunks,if_neg (by omega)]
    exact chunked_finished input h (by omega)
  | succ rounds ih =>
    rw [decodeChunks]
    split
    swap
    · exact chunked_finished input h (by omega)
    have hbuffer := hb (by omega)
    obtain ⟨needed,hneeded⟩ : ∃ needed,needed=count*dimension-done.length := ⟨_,rfl⟩
    obtain ⟨chunk,hchunk⟩ : ∃ chunk,chunk=min needed bufferSize := ⟨_,rfl⟩
    rw [←hneeded,←hchunk]
    dsimp only [readSome]
    split
    · rename_i hshort
      rw [List.length_take] at hshort
      exact ⟨rfl,Nat.le_add_right _ _,.inl ⟨rfl,by omega⟩⟩
    rename_i hfull
    rw [ne_eq,not_not] at hfull
    have hpresent : chunk*4≤ input.rest.length := by
      rw [List.length_take] at hfull
      omega
    have hsize := bufferValues_length chunk hfull
    -- The bytes still needed are those of this buffer and those of later ones.
    have hvalues : bufferValues (input.rest.take (needed*4))=bufferValues (input.rest.take (chunk*4))++
        bufferValues ((input.skip (chunk*4)).rest.take ((needed-chunk)*4)) := by
      rw [←bufferValues_append chunk hfull,Stream.skip_rest,←List.take_add]
      congr 2
      omega
    have hdecodes := buffer_filled hd h (bufferValues (input.rest.take (chunk*4))) (by omega)
    rw [Nat.min_eq_left hpresent]
    cases hdecoded : (bufferValues (input.rest.take (chunk*4))).foldlM (decodeValue dimension) decoder with
    | error fault =>
      obtain ⟨rfl,raw,hraw,hbad⟩ := hdecodes.of_error hdecoded
      refine ⟨rfl,Nat.le_add_right _ _,.inr ⟨rfl,raw,?_,hbad⟩⟩
      rw [hvalues]
      exact List.mem_append_left _ hraw
    | ok after =>
      obtain ⟨hfinite,hfilled⟩ := hdecodes.of_ok hdecoded
      have hlength : (done++bufferValues (input.rest.take (chunk*4))).length=done.length+chunk := by
        rw [List.length_append,hsize]
      have hrest := ih (input.skip (chunk*4)) hfilled (by omega) (by omega)
      rw [hlength,show count*dimension-(done.length+chunk)=needed-chunk by omega] at hrest
      have hlater : (input.skip (chunk*4)).rest.length=input.rest.length-chunk*4 := by
        rw [Stream.skip_rest,List.length_drop]
      refine ⟨hrest.contents_eq,(Nat.le_add_right _ _).trans hrest.advances,
        hrest.ends.mono (fun fault hf => ?_) (fun last hl => ?_)⟩
      · rcases hf with ⟨hf,hshort⟩|⟨hf,raw,hraw,hbad⟩
        · exact .inl ⟨hf,by omega⟩
        · refine .inr ⟨hf,raw,?_,hbad⟩
          rw [hvalues]
          exact List.mem_append_right _ hraw
      · obtain ⟨hthere,hstop,hall,hlast⟩ := hl
        refine ⟨by omega,?_,fun raw hraw => ?_,?_⟩
        · rw [hstop,Stream.skip_skip]
          congr 1
          omega
        · rw [hvalues] at hraw
          rcases List.mem_append.mp hraw with hraw|hraw
          · exact hfinite raw hraw
          · exact hall raw hraw
        · rw [hvalues,←List.append_assoc]
          exact hlast

end Decoder

section Batches

/-- The exception for a row that is not normalised. -/
def notNormalized : Fault :=
  .thrown (runtimeError "build embedding cache contains a non-normalized vector")

/-- The exception for a request behind the last row. -/
def tooMany : Fault :=
  .thrown (runtimeError "build requested more vectors than the embedding cache contains")

/-- Norms are checked one by one. -/
theorem checkNorms_ends (norms : List Double) :
    Ends (checkNorms norms) (fun fault => fault=notNormalized ∧
      ∃ norm∈norms,¬(norm.sqrt.Finite ∧ ¬tolerance<(norm.sqrt-1).abs))
      (fun _ => ∀ norm∈norms,norm.sqrt.Finite ∧ ¬tolerance<(norm.sqrt-1).abs) := by
  induction norms with
  | nil => exact fun _ hnorm => nomatch hnorm
  | cons norm norms ih =>
    have hfirst : Ends (checkNorm norm) (fun fault => fault=notNormalized ∧
        ¬(norm.sqrt.Finite ∧ ¬tolerance<(norm.sqrt-1).abs))
        (fun _ => norm.sqrt.Finite ∧ ¬tolerance<(norm.sqrt-1).abs) := by
      refine (throwIf_ends (fun hbad => ⟨rfl,fun hgood => ?_⟩)).mono (fun _ h => h)
        (fun _ hgood => by rwa [not_or,not_not] at hgood)
      exact hbad.elim (fun hinfinite => hinfinite hgood.1) hgood.2
    refine (hfirst.mono (fun fault hf => ?_) (fun _ h => h)).bind (fun _ hnorm => ?_)
    · exact ⟨hf.1,norm,List.mem_cons_self,hf.2⟩
    · refine ih.mono (fun fault hf => ?_) (fun _ hall => List.forall_mem_cons.mpr ⟨hnorm,hall⟩)
      obtain ⟨hfault,other,hother,hbad⟩ := hf
      exact ⟨hfault,other,List.mem_cons_of_mem _ hother,hbad⟩

/-- What the constructor establishes and every call keeps. -/
structure Ready (embedder : EmbeddingCacheEmbedder) : Prop where
  /-- A row has values. -/
  dimension_pos : 0<embedder.dimension
  /-- The remaining values can be counted. -/
  countable : embedder.remaining*embedder.dimension≤uint64Max
  /-- The file ends behind the remaining rows, or before. -/
  contents_end : embedder.input.contents.length≤
    embedder.input.position+embedder.remaining*embedder.dimension*4

/-- The rows of the next bytes of a stream. -/
def nextRows (embedder : EmbeddingCacheEmbedder) (requested : ℕ) : List Embedding :=
  (List.range requested).map (fun row => rowAt embedder.dimension row
    (cells (embedder.input.rest.take (requested*embedder.dimension*4))))

/-- What one call may throw, and what is then wrong. -/
inductive Refuses (embedder : EmbeddingCacheEmbedder) (requested : ℕ)
    (after : EmbeddingCacheEmbedder) : Fault → Prop where
  /-- The request goes behind the last row. -/
  | tooMany (behind : embedder.remaining< requested) (same : after=embedder) :
    Refuses embedder requested after tooMany
  /-- The file is too short. -/
  | truncated (short : embedder.input.rest.length< requested*embedder.dimension*4) :
    Refuses embedder requested after truncatedCache
  /-- A value is not finite. -/
  | notFinite (value : Single)
    (among : value∈cells (embedder.input.rest.take (requested*embedder.dimension*4)))
    (wrong : ¬value.Finite) : Refuses embedder requested after notFinite
  /-- A row is not normalised. -/
  | notNormalized (row : Embedding) (among : row∈nextRows embedder requested)
    (wrong : ¬Normalized row) : Refuses embedder requested after notNormalized

/-- What a call returns, and where it leaves the file. -/
structure Grants (embedder : EmbeddingCacheEmbedder) (requested : ℕ)
    (after : EmbeddingCacheEmbedder) (rows : List Embedding) : Prop where
  /-- The rows were left. -/
  requested_le : requested≤embedder.remaining
  /-- They are the next ones of the file. -/
  rows_eq : rows=nextRows embedder requested
  /-- They are read, and no others. -/
  after_eq : after={embedder with
    input := embedder.input.skip (requested*embedder.dimension*4)
    remaining := embedder.remaining-requested}

/-- The product of a batch fits whenever the rows are left. -/
theorem checkRequested_ends {embedder : EmbeddingCacheEmbedder} (h : Ready embedder) (requested : ℕ) :
    Ends (embedder.checkRequested requested) (fun fault => fault=tooMany ∧ embedder.remaining< requested)
      (fun values => requested≤embedder.remaining ∧ values=requested*embedder.dimension) := by
  refine (throwIf_ends (fun hover => ⟨rfl,hover⟩)).bind (fun _ hle => ?_)
  have hrequested : requested≤embedder.remaining := Nat.le_of_not_lt hle
  have hfits : requested*embedder.dimension≤uint64Max :=
    (Nat.mul_le_mul_right _ hrequested).trans h.countable
  rw [(checkedMultiply_ok _ _ _ _).mpr ⟨hfits,rfl⟩]
  exact ⟨hrequested,rfl⟩

/-- Full rows pass the alignment check, and their norms are checked. -/
theorem settle_ends {dimension requested : ℕ} (hd : 0<dimension) {done : List UInt32}
    {decoder : Decoder} (h : Filled dimension requested done decoder)
    (hfull : done.length=requested*dimension) {rows : List Embedding}
    (hrows : rows=(List.range requested).map (fun row => rowAt dimension row (done.map ofBitCast))) :
    Ends (settle requested decoder)
      (fun fault => fault=notNormalized ∧ ∃ row∈rows,¬Normalized row)
      (fun result => result=rows ∧ ∀ row∈rows,Normalized row) := by
  have hrow : decoder.row=requested := by rw [h.row_eq,hfull,Nat.mul_div_cancel _ hd]
  have hcolumn : decoder.column=0 := by rw [h.column_eq,hfull,Nat.mul_mod_left]
  have hlength (row : ℕ) (hr : row< requested) :
      (rowAt dimension row (done.map ofBitCast)).length=dimension := by
    have hle : (row+1)*dimension≤ requested*dimension := Nat.mul_le_mul_right _ hr
    rw [Nat.add_mul,Nat.one_mul] at hle
    rw [rowAt,List.length_take,List.length_drop,List.length_map,hfull]
    omega
  have hresult : decoder.result=rows := by
    rw [h.result_eq,hrows]
    refine List.map_congr_left (fun row hr => padded_full (hlength row ?_))
    exact List.mem_range.mp hr
  have hnorms : decoder.squaredNorms=rows.map squares := by
    rw [h.norms_eq,hrows,List.map_map]
    rfl
  rw [settle,throwIf,if_neg (by simp [hrow,hcolumn])]
  refine ((checkNorms_ends decoder.squaredNorms).mono (fun fault hf => ?_) (fun _ h => h)).bind
    (fun _ hall => ?_)
  · obtain ⟨hfault,norm,hnorm,hbad⟩ := hf
    rw [hnorms] at hnorm
    obtain ⟨row,hr,rfl⟩ := List.mem_map.mp hnorm
    exact ⟨hfault,row,hr,hbad⟩
  · refine ⟨hresult,fun row hr => hall (squares row) ?_⟩
    rw [hnorms]
    exact List.mem_map_of_mem hr

/-- The rows of a batch, once they are decoded and checked. -/
theorem batch_ends {embedder : EmbeddingCacheEmbedder} (hd : 0<embedder.dimension) {requested : ℕ}
    {outcome : Except Fault Decoder×Stream}
    (h : Chunked embedder.dimension requested [] (requested*embedder.dimension) embedder.input outcome)
    (after : EmbeddingCacheEmbedder) :
    Ends (outcome.1>>=settle requested) (Refuses embedder requested after)
      (fun rows => rows=nextRows embedder requested ∧
        outcome.2=embedder.input.skip (requested*embedder.dimension*4)) := by
  refine (h.ends.mono (fun fault hf => ?_) (fun _ h => h)).bind (fun decoder hdecoder => ?_)
  · rcases hf with ⟨rfl,hshort⟩|⟨rfl,raw,hraw,hbad⟩
    · exact .truncated hshort
    · exact .notFinite _ (List.mem_map_of_mem hraw) hbad
  · obtain ⟨hthere,hstop,-,hfilled⟩ := hdecoder
    rw [List.nil_append] at hfilled
    have hbytes : (embedder.input.rest.take (requested*embedder.dimension*4)).length=
        requested*embedder.dimension*4 := by
      rw [List.length_take]
      omega
    have hfull := bufferValues_length (requested*embedder.dimension) hbytes
    refine (settle_ends hd hfilled hfull rfl).mono (fun fault hf => ?_) (fun rows hrows => ?_)
    · obtain ⟨rfl,row,hrow,hbad⟩ := hf
      exact .notNormalized row hrow hbad
    · exact ⟨hrows.1,hstop⟩

/-- A call either returns the next rows of the file or throws for a reason
that lies in the request or in the file. The rows stay aligned, and nothing
follows the last one. -/
theorem embed_cases {embedder : EmbeddingCacheEmbedder} (h : Ready embedder) (texts : List Text) :
    Ready (embedder.embed texts).2 ∧
    Ends (embedder.embed texts).1 (Refuses embedder texts.length (embedder.embed texts).2)
      (Grants embedder texts.length (embedder.embed texts).2) := by
  obtain ⟨requested,hrequested⟩ : ∃ requested,requested=texts.length := ⟨_,rfl⟩
  have hcheck := checkRequested_ends h requested
  rw [EmbeddingCacheEmbedder.embed,←hrequested]
  cases hvalues : embedder.checkRequested requested with
  | error fault =>
    obtain ⟨rfl,hbehind⟩ := hcheck.of_error hvalues
    exact ⟨h,.tooMany hbehind rfl⟩
  | ok valueCount =>
    obtain ⟨hle,rfl⟩ := hcheck.of_ok hvalues
    have hbuffer : 0< requested*embedder.dimension →
        0< min (requested*embedder.dimension) maximumChunkValues :=
      fun hpos => lt_min hpos (by decide)
    have hchunks := decodeChunks_chunked h.dimension_pos hbuffer (requested*embedder.dimension)
      embedder.input filled_nil (Nat.zero_le _) (Nat.sub_le _ _)
    rw [List.length_nil,Nat.sub_zero] at hchunks
    dsimp only
    generalize decodeChunks embedder.dimension (requested*embedder.dimension) _ _ 0 _ _=outcome
      at hchunks ⊢
    have hend := h.contents_end
    have hadvances := hchunks.advances
    cases hbatch : outcome.1>>=settle requested with
    | error fault =>
      refine ⟨⟨h.dimension_pos,h.countable,?_⟩,(batch_ends h.dimension_pos hchunks _).of_error hbatch⟩
      rw [hchunks.contents_eq]
      exact hend.trans (Nat.add_le_add_right hadvances _)
    | ok rows =>
      obtain ⟨hrows,hstop⟩ := (batch_ends h.dimension_pos hchunks embedder).of_ok hbatch
      have hsplit : embedder.remaining*embedder.dimension=
          requested*embedder.dimension+(embedder.remaining-requested)*embedder.dimension := by
        rw [←Nat.add_mul]
        congr 1
        omega
      have hcontents : outcome.2.contents.length≤outcome.2.position+
          (embedder.remaining-requested)*embedder.dimension*4 := by
        rw [hstop,Stream.skip_contents,Stream.skip_position]
        omega
      have hnothing : ¬(embedder.remaining-requested=0 ∧ outcome.2.rest≠[]) := by
        rintro ⟨hnone,hsome⟩
        rw [hnone,Nat.zero_mul,Nat.zero_mul,Nat.add_zero] at hcontents
        exact hsome (List.drop_eq_nil_of_le hcontents)
      dsimp only
      rw [if_neg hnothing]
      refine ⟨⟨h.dimension_pos,?_,hcontents⟩,hle,hrows,by rw [hstop]⟩
      exact (Nat.mul_le_mul_right _ (Nat.sub_le _ _)).trans h.countable

end Batches

section Serving

/-- The rows that the answers to successive calls hand to the build. -/
def granted (answers : List (Except Fault (List Embedding))) : List Embedding :=
  (answers.filterMap Except.toOption).flatten

/-- What is left of a cache when so many of its rows were handed out. -/
structure Serving (vectors : List Embedding) (served : ℕ) (embedder : EmbeddingCacheEmbedder) :
    Prop where
  /-- The invariant of every call. -/
  ready : Ready embedder
  /-- Every row has the dimension of the cache. -/
  rows_length : ∀ vector∈vectors,vector.length=embedder.dimension
  /-- The values are finite. -/
  finite : ∀ vector∈vectors,∀ value∈vector,value.Finite
  /-- The rows are normalised. -/
  normalized : ∀ vector∈vectors,Normalized vector
  /-- No more rows were handed out than there are. -/
  served_le : served≤vectors.length
  /-- The other rows are left. -/
  remaining_eq : embedder.remaining=vectors.length-served
  /-- They are the rest of the file. -/
  rest_eq : embedder.input.rest=payload (vectors.drop served)

/-- The payload of some rows. -/
theorem payload_length {vectors : List Embedding} {dimension : ℕ}
    (h : ∀ vector∈vectors,vector.length=dimension) :
    (payload vectors).length=vectors.length*dimension*4 := by
  have hflatten : vectors.flatten.length=vectors.length*dimension := by
    induction vectors with
    | nil => exact (Nat.zero_mul _).symm
    | cons vector vectors ih =>
      obtain ⟨hvector,hrest⟩ := List.forall_mem_cons.mp h
      rw [List.flatten_cons,List.length_append,hvector,ih hrest,List.length_cons,Nat.add_mul,
        Nat.one_mul,Nat.add_comm]
  rw [payload,floatBytes_flatMap_length,hflatten]

/-- The payload of a matrix begins with that of its first rows. -/
theorem payload_take_drop {vectors : List Embedding} {dimension : ℕ}
    (h : ∀ vector∈vectors,vector.length=dimension) {count : ℕ} (hc : count≤vectors.length) :
    (payload vectors).take (count*dimension*4)=payload (vectors.take count) ∧
      (payload vectors).drop (count*dimension*4)=payload (vectors.drop count) := by
  have hsplit : payload vectors=payload (vectors.take count)++payload (vectors.drop count) := by
    rw [payload,payload,payload,←List.flatMap_append,←List.flatten_append,List.take_append_drop]
  have hfront : (payload (vectors.take count)).length=count*dimension*4 := by
    rw [payload_length (fun vector hv => h vector (List.mem_of_mem_take hv)),List.length_take,
      Nat.min_eq_left hc]
  rw [hsplit,←hfront]
  exact ⟨List.take_left,List.drop_left⟩

/-- A call that asks for rows that are left returns them. Any other call is
refused and changes nothing. -/
theorem embed_serving {vectors : List Embedding} {served : ℕ} {embedder : EmbeddingCacheEmbedder}
    (h : Serving vectors served embedder) (texts : List Text) :
    (texts.length≤vectors.length-served ∧
      (embedder.embed texts).1=.ok ((vectors.drop served).take texts.length) ∧
      Serving vectors (served+texts.length) (embedder.embed texts).2) ∨
    (vectors.length-served<texts.length ∧ (embedder.embed texts).1=.error tooMany ∧
      (embedder.embed texts).2=embedder) := by
  obtain ⟨hready,hends⟩ := embed_cases h.ready texts
  have hremaining := h.remaining_eq
  have hleft : (vectors.drop served).length=vectors.length-served := List.length_drop
  have hrows : ∀ vector∈vectors.drop served,vector.length=embedder.dimension :=
    fun vector hv => h.rows_length vector (List.mem_of_mem_drop hv)
  have hbytes := payload_length hrows
  rw [←h.rest_eq,hleft] at hbytes
  rcases Nat.lt_or_ge (vectors.length-served) texts.length with hbehind|hle
  · refine .inr ⟨hbehind,?_⟩
    have hcheck := checkRequested_ends h.ready texts.length
    rw [EmbeddingCacheEmbedder.embed]
    cases hvalues : embedder.checkRequested texts.length with
    | ok values => exact absurd (hcheck.of_ok hvalues).1 (by omega)
    | error fault => exact ⟨by rw [(hcheck.of_error hvalues).1],rfl⟩
  · have hfits : texts.length*embedder.dimension*4≤embedder.input.rest.length := by
      rw [hbytes]
      exact Nat.mul_le_mul_right _ (Nat.mul_le_mul_right _ hle)
    have hcount : texts.length≤(vectors.drop served).length := by
      rw [hleft]
      exact hle
    obtain ⟨htake,hdrop⟩ := payload_take_drop hrows hcount
    rw [←h.rest_eq] at htake hdrop
    have hbatch : ∀ vector∈(vectors.drop served).take texts.length,vector∈vectors :=
      fun vector hv => List.mem_of_mem_drop (List.mem_of_mem_take hv)
    have hnext : nextRows embedder texts.length=(vectors.drop served).take texts.length := by
      have hlength : ((vectors.drop served).take texts.length).length=texts.length := by
        rw [List.length_take,hleft,Nat.min_eq_left hle]
      rw [nextRows,htake,cells_payload]
      apply List.ext_getElem
      · rw [List.length_map,List.length_range,hlength]
      · intro row hr hr'
        rw [List.getElem_map,List.getElem_range]
        exact rowAt_flatten (fun vector hv => h.rows_length vector (hbatch vector hv)) hr'
    refine .inl ⟨hle,?_⟩
    cases hanswer : (embedder.embed texts).1 with
    | error fault =>
      have hrefused := hends.of_error hanswer
      cases hrefused with
      | tooMany behind same => omega
      | truncated short => omega
      | notFinite value among wrong =>
        rw [htake,cells_payload] at among
        obtain ⟨vector,hv,hvalue⟩ := List.mem_flatten.mp among
        exact absurd (h.finite vector (hbatch vector hv) value hvalue) wrong
      | notNormalized row among wrong =>
        rw [hnext] at among
        exact absurd (h.normalized row (hbatch row among)) wrong
    | ok rows =>
      have hgrants := hends.of_ok hanswer
      refine ⟨by rw [hgrants.rows_eq,hnext],hready,?_,h.finite,h.normalized,?_,?_,?_⟩
      · rw [hgrants.after_eq]
        exact h.rows_length
      · have hs := h.served_le
        omega
      · rw [hgrants.after_eq]
        change embedder.remaining-texts.length=_
        omega
      · rw [hgrants.after_eq,Stream.skip_rest,hdrop,List.drop_drop]

/-- The first call, and those behind it. -/
theorem serve_cons (embedder : EmbeddingCacheEmbedder) (texts : List Text)
    (batches : List (List Text)) : embedder.serve (texts::batches)=
      ((embedder.embed texts).1::((embedder.embed texts).2.serve batches).1,
        ((embedder.embed texts).2.serve batches).2) := rfl

/-- The answers of calls that are all granted. -/
theorem granted_map_ok (results : List (List Embedding)) :
    granted (results.map Except.ok)=results.flatten := by
  have hsome : (results.map Except.ok).filterMap (Except.toOption (ε := Fault))=results := by
    rw [List.filterMap_map]
    exact List.filterMap_some
  rw [granted,hsome]

/-- Successive calls hand out the rows in order, each as soon as it is asked
for, and refuse nothing but requests behind the last row. -/
theorem serve_serving {vectors : List Embedding} (batches : List (List Text)) {served : ℕ}
    {embedder : EmbeddingCacheEmbedder} (h : Serving vectors served embedder) :
    ∃ more,Serving vectors (served+more) (embedder.serve batches).2 ∧
      granted (embedder.serve batches).1=(vectors.drop served).take more ∧
      (∀ fault,.error fault∈(embedder.serve batches).1 → fault=tooMany) ∧
      ((batches.map List.length).sum≤vectors.length-served →
        more=(batches.map List.length).sum ∧
        ∃ results : List (List Embedding),(embedder.serve batches).1=results.map Except.ok ∧
          results.map List.length=batches.map List.length) := by
  induction batches generalizing served embedder with
  | nil => exact ⟨0,h,rfl,nofun,fun _ => ⟨rfl,[],rfl,rfl⟩⟩
  | cons texts batches ih =>
    rw [serve_cons,List.map_cons,List.sum_cons]
    rcases embed_serving h texts with ⟨hle,hanswer,hafter⟩|⟨hbehind,hanswer,hafter⟩
    · obtain ⟨more,hserving,hgranted,hrefused,hfits⟩ := ih hafter
      rw [hanswer]
      refine ⟨texts.length+more,by rwa [←Nat.add_assoc],?_,fun fault hf => ?_,fun hsum => ?_⟩
      · have hfirst (answers : List (Except Fault (List Embedding))) :
            granted (.ok ((vectors.drop served).take texts.length)::answers)=
              (vectors.drop served).take texts.length++granted answers := rfl
        rw [hfirst,hgranted,List.take_add,List.drop_drop]
      · rcases List.mem_cons.mp hf with hf|hf
        · cases hf
        · exact hrefused fault hf
      · obtain ⟨hmore,results,hresults,hlengths⟩ := hfits (by omega)
        refine ⟨by rw [hmore],(vectors.drop served).take texts.length::results,?_,?_⟩
        · rw [hresults,List.map_cons]
        · rw [List.map_cons,hlengths,List.length_take,List.length_drop,Nat.min_eq_left hle]
    · obtain ⟨more,hserving,hgranted,hrefused,-⟩ := ih h
      rw [hafter,hanswer]
      refine ⟨more,hserving,?_,fun fault hf => ?_,fun hsum => by omega⟩
      · rw [←hgranted]
        rfl
      · rcases List.mem_cons.mp hf with hf|hf
        · exact Except.error.inj hf
        · exact hrefused fault hf

/-- A cache of any origin throws nothing but its four reasons, however often
it is asked. -/
theorem serve_refuses {embedder : EmbeddingCacheEmbedder} (h : Ready embedder)
    (batches : List (List Text)) : ∀ fault,.error fault∈(embedder.serve batches).1 →
      fault∈[tooMany,truncatedCache,notFinite,notNormalized] := by
  induction batches generalizing embedder with
  | nil => exact nofun
  | cons texts batches ih =>
    obtain ⟨hready,hends⟩ := embed_cases h texts
    rw [serve_cons]
    intro fault hf
    rcases List.mem_cons.mp hf with hf|hf
    · cases hends.of_error hf.symm <;> simp
    · exact ih hready fault hf

/-- The constructor establishes the invariant of every call. -/
theorem image_ready (image : CacheImage) : Ready image.embedder := by
  have hlength := image.bytes_length
  have hvalues := image.values_length
  have hfits := image.file_bound
  have hmax : streamoffMax≤uint64Max := by decide
  refine ⟨image.dimension_pos,?_,?_⟩
  · change image.count.toNat*image.dimension.toNat≤uint64Max
    omega
  · change image.bytes.length≤fixedHeaderSize+image.fingerprint.length+
      image.count.toNat*image.dimension.toNat*4
    omega

end Serving

section Agreement

/-- The file that the script lays out is the file of an image. -/
theorem layout_image {dimension : ℕ} {vectors : List Embedding} {fingerprint : List Char}
    {sourceSizeBytes : ℕ} {sourceDigest : Sha256Digest}
    (hp : Packable dimension vectors.length sourceSizeBytes fingerprint sourceDigest.toList)
    (hrows : ∀ vector∈vectors,vector.length=dimension) {header : List UInt8}
    (hheader : cacheV2Header dimension vectors.length fingerprint sourceSizeBytes
      (hexDigits sourceDigest.toList)=.ok header)
    (hfits : fixedHeaderSize+(encodeText fingerprint).length+(payload vectors).length≤ streamoffMax) :
    ∃ image : CacheImage,image.bytes=header++payload vectors ∧ image.dimension.toNat=dimension ∧
      image.count.toNat=vectors.length ∧ image.fingerprint=encodeText fingerprint ∧
      image.values=payload vectors ∧ image.documentsSize.toNat=sourceSizeBytes ∧
      image.documentsSha256=sourceDigest := by
  have hd := hp.dimension_range
  have hc := hp.count_range
  have hs := hp.source_range
  have hf := hp.fingerprint_range
  have hdimension : (UInt32.ofNat dimension).toNat=dimension :=
    UInt32.toNat_ofNat_of_lt' (by change dimension<2^32; omega)
  have hcount : (UInt64.ofNat vectors.length).toNat=vectors.length :=
    UInt64.toNat_ofNat_of_lt' (by change vectors.length<2^64; omega)
  have hsize : (UInt64.ofNat sourceSizeBytes).toNat=sourceSizeBytes :=
    UInt64.toNat_ofNat_of_lt' (by change sourceSizeBytes<2^64; omega)
  have hname : (UInt32.ofNat (encodeText fingerprint).length).toNat=(encodeText fingerprint).length := by
    have hbound := hf.2
    unfold maxFingerprintBytes at hbound
    exact UInt32.toNat_ofNat_of_lt' (by change (encodeText fingerprint).length<2^32; omega)
  let image : CacheImage := {
    dimension := UInt32.ofNat dimension
    count := UInt64.ofNat vectors.length
    fingerprint := encodeText fingerprint
    documentsSize := UInt64.ofNat sourceSizeBytes
    documentsSha256 := sourceDigest
    values := payload vectors
    dimension_pos := by omega
    count_pos := by omega
    fingerprint_pos := hf.1
    fingerprint_bound := hf.2
    values_length := by rw [hdimension,hcount]; exact payload_length hrows
    file_bound := hfits }
  refine ⟨image,?_,hdimension,hcount,rfl,rfl,hsize,rfl⟩
  have hlayout : headerBytes image.header=cacheMagic++(littleEndian 4 dimension++
      (littleEndian 8 vectors.length++(littleEndian 4 (encodeText fingerprint).length++
        (littleEndian 8 sourceSizeBytes++sourceDigest.toList)))) := by
    change cacheMagic++(littleEndian 4 (UInt32.ofNat dimension).toNat++
      (littleEndian 8 (UInt64.ofNat vectors.length).toNat++
        (littleEndian 4 (UInt32.ofNat (encodeText fingerprint).length).toNat++
          (littleEndian 8 (UInt64.ofNat sourceSizeBytes).toNat++sourceDigest.toList))))=_
    rw [hdimension,hcount,hname,hsize]
  rw [((cacheV2Header_ok _ _ _ _ _ _).mp hheader).2,CacheImage.bytes,hlayout,Int.toNat_natCast,
    Int.toNat_natCast,Int.toNat_natCast]
  exact (List.append_assoc _ _ _).symm

/-- The embedder of a matrix with normalised rows has all of them to hand out. -/
theorem image_serving {image : CacheImage} {vectors : List Embedding}
    (hcount : image.count.toNat=vectors.length) (hvalues : image.values=payload vectors)
    (hrows : ∀ vector∈vectors,vector.length=image.dimension.toNat ∧
      (∀ value∈vector,value.Finite) ∧ Normalized vector) : Serving vectors 0 image.embedder where
  ready := image_ready image
  rows_length vector hv := (hrows vector hv).1
  finite vector hv := (hrows vector hv).2.1
  normalized vector hv := (hrows vector hv).2.2
  served_le := Nat.zero_le _
  remaining_eq := hcount
  rest_eq := by rw [image.embedder_rest,hvalues,List.drop_zero]

/-- Everything was requested exactly when nothing remains. -/
theorem requireComplete_ok (embedder : EmbeddingCacheEmbedder) :
    embedder.requireComplete=.ok () ↔ embedder.remaining=0 := by
  rw [EmbeddingCacheEmbedder.requireComplete,throwIf_ok,not_not]

/-- The script and the native program agree on the cache. Whatever the script
lays out for a documents file is accepted, and successive calls hand out its
rows in order; whatever is accepted is a header and exactly what it announces. -/
theorem embedding_cache_agrees :
    (∀ (characters : List Char) (buffers : List Text) (source : DocumentsSource)
      (fingerprint : List Char) (dimension : ℕ) (vectors : List Embedding)
      (cachePath sourceOption : Text),
      buffers.flatten=encodeText characters → readDocumentsSource buffers=.ok source →
      source.documents=(iterNonemptyLines characters).map encodeText →
      vectors.length=(sourceIdentity characters).nonemptyLines → vectors≠[] →
      (∀ vector∈vectors,vector.length=dimension ∧ (∀ value∈vector,value.Finite) ∧
        Normalized vector) →
      0<dimension → dimension<2^32 → fingerprint≠[] →
      (encodeText fingerprint).length≤ maxFingerprintBytes →
      fixedHeaderSize+(encodeText fingerprint).length+(payload vectors).length≤ streamoffMax →
      ∃ header embedder,
        cacheV2Header dimension vectors.length fingerprint (sourceIdentity characters).sizeBytes
          (sourceIdentity characters).sha256=.ok header ∧
        openCache cachePath source sourceOption (some (header++payload vectors))=.ok embedder ∧
        embedder.dimension=dimension ∧ embedder.fingerprint=encodeText fingerprint ∧
        ∀ batches : List (List Text),
          (∀ fault,.error fault∈(embedder.serve batches).1 → fault=tooMany) ∧
          granted (embedder.serve batches).1<+:vectors ∧
          ((embedder.serve batches).2.requireComplete=.ok () ↔
            granted (embedder.serve batches).1=vectors) ∧
          ((batches.map List.length).sum≤vectors.length →
            ∃ results : List (List Embedding),(embedder.serve batches).1=results.map Except.ok ∧
              results.map List.length=batches.map List.length ∧
              results.flatten=vectors.take (batches.map List.length).sum ∧
              ((embedder.serve batches).2.requireComplete=.ok () ↔
                (batches.map List.length).sum=vectors.length))) ∧
    ∀ (cachePath : Text) (source : DocumentsSource) (sourceOption : Text)
      (file : Option (List UInt8)),
      Ends (openCache cachePath source sourceOption file) Reported (fun embedder =>
        (∃ header fingerprint values,file=some (headerBytes header++(fingerprint++values)) ∧
          fingerprint.length=header.fingerprintSize.toNat ∧
          values.length=header.encodedCount.toNat*header.encodedDimension.toNat*4 ∧
          fixedHeaderSize+header.fingerprintSize.toNat+
            header.encodedCount.toNat*header.encodedDimension.toNat*4≤uint64Max) ∧
        ∀ batches fault,.error fault∈(embedder.serve batches).1 →
          fault∈[tooMany,truncatedCache,notFinite,notNormalized]) := by
  constructor
  · intro characters buffers source fingerprint dimension vectors cachePath sourceOption hflatten
      hsource hlines hcount hsome hrows hpos hwidth hname hbound hfits
    obtain ⟨hshort,hread⟩ := (readDocumentsSource_ok_iff buffers source).mp hsource
    have hvectors : 0<vectors.length := List.length_pos_of_ne_nil hsome
    have hlengths : ∀ vector∈vectors,vector.length=dimension := fun vector hv => (hrows vector hv).1
    have hsize : (sourceIdentity characters).sizeBytes=source.fileSize := by
      rw [hread,hflatten]
      rfl
    have hpacked : Packable dimension vectors.length (sourceIdentity characters).sizeBytes fingerprint
        (digest (encodeText characters)).toList := by
      have hbytes := payload_length hlengths
      have hmul := Nat.mul_le_mul_left vectors.length hpos
      have hnonempty : 0<(encodeText fingerprint).length := by
        rw [List.length_pos_iff_ne_nil,←List.isEmpty_eq_false_iff,encodeText_isEmpty]
        exact List.isEmpty_eq_false_iff.mpr hname
      have hcharacters : (sourceIdentity characters).sizeBytes≤uint64Max/8 := by
        rw [hflatten] at hshort
        exact hshort
      unfold streamoffMax at hfits
      unfold uint64Max at hcharacters
      exact ⟨⟨by omega,by omega⟩,⟨by omega,by omega⟩,⟨by omega,by omega⟩,⟨hnonempty,hbound⟩,
        Vector.length_toList⟩
    obtain ⟨header,hheader⟩ : ∃ header,cacheV2Header dimension vectors.length fingerprint
        (sourceIdentity characters).sizeBytes (sourceIdentity characters).sha256=.ok header :=
      ⟨_,(cacheV2Header_ok _ _ _ _ _ _).mpr ⟨hpacked,rfl⟩⟩
    obtain ⟨image,hbytes,hd,hc,hf,hvalues,hdocuments,hsha⟩ :=
      layout_image hpacked hlengths hheader hfits
    have hidentity : image.BoundTo source := by
      refine ⟨?_,by rw [hdocuments,hsize],?_⟩
      · rw [hc,hcount,hlines,List.length_map]
        rfl
      · rw [hsha,hread,hflatten]
    have hserving : Serving vectors 0 image.embedder :=
      image_serving hc hvalues (by rw [hd]; exact hrows)
    refine ⟨header,image.embedder,hheader,?_,hd,hf,fun batches => ?_⟩
    · rw [←hbytes]
      exact (openCache_ok _ _ _ _ _).mpr ⟨image,rfl,hidentity,rfl⟩
    obtain ⟨more,hafter,hgranted,hrefused,hall⟩ := serve_serving batches hserving
    rw [Nat.zero_add] at hafter
    rw [List.drop_zero] at hgranted
    have hle := hafter.served_le
    have hcomplete : (image.embedder.serve batches).2.requireComplete=.ok () ↔
        more=vectors.length := by
      rw [requireComplete_ok,hafter.remaining_eq]
      omega
    refine ⟨hrefused,?_,?_,fun hsum => ?_⟩
    · rw [hgranted]
      exact List.take_prefix _ _
    · rw [hcomplete,hgranted,List.take_eq_self_iff]
      omega
    · obtain ⟨hmore,results,hresults,hbatches⟩ := hall (by omega)
      refine ⟨results,hresults,hbatches,?_,by rw [hcomplete,hmore]⟩
      rw [←granted_map_ok,←hresults,hgranted,hmore]
  · intro cachePath source sourceOption file
    have hreported := openCache_reported cachePath source sourceOption file
    cases hopen : openCache cachePath source sourceOption file with
    | error fault => exact hreported.of_error hopen
    | ok embedder =>
      obtain ⟨image,hfile,-,rfl⟩ := (openCache_ok _ _ _ _ _).mp hopen
      have hfits := image.file_bound
      have hvalues := image.values_length
      have hmax : streamoffMax≤uint64Max := by decide
      have hsize := image.fingerprintSize_toNat
      have htotal : fixedHeaderSize+image.header.fingerprintSize.toNat+
          image.count.toNat*image.dimension.toNat*4≤uint64Max := by omega
      exact ⟨⟨image.header,image.fingerprint,image.values,hfile,hsize.symm,hvalues,htotal⟩,
        serve_refuses (image_ready image)⟩

/-- A file of one line and a cache of one row, which is handed out in one call
behind an empty one. -/
theorem embedding_cache_agrees_one :
    ∃ source header embedder,readDocumentsSource [[97]]=.ok source ∧
      cacheV2Header 1 1 ['m'] (sourceIdentity ['a']).sizeBytes (sourceIdentity ['a']).sha256=
        .ok header ∧
      openCache "a.cache" source "--docs" (some (header++payload [[1]]))=.ok embedder ∧
      granted (embedder.serve [[],[[97]]]).1=[[1]] ∧
      (embedder.serve [[],[[97]]]).2.requireComplete=.ok () := by
  have hsource : readDocumentsSource [[97]]=.ok
      ⟨readLines [[97]].flatten,[[97]].flatten.length,digest [[97]].flatten⟩ :=
    (readDocumentsSource_ok_iff [[97]] _).mpr ⟨by decide,rfl⟩
  have hlines : readLines [[97]].flatten=(iterNonemptyLines ['a']).map encodeText := by
    rw [readLines_eq]
    decide
  have hrow : ∀ vector∈([[1]] : List Embedding),vector.length=1 ∧ (∀ value∈vector,value.Finite) ∧
      Normalized vector := by decide +kernel
  obtain ⟨header,embedder,hheader,hopen,-,-,hserve⟩ := embedding_cache_agrees.1 ['a'] [[97]] _ ['m'] 1
    [[1]] "a.cache" "--docs" rfl hsource hlines (by decide) (List.cons_ne_nil _ _) hrow Nat.one_pos
    (by decide) (List.cons_ne_nil _ _) (by decide) (by decide)
  obtain ⟨-,-,hcomplete,hall⟩ := hserve [[],[[97]]]
  obtain ⟨_,-,-,-,hdone⟩ := hall (by decide)
  have hfinished := hdone.mpr (by decide)
  exact ⟨_,header,embedder,hsource,hheader,hopen,hcomplete.mp hfinished,hfinished⟩

end Agreement

end Leann.CacheServing
