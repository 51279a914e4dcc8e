import Leann.Embeddings

/-!
# Batches for llama.cpp

`LlamaEmbedder::Impl::embed` puts as many tokenized documents into a batch as
two limits allow. The batches cut the documents into consecutive parts, every
token has a slot of its own inside the batch, and each document gets the pooled
embedding of its own tokens. What llama.cpp computes is a parameter.
-/

namespace Leann.LlamaBatches

open BinaryFloat Exceptions Outcomes
open Embeddings hiding Unit

section Definitions

variable {Token : Type}

/-- The limits in `LlamaEmbedder::Config` that bound a batch. -/
structure Config where
  /-- `batch_tokens`. -/
  batchTokens : ℕ
  /-- `max_sequences`. -/
  maxSequences : ℕ

/-- What is written at one slot of the arrays of a `llama_batch`. -/
structure Slot (Token : Type) where
  /-- `token`. -/
  token : Token
  /-- `pos`. -/
  pos : ℕ
  /-- `n_seq_id`. -/
  nSeqId : ℕ
  /-- The first of `seq_id`. -/
  seqId : ℕ
  /-- `logits`. -/
  logits : Bool

/-- `llama_batch`. -/
structure Batch (Token : Type) where
  /-- `n_tokens`. -/
  nTokens : ℕ
  /-- Its arrays, with the slots that were written. -/
  slots : List (Option (Slot Token))

/-- What llama.cpp answers. -/
structure Llama (Token : Type) where
  /-- The tokens of a text. -/
  tokenize : Text → Except Fault (List Token)
  /-- `llama_n_ctx_seq`. -/
  sequenceCapacity : ℕ
  /-- `llama_model_has_encoder`. -/
  hasEncoder : Bool
  /-- `llama_encode`, or `llama_decode` after the memory is cleared. -/
  compute : Bool → Batch Token → ℤ
  /-- `llama_get_embeddings_seq` after that. -/
  embeddingsSeq : Bool → Batch Token → ℕ → Option Embedding

variable (config : Config) (llama : Llama Token) (inputs : List (List Token))

/-- The tokens of one text, within the limits. -/
def tokenizeChecked (text : Text) : Except Fault (List Token) := do
  let tokens ← llama.tokenize text
  throwIf tokens.isEmpty (runtimeError "llama.cpp produced an empty token sequence")
  throwIf (tokens.length>llama.sequenceCapacity ∨ tokens.length>config.batchTokens)
    (runtimeError ("document has "++toText tokens.length++
      " tokens but the llama.cpp per-sequence/batch limit is "++
      toText (min llama.sequenceCapacity config.batchTokens)))
  return tokens

/-- Where the batch ends that begins at an input and reaches one so far. -/
def batchEnd (begin stop totalTokens : ℕ) : ℕ :=
  if h : stop< inputs.length then
    if stop-begin<config.maxSequences ∧ totalTokens+inputs[stop].length≤ config.batchTokens then
      batchEnd begin (stop+1) (totalTokens+inputs[stop].length)
    else stop
  else stop
termination_by inputs.length-stop

/-- A batch does not end before what it has reached. -/
theorem le_batchEnd (begin stop totalTokens : ℕ) :
    stop≤batchEnd config inputs begin stop totalTokens := by
  rw [batchEnd]
  split
  · split
    · exact Nat.le_of_succ_le (le_batchEnd begin (stop+1) _)
    · exact le_rfl
  · exact le_rfl
termination_by inputs.length-stop

/-- `llama_batch_init`, as `BatchGuard` calls it. -/
def batchInit : Batch Token := ⟨0,List.replicate config.batchTokens none⟩

/-- Write one token to the next slot. -/
def addToken (batch : Batch Token) (sequenceId position : ℕ) (token : Token) :
    Except Fault (Batch Token) := do
  let slots ← assign batch.slots batch.nTokens (some ⟨token,position,1,sequenceId,true⟩)
  return ⟨batch.nTokens+1,slots⟩

/-- Write the tokens of one input. -/
def addSequence (begin : ℕ) (batch : Batch Token) (sequence : ℕ) : Except Fault (Batch Token) := do
  let tokens ← element inputs sequence
  (List.range tokens.length).foldlM (fun batch position => do
    let token ← element tokens position
    addToken batch (sequence-begin) position token) batch

/-- Write the tokens of the inputs of a batch. -/
def fillBatch (begin stop : ℕ) : Except Fault (Batch Token) :=
  (List.range' begin (stop-begin)).foldlM (addSequence inputs begin) (batchInit config)

/-- Store the embedding of one input. -/
def storeEmbedding (batch : Batch Token) (begin : ℕ) (output : List Embedding) (sequence : ℕ) :
    Except Fault (List Embedding) := do
  match llama.embeddingsSeq llama.hasEncoder batch (sequence-begin) with
  | none => throwing (runtimeError "llama.cpp did not return a pooled sequence embedding")
  | some values =>
    let embedding ← normalize values
    assign output sequence embedding

/-- Compute a batch and store its embeddings. -/
def computeBatch (batch : Batch Token) (begin stop : ℕ) (output : List Embedding) :
    Except Fault (List Embedding) :=
  let result := llama.compute llama.hasEncoder batch
  if result≠0 then
    throwing (runtimeError ("llama.cpp failed to compute embeddings (code "++text (toString result)++")"))
  else (List.range' begin (stop-begin)).foldlM (storeEmbedding llama batch begin) output

/-- The loop over the batches: the batches given to llama.cpp, in order, and
how the loop ends. -/
def embedFrom (begin : ℕ) (output : List Embedding) :
    List (Batch Token)×Except Fault (List Embedding) :=
  if _h : begin< inputs.length then
    if _hstop : batchEnd config inputs begin begin 0=begin then
      ([],throwing (runtimeError "a tokenized document does not fit in the llama.cpp batch"))
    else
      match fillBatch config inputs begin (batchEnd config inputs begin begin 0) with
      | .error fault => ([],.error fault)
      | .ok batch =>
        match computeBatch llama batch begin (batchEnd config inputs begin begin 0) output with
        | .error fault => ([batch],.error fault)
        | .ok output =>
          let rest := embedFrom (batchEnd config inputs begin begin 0) output
          (batch::rest.1,rest.2)
  else ([],.ok output)
termination_by inputs.length-begin
decreasing_by
  have hle := le_batchEnd config inputs begin begin 0
  omega

/-- The embeddings of tokenized inputs. -/
def embedInputs : List (Batch Token)×Except Fault (List Embedding) :=
  embedFrom config llama inputs 0 (List.replicate inputs.length [])

/-- `LlamaEmbedder::Impl::embed`. -/
def embed (texts : List Text) : Except Fault (List Embedding) := do
  if texts.isEmpty then return []
  let inputs ← texts.mapM (tokenizeChecked config llama)
  (embedInputs config llama inputs).2

end Definitions

section Specification

variable {Token : Type}

/-- The number of tokens in some inputs. -/
def tokenCount (group : List (List Token)) : ℕ := (group.map List.length).sum

/-- The slots of one sequence. -/
def tokenSlots (id : ℕ) (tokens : List Token) : List (Slot Token) :=
  tokens.zipIdx.map (fun token => ⟨token.1,token.2,1,id,true⟩)

/-- The slots of the inputs of a batch, numbered from a sequence id. -/
def groupSlots : ℕ → List (List Token) → List (Slot Token)
  | _,[] => []
  | id,tokens::group => tokenSlots id tokens++groupSlots (id+1) group

/-- A batch that holds exactly these slots. -/
def holding (config : Config) (slots : List (Slot Token)) : Batch Token :=
  ⟨slots.length,slots.map some++List.replicate (config.batchTokens-slots.length) none⟩

/-- The batch of some inputs. -/
def batchOf (config : Config) (group : List (List Token)) : Batch Token :=
  holding config (groupSlots 0 group)

/-- The tokens of a sequence in a batch, with their positions. -/
def Batch.sequence (batch : Batch Token) (id : ℕ) : List (Token×ℕ) :=
  (batch.slots.take batch.nTokens).filterMap (fun slot => slot.bind (fun slot =>
    if slot.seqId=id then some (slot.token,slot.pos) else none))

/-- Every slot in use belongs to one sequence and asks for its output. -/
def Batch.Ready (batch : Batch Token) : Prop :=
  ∀ slot∈batch.slots.take batch.nTokens,∃ written,slot=some written ∧ written.nSeqId=1 ∧
    written.logits=true

/-- llama.cpp returns the embedding of the tokens of a sequence, when it has
computed the batch and their positions count from zero. -/
def Pools (llama : Llama Token) (pooled : List Token → Embedding) : Prop :=
  ∀ encoder batch id tokens,batch.Ready → tokens≠[] → batch.sequence id=tokens.zipIdx →
    llama.compute encoder batch=0 → llama.embeddingsSeq encoder batch id=some (pooled tokens)

/-- A batch is one of these inputs, within the limits. -/
structure Fits (config : Config) (group : List (List Token)) (batch : Batch Token) : Prop where
  /-- There is an input. -/
  nonempty : group≠[]
  /-- There are not more sequences than allowed. -/
  sequences_le : group.length≤ config.maxSequences
  /-- Every token is counted. -/
  tokens_eq : batch.nTokens=tokenCount group
  /-- There are not more tokens than allowed. -/
  tokens_le : batch.nTokens≤ config.batchTokens
  /-- The arrays have a slot for each token that is allowed. -/
  slots_length : batch.slots.length=config.batchTokens
  /-- The slots that are written are those below the count. -/
  written : ∀ place slot,batch.slots[place]?=some (some slot) → place<batch.nTokens
  /-- They are written completely. -/
  ready : batch.Ready
  /-- The sequence ids are the places of the inputs in the batch. -/
  ids_lt : ∀ slot,some slot∈batch.slots → slot.seqId<group.length
  /-- Each sequence holds its own input. -/
  own : ∀ id tokens,group[id]?=some tokens → batch.sequence id=tokens.zipIdx

end Specification

section Slots

variable {Token : Type} {config : Config}

@[simp] theorem tokenSlots_length (id : ℕ) (tokens : List Token) :
    (tokenSlots id tokens).length=tokens.length := by
  simp [tokenSlots]

theorem groupSlots_length (id : ℕ) (group : List (List Token)) :
    (groupSlots id group).length=tokenCount group := by
  induction group generalizing id with
  | nil => rfl
  | cons tokens group ih =>
    rw [groupSlots,List.length_append,tokenSlots_length,ih,tokenCount,tokenCount,List.map_cons,
      List.sum_cons]

/-- The slots of more inputs follow those of the first ones. -/
theorem groupSlots_concat (id : ℕ) (group : List (List Token)) (tokens : List Token) :
    groupSlots id (group++[tokens])=groupSlots id group++tokenSlots (id+group.length) tokens := by
  induction group generalizing id with
  | nil => exact List.append_nil _
  | cons first group ih =>
    rw [List.cons_append,groupSlots,groupSlots,ih,List.append_assoc,List.length_cons]
    congr 3
    omega

/-- A token goes to the slot behind those in use. -/
theorem addToken_holding {slots : List (Slot Token)} (h : slots.length<config.batchTokens)
    (id position : ℕ) (token : Token) : addToken (holding config slots) id position token=
      .ok (holding config (slots++[⟨token,position,1,id,true⟩])) := by
  have hl : slots.length<(slots.map some++
      List.replicate (config.batchTokens-slots.length) (none : Option (Slot Token))).length := by
    rw [List.length_append,List.length_map,List.length_replicate]
    omega
  have hr : config.batchTokens-slots.length=config.batchTokens-(slots.length+1)+1 := by omega
  have hset : (slots.map some++List.replicate (config.batchTokens-slots.length) none).set slots.length
      (some (Slot.mk token position 1 id true))=(slots++[Slot.mk token position 1 id true]).map some++
        List.replicate (config.batchTokens-(slots.length+1)) (none : Option (Slot Token)) := by
    rw [List.set_append_right _ _ (by rw [List.length_map]),List.length_map,Nat.sub_self,hr,
      List.replicate_succ,List.set_cons_zero,List.map_append,List.append_assoc]
    rfl
  rw [addToken,holding]
  dsimp only
  rw [assign,if_pos hl,hset]
  rw [holding,List.length_append]
  rfl

/-- The tokens of an input follow in order. -/
theorem addSequence_holding {inputs : List (List Token)} {begin sequence : ℕ} {tokens : List Token}
    (hat : inputs[sequence]?=some tokens) {slots : List (Slot Token)}
    (h : slots.length+tokens.length≤ config.batchTokens) :
    addSequence inputs begin (holding config slots) sequence=
      .ok (holding config (slots++tokenSlots (sequence-begin) tokens)) := by
  have hends : Ends (addSequence inputs begin (holding config slots) sequence) (fun _ => False)
      (fun batch => batch=holding config (slots++tokenSlots (sequence-begin) tokens)) := by
    refine Ends.after ((element_ok _ _ _).mpr hat) ?_
    refine (Ends.foldlM_range tokens.length (fun position (batch : Batch Token) =>
      batch=holding config (slots++(tokenSlots (sequence-begin) tokens).take position))
      (by rw [List.take_zero,List.append_nil]) (fun position batch hlt hbatch => ?_)).mono
      (fun _ h => h) (fun batch hbatch => ?_)
    · refine Ends.after ((element_ok _ _ _).mpr (List.getElem?_eq_getElem hlt)) ?_
      have hshort : (slots++(tokenSlots (sequence-begin) tokens).take position).length<
          config.batchTokens := by
        rw [List.length_append,List.length_take,tokenSlots_length]
        omega
      have hslot : (tokenSlots (sequence-begin) tokens).take (position+1)=
          (tokenSlots (sequence-begin) tokens).take position++
            [⟨tokens[position],position,1,sequence-begin,true⟩] := by
        rw [List.take_add_one,List.getElem?_eq_getElem (by rw [tokenSlots_length]; exact hlt)]
        simp [tokenSlots]
      rw [hbatch,addToken_holding hshort,hslot,List.append_assoc]
      exact rfl
    · rw [hbatch,List.take_of_length_le (by rw [tokenSlots_length])]
  obtain ⟨batch,hbatch,heq⟩ := hends.returns
  rw [hbatch,heq]

theorem tokenCount_append (first second : List (List Token)) :
    tokenCount (first++second)=tokenCount first+tokenCount second := by
  rw [tokenCount,List.map_append,List.sum_append]
  rfl

/-- The first inputs have no more tokens than all. -/
theorem tokenCount_take (group : List (List Token)) (count : ℕ) :
    tokenCount (group.take count)≤tokenCount group := by
  have h := tokenCount_append (group.take count) (group.drop count)
  rw [List.take_append_drop] at h
  omega

/-- One more of consecutive inputs. -/
theorem part_succ {inputs : List (List Token)} {begin sequence : ℕ} (hb : begin≤ sequence)
    (h : sequence< inputs.length) : (inputs.drop begin).take (sequence+1-begin)=
      (inputs.drop begin).take (sequence-begin)++[inputs[sequence]] := by
  have hs : sequence+1-begin=sequence-begin+1 := by omega
  have hat : (inputs.drop begin)[sequence-begin]?=some inputs[sequence] := by
    rw [List.getElem?_drop,show begin+(sequence-begin)=sequence by omega,List.getElem?_eq_getElem h]
  rw [hs,List.take_add_one,hat]
  rfl

/-- The batch of consecutive inputs. -/
theorem fillBatch_eq {inputs : List (List Token)} {begin stop : ℕ} (hb : begin≤ stop)
    (hle : stop≤ inputs.length)
    (h : tokenCount ((inputs.drop begin).take (stop-begin))≤ config.batchTokens) :
    fillBatch config inputs begin stop=
      .ok (batchOf config ((inputs.drop begin).take (stop-begin))) := by
  have hends : Ends (fillBatch config inputs begin stop) (fun _ => False)
      (fun batch => batch=batchOf config ((inputs.drop begin).take (stop-begin))) := by
    have hloop := @Ends.foldlM_range' _ _ (fun _ => False) (addSequence inputs begin) begin
      (stop-begin) (batchInit config) (fun sequence (batch : Batch Token) =>
        batch=batchOf config ((inputs.drop begin).take (sequence-begin))) ?_
      (fun sequence batch hl hu hbatch => ?_)
    · rwa [Nat.add_sub_cancel' hb] at hloop
    · rw [Nat.sub_self,List.take_zero]
      exact rfl
    · have hlt : sequence< inputs.length := by omega
      have hpart := @part_succ _ inputs begin sequence hl hlt
      have hcount := tokenCount_take ((inputs.drop begin).take (stop-begin)) (sequence+1-begin)
      rw [List.take_take,Nat.min_eq_left (by omega),hpart,tokenCount_append,
        ←groupSlots_length 0 ((inputs.drop begin).take (sequence-begin))] at hcount
      have hone : tokenCount [inputs[sequence]]=inputs[sequence].length := by
        simp [tokenCount]
      rw [hbatch,batchOf,addSequence_holding (List.getElem?_eq_getElem hlt) (by omega)]
      change holding _ _=_
      rw [batchOf,hpart,groupSlots_concat,List.length_take,List.length_drop,
        Nat.min_eq_left (by omega),Nat.zero_add]
  obtain ⟨batch,hbatch,heq⟩ := hends.returns
  rw [hbatch,heq]

/-- The slots of one sequence among those of all. -/
theorem groupSlots_sequence (first id : ℕ) (group : List (List Token)) :
    (groupSlots first group).filterMap (fun slot =>
      if slot.seqId=id then some (slot.token,slot.pos) else none)=
      if first≤ id then ((group[id-first]?).getD []).zipIdx else [] := by
  induction group generalizing first with
  | nil => simp [groupSlots]
  | cons tokens group ih =>
    have hown : (tokenSlots first tokens).filterMap (fun slot =>
        if slot.seqId=id then some (slot.token,slot.pos) else none)=
        if first=id then tokens.zipIdx else [] := by
      by_cases he : first=id
      · simp [tokenSlots,List.filterMap_map,he]
      · simp [tokenSlots,List.filterMap_map,he]
    rw [groupSlots,List.filterMap_append,hown,ih]
    by_cases he : first=id
    · rw [if_pos he,if_neg (by omega),if_pos he.le,he,Nat.sub_self,List.append_nil]
      rfl
    · rw [if_neg he,List.nil_append]
      by_cases hlt : first+1≤ id
      · rw [if_pos hlt,if_pos (by omega),show id-first=id-(first+1)+1 by omega]
        rfl
      · rw [if_neg hlt,if_neg (by omega)]

/-- The sequence ids are consecutive. -/
theorem groupSlots_ids (first : ℕ) (group : List (List Token)) :
    ∀ slot∈groupSlots first group,slot.seqId<first+group.length ∧ slot.nSeqId=1 ∧
      slot.logits=true := by
  induction group generalizing first with
  | nil => exact fun slot hs => (List.not_mem_nil hs).elim
  | cons tokens group ih =>
    intro slot hs
    rw [List.length_cons]
    cases List.mem_append.mp hs with
    | inl hown =>
      obtain ⟨token,_,rfl⟩ := List.mem_map.mp hown
      exact ⟨by dsimp only; omega,rfl,rfl⟩
    | inr hmore =>
      have h := ih (first+1) slot hmore
      exact ⟨by omega,h.2⟩

/-- The batch of inputs within the limits. -/
theorem batchOf_fits {group : List (List Token)} (hne : group≠[])
    (hs : group.length≤ config.maxSequences) (ht : tokenCount group≤ config.batchTokens) :
    Fits config group (batchOf config group) := by
  have hl := groupSlots_length 0 group
  have htake : (batchOf config group).slots.take (batchOf config group).nTokens=
      (groupSlots 0 group).map some := by
    rw [batchOf,holding]
    dsimp only
    rw [List.take_append_of_le_length (by rw [List.length_map]),
      List.take_of_length_le (by rw [List.length_map])]
  have hmem (slot : Slot Token) (h : some slot∈(batchOf config group).slots) :
      slot∈groupSlots 0 group := by
    cases List.mem_append.mp h with
    | inl h =>
      obtain ⟨found,hfound,he⟩ := List.mem_map.mp h
      rwa [←Option.some.inj he]
    | inr h => exact absurd (List.eq_of_mem_replicate h) (Option.some_ne_none slot)
  refine ⟨hne,hs,hl,hl.trans_le ht,?_,fun place slot hplace => ?_,fun slot hslot => ?_,
    fun slot hslot => ?_,fun id tokens hid => ?_⟩
  · rw [batchOf,holding]
    dsimp only
    rw [List.length_append,List.length_map,List.length_replicate]
    omega
  · by_contra hout
    have hrow : (batchOf config group).slots[place]?=
        (List.replicate (config.batchTokens-(groupSlots 0 group).length)
          (none : Option (Slot Token)))[place-(groupSlots 0 group).length]? := by
      rw [batchOf,holding]
      dsimp only
      rw [List.getElem?_append_right (by rw [List.length_map]; exact Nat.le_of_not_lt hout),
        List.length_map]
    rw [hrow] at hplace
    exact absurd (List.eq_of_mem_replicate (List.mem_of_getElem? hplace)) (Option.some_ne_none slot)
  · rw [htake] at hslot
    obtain ⟨written,hwritten,rfl⟩ := List.mem_map.mp hslot
    exact ⟨written,rfl,(groupSlots_ids 0 group written hwritten).2⟩
  · have h := (groupSlots_ids 0 group slot (hmem slot hslot)).1
    omega
  · have hseq := groupSlots_sequence 0 id group
    rw [if_pos (Nat.zero_le id),Nat.sub_zero,hid] at hseq
    rw [Batch.sequence,htake,List.filterMap_map]
    exact hseq

end Slots

section Loops

variable {Token : Type} {config : Config} {llama : Llama Token} {inputs : List (List Token)}
  {pooled : List Token → Embedding}

/-- A batch keeps both limits while it is extended. -/
theorem batchEnd_limits {begin stop : ℕ} (hb : begin≤ stop) (hle : stop≤ inputs.length)
    (hs : stop-begin≤ config.maxSequences)
    (ht : tokenCount ((inputs.drop begin).take (stop-begin))≤ config.batchTokens) :
    batchEnd config inputs begin stop (tokenCount ((inputs.drop begin).take (stop-begin)))≤
      inputs.length ∧
    batchEnd config inputs begin stop (tokenCount ((inputs.drop begin).take (stop-begin)))-begin≤
      config.maxSequences ∧
    tokenCount ((inputs.drop begin).take (batchEnd config inputs begin stop
      (tokenCount ((inputs.drop begin).take (stop-begin)))-begin))≤ config.batchTokens := by
  rw [batchEnd]
  split
  · rename_i hlt
    split
    · rename_i hfits
      have hnext : tokenCount ((inputs.drop begin).take (stop-begin))+inputs[stop].length=
          tokenCount ((inputs.drop begin).take (stop+1-begin)) := by
        rw [part_succ hb hlt,tokenCount_append]
        simp [tokenCount]
      rw [hnext] at hfits ⊢
      exact batchEnd_limits (by omega) hlt (by omega) hfits.2
    · exact ⟨hle,hs,ht⟩
  · exact ⟨hle,hs,ht⟩
termination_by inputs.length-stop

/-- The first input of a batch always fits. -/
theorem batchEnd_advances {begin : ℕ} (hb : begin< inputs.length) (hs : 0<config.maxSequences)
    (hfits : inputs[begin].length≤ config.batchTokens) :
    begin<batchEnd config inputs begin begin 0 := by
  rw [batchEnd,dif_pos hb,if_pos ⟨by omega,by omega⟩]
  exact le_batchEnd config inputs begin (begin+1) _

/-- How the loop may fail: llama.cpp reports a code, or an embedding cannot be
normalized. -/
def Refused (inputs : List (List Token)) (pooled : List Token → Embedding) (fault : Fault) : Prop :=
  (∃ code : ℤ,code≠0 ∧ fault=.thrown (runtimeError
    ("llama.cpp failed to compute embeddings (code "++text (toString code)++")"))) ∨
  ∃ tokens∈inputs,normalize (pooled tokens)=.error fault

/-- The embeddings of the first inputs are in their places. -/
structure Stored (inputs : List (List Token)) (pooled : List Token → Embedding) (done : ℕ)
    (output : List Embedding) : Prop where
  /-- There is a place for each input. -/
  length_eq : output.length=inputs.length
  /-- It holds the embedding of that input. -/
  own : ∀ i<done,∀ tokens,inputs[i]?=some tokens →
    ∃ embedding,normalize (pooled tokens)=.ok embedding ∧ output[i]?=some embedding

/-- A batch that is computed stores the embeddings of its inputs. -/
theorem computeBatch_ends (hpools : Pools llama pooled) (hne : ∀ tokens∈inputs,tokens≠[])
    {batch : Batch Token} {begin stop : ℕ} (hb : begin≤ stop) (hle : stop≤ inputs.length)
    (hfits : Fits config ((inputs.drop begin).take (stop-begin)) batch) {output : List Embedding}
    (ho : Stored inputs pooled begin output) :
    Ends (computeBatch llama batch begin stop output) (Refused inputs pooled)
      (Stored inputs pooled stop) := by
  unfold computeBatch
  dsimp only
  by_cases hcode : llama.compute llama.hasEncoder batch=0
  · rw [if_neg (not_not.mpr hcode)]
    have hloop := @Ends.foldlM_range' _ _ (Refused inputs pooled) (storeEmbedding llama batch begin)
      begin (stop-begin) output (Stored inputs pooled) ho (fun sequence output hl hu ho => ?_)
    · rwa [Nat.add_sub_cancel' hb] at hloop
    · have hlt : sequence< inputs.length := by omega
      have hmem : inputs[sequence]∈inputs := List.getElem_mem hlt
      have hgroup : ((inputs.drop begin).take (stop-begin))[sequence-begin]?=some inputs[sequence] := by
        rw [List.getElem?_take_of_lt (by omega),List.getElem?_drop,
          show begin+(sequence-begin)=sequence by omega,List.getElem?_eq_getElem hlt]
      have hvalue := hpools llama.hasEncoder batch (sequence-begin) inputs[sequence] hfits.ready
        (hne _ hmem) (hfits.own _ _ hgroup) hcode
      unfold storeEmbedding
      rw [hvalue]
      dsimp only
      cases hn : normalize (pooled inputs[sequence]) with
      | error fault => exact .inr ⟨_,hmem,hn⟩
      | ok embedding =>
        refine (assign_ends (ho.length_eq ▸ hlt) embedding).mono (fun _ h => h) (fun after hafter => ?_)
        rw [hafter]
        refine ⟨List.length_set.trans ho.length_eq,fun i hi tokens hat => ?_⟩
        by_cases he : sequence=i
        · rw [←he,List.getElem?_eq_getElem hlt,Option.some.injEq] at hat
          rw [←he,←hat,List.getElem?_set_self (ho.length_eq ▸ hlt)]
          exact ⟨embedding,hn,rfl⟩
        · rw [List.getElem?_set_ne he]
          exact ho.own i (by omega) tokens hat
  · rw [if_pos hcode]
    exact .inl ⟨_,hcode,rfl⟩

/-- From any input on, the loop cuts the inputs into batches and ends. -/
theorem embedFrom_partition (hs : 0<config.maxSequences)
    (hinputs : ∀ tokens∈inputs,tokens≠[] ∧ tokens.length≤ config.batchTokens)
    (hpools : Pools llama pooled) {begin : ℕ} (hle : begin≤ inputs.length) {output : List Embedding}
    (ho : Stored inputs pooled begin output) :
    ∃ groups : List (List (List Token)),groups.flatten=inputs.drop begin ∧
      (∀ group∈groups,Fits config group (batchOf config group)) ∧
      (embedFrom config llama inputs begin output).1<+:groups.map (batchOf config) ∧
      Ends (embedFrom config llama inputs begin output).2 (Refused inputs pooled) (fun after =>
        Stored inputs pooled inputs.length after ∧
        (embedFrom config llama inputs begin output).1=groups.map (batchOf config)) := by
  rw [embedFrom]
  by_cases hlt : begin< inputs.length
  · have hmem : inputs[begin]∈inputs := List.getElem_mem hlt
    have hstep := batchEnd_advances hlt hs (hinputs _ hmem).2
    have hlimits := @batchEnd_limits _ config inputs begin begin le_rfl hle (by omega)
      (by rw [Nat.sub_self,List.take_zero]; exact Nat.zero_le _)
    have hzero : tokenCount ((inputs.drop begin).take (begin-begin))=0 := by
      rw [Nat.sub_self,List.take_zero]
      rfl
    rw [hzero] at hlimits
    rw [dif_pos hlt]
    generalize batchEnd config inputs begin begin 0=stop at hstep hlimits ⊢
    obtain ⟨hstop,hsequences,htokens⟩ := hlimits
    have hnonempty : (inputs.drop begin).take (stop-begin)≠[] := by
      intro hempty
      have hl := congrArg List.length hempty
      rw [List.length_take,List.length_drop,List.length_nil] at hl
      omega
    have hfits := @batchOf_fits _ config _ hnonempty
      (by rw [List.length_take]; omega) htokens
    have hrest : (inputs.drop begin).take (stop-begin)++inputs.drop stop=inputs.drop begin := by
      have hd := List.take_append_drop (stop-begin) (inputs.drop begin)
      rwa [List.drop_drop,Nat.add_sub_cancel' hstep.le] at hd
    rw [dif_neg hstep.ne',fillBatch_eq hstep.le hstop htokens]
    dsimp only
    have hcompute := computeBatch_ends hpools (fun tokens h => (hinputs tokens h).1) hstep.le hstop
      hfits ho
    cases hresult : computeBatch llama (batchOf config ((inputs.drop begin).take (stop-begin)))
        begin stop output with
    | error fault =>
      rw [hresult] at hcompute
      -- no batch follows, so the inputs that are left may be cut anywhere
      have hsingle : ∀ group∈(inputs.drop stop).map (fun tokens => [tokens]),
          Fits config group (batchOf config group) := by
        intro group hg
        obtain ⟨tokens,ht,rfl⟩ := List.mem_map.mp hg
        have hlimit := (hinputs tokens (List.mem_of_mem_drop ht)).2
        exact batchOf_fits (List.cons_ne_nil _ _) hs (by simpa [tokenCount] using hlimit)
      refine ⟨(inputs.drop begin).take (stop-begin)::(inputs.drop stop).map (fun tokens => [tokens]),
        ?_,List.forall_mem_cons.mpr ⟨hfits,hsingle⟩,?_,hcompute⟩
      · rw [List.flatten_cons,←List.flatMap_def,List.flatMap_singleton',hrest]
      · rw [List.map_cons]
        exact List.cons_prefix_cons.mpr ⟨rfl,List.nil_prefix⟩
    | ok after =>
      rw [hresult] at hcompute
      obtain ⟨groups,hflatten,hall,hbegins,hends⟩ :=
        embedFrom_partition hs hinputs hpools hstop hcompute
      refine ⟨(inputs.drop begin).take (stop-begin)::groups,?_,?_,?_,?_⟩
      · rw [List.flatten_cons,hflatten,hrest]
      · rw [List.forall_mem_cons]
        exact ⟨hfits,hall⟩
      · rw [List.map_cons]
        exact List.cons_prefix_cons.mpr ⟨rfl,hbegins⟩
      · exact hends.mono (fun _ h => h) (fun result hresult =>
          ⟨hresult.1,by rw [List.map_cons]; exact congrArg _ hresult.2⟩)
  · rw [dif_neg hlt]
    refine ⟨[],?_,fun group h => (List.not_mem_nil h).elim,List.prefix_refl _,?_,rfl⟩
    · rw [List.flatten_nil,List.drop_eq_nil_iff.mpr (by omega)]
    · exact ⟨ho.length_eq,fun i hi => ho.own i (by omega)⟩
termination_by inputs.length-begin

/-- The limits that `embed` checks are what its loop needs. -/
theorem tokenized_limits (texts : List Text) :
    Ends (texts.mapM (tokenizeChecked config llama)) (fun _ => True) (fun inputs =>
      inputs.length=texts.length ∧
      ∀ tokens∈inputs,tokens≠[] ∧ tokens.length≤ config.batchTokens) := by
  refine Ends.mapM texts (fun text _ => ?_)
  unfold tokenizeChecked
  cases llama.tokenize text with
  | error fault => trivial
  | ok tokens =>
    refine (throwIf_ends (fun _ => trivial)).bind (fun _ hempty => ?_)
    refine (throwIf_ends (fun _ => trivial)).bind (fun _ hlimits => ?_)
    rw [List.isEmpty_iff] at hempty
    exact ⟨hempty,by omega⟩

/-- What `embed` throws when nothing was put into a batch. -/
def unfit : Exception := runtimeError "a tokenized document does not fit in the llama.cpp batch"

/-- Normalizing fails with an exception of its own. -/
theorem normalize_fault (embedding : Embedding) :
    Ends (normalize embedding) (fun fault => ∃ exception,fault=.thrown exception ∧ exception≠unfit)
      (fun _ => True) := by
  have hcheck {condition : Prop} [Decidable condition] {exception : Exception}
      (h : exception≠unfit) : Ends (throwIf condition exception)
        (fun fault => ∃ exception,fault=.thrown exception ∧ exception≠unfit) (fun _ => True) :=
    (throwIf_ends (fun _ => ⟨exception,rfl,h⟩)).mono (fun _ h => h) (fun _ _ => trivial)
  have hnorm : Ends (squaredNorm embedding)
      (fun fault => ∃ exception,fault=.thrown exception ∧ exception≠unfit) (fun _ => True) := by
    refine Ends.foldlM embedding (fun _ _ => True) trivial (fun _ _ _ _ _ _ => ?_)
    refine (hcheck (by decide)).bind (fun _ _ => ?_)
    exact trivial
  refine hnorm.bind (fun norm _ => (hcheck (by decide)).bind (fun _ _ =>
    (hcheck (by decide)).bind (fun _ _ => (hcheck (by decide)).bind (fun _ _ => ?_))))
  refine (@Ends.mapM _ _ _ _ _ (fun _ => True) embedding (fun value _ => ?_)).mono (fun _ h => h)
    (fun _ _ => trivial)
  refine (hcheck (by decide)).bind (fun _ _ => ?_)
  exact trivial

/-- No document is found not to fit, and no slot or place outside its array is written. -/
theorem Refused.reported {fault : Fault} (h : Refused inputs pooled fault) :
    fault≠.thrown unfit ∧ fault≠.outOfBounds := by
  cases h with
  | inl h =>
    obtain ⟨code,_,rfl⟩ := h
    refine ⟨fun he => ?_,Fault.noConfusion⟩
    have hwhat := congrArg (fun exception => exception.what.head?) (Fault.thrown.inj he)
    have hhead : ("llama.cpp failed to compute embeddings (code " : Text).head?=some 108 := by decide
    have hother : unfit.what.head?=some 97 := by decide
    dsimp only [runtimeError] at hwhat
    rw [List.append_assoc,List.head?_append,hhead,hother] at hwhat
    cases hwhat
  | inr h =>
    obtain ⟨tokens,_,hnormalize⟩ := h
    obtain ⟨exception,rfl,hne⟩ := (normalize_fault (pooled tokens)).of_error hnormalize
    exact ⟨fun he => hne (Fault.thrown.inj he),Fault.noConfusion⟩

/-- The tokens that llama.cpp finds in a sequence decide its embedding. -/
def counting : Llama ℕ where
  tokenize text := .ok (text.map UInt8.toNat)
  sequenceCapacity := 2
  hasEncoder := false
  compute _ _ := 0
  embeddingsSeq _ batch id := some ((batch.sequence id).map (fun token => Binary.ofNat token.1))

end Loops

end Leann.LlamaBatches
