import Leann.Documents
import Leann.IndexFile
import Leann.Metering

/-!
# Hostile artifacts

The readers of both artifacts with notes of the storage they ask for: every
vector and every string whose size the file declares. What a file declares
can be any number. The readers check a table against the bytes that are left
before they ask for its storage, whatever the file holds.
-/

namespace Leann.HostileArtifacts

open ByteStream Exceptions Format Checksum Documents IndexFile Outcomes Metering

section Watched

/-- What storage is asked for. -/
inductive Storage where
  /-- A table or a string whose bytes are read next. -/
  | table
  /-- The records of the upper layers. -/
  | layers
  deriving DecidableEq

/-- A vector or a string gets the size that the file declares. -/
structure Request where
  /-- What it is for. -/
  storage : Storage
  /-- Its bytes. -/
  bytes : ℕ
  /-- The bytes of the file that have not been read yet. -/
  left : ℕ
  deriving DecidableEq

/-- `sizeof(UpperLayer)`: three vectors, each of three pointers. -/
def upperLayerSize : ℕ := 72

/-- A reader with notes of what it asks for. -/
abbrev Watched := Metered Request Fault

/-- Ask for storage. -/
def request (storage : Storage) (bytes : ℕ) : Watched Unit :=
  .note (fun stream => ⟨storage,bytes,stream.rest.length⟩)

/-- `read_vector`. -/
def watchVector (T : Type) [Unsigned T] (count : ℕ) : Watched (List T) := do
  request .table (count*Unsigned.width T)
  .quietly (readVector T count)

/-- `resize` followed by `read_bytes` into the new storage. -/
def watchResized (size : ℕ) : Watched (List UInt8) := do
  request .table size
  .quietly (readResized size)

/-- `read_float_vector`. -/
def watchFloatVector (count : ℕ) : Watched (List BinaryFloat.Single) := do
  request .table (count*4)
  .quietly (readFloatVector count)

/-- The base graph, as `readBaseGraph`. -/
def watchBaseGraph (count edgeCount remaining : ℕ) : Watched (List UInt64×List UInt32×ℕ) := do
  let entries ← .quietly (attempt (plus64 count 1))
  let remaining ← .quietly (attempt (consume remaining entries 8 "CSR offsets"))
  let offsets ← watchVector UInt64 entries
  let remaining ← .quietly (attempt (consume remaining edgeCount 4 "CSR edges"))
  let edges ← watchVector UInt32 edgeCount
  .quietly (check (¬Spanning offsets edges.length) (runtimeError "invalid CSR offsets"))
  .quietly (check (¬Rising offsets edges.length) (runtimeError "invalid CSR offsets"))
  .quietly (check (¬∀ id∈edges,id.toNat<count) (runtimeError "CSR contains an invalid node id"))
  return (offsets,edges,remaining)

/-- The rows of a layer, as `readLayerRows`. -/
def watchLayerRows (count : ℕ) (entryPoint : UInt32) (layerNodes layerEdges : ℕ) :
    Watched UpperLayer := do
  let nodes ← watchVector UInt32 layerNodes
  let entries ← .quietly (attempt (plus64 layerNodes 1))
  let offsets ← watchVector UInt64 entries
  let edges ← watchVector UInt32 layerEdges
  .quietly (check (¬nodes.IsChain (·≤·) ∨ ¬nodes.IsChain (·≠·) ∨ ¬(∀ id∈nodes,id.toNat<count) ∨
    offsets.isEmpty ∨ ¬Spanning offsets edges.length)
    (runtimeError "invalid upper-layer CSR data"))
  .quietly (check (¬Rising offsets edges.length) (runtimeError "invalid upper-layer offsets"))
  .quietly (check (¬∀ id∈edges,id.toNat<count ∧ binarySearch nodes id)
    (runtimeError "invalid upper-layer edge"))
  .quietly (check (¬binarySearch nodes entryPoint)
    (runtimeError "upper layer does not contain the HNSW entry point"))
  return ⟨nodes,offsets,edges⟩

/-- The upper layers, as `readUpperLayers`. -/
def watchUpperLayers (count : ℕ) (entryPoint : UInt32) (levels remaining : ℕ) :
    Watched (List UpperLayer×ℕ) :=
  match levels with
  | 0 => return ([],remaining)
  | levels+1 => do
    let (layerNodes,layerEdges,remaining) ← .quietly (readLayerHeader count remaining)
    let layer ← watchLayerRows count entryPoint layerNodes layerEdges
    let (layers,remaining) ← watchUpperLayers count entryPoint levels remaining
    return (layer::layers,remaining)

/-- The sketches, as `readSketches`. -/
def watchSketches (parameters : Parameters) (counts : Counts) (remaining : ℕ) :
    Watched (List UInt64×ℕ) := do
  .quietly (check (parameters.sketchBits<64 ∨ parameters.sketchBits%64≠0 ∨
    parameters.pqSubquantizers≠0 ∨ parameters.pqBits≠0 ∨ parameters.pqCentroids≠0 ∨
    parameters.pqSubdimension≠0 ∨ counts.codebookValues≠0) (runtimeError "invalid SimHash metadata"))
  .quietly (check (counts.nodes.toNat>uint64Max/(parameters.sketchBits/8).toNat)
    (runtimeError "SimHash table is too large"))
  let expectedBytes ← .quietly
    (attempt (times64 counts.nodes.toNat (parameters.sketchBits/8).toNat))
  .quietly (check (counts.codeBytes.toNat≠expectedBytes) (runtimeError "invalid SimHash table size"))
  let remaining ← .quietly (attempt (consume remaining counts.codeBytes.toNat 1 "SimHash table"))
  let sketches ← watchVector UInt64 (counts.codeBytes.toNat/8)
  return (sketches,remaining)

/-- The codebook and the packed codes, as `readQuantized`. -/
def watchQuantized (parameters : Parameters) (counts : Counts) (remaining : ℕ) :
    Watched (List BinaryFloat.Single×List UInt8×ℕ) := do
  .quietly (check (parameters.sketchBits≠0 ∨ parameters.pqSubquantizers=0 ∨ parameters.pqBits=0 ∨
    parameters.pqBits>8 ∨ parameters.pqCentroids=0 ∨
    parameters.pqCentroids.toNat>2^parameters.pqBits.toNat ∨ parameters.pqSubdimension=0 ∨
    parameters.pqSubquantizers.toNat*parameters.pqSubdimension.toNat≠parameters.dimension.toNat)
    (runtimeError "invalid PQ metadata"))
  let codebookRows ← .quietly
    (attempt (times64 parameters.pqSubquantizers.toNat parameters.pqCentroids.toNat))
  .quietly (check (codebookRows>uint64Max/parameters.pqSubdimension.toNat)
    (runtimeError "PQ codebook is too large"))
  let expectedCodebook ← .quietly (attempt (times64 codebookRows parameters.pqSubdimension.toNat))
  let vectorBits ← .quietly
    (attempt (times64 parameters.pqSubquantizers.toNat parameters.pqBits.toNat))
  let paddedBits ← .quietly (attempt (plus64 vectorBits 7))
  .quietly (check (counts.nodes.toNat>uint64Max/(paddedBits/8))
    (runtimeError "PQ code table is too large"))
  let expectedBytes ← .quietly (attempt (times64 counts.nodes.toNat (paddedBits/8)))
  .quietly (check (counts.codebookValues.toNat≠expectedCodebook ∨
    counts.codeBytes.toNat≠expectedBytes) (runtimeError "invalid PQ table size"))
  let remaining ← .quietly (attempt (consume remaining counts.codebookValues.toNat 4 "PQ codebook"))
  let codebook ← watchFloatVector counts.codebookValues.toNat
  let remaining ← .quietly (attempt (consume remaining counts.codeBytes.toNat 1 "PQ codes"))
  let codes ← watchResized counts.codeBytes.toNat
  return (codebook,codes,remaining)

/-- The codes, as `readCodes`. -/
def watchCodes (base : Index) (counts : Counts) (remaining : ℕ) : Watched Index :=
  match base.approximation with
  | .simHash => do
    let (sketches,remaining) ← watchSketches base.toParameters counts remaining
    .quietly (check (remaining≠0) (runtimeError "index has unexpected trailing bytes"))
    return {base with sketches := sketches}
  | .productQuantization => do
    let (codebook,codes,remaining) ← watchQuantized base.toParameters counts remaining
    .quietly (check (remaining≠0) (runtimeError "index has unexpected trailing bytes"))
    return {base with pqCodebook := codebook,pqCodes := codes}

/-- The tables behind the header, as `readTables`. The records of the upper
layers are asked for before the layers are read. -/
def watchTables (path : Text) (pairIdentity : PairIdentity) (parameters : Parameters)
    (counts : Counts) (remaining : ℕ) : Watched Index := do
  let remaining ← .quietly
    (attempt (consume remaining counts.fingerprintSize.toNat 1 "embedder fingerprint"))
  let fingerprint ← watchResized counts.fingerprintSize.toNat
  let (offsets,edges,remaining) ← watchBaseGraph counts.nodes.toNat counts.edges.toNat remaining
  request .layers (parameters.maxLevel.toNat*upperLayerSize)
  let (layers,remaining) ←
    watchUpperLayers counts.nodes.toNat parameters.entryPoint parameters.maxLevel.toNat remaining
  watchCodes ⟨parameters,path,pairIdentity,fingerprint,offsets,edges,layers,[],[],[]⟩ counts remaining

/-- The fields behind the version, as `readBody`. -/
def watchBody (path : Text) (checksummedSize : ℕ) : Watched Index := do
  let metric ← .quietly (readLe UInt32)
  .quietly (check (metric≠cosineMetric) (runtimeError "unsupported index metric"))
  let pairIdentity ← .quietly (readArray 32)
  .quietly (check (isZeroIdentity pairIdentity) (runtimeError "index has a zero pair identity"))
  let parameters ← .quietly readParameters
  let counts ← .quietly readCounts
  .quietly (check (counts.nodes=0 ∨ parameters.dimension=0 ∨
    parameters.entryPoint.toNat≥counts.nodes.toNat ∨ parameters.maxLevel>64)
    (runtimeError "invalid index header"))
  let payloadPosition ← .quietly tell
  .quietly (check (payloadPosition>checksummedSize) (runtimeError "invalid index file size"))
  .quietly (check (counts.nodes.toNat=uint64Max) (runtimeError "node count is too large"))
  let _ ← .quietly (attempt (checkedSize counts.nodes.toNat "node count"))
  let _ ← .quietly (attempt (checkedSize counts.edges.toNat "edge count"))
  let _ ← .quietly (attempt (checkedSize counts.fingerprintSize.toNat "embedder fingerprint"))
  let _ ← .quietly (attempt (checkedSize counts.codebookValues.toNat "PQ codebook values"))
  let _ ← .quietly (attempt (checkedSize counts.codeBytes.toNat "approximation codes"))
  watchTables path pairIdentity parameters counts (checksummedSize-payloadPosition)

/-- The body of `Index::load`, as `loadReader`. -/
def watchLoad (path : Text) : Watched Index := do
  let magic ← .quietly (readBytes indexMagic.length)
  .quietly (check (magic≠indexMagic) (runtimeError ("not a leann.cpp index: "++path)))
  let version ← .quietly (readLe UInt32)
  .quietly (check (version≠indexVersion)
    (runtimeError ("unsupported index version: "++toText version.toNat)))
  let checksummedSize ← .quietly (verifySha256Footer "index")
  .quietly (seek (indexMagic.length+4))
  watchBody path checksummedSize

/-- The table between the two digests of a document store, as `readTable`. -/
def watchTable (count : ℕ) : Watched (List UInt64×List UInt32) := do
  let entries ← .quietly (attempt (plus64 count 1))
  let offsets ← watchVector UInt64 entries
  let checksums ← watchVector UInt32 count
  return (offsets,checksums)

/-- The body of `DocumentStore::open`, as `openReader`. -/
def watchOpen (path : Text) : Watched DocumentStore := do
  let fileSize ← .quietly (streamSize "document store")
  let (identity,countOnDisk) ← .quietly (readHeader path)
  let headerSize ← .quietly tell
  let storedHeaderDigest ← .quietly (readArray 32)
  let computedHeaderDigest ← .quietly (sha256StreamPrefix headerSize "document header")
  .quietly (check (storedHeaderDigest≠computedHeaderDigest)
    (runtimeError "document header SHA-256 checksum mismatch"))
  let tablePosition ← .quietly (attempt (plus64 headerSize 32))
  .quietly (seek tablePosition)
  .quietly (check (tablePosition>fileSize ∨ fileSize-tablePosition<32 ∨
    countOnDisk.toNat>(uint64Max-8)/12) (runtimeError "document metadata exceeds file size"))
  let entryBytes ← .quietly (attempt (times64 countOnDisk.toNat 12))
  let tableBytes ← .quietly (attempt (plus64 8 entryBytes))
  .quietly (check (tableBytes>fileSize-tablePosition-32)
    (runtimeError "document metadata exceeds file size"))
  let metadataSize ← .quietly (attempt (plus64 tablePosition tableBytes))
  .quietly (check (metadataSize>streamoffMax)
    (runtimeError "document metadata exceeds stream offset limits"))
  .quietly (seek metadataSize)
  let storedMetadataDigest ← .quietly (readArray 32)
  let computedMetadataDigest ← .quietly (sha256StreamPrefix metadataSize "document metadata")
  .quietly (check (storedMetadataDigest≠computedMetadataDigest)
    (runtimeError "document metadata SHA-256 checksum mismatch"))
  let count ← .quietly (attempt (checkedSize countOnDisk.toNat "document count"))
  .quietly (seek tablePosition)
  let (offsets,checksums) ← watchTable count
  .quietly (check (offsets.head?≠some 0) (runtimeError "invalid document offsets"))
  .quietly (check (¬offsets.IsChain (·≤·)) (runtimeError "document offsets are not monotonic"))
  let dataOffset ← .quietly (attempt (plus64 metadataSize 32))
  .quietly (check (dataOffset>fileSize ∨ (offsets.getLastD 0).toNat≠fileSize-dataOffset)
    (runtimeError "document payload size does not match its offset table"))
  .quietly (fun stream =>
    .ok (⟨stream.contents,identity,offsets,checksums,dataOffset,fileSize⟩,stream))

end Watched

section Erasure

/-- Asking for storage in front of a reader. -/
theorem requested_erases {α : Type} (storage : Storage) (bytes : ℕ) {watched : Watched α}
    {reader : Reader Fault α} (h : Erases watched reader) :
    Erases (do request storage bytes; watched) reader := .noted _ h

theorem watchVector_erases (T : Type) [Unsigned T] (count : ℕ) :
    Erases (watchVector T count) (readVector T count) := requested_erases _ _ (.quietly _)

theorem watchResized_erases (size : ℕ) : Erases (watchResized size) (readResized size) :=
  requested_erases _ _ (.quietly _)

theorem watchFloatVector_erases (count : ℕ) :
    Erases (watchFloatVector count) (readFloatVector count) := requested_erases _ _ (.quietly _)

theorem watchBaseGraph_erases (count edgeCount remaining : ℕ) :
    Erases (watchBaseGraph count edgeCount remaining) (readBaseGraph count edgeCount remaining) :=
  (Erases.quietly _).bind (fun _ => (Erases.quietly _).bind (fun _ =>
  (watchVector_erases UInt64 _).bind (fun _ => (Erases.quietly _).bind (fun _ =>
  (watchVector_erases UInt32 _).bind (fun _ => (Erases.quietly _).bind (fun _ =>
  (Erases.quietly _).bind (fun _ => (Erases.quietly _).bind (fun _ => .returned _))))))))

theorem watchLayerRows_erases (count : ℕ) (entryPoint : UInt32) (layerNodes layerEdges : ℕ) :
    Erases (watchLayerRows count entryPoint layerNodes layerEdges)
      (readLayerRows count entryPoint layerNodes layerEdges) :=
  (watchVector_erases UInt32 _).bind (fun _ => (Erases.quietly _).bind (fun _ =>
  (watchVector_erases UInt64 _).bind (fun _ => (watchVector_erases UInt32 _).bind (fun _ =>
  (Erases.quietly _).bind (fun _ => (Erases.quietly _).bind (fun _ =>
  (Erases.quietly _).bind (fun _ => (Erases.quietly _).bind (fun _ => .returned _))))))))

theorem watchUpperLayers_erases (count : ℕ) (entryPoint : UInt32) (levels remaining : ℕ) :
    Erases (watchUpperLayers count entryPoint levels remaining)
      (readUpperLayers count entryPoint levels remaining) := by
  induction levels generalizing remaining with
  | zero => exact .returned _
  | succ levels ih =>
    exact (Erases.quietly _).bind (fun _ => (watchLayerRows_erases _ _ _ _).bind (fun _ =>
      (ih _).bind (fun _ => .returned _)))

theorem watchSketches_erases (parameters : Parameters) (counts : Counts) (remaining : ℕ) :
    Erases (watchSketches parameters counts remaining) (readSketches parameters counts remaining) :=
  (Erases.quietly _).bind (fun _ => (Erases.quietly _).bind (fun _ =>
  (Erases.quietly _).bind (fun _ => (Erases.quietly _).bind (fun _ =>
  (Erases.quietly _).bind (fun _ => (watchVector_erases UInt64 _).bind (fun _ => .returned _))))))

theorem watchQuantized_erases (parameters : Parameters) (counts : Counts) (remaining : ℕ) :
    Erases (watchQuantized parameters counts remaining) (readQuantized parameters counts remaining) :=
  (Erases.quietly _).bind (fun _ => (Erases.quietly _).bind (fun _ =>
  (Erases.quietly _).bind (fun _ => (Erases.quietly _).bind (fun _ =>
  (Erases.quietly _).bind (fun _ => (Erases.quietly _).bind (fun _ =>
  (Erases.quietly _).bind (fun _ => (Erases.quietly _).bind (fun _ =>
  (Erases.quietly _).bind (fun _ => (Erases.quietly _).bind (fun _ =>
  (watchFloatVector_erases _).bind (fun _ => (Erases.quietly _).bind (fun _ =>
  (watchResized_erases _).bind (fun _ => .returned _)))))))))))))

theorem watchCodes_erases (base : Index) (counts : Counts) (remaining : ℕ) :
    Erases (watchCodes base counts remaining) (readCodes base counts remaining) := by
  unfold watchCodes readCodes
  cases base.approximation with
  | simHash =>
    exact (watchSketches_erases _ _ _).bind (fun _ => (Erases.quietly _).bind (fun _ => .returned _))
  | productQuantization =>
    exact (watchQuantized_erases _ _ _).bind (fun _ => (Erases.quietly _).bind (fun _ => .returned _))

theorem watchTables_erases (path : Text) (pairIdentity : PairIdentity) (parameters : Parameters)
    (counts : Counts) (remaining : ℕ) :
    Erases (watchTables path pairIdentity parameters counts remaining)
      (readTables path pairIdentity parameters counts remaining) :=
  (Erases.quietly _).bind (fun _ => (watchResized_erases _).bind (fun _ =>
  (watchBaseGraph_erases _ _ _).bind (fun _ => requested_erases _ _
    ((watchUpperLayers_erases _ _ _ _).bind (fun _ => watchCodes_erases _ _ _)))))

theorem watchBody_erases (path : Text) (checksummedSize : ℕ) :
    Erases (watchBody path checksummedSize) (readBody path checksummedSize) :=
  (Erases.quietly _).bind (fun _ => (Erases.quietly _).bind (fun _ =>
  (Erases.quietly _).bind (fun _ => (Erases.quietly _).bind (fun _ =>
  (Erases.quietly _).bind (fun _ => (Erases.quietly _).bind (fun _ =>
  (Erases.quietly _).bind (fun _ => (Erases.quietly _).bind (fun _ =>
  (Erases.quietly _).bind (fun _ => (Erases.quietly _).bind (fun _ =>
  (Erases.quietly _).bind (fun _ => (Erases.quietly _).bind (fun _ =>
  (Erases.quietly _).bind (fun _ => (Erases.quietly _).bind (fun _ =>
  (Erases.quietly _).bind (fun _ => watchTables_erases _ _ _ _ _)))))))))))))))

/-- The watched loader is `Index::load`. -/
theorem watchLoad_erases (path : Text) : Erases (watchLoad path) (loadReader path) :=
  (Erases.quietly _).bind (fun _ => (Erases.quietly _).bind (fun _ =>
  (Erases.quietly _).bind (fun _ => (Erases.quietly _).bind (fun _ =>
  (Erases.quietly _).bind (fun _ => (Erases.quietly _).bind (fun _ => watchBody_erases _ _))))))

theorem watchTable_erases (count : ℕ) : Erases (watchTable count) (readTable count) :=
  (Erases.quietly _).bind (fun _ => (watchVector_erases UInt64 _).bind (fun _ =>
  (watchVector_erases UInt32 _).bind (fun _ => .returned _)))

/-- The watched opening is `DocumentStore::open`. -/
theorem watchOpen_erases (path : Text) : Erases (watchOpen path) (openReader path) :=
  (Erases.quietly _).bind (fun _ => (Erases.quietly _).bind (fun _ =>
  (Erases.quietly _).bind (fun _ => (Erases.quietly _).bind (fun _ =>
  (Erases.quietly _).bind (fun _ => (Erases.quietly _).bind (fun _ =>
  (Erases.quietly _).bind (fun _ => (Erases.quietly _).bind (fun _ =>
  (Erases.quietly _).bind (fun _ => (Erases.quietly _).bind (fun _ =>
  (Erases.quietly _).bind (fun _ => (Erases.quietly _).bind (fun _ =>
  (Erases.quietly _).bind (fun _ => (Erases.quietly _).bind (fun _ =>
  (Erases.quietly _).bind (fun _ => (Erases.quietly _).bind (fun _ =>
  (Erases.quietly _).bind (fun _ => (Erases.quietly _).bind (fun _ =>
  (Erases.quietly _).bind (fun _ => (Erases.quietly _).bind (fun _ =>
  (watchTable_erases _).bind (fun _ => (Erases.quietly _).bind (fun _ =>
  (Erases.quietly _).bind (fun _ => (Erases.quietly _).bind (fun _ =>
  (Erases.quietly _).bind (fun _ => .quietly _)))))))))))))))))))))))))

end Erasure

section Spending

/-- The bytes that are asked for tables. -/
def requestedBytes (requests : List Request) : ℕ :=
  ((requests.filter (fun request => decide (request.storage=.table))).map (·.bytes)).sum

/-- Requests that are checked against the file and bounded by a size. -/
structure Affordable (size : ℕ) (requests : List Request) : Prop where
  /-- A table is no larger than what is left of the file. -/
  checked : ∀ request∈requests,request.storage=.table → request.bytes≤ request.left
  /-- The tables together are no larger than the size. -/
  total : requestedBytes requests≤ size
  /-- There are at most 64 records of upper layers. -/
  layers : ∀ request∈requests,request.storage=.layers → request.bytes≤64*upperLayerSize

/-- Nothing costs nothing. -/
theorem affordable_nil (size : ℕ) : Affordable size [] :=
  ⟨fun _ h => (List.not_mem_nil h).elim,Nat.zero_le _,fun _ h => (List.not_mem_nil h).elim⟩

/-- A larger size affords as much. -/
theorem Affordable.more {size other : ℕ} {requests : List Request} (h : Affordable size requests)
    (hle : size≤other) : Affordable other requests := ⟨h.checked,h.total.trans hle,h.layers⟩

/-- Requests behind requests add up. -/
theorem Affordable.append {first second : ℕ} {requests others : List Request}
    (h : Affordable first requests) (h' : Affordable second others) :
    Affordable (first+second) (requests++others) := by
  refine ⟨fun request hm => ?_,?_,fun request hm => ?_⟩
  · exact (List.mem_append.mp hm).elim (h.checked request) (h'.checked request)
  · rw [requestedBytes,List.filter_append,List.map_append,List.sum_append]
    exact Nat.add_le_add h.total h'.total
  · exact (List.mem_append.mp hm).elim (h.layers request) (h'.layers request)

/-- A run of a watched reader that stays within a budget. It fails with
exceptions only; at its end it has used so much of the budget. -/
def Spends {α : Type} (watched : Watched α) (start : Stream) (budget : ℕ)
    (post : α → Stream → ℕ → Prop) : Prop :=
  Meters watched start Reported (Affordable budget)
    (fun value stop requests => ∃ used≤budget,Affordable used requests ∧ post value stop used)

namespace Spends

variable {α β : Type} {start : Stream} {budget : ℕ} {post post' : α → Stream → ℕ → Prop}

/-- Conditions may be weakened. -/
theorem mono {watched : Watched α} (h : Spends watched start budget post)
    (hp : ∀ value stop used,post value stop used → post' value stop used) :
    Spends watched start budget post' :=
  Meters.mono h (fun _ hn => hn) (fun value stop _ hend => by
    obtain ⟨used,hused,ha,hpost⟩ := hend
    exact ⟨used,hused,ha,hp value stop used hpost⟩)

/-- A larger budget is enough as well. -/
theorem more {watched : Watched α} {larger : ℕ} (h : Spends watched start budget post)
    (hle : budget≤larger) : Spends watched start larger post :=
  Meters.mono h (fun _ hn => hn.more hle) (fun _ _ _ hend => by
    obtain ⟨used,hused,ha,hpost⟩ := hend
    exact ⟨used,hused.trans hle,ha,hpost⟩)

/-- What the first run leaves of the budget is the budget of the second. -/
theorem bind {watched : Watched α} {next : α → Watched β} {last : β → Stream → ℕ → Prop}
    (h : Spends watched start budget post)
    (hn : ∀ value stop used,used≤budget → post value stop used →
      Spends (next value) stop (budget-used) (fun result after more => last result after (used+more))) :
    Spends (watched>>=next) start budget last := by
  refine Meters.bind h (fun value stop requests hend _ => ?_)
  obtain ⟨used,hused,ha,hpost⟩ := hend
  refine Meters.mono (hn value stop used hused hpost) (fun others ho => ?_)
    (fun result after others hlast => ?_)
  · exact (ha.append ho).more (by omega)
  · obtain ⟨more,hmore,ho,hlast⟩ := hlast
    exact ⟨used+more,by omega,ha.append ho,hlast⟩

/-- A plain reader uses nothing. -/
theorem quietly {reader : Reader Fault α} {each : α → Stream → Prop}
    (h : Meets reader start Reported each) :
    Spends (.quietly reader) start budget (fun value stop used => used=0 ∧ each value stop) :=
  Meters.mono (Meters.quietly h (affordable_nil budget)) (fun _ hn => hn) (fun _ _ _ hend =>
    ⟨0,Nat.zero_le _,by rw [hend.1]; exact affordable_nil 0,rfl,hend.2⟩)

/-- Behind a plain reader the budget is what it was. -/
theorem quietlyThen {reader : Reader Fault α} {each : α → Stream → Prop} {next : α → Watched β}
    {last : β → Stream → ℕ → Prop} (h : Meets reader start Reported each)
    (hn : ∀ value stop,each value stop → Spends (next value) stop budget last) :
    Spends (.quietly reader>>=next) start budget last := by
  refine (quietly h).bind (fun value stop used hused hend => ?_)
  obtain ⟨rfl,hend⟩ := hend
  exact (hn value stop hend).mono (fun _ _ more hlast => by rwa [Nat.zero_add])

/-- Returning uses nothing. -/
theorem returned {value : α} (h : post value start 0) : Spends (pure value) start budget post :=
  (@quietly _ _ _ (pure value) (fun found stop => found=value ∧ stop=start)
    ⟨rfl,rfl⟩).mono (fun found stop used hend => by
      obtain ⟨rfl,rfl,rfl⟩ := hend
      exact h)

/-- A table that is left in the file and fits the budget. -/
theorem table {reader : Reader Fault α} {bytes : ℕ} {each : α → Stream → Prop}
    (hl : bytes≤ start.rest.length) (hb : bytes≤budget) (h : Meets reader start Reported each) :
    Spends (do request .table bytes; .quietly reader) start budget
      (fun value stop used => used=bytes ∧ each value stop) := by
  have hone : Affordable bytes [⟨.table,bytes,start.rest.length⟩] := by
    refine ⟨fun request hm _ => ?_,?_,fun request hm hs => ?_⟩
    · rw [List.mem_singleton.mp hm]
      exact hl
    · simp [requestedBytes]
    · rw [List.mem_singleton.mp hm] at hs
      cases hs
  refine @Spends.bind _ _ _ _ (fun _ stop used => used=bytes ∧ stop=start) _ _ _
    (Meters.mono (Meters.note _ (hone.more hb)) (fun _ hn => hn) (fun _ stop requests hend => ?_))
    (fun _ stop used hused hend => ?_)
  · obtain ⟨rfl,rfl⟩ := hend
    exact ⟨bytes,hb,hone,rfl,rfl⟩
  · obtain ⟨rfl,rfl⟩ := hend
    exact (quietly h).mono (fun value after more hmore => ⟨by omega,hmore.2⟩)

end Spends

/-- Without its notes the reader fails with exceptions only. -/
theorem Spends.meets {α : Type} {watched : Watched α} {reader : Reader Fault α} {start : Stream}
    {budget : ℕ} {post : α → Stream → ℕ → Prop} (h : Spends watched start budget post)
    (he : Erases watched reader) : Meets reader start Reported (fun _ _ => True) := by
  have hend := h.2
  rw [he start] at hend
  unfold Meets
  cases hr : reader start with
  | ok pair => trivial
  | error fault =>
    rw [hr] at hend
    exact hend

/-- The records of the upper layers are no table. -/
theorem layers_spends {levels budget : ℕ} (start : Stream) (h : levels≤64) :
    Spends (request .layers (levels*upperLayerSize)) start budget
      (fun _ stop used => used=0 ∧ stop=start) := by
  have hone : Affordable 0 [⟨.layers,levels*upperLayerSize,start.rest.length⟩] := by
    refine ⟨fun request hm hs => ?_,?_,fun request hm _ => ?_⟩
    · rw [List.mem_singleton.mp hm] at hs
      cases hs
    · simp [requestedBytes]
    · rw [List.mem_singleton.mp hm]
      exact Nat.mul_le_mul_right _ h
  refine Meters.mono (Meters.note _ (hone.more (Nat.zero_le _))) (fun _ hn => hn)
    (fun _ stop requests hend => ?_)
  obtain ⟨rfl,rfl⟩ := hend
  exact ⟨0,Nat.zero_le _,hone,rfl,rfl⟩

end Spending

section Tables

/-- A table is taken from what remains, or an exception says that it is too large. -/
theorem consume_ends {remaining : ℕ} (hr : remaining≤uint64Max) (elements elementSize : ℕ)
    (field : Text) : Ends (consume remaining elements elementSize field) Reported
      (fun rest => elements*elementSize+rest=remaining) := by
  unfold consume throwIf throwing
  by_cases h : elementSize=0 ∨ elements>remaining/elementSize
  · rw [if_pos h]
    exact ⟨_,rfl⟩
  · rw [if_neg h]
    rw [not_or,not_lt] at h
    have hfits : elements*elementSize≤ remaining :=
      (Nat.le_div_iff_mul_le (Nat.pos_of_ne_zero h.1)).mp h.2
    exact (times64_ends (hfits.trans hr)).bind (fun bytes hb => by
      change elements*elementSize+(remaining-bytes)=remaining
      omega)

/-- A vector is asked for and read. -/
theorem watchVector_spends (T : Type) [Unsigned T] {count budget : ℕ} {start : Stream}
    (hl : count*Unsigned.width T≤ start.rest.length) (hb : count*Unsigned.width T≤budget) :
    Spends (watchVector T count) start budget (fun _ stop used =>
      used=count*Unsigned.width T ∧ stop=start.skip (count*Unsigned.width T)) :=
  Spends.table hl hb (readVector_meets T count hl)

/-- A string is asked for and read. -/
theorem watchResized_spends {size budget : ℕ} {start : Stream} (hl : size≤ start.rest.length)
    (hb : size≤budget) :
    Spends (watchResized size) start budget (fun _ stop used => used=size ∧ stop=start.skip size) := by
  refine Spends.table hl hb ?_
  unfold Meets readResized
  have hdemand : demand Fault.unbacked size start=.ok ((),start) := if_pos hl
  have htake : readBytes size start=.ok (start.rest.take size,start.skip size) := if_pos hl
  rw [(run_bind_ok (demand Fault.unbacked size) (fun _ => readBytes size) start (start.skip size)
    (start.rest.take size)).mpr ⟨(),start,hdemand,htake⟩]
  rfl

/-- A codebook is asked for and read. -/
theorem watchFloatVector_spends {count budget : ℕ} {start : Stream}
    (hl : count*4≤ start.rest.length) (hb : count*4≤budget) :
    Spends (watchFloatVector count) start budget
      (fun _ stop used => used=count*4 ∧ stop=start.skip (count*4)) := by
  refine Spends.table hl hb ?_
  have hdemand : Meets (demand Fault.unbacked (count*4)) start Reported (fun _ _ => True) := by
    unfold Meets demand
    rw [if_pos hl]
    trivial
  have hfloat : Yields readFloat Reported (fun _ => True) :=
    (readLe_reported UInt32).bind (fun _ _ => (check_reported _ _).bind
      (fun _ _ => Yields.returned trivial))
  refine reported_meets (hdemand.bind (fun _ state _ => readMany_reported hfloat count state))
    (fun values stop hok => ?_)
  obtain ⟨bytes,⟨rfl,hcount,-⟩,-,rfl⟩ := (readFloatVector_recognises count _ _ _).mp hok
  rw [floatBytes_flatMap_length,hcount]

/-- The base graph stays within what remains of the payload. -/
theorem watchBaseGraph_spends {count edgeCount remaining : ℕ} {start : Stream}
    (hl : remaining≤ start.rest.length) (hr : remaining≤uint64Max) (hc : count+1≤uint64Max) :
    Spends (watchBaseGraph count edgeCount remaining) start remaining (fun value stop used =>
      stop=start.skip used ∧ used+value.2.2=remaining) := by
  refine Spends.quietlyThen (attempt_meets (plus64_ends hc)) (fun entries first h1 => ?_)
  rw [h1.1,h1.2]
  refine Spends.quietlyThen (attempt_meets (consume_ends hr _ _ _)) (fun middle second h2 => ?_)
  obtain ⟨hmiddle,h2⟩ := h2
  rw [h2]
  refine (watchVector_spends UInt64 (by rw [width_uint64]; omega) (by rw [width_uint64]; omega)).bind
    (fun offsets third used _ h3 => ?_)
  rw [h3.1,h3.2,width_uint64]
  refine Spends.quietlyThen (attempt_meets (consume_ends (by omega) _ _ _)) (fun rest fourth h4 => ?_)
  obtain ⟨hrest,h4⟩ := h4
  have hleft : edgeCount*4≤(start.skip ((count+1)*8)).rest.length := by
    rw [Stream.skip_rest,List.length_drop]
    omega
  rw [h4]
  refine (watchVector_spends UInt32 (by rw [width_uint32]; exact hleft)
    (by rw [width_uint32]; omega)).bind (fun edges fifth used _ h5 => ?_)
  rw [h5.1,h5.2,width_uint32]
  refine Spends.quietlyThen (check_meets _ _ _) (fun _ sixth h6 => ?_)
  rw [h6.2]
  refine Spends.quietlyThen (check_meets _ _ _) (fun _ seventh h7 => ?_)
  rw [h7.2]
  refine Spends.quietlyThen (check_meets _ _ _) (fun _ eighth h8 => ?_)
  rw [h8.2]
  refine Spends.returned ⟨?_,?_⟩
  · rw [Stream.skip_skip]
    rfl
  · change (count+1)*8+(edgeCount*4+0)+rest=remaining
    omega

/-- The rows of a layer stay within what was set aside for them. -/
theorem watchLayerRows_spends {count layerNodes layerEdges budget : ℕ} {entryPoint : UInt32}
    {start : Stream} (hn : layerNodes+1≤uint64Max)
    (hl : layerNodes*4+((layerNodes+1)*8+layerEdges*4)≤ start.rest.length)
    (hb : layerNodes*4+((layerNodes+1)*8+layerEdges*4)≤budget) :
    Spends (watchLayerRows count entryPoint layerNodes layerEdges) start budget (fun _ stop used =>
      used=layerNodes*4+((layerNodes+1)*8+layerEdges*4) ∧ stop=start.skip used) := by
  refine (watchVector_spends UInt32 (by rw [width_uint32]; omega) (by rw [width_uint32]; omega)).bind
    (fun nodes first used _ h1 => ?_)
  rw [h1.1,h1.2,width_uint32]
  refine Spends.quietlyThen (attempt_meets (plus64_ends hn)) (fun entries second h2 => ?_)
  rw [h2.1,h2.2]
  have hoffsets : (layerNodes+1)*8+layerEdges*4≤(start.skip (layerNodes*4)).rest.length := by
    rw [Stream.skip_rest,List.length_drop]
    omega
  refine (watchVector_spends UInt64 (by rw [width_uint64]; omega) (by rw [width_uint64]; omega)).bind
    (fun offsets third used _ h3 => ?_)
  rw [h3.1,h3.2,width_uint64]
  have hedges : layerEdges*4≤((start.skip (layerNodes*4)).skip ((layerNodes+1)*8)).rest.length := by
    rw [Stream.skip_rest,List.length_drop]
    omega
  refine (watchVector_spends UInt32 (by rw [width_uint32]; omega) (by rw [width_uint32]; omega)).bind
    (fun edges fourth used _ h4 => ?_)
  rw [h4.1,h4.2,width_uint32]
  refine Spends.quietlyThen (check_meets _ _ _) (fun _ fifth h5 => ?_)
  rw [h5.2]
  refine Spends.quietlyThen (check_meets _ _ _) (fun _ sixth h6 => ?_)
  rw [h6.2]
  refine Spends.quietlyThen (check_meets _ _ _) (fun _ seventh h7 => ?_)
  rw [h7.2]
  refine Spends.quietlyThen (check_meets _ _ _) (fun _ eighth h8 => ?_)
  rw [h8.2]
  refine Spends.returned ⟨?_,?_⟩
  · omega
  · rw [Stream.skip_skip,Stream.skip_skip]
    rfl

/-- The sizes of a layer are checked against what remains of the payload. -/
theorem readLayerHeader_meets {count remaining : ℕ} {start : Stream} (hr : remaining≤uint64Max) :
    Meets (readLayerHeader count remaining) start Reported (fun sizes stop =>
      sizes.1+1≤uint64Max ∧ stop=start.skip 16 ∧
        16+(sizes.1*4+((sizes.1+1)*8+(sizes.2.1*4+sizes.2.2)))=remaining) := by
  have hreported : Meets (readLayerHeader count remaining) start Reported (fun _ _ => True) := by
    refine (attempt_meets (consume_ends hr 2 8 _)).bind (fun first _ h1 => ?_)
    refine (readLe_reported UInt64 _).bind (fun nodes _ _ => ?_)
    refine (readLe_reported UInt64 _).bind (fun edges _ _ => ?_)
    refine (check_meets _ _ _).bind (fun _ _ hc => ?_)
    refine (attempt_meets (checkedSize_ends _ _)).bind (fun layerNodes _ hn => ?_)
    refine (attempt_meets (checkedSize_ends _ _)).bind (fun layerEdges _ _ => ?_)
    refine (attempt_meets (consume_ends (by omega) _ _ _)).bind (fun second _ h2 => ?_)
    have hnodes : layerNodes+1≤uint64Max := by
      have hlt : nodes.toNat<2^64 := nodes.toNat_lt
      have hmax : uint64Max=2^64-1 := rfl
      rw [not_or] at hc
      omega
    refine (attempt_meets (plus64_ends hnodes)).bind (fun entries _ _ => ?_)
    refine (attempt_meets (consume_ends (by omega) _ _ _)).bind (fun third _ h3 => ?_)
    exact (attempt_meets (consume_ends (by omega) _ _ _)).bind (fun _ _ _ => trivial)
  refine reported_meets hreported (fun sizes stop hok => ?_)
  obtain ⟨bytes,⟨rfl,-,hn,-,hs⟩,-,rfl⟩ := (readLayerHeader_recognises hr _ _ _).mp hok
  refine ⟨hn,?_,hs⟩
  rw [List.length_append,encode_length,encode_length,width_uint64]

/-- The upper layers stay within what remains of the payload. -/
theorem watchUpperLayers_spends {count levels remaining : ℕ} {entryPoint : UInt32} {start : Stream}
    (hl : remaining≤ start.rest.length) (hr : remaining≤uint64Max) :
    Spends (watchUpperLayers count entryPoint levels remaining) start remaining
      (fun value stop used => ∃ read,stop=start.skip read ∧ used≤ read ∧ read+value.2=remaining) := by
  induction levels generalizing remaining start with
  | zero => exact Spends.returned ⟨0,rfl,Nat.le_refl 0,Nat.zero_add _⟩
  | succ levels ih =>
    refine Spends.quietlyThen (readLayerHeader_meets hr) (fun sizes first h1 => ?_)
    obtain ⟨layerNodes,layerEdges,rest⟩ := sizes
    obtain ⟨hn,h1,hs⟩ := h1
    dsimp only at hn hs ⊢
    rw [h1]
    have hrows : layerNodes*4+((layerNodes+1)*8+layerEdges*4)≤(start.skip 16).rest.length := by
      rw [Stream.skip_rest,List.length_drop]
      omega
    refine (watchLayerRows_spends hn hrows (by omega)).bind (fun layer second used _ h2 => ?_)
    rw [h2.2,h2.1]
    have hrest : rest≤((start.skip 16).skip
        (layerNodes*4+((layerNodes+1)*8+layerEdges*4))).rest.length := by
      rw [Stream.skip_rest,Stream.skip_rest,List.length_drop,List.length_drop]
      omega
    refine ((ih hrest (by omega)).more (by omega)).bind (fun value third more _ h3 => ?_)
    obtain ⟨read,h3,hmore,hread⟩ := h3
    obtain ⟨layers,final⟩ := value
    dsimp only at hread ⊢
    rw [h3]
    refine Spends.returned ⟨16+(layerNodes*4+((layerNodes+1)*8+layerEdges*4)+read),?_,?_,?_⟩
    · rw [Stream.skip_skip,Stream.skip_skip]
    · omega
    · dsimp only
      omega

/-- The sketches stay within what remains of the payload. -/
theorem watchSketches_spends {parameters : Parameters} {counts : Counts} {remaining : ℕ}
    {start : Stream} (hl : remaining≤ start.rest.length) (hr : remaining≤uint64Max) :
    Spends (watchSketches parameters counts remaining) start remaining (fun _ _ _ => True) := by
  refine Spends.quietlyThen (check_meets _ _ _) (fun _ first h1 => ?_)
  rw [h1.2]
  refine Spends.quietlyThen (check_meets _ _ _) (fun _ second h2 => ?_)
  obtain ⟨hfits,h2⟩ := h2
  rw [h2]
  have hproduct : counts.nodes.toNat*(parameters.sketchBits/8).toNat≤uint64Max :=
    (Nat.mul_le_mul_right _ (not_lt.mp hfits)).trans (Nat.div_mul_le_self _ _)
  refine Spends.quietlyThen (attempt_meets (times64_ends hproduct)) (fun expected third h3 => ?_)
  rw [h3.2]
  refine Spends.quietlyThen (check_meets _ _ _) (fun _ fourth h4 => ?_)
  rw [h4.2]
  refine Spends.quietlyThen (attempt_meets (consume_ends hr _ _ _)) (fun rest fifth h5 => ?_)
  obtain ⟨hrest,h5⟩ := h5
  rw [h5]
  refine (watchVector_spends UInt64 (by rw [width_uint64]; omega) (by rw [width_uint64]; omega)).bind
    (fun _ _ _ _ _ => Spends.returned trivial)

/-- The codebook and the packed codes stay within what remains of the payload. -/
theorem watchQuantized_spends {parameters : Parameters} {counts : Counts} {remaining : ℕ}
    {start : Stream} (hl : remaining≤ start.rest.length) (hr : remaining≤uint64Max) :
    Spends (watchQuantized parameters counts remaining) start remaining (fun _ _ _ => True) := by
  have hmax : uint64Max=2^64-1 := rfl
  have hsmall : ∀ first second : UInt32,first.toNat*second.toNat+7≤uint64Max := by
    intro first second
    have hfirst : first.toNat≤2^32-1 := Nat.le_sub_one_of_lt first.toNat_lt
    have hsecond : second.toNat≤2^32-1 := Nat.le_sub_one_of_lt second.toNat_lt
    have hproduct := Nat.mul_le_mul hfirst hsecond
    omega
  have hrows := hsmall parameters.pqSubquantizers parameters.pqCentroids
  have hbits := hsmall parameters.pqSubquantizers parameters.pqBits
  refine Spends.quietlyThen (check_meets _ _ _) (fun _ first h1 => ?_)
  rw [h1.2]
  refine Spends.quietlyThen (attempt_meets (times64_ends (by omega))) (fun rows second h2 => ?_)
  rw [h2.2]
  refine Spends.quietlyThen (check_meets _ _ _) (fun _ third h3 => ?_)
  obtain ⟨hcodebook,h3⟩ := h3
  rw [h3]
  have hvalues : rows*parameters.pqSubdimension.toNat≤uint64Max :=
    (Nat.mul_le_mul_right _ (not_lt.mp hcodebook)).trans (Nat.div_mul_le_self _ _)
  refine Spends.quietlyThen (attempt_meets (times64_ends hvalues)) (fun expected fourth h4 => ?_)
  rw [h4.2]
  refine Spends.quietlyThen (attempt_meets (times64_ends (by omega))) (fun vectorBits fifth h5 => ?_)
  rw [h5.1,h5.2]
  refine Spends.quietlyThen (attempt_meets (plus64_ends hbits)) (fun paddedBits sixth h6 => ?_)
  rw [h6.2]
  refine Spends.quietlyThen (check_meets _ _ _) (fun _ seventh h7 => ?_)
  obtain ⟨hcodes,h7⟩ := h7
  rw [h7]
  have hbytes : counts.nodes.toNat*(paddedBits/8)≤uint64Max :=
    (Nat.mul_le_mul_right _ (not_lt.mp hcodes)).trans (Nat.div_mul_le_self _ _)
  refine Spends.quietlyThen (attempt_meets (times64_ends hbytes)) (fun expectedBytes eighth h8 => ?_)
  rw [h8.2]
  refine Spends.quietlyThen (check_meets _ _ _) (fun _ ninth h9 => ?_)
  rw [h9.2]
  refine Spends.quietlyThen (attempt_meets (consume_ends hr _ _ _)) (fun middle tenth h10 => ?_)
  obtain ⟨hmiddle,h10⟩ := h10
  rw [h10]
  refine (watchFloatVector_spends (by omega) (by omega)).bind (fun codebook eleventh used _ h11 => ?_)
  rw [h11.1,h11.2]
  refine Spends.quietlyThen (attempt_meets (consume_ends (by omega) _ _ _)) (fun rest twelfth h12 => ?_)
  obtain ⟨hrest,h12⟩ := h12
  rw [h12]
  have hleft : counts.codeBytes.toNat≤(start.skip (counts.codebookValues.toNat*4)).rest.length := by
    rw [Stream.skip_rest,List.length_drop]
    omega
  exact (watchResized_spends hleft (by omega)).bind (fun _ _ _ _ _ => Spends.returned trivial)

/-- The codes stay within what remains of the payload. -/
theorem watchCodes_spends {base : Index} {counts : Counts} {remaining : ℕ} {start : Stream}
    (hl : remaining≤ start.rest.length) (hr : remaining≤uint64Max) :
    Spends (watchCodes base counts remaining) start remaining (fun _ _ _ => True) := by
  unfold watchCodes
  cases base.approximation with
  | simHash =>
    refine (watchSketches_spends hl hr).bind (fun value stop used _ _ => ?_)
    exact Spends.quietlyThen (check_meets _ _ _) (fun _ _ _ => Spends.returned trivial)
  | productQuantization =>
    refine (watchQuantized_spends hl hr).bind (fun value stop used _ _ => ?_)
    exact Spends.quietlyThen (check_meets _ _ _) (fun _ _ _ => Spends.returned trivial)

/-- The tables stay within what remains of the payload. -/
theorem watchTables_spends {path : Text} {pairIdentity : PairIdentity} {parameters : Parameters}
    {counts : Counts} {remaining : ℕ} {start : Stream} (hl : remaining≤ start.rest.length)
    (hr : remaining≤uint64Max) (hc : counts.nodes.toNat+1≤uint64Max)
    (hlevel : parameters.maxLevel.toNat≤64) :
    Spends (watchTables path pairIdentity parameters counts remaining) start remaining
      (fun _ _ _ => True) := by
  refine Spends.quietlyThen (attempt_meets (consume_ends hr _ _ _)) (fun rest first h1 => ?_)
  obtain ⟨hrest,h1⟩ := h1
  rw [h1]
  refine (watchResized_spends (by omega) (by omega)).bind (fun fingerprint second used _ h2 => ?_)
  rw [h2.1,h2.2]
  have hgraph : rest≤(start.skip counts.fingerprintSize.toNat).rest.length := by
    rw [Stream.skip_rest,List.length_drop]
    omega
  refine ((watchBaseGraph_spends hgraph (by omega) hc).more (by omega)).bind
    (fun value third used _ h3 => ?_)
  obtain ⟨offsets,edges,middle⟩ := value
  obtain ⟨h3,hmiddle⟩ := h3
  dsimp only at hmiddle ⊢
  have hlayers : middle≤third.rest.length := by
    rw [h3,Stream.skip_rest,List.length_drop]
    omega
  refine (layers_spends third hlevel).bind (fun _ fourth none _ h4 => ?_)
  rw [h4.1,h4.2]
  refine ((watchUpperLayers_spends hlayers (by omega)).more (by omega)).bind
    (fun value fifth more _ h5 => ?_)
  obtain ⟨layers,last⟩ := value
  obtain ⟨read,h5,hmore,hread⟩ := h5
  dsimp only at hread ⊢
  have hcodes : last≤fifth.rest.length := by
    rw [h5,Stream.skip_rest,List.length_drop]
    omega
  exact ((watchCodes_spends hcodes (by omega)).more (by omega)).mono (fun _ _ _ _ => trivial)

end Tables

section Artifacts

/-- The scalar fields are read or an exception says why not. -/
theorem readParameters_reported : Yields readParameters Reported (fun _ => True) := by
  have hkind : Yields readApproximation Reported (fun _ => True) :=
    (readLe_reported UInt32).bind (fun _ _ => (check_reported _ _).bind
      (fun _ _ => Yields.returned trivial))
  exact (readLe_reported UInt32).bind (fun _ _ => hkind.bind (fun _ _ =>
    (readLe_reported UInt32).bind (fun _ _ => (readLe_reported UInt32).bind (fun _ _ =>
    (readLe_reported UInt32).bind (fun _ _ => (readLe_reported UInt32).bind (fun _ _ =>
    (readLe_reported UInt32).bind (fun _ _ => (readLe_reported UInt32).bind (fun _ _ =>
    (readLe_reported UInt32).bind (fun _ _ => (readLe_reported UInt32).bind (fun _ _ =>
    (readLe_reported UInt64).bind (fun _ _ => Yields.returned trivial)))))))))))

/-- The declared sizes are read or an exception says why not. -/
theorem readCounts_reported : Yields readCounts Reported (fun _ => True) :=
  (readLe_reported UInt64).bind (fun _ _ => (readLe_reported UInt64).bind (fun _ _ =>
  (readLe_reported UInt64).bind (fun _ _ => (readLe_reported UInt64).bind (fun _ _ =>
  (readLe_reported UInt32).bind (fun _ _ => Yields.returned trivial)))))

/-- The fields in front of the sizes leave the file as it is. -/
theorem readLe_meets (T : Type) [Unsigned T] (start : Stream) : Meets (readLe T) start Reported
    (fun _ stop => stop.contents=start.contents) := by
  refine reported_meets (readLe_reported T start) (fun value stop hok => ?_)
  obtain ⟨_,-,-,rfl⟩ := (readLe_recognises T _ _ _).mp hok
  rfl

/-- So do the scalar fields. -/
theorem readParameters_meets (start : Stream) : Meets readParameters start Reported
    (fun _ stop => stop.contents=start.contents) := by
  refine reported_meets (readParameters_reported start) (fun value stop hok => ?_)
  obtain ⟨_,-,-,rfl⟩ := (readParameters_recognises _ _ _).mp hok
  rfl

/-- So do the sizes. -/
theorem readCounts_meets (start : Stream) : Meets readCounts start Reported
    (fun _ stop => stop.contents=start.contents) := by
  refine reported_meets (readCounts_reported start) (fun value stop hok => ?_)
  obtain ⟨_,-,-,rfl⟩ := (readCounts_recognises _ _ _).mp hok
  rfl

/-- Whatever the sizes are, the tables stay within the file. -/
theorem watchBody_spends {path : Text} {checksummedSize : ℕ} {start : Stream}
    (hsize : checksummedSize≤ start.contents.length) (hmax : checksummedSize≤uint64Max) :
    Spends (watchBody path checksummedSize) start start.contents.length (fun _ _ _ => True) := by
  refine Spends.quietlyThen (readLe_meets UInt32 _) (fun metric first h1 => ?_)
  refine Spends.quietlyThen (check_meets _ _ _) (fun _ second h2 => ?_)
  refine Spends.quietlyThen (readArray_meets 32 _) (fun identity third h3 => ?_)
  refine Spends.quietlyThen (check_meets _ _ _) (fun _ fourth h4 => ?_)
  refine Spends.quietlyThen (readParameters_meets _) (fun parameters fifth h5 => ?_)
  refine Spends.quietlyThen (readCounts_meets _) (fun counts sixth h6 => ?_)
  have hcontents : sixth.contents=start.contents := by
    rw [h6,h5,h4.2,h3,h2.2,h1]
  refine Spends.quietlyThen (check_meets _ _ _) (fun _ seventh h7 => ?_)
  obtain ⟨hheader,h7⟩ := h7
  rw [h7]
  refine Spends.quietlyThen (tell_meets _) (fun position eighth h8 => ?_)
  rw [h8.2]
  refine Spends.quietlyThen (check_meets _ _ _) (fun _ ninth h9 => ?_)
  obtain ⟨hposition,h9⟩ := h9
  rw [h9]
  refine Spends.quietlyThen (check_meets _ _ _) (fun _ tenth h10 => ?_)
  obtain ⟨hnodes,h10⟩ := h10
  rw [h10]
  refine Spends.quietlyThen (attempt_meets (checkedSize_ends _ _)) (fun _ stream11 h11 => ?_)
  rw [h11.2]
  refine Spends.quietlyThen (attempt_meets (checkedSize_ends _ _)) (fun _ stream12 h12 => ?_)
  rw [h12.2]
  refine Spends.quietlyThen (attempt_meets (checkedSize_ends _ _)) (fun _ stream13 h13 => ?_)
  rw [h13.2]
  refine Spends.quietlyThen (attempt_meets (checkedSize_ends _ _)) (fun _ stream14 h14 => ?_)
  rw [h14.2]
  refine Spends.quietlyThen (attempt_meets (checkedSize_ends _ _)) (fun _ stream15 h15 => ?_)
  rw [h15.2]
  have hcount : counts.nodes.toNat+1≤uint64Max := by
    have hlt : counts.nodes.toNat<2^64 := counts.nodes.toNat_lt
    have hmax : uint64Max=2^64-1 := rfl
    omega
  have hlevel : parameters.maxLevel.toNat≤64 := by
    by_contra hlarge
    refine hheader (Or.inr (Or.inr (Or.inr ?_)))
    have h64 : (64 : UInt32).toNat=64 := rfl
    rw [gt_iff_lt,UInt32.lt_iff_toNat_lt,h64]
    omega
  have hleft : checksummedSize-position≤ sixth.rest.length := by
    rw [h8.1,Stream.rest,List.length_drop,hcontents]
    omega
  exact (watchTables_spends hleft (by omega) hcount hlevel).more (by omega)

/-- The footer ends early with an exception, or its payload is the file without it. -/
theorem verifySha256Footer_meets (artifactName : Text) (start : Stream) :
    Meets (verifySha256Footer artifactName) start Reported (fun size stop =>
      stop.contents=start.contents ∧ size+32=start.contents.length ∧ size≤uint64Max) := by
  have hreported : Meets (verifySha256Footer artifactName) start Reported (fun _ _ => True) := by
    refine (streamSize_meets _ _).bind (fun _ first _ => ?_)
    refine (check_meets _ _ first).bind (fun _ second _ => ?_)
    refine (check_meets _ _ second).bind (fun _ third _ => ?_)
    refine (seek_meets _ third).bind (fun _ fourth _ => ?_)
    refine (take_reported _ 32 fourth).bind (fun _ fifth _ => ?_)
    refine (sha256StreamPrefix_reported _ _ fifth).bind (fun _ sixth _ => ?_)
    refine (check_meets _ _ sixth).bind (fun _ seventh _ => ?_)
    exact (seek_meets _ seventh).bind (fun _ _ _ => trivial)
  refine reported_meets hreported (fun size stop hok => ?_)
  obtain ⟨payload,hc,hl,rfl,rfl⟩ := (verifySha256Footer_ok _ _ _ _).mp hok
  refine ⟨rfl,?_,by unfold uint64Max at hl ⊢; omega⟩
  rw [hc,List.length_append,Vector.length_toList]

/-- Whatever an index file holds, its tables stay within the file. -/
theorem watchLoad_spends (path : Text) (file : List UInt8) :
    Spends (watchLoad path) ⟨file,0⟩ file.length (fun _ _ _ => True) := by
  have hmagic : Meets (readBytes indexMagic.length) ⟨file,0⟩ Reported
      (fun _ stop => stop.contents=file) := by
    refine reported_meets (take_reported _ _ _) (fun value stop hok => ?_)
    obtain ⟨_,-,-,rfl⟩ := (readBytes_recognises _ _ _ _).mp hok
    rfl
  refine Spends.quietlyThen hmagic (fun magic first h1 => ?_)
  refine Spends.quietlyThen (check_meets _ _ _) (fun _ second h2 => ?_)
  refine Spends.quietlyThen (readLe_meets UInt32 _) (fun version third h3 => ?_)
  refine Spends.quietlyThen (check_meets _ _ _) (fun _ fourth h4 => ?_)
  refine Spends.quietlyThen (verifySha256Footer_meets "index" _) (fun size fifth h5 => ?_)
  refine Spends.quietlyThen (seek_meets _ _) (fun _ sixth h6 => ?_)
  obtain ⟨h5,hsize,hmax⟩ := h5
  have hfourth : fourth.contents=file := by rw [h4.2,h3,h2.2,h1]
  have hcontents : sixth.contents=file := by rw [h6,h5,hfourth]
  rw [hfourth] at hsize
  have hspends := @watchBody_spends path size sixth
    (by rw [hcontents]; omega) hmax
  rwa [hcontents] at hspends

/-- The table of a document store stays within what is left of the file. -/
theorem watchTable_spends {count budget : ℕ} {start : Stream} (hcount : count+1≤uint64Max)
    (hl : (count+1)*8+count*4≤ start.rest.length) (hb : (count+1)*8+count*4≤budget) :
    Spends (watchTable count) start budget (fun _ _ _ => True) := by
  refine Spends.quietlyThen (attempt_meets (plus64_ends hcount)) (fun entries first h1 => ?_)
  rw [h1.1,h1.2]
  refine (watchVector_spends UInt64 (by rw [width_uint64]; omega) (by rw [width_uint64]; omega)).bind
    (fun offsets second used _ h2 => ?_)
  rw [h2.1,h2.2,width_uint64]
  have hchecksums : count*4≤(start.skip ((count+1)*8)).rest.length := by
    rw [Stream.skip_rest,List.length_drop]
    omega
  exact (watchVector_spends UInt32 (by rw [width_uint32]; exact hchecksums)
    (by rw [width_uint32]; omega)).bind (fun _ _ _ _ _ => Spends.returned trivial)

/-- Whatever a document store holds, its table stays within the file. -/
theorem watchOpen_spends (path : Text) (file : List UInt8) :
    Spends (watchOpen path) ⟨file,0⟩ file.length (fun _ _ _ => True) := by
  have hmax : uint64Max=2^64-1 := rfl
  refine Spends.quietlyThen (streamSize_meets "document store" ⟨file,0⟩) (fun fileSize stream hs => ?_)
  obtain ⟨hsize,rfl,haddressed⟩ := hs
  change fileSize=file.length at hsize
  unfold streamoffMax at haddressed
  refine Spends.quietlyThen (readHeader_meets path file) (fun header stream hs => ?_)
  rw [hs]
  refine Spends.quietlyThen (tell_meets ⟨file,52⟩) (fun headerSize stream hs => ?_)
  obtain ⟨rfl,rfl⟩ := hs
  refine Spends.quietlyThen (readArray_meets 32 _) (fun _ first h1 => ?_)
  refine Spends.quietlyThen (sha256StreamPrefix_meets _ _ first) (fun _ second h2 => ?_)
  refine Spends.quietlyThen (check_meets _ _ second) (fun _ third h3 => ?_)
  have hstart : 52+32≤uint64Max := by decide
  refine Spends.quietlyThen (attempt_meets (plus64_ends hstart)) (fun tablePosition fourth h4 => ?_)
  refine Spends.quietlyThen (seek_meets tablePosition fourth) (fun _ fifth h5 => ?_)
  refine Spends.quietlyThen (check_meets _ _ fifth) (fun _ sixth h6 => ?_)
  obtain ⟨hplaced,h6⟩ := h6
  rw [not_or,not_or] at hplaced
  refine Spends.quietlyThen (attempt_meets (times64_ends (by omega))) (fun entryBytes seventh h7 => ?_)
  refine Spends.quietlyThen (attempt_meets (plus64_ends (by omega))) (fun tableBytes eighth h8 => ?_)
  refine Spends.quietlyThen (check_meets _ _ eighth) (fun _ ninth h9 => ?_)
  refine Spends.quietlyThen (attempt_meets (plus64_ends (by omega))) (fun metadataSize tenth h10 => ?_)
  refine Spends.quietlyThen (check_meets _ _ tenth) (fun _ eleventh h11 => ?_)
  refine Spends.quietlyThen (seek_meets metadataSize eleventh) (fun _ twelfth h12 => ?_)
  refine Spends.quietlyThen (readArray_meets 32 twelfth) (fun _ stream13 h13 => ?_)
  refine Spends.quietlyThen (sha256StreamPrefix_meets _ _ stream13) (fun _ stream14 h14 => ?_)
  refine Spends.quietlyThen (check_meets _ _ stream14) (fun _ stream15 h15 => ?_)
  refine Spends.quietlyThen (attempt_meets (checkedSize_ends _ _)) (fun count stream16 h16 => ?_)
  refine Spends.quietlyThen (seek_meets tablePosition stream16) (fun _ stream17 h17 => ?_)
  have hcontents : stream17=⟨file,tablePosition⟩ := by
    rw [h17,h16.2,h15.2,h14,h13,h12,h11.2,h10.2,h9.2,h8.2,h7.2,h6,h5,h4.2,h3.2,h2,h1]
  have hrest : stream17.rest.length=file.length-tablePosition := by
    rw [hcontents]
    exact List.length_drop
  refine (watchTable_spends (by omega) (by omega) (by omega)).bind (fun tables stream18 used _ _ => ?_)
  refine Spends.quietlyThen (check_meets _ _ stream18) (fun _ stream19 _ => ?_)
  refine Spends.quietlyThen (check_meets _ _ stream19) (fun _ stream20 _ => ?_)
  refine Spends.quietlyThen (attempt_meets (plus64_ends (by omega))) (fun dataOffset stream21 _ => ?_)
  refine Spends.quietlyThen (check_meets _ _ stream21) (fun _ stream22 _ => ?_)
  refine (@Spends.quietly _ _ _ _ (fun _ _ => True) ?_).mono (fun _ _ _ _ => trivial)
  trivial

/-- A successful load ends behind the payload. -/
theorem loadReader_stop {path : Text} {file : List UInt8} {index : Index} {stop : Stream}
    (h : loadReader path ⟨file,0⟩=.ok (index,stop)) : stop=⟨file,file.length-32⟩ := by
  simp only [loadReader,readBody,run_bind_ok,readBytes_recognises _ _ _ _,readLe_recognises _ _ _ _,
    readArray_recognises 32 _ _ _,verifySha256Footer_ok,readParameters_recognises _ _ _,
    readCounts_recognises _ _ _,run_tell_ok,run_attempt_ok,run_seek_ok,check,run_failIf_ok,
    checkedSize_ok,exists_and_left,exists_eq_left,exists_const,and_assoc,ne_eq,not_not,
    Stream.skip,Stream.rest,List.drop_zero,Nat.zero_add,Nat.reduceAdd,encode_length,width_uint32,
    Vector.length_toList,parameterBytes_length,countBytes_length,indexMagic_length,and_true] at h
  obtain ⟨magic,_,⟨_,rfl,-,hmagic,rfl⟩,rfl,_,hversion,rfl,size,_,⟨payload,hfile,hs,rfl,rfl⟩,_,hmetric,
    rfl,identity,hidentity,hzero,parameters,hparameters,counts,hcounts,hheader,hsize,hmax,hnodes,-,-,
    -,-,htables⟩ := h
  have hbound : payload.length-132≤uint64Max := by
    unfold uint64Max at hs ⊢
    omega
  obtain ⟨bytes,⟨rfl,hlen,-⟩,-,rfl⟩ :=
    (readTables_recognises path identity parameters hbound (by omega) _ _ _).mp htables
  have hlength : file.length=payload.length+32 := by
    have hcontents := congrArg List.length hfile
    rwa [List.length_append,Vector.length_toList] at hcontents
  refine congrArg (Stream.mk file) ?_
  change 132+(tableBytes index).length=file.length-32
  omega

end Artifacts

section Hostile

/-- An index that cannot be loaded is reported by an exception. -/
theorem load_reported (path : Text) (file : List UInt8) :
    Ends (load path file) Reported (fun _ => True) :=
  Ends.bind ((watchLoad_spends path file).meets (watchLoad_erases path)) (fun _ _ => trivial)

/-- A store that cannot be opened is reported by an exception. -/
theorem openStore_reported (path : Text) (file : List UInt8) :
    Ends (openStore path file) Reported (fun _ => True) :=
  Ends.bind ((watchOpen_spends path file).meets (watchOpen_erases path)) (fun _ _ => trivial)

/-- **Hostile artifacts are read within their size.** Whatever bytes the files
hold, the watched readers are the readers of both artifacts, their sums and
products do not wrap, and they fail with exceptions only. Each table is checked
against what is left of the file before its storage is asked for, and all
tables together are no larger than the file; the records of the upper layers
are at most 64. A successful load ends behind the payload whose digest is the
footer, and every field is encoded in that payload. -/
theorem artifacts_affordable (path : Text) (file : List UInt8) :
    ((watchLoad path ⟨file,0⟩).1=loadReader path ⟨file,0⟩ ∧
      Ends (load path file) Reported (fun _ => True) ∧
      Affordable file.length (watchLoad path ⟨file,0⟩).2 ∧
      ∀ index stop,loadReader path ⟨file,0⟩=.ok (index,stop) → ∃ payload,
        file=payload++(digest payload).toList ∧ payload=indexBytes index index.size ∧
          stop=⟨file,payload.length⟩) ∧
    ((watchOpen path ⟨file,0⟩).1=openReader path ⟨file,0⟩ ∧
      Ends (openStore path file) Reported (fun _ => True) ∧
      Affordable file.length (watchOpen path ⟨file,0⟩).2 ∧
      ∀ store,openStore path file=.ok store →
        ∃ image : StoreImage,image.bytes=file ∧ store=image.store) := by
  refine ⟨⟨watchLoad_erases path _,load_reported path file,(watchLoad_spends path file).1,
    fun index stop hok => ?_⟩,watchOpen_erases path _,openStore_reported path file,
    (watchOpen_spends path file).1,fun store hok => (openStore_ok path file store).mp hok⟩
  have hloaded : load path file=.ok index := by
    rw [load,hok]
    rfl
  obtain ⟨-,-,-,hfile⟩ := (load_ok path file index).mp hloaded
  refine ⟨_,hfile,rfl,?_⟩
  rw [loadReader_stop hok]
  have hlength := congrArg List.length hfile
  rw [sealBytes_length] at hlength
  refine congrArg (Stream.mk file) ?_
  omega

/-- The header of an index of one node that declares 64 upper layers. -/
def tallHeader : Parameters where
  dimension := 1
  approximation := .simHash
  maxDegree := 0
  entryPoint := 0
  maxLevel := 64
  sketchBits := 64
  pqSubquantizers := 0
  pqBits := 0
  pqCentroids := 0
  pqSubdimension := 0
  sketchSeed := 0

/-- An index file that ends behind the offsets of its base graph. -/
def tallFile : List UInt8 :=
  sealBytes (indexMagic++(encode indexVersion++(encode cosineMetric++
    (List.replicate 32 1++(parameterBytes tallHeader++(countBytes ⟨1,0,0,0,0⟩++
      [(0 : UInt64),0].flatMap encode))))))

/-- The records of its upper layers are asked for unchecked: they take more
bytes than are left of the file, and than the file has. -/
theorem layers_unchecked : ∃ request∈(watchLoad "tall.leann" ⟨tallFile,0⟩).2,
    request.left< request.bytes ∧ tallFile.length< request.bytes := by
  decide +kernel

end Hostile

end Leann.HostileArtifacts
