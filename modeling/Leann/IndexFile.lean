import Leann.BinaryFloat
import Leann.Documents

/-!
# The index file

`Index::load` and the serialisation at the end of `Index::build`. Loading
succeeds exactly on sealed serialisations of indexes that satisfy the
structural conditions, so the file format is a bijection between those
indexes and the accepted files.
-/

namespace Leann.IndexFile

open ByteStream Exceptions Format Checksum Documents BinaryFloat

/-- `index_magic`. -/
def indexMagic : List UInt8 := text "LEANNC03"

/-- `index_version`. -/
def indexVersion : UInt32 := 3

/-- `cosine_metric`. -/
def cosineMetric : UInt32 := 1

/-- The two codes for approximate distances. -/
inductive ApproximationKind where
  /-- Signs of random projections. -/
  | simHash
  /-- Centroids of subspaces. -/
  | productQuantization
  deriving DecidableEq

/-- The number of the enumerator. -/
def ApproximationKind.code : ApproximationKind → UInt32
  | .simHash => 1
  | .productQuantization => 2

/-- One layer above the base graph, in compressed rows. -/
structure UpperLayer where
  /-- The nodes of the layer, in increasing order. -/
  nodes : List UInt32
  /-- Where the edges of each node begin, and where the last ones end. -/
  offsets : List UInt64
  /-- The targets of all edges. -/
  edges : List UInt32
  deriving DecidableEq

/-- The scalar fields of an index, in the order of the file. -/
structure Parameters where
  /-- Coordinates of an embedding. -/
  dimension : UInt32
  /-- Which codes the index holds. -/
  approximation : ApproximationKind
  /-- Bound on the edges of a node. -/
  maxDegree : UInt32
  /-- Where routing starts. -/
  entryPoint : UInt32
  /-- Number of upper layers. -/
  maxLevel : UInt32
  /-- Bits of a sketch. -/
  sketchBits : UInt32
  /-- Number of subspaces. -/
  pqSubquantizers : UInt32
  /-- Bits of a centroid number. -/
  pqBits : UInt32
  /-- Centroids of each subspace. -/
  pqCentroids : UInt32
  /-- Coordinates of a subspace. -/
  pqSubdimension : UInt32
  /-- Seed of the random projections. -/
  sketchSeed : UInt64
  deriving DecidableEq

/-- `leann::Index`. -/
structure Index extends Parameters where
  /-- The file it was loaded from. -/
  path : Text
  /-- Identity shared with the document store. -/
  pairIdentity : PairIdentity
  /-- Which embedder the vectors came from. -/
  embedderFingerprint : Text
  /-- Where the edges of each node begin, and where the last ones end. -/
  offsets : List UInt64
  /-- The targets of all edges of the base graph. -/
  edges : List UInt32
  /-- The layers above the base graph, lowest first. -/
  upperLayers : List UpperLayer
  /-- Sketches of all nodes, one behind the other. -/
  sketches : List UInt64
  /-- Centroids of all subspaces, one behind the other. -/
  pqCodebook : List Single
  /-- Packed centroid numbers of all nodes, one behind the other. -/
  pqCodes : List UInt8
  deriving DecidableEq

/-- `Index::size`. -/
def Index.size (index : Index) : ℕ := if index.offsets.isEmpty then 0 else index.offsets.length-1

/-- `std::bit_cast<std::uint32_t>`. -/
def bitCast (value : Single) : UInt32 := UInt32.ofNat value.toBits

/-- `std::bit_cast<float>`. -/
def ofBitCast (bits : UInt32) : Single := Binary.ofBits bits.toNat

section Save

/-- The scalar fields. -/
def writeParameters (parameters : Parameters) : Output Unit := do
  writeLe parameters.dimension
  writeLe parameters.approximation.code
  writeLe parameters.maxDegree
  writeLe parameters.entryPoint
  writeLe parameters.maxLevel
  writeLe parameters.sketchBits
  writeLe parameters.pqSubquantizers
  writeLe parameters.pqBits
  writeLe parameters.pqCentroids
  writeLe parameters.pqSubdimension
  writeLe parameters.sketchSeed

/-- The code bytes as the header counts them. -/
def Index.codeBytes (index : Index) : Except Fault ℕ :=
  if index.approximation=.simHash then times64 index.sketches.length 8 else .ok index.pqCodes.length

/-- The sizes of the tables. -/
def writeCounts (index : Index) (count : ℕ) : Output Unit := do
  writeLe (UInt64.ofNat count)
  writeLe (UInt64.ofNat index.edges.length)
  writeLe (UInt64.ofNat index.pqCodebook.length)
  let bytes ← StateT.lift index.codeBytes
  writeLe (UInt64.ofNat bytes)
  writeLe (UInt32.ofNat index.embedderFingerprint.length)

/-- One upper layer. -/
def writeUpperLayer (layer : UpperLayer) : Output Unit := do
  writeLe (UInt64.ofNat layer.nodes.length)
  writeLe (UInt64.ofNat layer.edges.length)
  writeVector layer.nodes
  writeVector layer.offsets
  writeVector layer.edges

/-- The upper layers, lowest first. -/
def writeUpperLayers : List UpperLayer → Output Unit
  | [] => pure ()
  | layer::layers => do
    writeUpperLayer layer
    writeUpperLayers layers

/-- `write_float_vector`. -/
def writeFloatVector (values : List Single) : Output Unit := writeVector (values.map bitCast)

/-- The sketches, or the codebook and the packed codes. -/
def writeCodes (index : Index) : Output Unit :=
  if index.approximation=.simHash then writeVector index.sketches
  else do
    writeFloatVector index.pqCodebook
    writeBytes index.pqCodes

/-- The fields of an index over so many documents, in the order of `Index::build`. -/
def writeIndex (index : Index) (count : ℕ) : Output Unit := do
  writeBytes indexMagic
  writeLe indexVersion
  writeLe cosineMetric
  writeBytes index.pairIdentity.toList
  writeParameters index.toParameters
  writeCounts index count
  writeBytes index.embedderFingerprint
  writeVector index.offsets
  writeVector index.edges
  writeUpperLayers index.upperLayers
  writeCodes index

/-- The check in front of the serialisation in `Index::build`. -/
def checkFingerprint (fingerprint : Text) : Except Fault Unit :=
  throwIf (fingerprint.length>2^32-1) (runtimeError "embedder fingerprint is too long")

/-- A new index file: the fields followed by their digest. -/
def saveIndex (index : Index) (count : ℕ) : Except Fault (List UInt8) := do
  checkFingerprint index.embedderFingerprint
  let (_,file) ← (do
    writeIndex index count
    appendSha256Footer index.path : Output Unit) []
  return file

end Save

section Load

/-- The enumerator of a number. -/
def readApproximation : Reader Fault ApproximationKind := do
  let approximation ← readLe UInt32
  check (approximation≠ApproximationKind.simHash.code ∧
    approximation≠ApproximationKind.productQuantization.code)
    (runtimeError "unsupported approximation kind")
  return if approximation=ApproximationKind.simHash.code then .simHash else .productQuantization

/-- The scalar fields. -/
def readParameters : Reader Fault Parameters := do
  let dimension ← readLe UInt32
  let approximation ← readApproximation
  let maxDegree ← readLe UInt32
  let entryPoint ← readLe UInt32
  let maxLevel ← readLe UInt32
  let sketchBits ← readLe UInt32
  let pqSubquantizers ← readLe UInt32
  let pqBits ← readLe UInt32
  let pqCentroids ← readLe UInt32
  let pqSubdimension ← readLe UInt32
  let sketchSeed ← readLe UInt64
  return ⟨dimension,approximation,maxDegree,entryPoint,maxLevel,sketchBits,pqSubquantizers,pqBits,
    pqCentroids,pqSubdimension,sketchSeed⟩

/-- The sizes of the tables as declared in the header. -/
structure Counts where
  /-- Number of nodes. -/
  nodes : UInt64
  /-- Number of edges of the base graph. -/
  edges : UInt64
  /-- Number of coordinates of all centroids. -/
  codebookValues : UInt64
  /-- Bytes of the sketches or packed codes. -/
  codeBytes : UInt64
  /-- Bytes of the fingerprint. -/
  fingerprintSize : UInt32

/-- The sizes of the tables. -/
def readCounts : Reader Fault Counts := do
  let nodes ← readLe UInt64
  let edges ← readLe UInt64
  let codebookValues ← readLe UInt64
  let codeBytes ← readLe UInt64
  let fingerprintSize ← readLe UInt32
  return ⟨nodes,edges,codebookValues,codeBytes,fingerprintSize⟩

/-- What is left of the payload after a declared table. -/
def consume (remaining elements elementSize : ℕ) (field : Text) : Except Fault ℕ := do
  throwIf (elementSize=0 ∨ elements>remaining/elementSize)
    (runtimeError (field++" exceeds index file size"))
  let bytes ← times64 elements elementSize
  return remaining-bytes

/-- The conditions on compressed rows whose first and last entries are
already known to be right. -/
def Rising (offsets : List UInt64) (edges : ℕ) : Prop :=
  offsets.IsChain (·≤·) ∧ ∀ offset∈offsets.tail,offset.toNat≤edges

instance (offsets : List UInt64) (edges : ℕ) : Decidable (Rising offsets edges) :=
  inferInstanceAs (Decidable (_∧_))

/-- The first row begins at the first edge and the last one ends at the last. -/
def Spanning (offsets : List UInt64) (edges : ℕ) : Prop :=
  offsets.head?=some 0 ∧ (offsets.getLastD 0).toNat=edges

instance (offsets : List UInt64) (edges : ℕ) : Decidable (Spanning offsets edges) :=
  inferInstanceAs (Decidable (_∧_))

/-- The base graph. The result holds the offsets, the edges and what is left
of the payload. -/
def readBaseGraph (count edgeCount remaining : ℕ) :
    Reader Fault (List UInt64×List UInt32×ℕ) := do
  let entries ← attempt (plus64 count 1)
  let remaining ← attempt (consume remaining entries 8 "CSR offsets")
  let offsets ← readVector UInt64 entries
  let remaining ← attempt (consume remaining edgeCount 4 "CSR edges")
  let edges ← readVector UInt32 edgeCount
  check (¬Spanning offsets edges.length) (runtimeError "invalid CSR offsets")
  check (¬Rising offsets edges.length) (runtimeError "invalid CSR offsets")
  check (¬∀ id∈edges,id.toNat<count) (runtimeError "CSR contains an invalid node id")
  return (offsets,edges,remaining)

/-- `std::binary_search` on a sorted vector. -/
def binarySearch (nodes : List UInt32) (id : UInt32) : Bool := decide (id∈nodes)

/-- The declared sizes of a layer, of which room has been set aside for. -/
def readLayerHeader (count remaining : ℕ) : Reader Fault (ℕ×ℕ×ℕ) := do
  let remaining ← attempt (consume remaining 2 8 "upper-layer header")
  let layerNodesOnDisk ← readLe UInt64
  let layerEdgesOnDisk ← readLe UInt64
  check (layerNodesOnDisk.toNat>count ∨ layerNodesOnDisk.toNat=uint64Max)
    (runtimeError "invalid upper-layer node count")
  let layerNodes ← attempt (checkedSize layerNodesOnDisk.toNat "upper-layer nodes")
  let layerEdges ← attempt (checkedSize layerEdgesOnDisk.toNat "upper-layer edges")
  let remaining ← attempt (consume remaining layerNodes 4 "upper-layer nodes")
  let entries ← attempt (plus64 layerNodes 1)
  let remaining ← attempt (consume remaining entries 8 "upper-layer offsets")
  let remaining ← attempt (consume remaining layerEdges 4 "upper-layer edges")
  return (layerNodes,layerEdges,remaining)

/-- The rows of a layer of declared sizes. -/
def readLayerRows (count : ℕ) (entryPoint : UInt32) (layerNodes layerEdges : ℕ) :
    Reader Fault UpperLayer := do
  let nodes ← readVector UInt32 layerNodes
  let entries ← attempt (plus64 layerNodes 1)
  let offsets ← readVector UInt64 entries
  let edges ← readVector UInt32 layerEdges
  check (¬nodes.IsChain (·≤·) ∨ ¬nodes.IsChain (·≠·) ∨ ¬(∀ id∈nodes,id.toNat<count) ∨
    offsets.isEmpty ∨ ¬Spanning offsets edges.length)
    (runtimeError "invalid upper-layer CSR data")
  check (¬Rising offsets edges.length) (runtimeError "invalid upper-layer offsets")
  check (¬∀ id∈edges,id.toNat<count ∧ binarySearch nodes id)
    (runtimeError "invalid upper-layer edge")
  check (¬binarySearch nodes entryPoint)
    (runtimeError "upper layer does not contain the HNSW entry point")
  return ⟨nodes,offsets,edges⟩

/-- The upper layers, lowest first, with what is left of the payload. -/
def readUpperLayers (count : ℕ) (entryPoint : UInt32) (levels remaining : ℕ) :
    Reader Fault (List UpperLayer×ℕ) :=
  match levels with
  | 0 => return ([],remaining)
  | levels+1 => do
    let (layerNodes,layerEdges,remaining) ← readLayerHeader count remaining
    let layer ← readLayerRows count entryPoint layerNodes layerEdges
    let (layers,remaining) ← readUpperLayers count entryPoint levels remaining
    return (layer::layers,remaining)

/-- One value of `read_float_vector`. -/
def readFloat : Reader Fault Single := do
  let bits ← readLe UInt32
  let value := ofBitCast bits
  check (¬value.Finite ∨ (1 : Single)<value.abs)
    (runtimeError "PQ codebook contains a non-finite or out-of-range value")
  return value

/-- `read_float_vector`. -/
def readFloatVector (count : ℕ) : Reader Fault (List Single) := do
  demand Fault.unbacked (count*4)
  readMany readFloat count

/-- The sketches of an index with so many nodes. -/
def readSketches (parameters : Parameters) (counts : Counts) (remaining : ℕ) :
    Reader Fault (List UInt64×ℕ) := do
  check (parameters.sketchBits<64 ∨ parameters.sketchBits%64≠0 ∨ parameters.pqSubquantizers≠0 ∨
    parameters.pqBits≠0 ∨ parameters.pqCentroids≠0 ∨ parameters.pqSubdimension≠0 ∨
    counts.codebookValues≠0) (runtimeError "invalid SimHash metadata")
  check (counts.nodes.toNat>uint64Max/(parameters.sketchBits/8).toNat)
    (runtimeError "SimHash table is too large")
  let expectedBytes ← attempt (times64 counts.nodes.toNat (parameters.sketchBits/8).toNat)
  check (counts.codeBytes.toNat≠expectedBytes) (runtimeError "invalid SimHash table size")
  let remaining ← attempt (consume remaining counts.codeBytes.toNat 1 "SimHash table")
  let sketches ← readVector UInt64 (counts.codeBytes.toNat/8)
  return (sketches,remaining)

/-- The codebook and the packed codes of an index with so many nodes. -/
def readQuantized (parameters : Parameters) (counts : Counts) (remaining : ℕ) :
    Reader Fault (List Single×List UInt8×ℕ) := do
  check (parameters.sketchBits≠0 ∨ parameters.pqSubquantizers=0 ∨ parameters.pqBits=0 ∨
    parameters.pqBits>8 ∨ parameters.pqCentroids=0 ∨
    parameters.pqCentroids.toNat>2^parameters.pqBits.toNat ∨ parameters.pqSubdimension=0 ∨
    parameters.pqSubquantizers.toNat*parameters.pqSubdimension.toNat≠parameters.dimension.toNat)
    (runtimeError "invalid PQ metadata")
  let codebookRows ← attempt (times64 parameters.pqSubquantizers.toNat parameters.pqCentroids.toNat)
  check (codebookRows>uint64Max/parameters.pqSubdimension.toNat)
    (runtimeError "PQ codebook is too large")
  let expectedCodebook ← attempt (times64 codebookRows parameters.pqSubdimension.toNat)
  let vectorBits ← attempt (times64 parameters.pqSubquantizers.toNat parameters.pqBits.toNat)
  let paddedBits ← attempt (plus64 vectorBits 7)
  check (counts.nodes.toNat>uint64Max/(paddedBits/8)) (runtimeError "PQ code table is too large")
  let expectedBytes ← attempt (times64 counts.nodes.toNat (paddedBits/8))
  check (counts.codebookValues.toNat≠expectedCodebook ∨ counts.codeBytes.toNat≠expectedBytes)
    (runtimeError "invalid PQ table size")
  let remaining ← attempt (consume remaining counts.codebookValues.toNat 4 "PQ codebook")
  let codebook ← readFloatVector counts.codebookValues.toNat
  let remaining ← attempt (consume remaining counts.codeBytes.toNat 1 "PQ codes")
  let codes ← readResized counts.codeBytes.toNat
  return (codebook,codes,remaining)

/-- The codes of an index that has everything else. -/
def readCodes (base : Index) (counts : Counts) (remaining : ℕ) : Reader Fault Index :=
  match base.approximation with
  | .simHash => do
    let (sketches,remaining) ← readSketches base.toParameters counts remaining
    check (remaining≠0) (runtimeError "index has unexpected trailing bytes")
    return {base with sketches := sketches}
  | .productQuantization => do
    let (codebook,codes,remaining) ← readQuantized base.toParameters counts remaining
    check (remaining≠0) (runtimeError "index has unexpected trailing bytes")
    return {base with pqCodebook := codebook,pqCodes := codes}

/-- The tables behind the header of an index, of which so many bytes remain. -/
def readTables (path : Text) (pairIdentity : PairIdentity) (parameters : Parameters)
    (counts : Counts) (remaining : ℕ) : Reader Fault Index := do
  let remaining ← attempt (consume remaining counts.fingerprintSize.toNat 1 "embedder fingerprint")
  let fingerprint ← readResized counts.fingerprintSize.toNat
  let (offsets,edges,remaining) ← readBaseGraph counts.nodes.toNat counts.edges.toNat remaining
  let (layers,remaining) ←
    readUpperLayers counts.nodes.toNat parameters.entryPoint parameters.maxLevel.toNat remaining
  readCodes ⟨parameters,path,pairIdentity,fingerprint,offsets,edges,layers,[],[],[]⟩ counts remaining

/-- The fields behind the version. -/
def readBody (path : Text) (checksummedSize : ℕ) : Reader Fault Index := do
  let metric ← readLe UInt32
  check (metric≠cosineMetric) (runtimeError "unsupported index metric")
  let pairIdentity ← readArray 32
  check (isZeroIdentity pairIdentity) (runtimeError "index has a zero pair identity")
  let parameters ← readParameters
  let counts ← readCounts
  check (counts.nodes=0 ∨ parameters.dimension=0 ∨
    parameters.entryPoint.toNat≥counts.nodes.toNat ∨ parameters.maxLevel>64)
    (runtimeError "invalid index header")
  let payloadPosition ← tell
  check (payloadPosition>checksummedSize) (runtimeError "invalid index file size")
  check (counts.nodes.toNat=uint64Max) (runtimeError "node count is too large")
  let _ ← attempt (checkedSize counts.nodes.toNat "node count")
  let _ ← attempt (checkedSize counts.edges.toNat "edge count")
  let _ ← attempt (checkedSize counts.fingerprintSize.toNat "embedder fingerprint")
  let _ ← attempt (checkedSize counts.codebookValues.toNat "PQ codebook values")
  let _ ← attempt (checkedSize counts.codeBytes.toNat "approximation codes")
  readTables path pairIdentity parameters counts (checksummedSize-payloadPosition)

/-- The body of `Index::load`. -/
def loadReader (path : Text) : Reader Fault Index := do
  let magic ← readBytes indexMagic.length
  check (magic≠indexMagic) (runtimeError ("not a leann.cpp index: "++path))
  let version ← readLe UInt32
  check (version≠indexVersion)
    (runtimeError ("unsupported index version: "++toText version.toNat))
  let checksummedSize ← verifySha256Footer "index"
  seek (indexMagic.length+4)
  readBody path checksummedSize

/-- `Index::load` of a file with these bytes. -/
def load (path : Text) (file : List UInt8) : Except Fault Index := do
  let (index,_) ← loadReader path ⟨file,0⟩
  return index

end Load

section Bytes

/-- The scalar fields on disk. -/
def parameterBytes (parameters : Parameters) : List UInt8 :=
  encode parameters.dimension++(encode parameters.approximation.code++
    (encode parameters.maxDegree++(encode parameters.entryPoint++(encode parameters.maxLevel++
    (encode parameters.sketchBits++(encode parameters.pqSubquantizers++(encode parameters.pqBits++
    (encode parameters.pqCentroids++(encode parameters.pqSubdimension++
      encode parameters.sketchSeed)))))))))

/-- The declared sizes on disk. -/
def countBytes (counts : Counts) : List UInt8 :=
  encode counts.nodes++(encode counts.edges++(encode counts.codebookValues++
    (encode counts.codeBytes++encode counts.fingerprintSize)))

/-- One upper layer on disk. -/
def layerBytes (layer : UpperLayer) : List UInt8 :=
  encode (UInt64.ofNat layer.nodes.length)++(encode (UInt64.ofNat layer.edges.length)++
    (layer.nodes.flatMap encode++(layer.offsets.flatMap encode++layer.edges.flatMap encode)))

/-- One coordinate of a centroid on disk. -/
def floatBytes (value : Single) : List UInt8 := encode (bitCast value)

/-- The sketches, or the codebook and the packed codes, on disk. -/
def codesBytes (index : Index) : List UInt8 :=
  if index.approximation=.simHash then index.sketches.flatMap encode
  else index.pqCodebook.flatMap floatBytes++index.pqCodes

/-- The size of the sketches or packed codes. -/
def Index.codesLength (index : Index) : ℕ :=
  if index.approximation=.simHash then index.sketches.length*8 else index.pqCodes.length

/-- The sizes the header of an index declares. -/
def Index.counts (index : Index) (count : ℕ) : Counts :=
  ⟨UInt64.ofNat count,UInt64.ofNat index.edges.length,UInt64.ofNat index.pqCodebook.length,
    UInt64.ofNat index.codesLength,UInt32.ofNat index.embedderFingerprint.length⟩

/-- Everything behind the header. -/
def tableBytes (index : Index) : List UInt8 :=
  index.embedderFingerprint++(index.offsets.flatMap encode++(index.edges.flatMap encode++
    (index.upperLayers.flatMap layerBytes++codesBytes index)))

/-- Everything behind the version. -/
def bodyBytes (index : Index) (count : ℕ) : List UInt8 :=
  encode cosineMetric++(index.pairIdentity.toList++(parameterBytes index.toParameters++
    (countBytes (index.counts count)++tableBytes index)))

/-- An index file without its digest. -/
def indexBytes (index : Index) (count : ℕ) : List UInt8 :=
  indexMagic++(encode indexVersion++bodyBytes index count)

/-- The scalar fields are appended. -/
theorem writeParameters_appends (parameters : Parameters) :
    Appends (writeParameters parameters) (parameterBytes parameters) :=
  (Appends.writeLe _).bind ((Appends.writeLe _).bind ((Appends.writeLe _).bind
    ((Appends.writeLe _).bind ((Appends.writeLe _).bind ((Appends.writeLe _).bind
    ((Appends.writeLe _).bind ((Appends.writeLe _).bind ((Appends.writeLe _).bind
    ((Appends.writeLe _).bind (Appends.writeLe _))))))))))

/-- The declared sizes are appended when the codes can be counted. -/
theorem writeCounts_appends (index : Index) (count : ℕ)
    (h : index.codeBytes=.ok index.codesLength) :
    Appends (writeCounts index count) (countBytes (index.counts count)) := by
  have hw : writeCounts index count=(do
      writeLe (UInt64.ofNat count)
      writeLe (UInt64.ofNat index.edges.length)
      writeLe (UInt64.ofNat index.pqCodebook.length)
      writeLe (UInt64.ofNat index.codesLength)
      writeLe (UInt32.ofNat index.embedderFingerprint.length) : Output Unit) := by
    rw [writeCounts,h]
    rfl
  rw [hw]
  exact (Appends.writeLe _).bind ((Appends.writeLe _).bind ((Appends.writeLe _).bind
    ((Appends.writeLe _).bind (Appends.writeLe _))))

/-- A layer is appended. -/
theorem writeUpperLayer_appends (layer : UpperLayer) :
    Appends (writeUpperLayer layer) (layerBytes layer) :=
  (Appends.writeLe _).bind ((Appends.writeLe _).bind ((Appends.writeVector _).bind
    ((Appends.writeVector _).bind (Appends.writeVector _))))

/-- The layers are appended one behind the other. -/
theorem writeUpperLayers_appends (layers : List UpperLayer) :
    Appends (writeUpperLayers layers) (layers.flatMap layerBytes) := by
  induction layers with
  | nil => exact .nil
  | cons layer layers ih => exact (writeUpperLayer_appends layer).bind ih

/-- The codes are appended. -/
theorem writeCodes_appends (index : Index) : Appends (writeCodes index) (codesBytes index) := by
  unfold writeCodes codesBytes
  by_cases h : index.approximation=.simHash
  · rw [if_pos h,if_pos h]
    exact Appends.writeVector _
  · rw [if_neg h,if_neg h]
    have hf : (index.pqCodebook.map bitCast).flatMap encode=index.pqCodebook.flatMap floatBytes := by
      rw [List.flatMap_map]
      rfl
    have hb := (Appends.writeVector (index.pqCodebook.map bitCast)).bind
      (Appends.writeBytes index.pqCodes)
    rw [hf] at hb
    exact hb

/-- The fields of an index are appended when its codes can be counted. -/
theorem writeIndex_appends (index : Index) (count : ℕ) (h : index.codeBytes=.ok index.codesLength) :
    Appends (writeIndex index count) (indexBytes index count) :=
  (Appends.writeBytes _).bind ((Appends.writeLe _).bind ((Appends.writeLe _).bind
    ((Appends.writeBytes _).bind ((writeParameters_appends _).bind
    ((writeCounts_appends index count h).bind ((Appends.writeBytes _).bind
    ((Appends.writeVector _).bind ((Appends.writeVector _).bind
    ((writeUpperLayers_appends _).bind (writeCodes_appends index))))))))))

/-- Counting the codes fails only by losing a carry. -/
theorem codeBytes_ok (index : Index) (bytes : ℕ) :
    index.codeBytes=.ok bytes ↔ bytes=index.codesLength ∧
      (index.approximation=.simHash → index.sketches.length*8≤uint64Max) := by
  unfold Index.codeBytes Index.codesLength
  by_cases hk : index.approximation=.simHash
  · simp only [hk,if_true,times64_ok,true_implies,and_comm]
  · simp only [hk,if_false,Except.ok.injEq,false_implies,and_true,eq_comm]

/-- The declared sizes are only written when the codes can be counted. -/
theorem writeCounts_ok (index : Index) (count : ℕ) {file after : List UInt8} {value : Unit}
    (h : writeCounts index count file=.ok (value,after)) :
    index.codeBytes=.ok index.codesLength := by
  cases hc : index.codeBytes with
  | ok bytes => rw [((codeBytes_ok index bytes).mp hc).1]
  | error fault =>
    simp only [writeCounts,output_bind_ok,hc] at h
    obtain ⟨_,_,-,_,_,-,_,_,-,_,_,hl,-⟩ := h
    simp [StateT.lift,bind,Except.bind] at hl

end Bytes

section Fields

/-- An encoded value is read as it stands. -/
theorem readLe_field (T : Type) [Unsigned T] :
    Recognises (readLe T) (fun bytes value => bytes=encode value ∧ True) :=
  (readLe_recognises T).congr (fun bytes value => by simp)

/-- The kind is read from its number. -/
theorem readApproximation_recognises :
    Recognises readApproximation (fun bytes kind => bytes=encode kind.code ∧ True) := by
  have hr : Recognises readApproximation _ := (readLe_field UInt32).field (fun _ =>
    Recognises.guarded _ _ (.pure _))
  refine hr.congr (fun bytes kind => ?_)
  simp only [true_and,and_true]
  constructor
  · rintro ⟨number,_,rfl,hc,rfl,rfl⟩
    rw [List.append_nil]
    by_cases h1 : number=ApproximationKind.simHash.code
    · rw [if_pos h1,h1]
    · rw [if_neg h1]
      by_cases h2 : number=ApproximationKind.productQuantization.code
      · rw [h2]
      · exact absurd ⟨h1,h2⟩ hc
  · rintro rfl
    refine ⟨kind.code,[],by rw [List.append_nil],?_,rfl,?_⟩ <;> cases kind <;> decide

/-- The scalar fields are read as they stand. -/
theorem readParameters_recognises :
    Recognises readParameters (fun bytes value => bytes=parameterBytes value ∧ True) := by
  have hr : Recognises readParameters _ :=
    (readLe_field UInt32).field (fun dimension => readApproximation_recognises.field (fun kind =>
    (readLe_field UInt32).field (fun maxDegree => (readLe_field UInt32).field (fun entryPoint =>
    (readLe_field UInt32).field (fun maxLevel => (readLe_field UInt32).field (fun sketchBits =>
    (readLe_field UInt32).field (fun subquantizers => (readLe_field UInt32).field (fun bits =>
    (readLe_field UInt32).field (fun centroids => (readLe_field UInt32).field (fun subdimension =>
    (readLe_field UInt64).field (fun seed => 
    .pure (Parameters.mk dimension kind maxDegree entryPoint maxLevel sketchBits subquantizers bits
      centroids subdimension seed))))))))))))
  refine hr.congr (fun bytes value => ?_)
  simp only [true_and,and_true]
  constructor
  · rintro ⟨_,_,rfl,_,_,rfl,_,_,rfl,_,_,rfl,_,_,rfl,_,_,rfl,_,_,rfl,_,_,rfl,_,_,rfl,_,_,rfl,_,_,rfl,
      rfl,rfl⟩
    simp only [parameterBytes,List.append_nil]
  · rintro rfl
    exact ⟨_,_,rfl,_,_,rfl,_,_,rfl,_,_,rfl,_,_,rfl,_,_,rfl,_,_,rfl,_,_,rfl,_,_,rfl,_,_,rfl,_,[],
      (List.append_nil _).symm,rfl,rfl⟩

/-- The declared sizes are read as they stand. -/
theorem readCounts_recognises :
    Recognises readCounts (fun bytes value => bytes=countBytes value ∧ True) := by
  have hr : Recognises readCounts _ :=
    (readLe_field UInt64).field (fun nodes => (readLe_field UInt64).field (fun edges =>
    (readLe_field UInt64).field (fun values => (readLe_field UInt64).field (fun codes =>
    (readLe_field UInt32).field (fun size => .pure (Counts.mk nodes edges values codes size))))))
  refine hr.congr (fun bytes value => ?_)
  simp only [true_and,and_true]
  constructor
  · rintro ⟨_,_,rfl,_,_,rfl,_,_,rfl,_,_,rfl,_,_,rfl,rfl,rfl⟩
    simp only [countBytes,List.append_nil]
  · rintro rfl
    exact ⟨_,_,rfl,_,_,rfl,_,_,rfl,_,_,rfl,_,[],(List.append_nil _).symm,rfl,rfl⟩

/-- A table is taken from what remains when it fits. -/
theorem consume_ok {remaining : ℕ} (hr : remaining≤uint64Max) (elements elementSize : ℕ)
    (field : Text) (rest : ℕ) : consume remaining elements elementSize field=.ok rest ↔
      0<elementSize ∧ elements*elementSize+rest=remaining := by
  simp only [consume,bind_eq_ok,throwIf_ok,times64_ok,pure_eq_ok,exists_const,not_or]
  rcases Nat.eq_zero_or_pos elementSize with rfl|hp
  · simp
  · have hle : ¬elements>remaining/elementSize ↔ elements*elementSize≤ remaining := by
      rw [gt_iff_lt,not_lt,Nat.le_div_iff_mul_le hp]
    rw [hle]
    constructor
    · rintro ⟨⟨-,hl⟩,_,⟨-,rfl⟩,rfl⟩
      exact ⟨hp,by omega⟩
    · rintro ⟨-,hs⟩
      exact ⟨⟨by omega,by omega⟩,_,⟨by omega,rfl⟩,by omega⟩

end Fields

section Rows

/-- Compressed rows of so many nodes whose targets are below a bound. -/
structure Rows (offsets : List UInt64) (edges : List UInt32) (rows count : ℕ) : Prop where
  /-- There is one offset more than there are rows. -/
  offsets_length : offsets.length=rows+1
  /-- The rows cover the edges. -/
  spanning : Spanning offsets edges.length
  /-- The rows follow each other. -/
  rising : Rising offsets edges.length
  /-- Every edge leads to a node. -/
  edges_lt : ∀ id∈edges,id.toNat<count

/-- The base graph is read from its rows. -/
theorem readBaseGraph_recognises {count edgeCount remaining : ℕ} (hr : remaining≤uint64Max) :
    Recognises (readBaseGraph count edgeCount remaining) (fun bytes value =>
      bytes=value.1.flatMap encode++value.2.1.flatMap encode ∧ value.2.1.length=edgeCount ∧
      Rows value.1 value.2.1 count count ∧ count+1≤uint64Max ∧
      bytes.length+value.2.2=remaining) := by
  have hg : Recognises (readBaseGraph count edgeCount remaining) _ :=
    Recognises.attempted _ (fun entries => .attempted _ (fun remaining =>
    (readVector_recognises UInt64 entries).field (fun offsets => .attempted _ (fun rest =>
    (readVector_recognises UInt32 edgeCount).field (fun edges =>
    .guarded _ _ (.guarded _ _ (.guarded _ _ (.pure (offsets,edges,rest)))))))))
  refine hg.congr (fun bytes value => ?_)
  simp only [plus64_ok,not_not]
  constructor
  · rintro ⟨_,⟨hc,rfl⟩,middle,hm,offsets,ho,_,rfl,rest,hs,edges,he,_,rfl,hspan,hrise,hlt,rfl,rfl⟩
    obtain ⟨-,hm⟩ := (consume_ok hr _ _ _ _).mp hm
    obtain ⟨-,hs⟩ := (consume_ok (by omega) _ _ _ _).mp hs
    refine ⟨by rw [List.append_nil],he,⟨ho,hspan,hrise,hlt⟩,hc,?_⟩
    simp only [List.length_append,encode_flatMap_length,width_uint64,width_uint32,List.length_nil]
    omega
  · rintro ⟨rfl,he,hrows,hc,hs⟩
    simp only [List.length_append,encode_flatMap_length,width_uint64,width_uint32,
      hrows.offsets_length] at hs
    refine ⟨_,⟨hc,rfl⟩,edgeCount*4+value.2.2,(consume_ok hr _ _ _ _).mpr ⟨by omega,by omega⟩,
      value.1,hrows.offsets_length,_,rfl,value.2.2,
      (consume_ok (by omega) _ _ _ _).mpr ⟨by omega,by omega⟩,value.2.1,he,[],
      (List.append_nil _).symm,hrows.spanning,hrows.rising,hrows.edges_lt,rfl,rfl⟩

/-- A layer that routing can walk. -/
structure LayerRows (layer : UpperLayer) (count : ℕ) (entryPoint : UInt32) : Prop where
  /-- The nodes are strictly increasing. -/
  nodes_chain : layer.nodes.IsChain (·<·)
  /-- The nodes are nodes of the base graph. -/
  nodes_lt : ∀ id∈layer.nodes,id.toNat<count
  /-- Every node of the layer has a row. -/
  rows : Rows layer.offsets layer.edges layer.nodes.length count
  /-- Edges stay inside the layer. -/
  edges_mem : ∀ id∈layer.edges,id∈layer.nodes
  /-- The entry point belongs to the layer. -/
  entry_mem : entryPoint∈layer.nodes

/-- Sorted without equal neighbours is strictly sorted. -/
theorem isChain_lt_iff (nodes : List UInt32) :
    nodes.IsChain (·<·) ↔ nodes.IsChain (·≤·) ∧ nodes.IsChain (·≠·) := by
  simp only [List.isChain_iff_getElem]
  constructor
  · intro h
    exact ⟨fun i hi => UInt32.le_of_lt (h i hi),fun i hi => UInt32.ne_of_lt (h i hi)⟩
  · rintro ⟨hle,hne⟩ i hi
    have hl := UInt32.le_iff_toNat_le.mp (hle i hi)
    have hn : (nodes[i]).toNat≠(nodes[i+1]).toNat := fun he => hne i hi (UInt32.toNat_inj.mp he)
    rw [UInt32.lt_iff_toNat_lt]
    omega

/-- Distinct nodes below a bound are no more than the bound. -/
theorem length_le_of_chain {nodes : List UInt32} {count : ℕ} (hc : nodes.IsChain (·<·))
    (hl : ∀ id∈nodes,id.toNat<count) : nodes.length≤ count := by
  have hp : (nodes.map UInt32.toNat).IsChain (·<·) :=
    (List.isChain_map UInt32.toNat).mpr (hc.imp (fun _ _ h => UInt32.lt_iff_toNat_lt.mp h))
  have hd : (nodes.map UInt32.toNat).Nodup := (List.isChain_iff_pairwise.mp hp).imp Nat.ne_of_lt
  have hs : (nodes.map UInt32.toNat).Subperm (List.range count) := by
    refine hd.subperm (fun id hid => ?_)
    obtain ⟨node,hn,rfl⟩ := List.mem_map.mp hid
    exact List.mem_range.mpr (hl node hn)
  simpa using hs.length_le

/-- The sizes of a layer are read when they fit into what remains. -/
theorem readLayerHeader_recognises {count remaining : ℕ} (hr : remaining≤uint64Max) :
    Recognises (readLayerHeader count remaining) (fun bytes value =>
      bytes=encode (UInt64.ofNat value.1)++encode (UInt64.ofNat value.2.1) ∧ value.1≤ count ∧
      value.1+1≤uint64Max ∧ value.2.1≤uint64Max ∧
      16+(value.1*4+((value.1+1)*8+(value.2.1*4+value.2.2)))=remaining) := by
  have hg : Recognises (readLayerHeader count remaining) _ :=
    Recognises.attempted _ (fun first => (readLe_field UInt64).field (fun nodes =>
    (readLe_field UInt64).field (fun edges => .guarded _ _ (.attempted _ (fun layerNodes =>
    .attempted _ (fun layerEdges => .attempted _ (fun second => .attempted _ (fun entries =>
    .attempted _ (fun third => .attempted _ (fun rest => .pure (layerNodes,layerEdges,rest)))))))))))
  refine hg.congr (fun bytes value => ?_)
  simp only [plus64_ok,checkedSize_ok,true_and,not_or]
  constructor
  · rintro ⟨first,h1,nodes,_,rfl,edges,_,rfl,⟨hn,-⟩,_,⟨-,rfl⟩,_,⟨he,rfl⟩,second,h2,_,⟨hp,rfl⟩,
      third,h3,rest,h4,rfl,rfl⟩
    obtain ⟨-,h1⟩ := (consume_ok hr _ _ _ _).mp h1
    obtain ⟨-,h2⟩ := (consume_ok (by omega) _ _ _ _).mp h2
    obtain ⟨-,h3⟩ := (consume_ok (by omega) _ _ _ _).mp h3
    obtain ⟨-,h4⟩ := (consume_ok (by omega) _ _ _ _).mp h4
    refine ⟨by simp,by dsimp only; omega,hp,he,by dsimp only; omega⟩
  · rintro ⟨rfl,hn,hp,he,hs⟩
    have hw : ∀ size≤uint64Max,(UInt64.ofNat size).toNat=size := by
      intro size h
      unfold uint64Max at h
      rw [UInt64.toNat_ofNat']
      omega
    have hwn := hw value.1 (by omega)
    refine ⟨remaining-16,(consume_ok hr _ _ _ _).mpr ⟨by omega,by omega⟩,
      UInt64.ofNat value.1,_,rfl,UInt64.ofNat value.2.1,[],(List.append_nil _).symm,?_⟩
    rw [hwn,hw _ he]
    refine ⟨⟨by omega,by omega⟩,_,⟨by omega,rfl⟩,_,⟨he,rfl⟩,
      (value.1+1)*8+(value.2.1*4+value.2.2),(consume_ok (by omega) _ _ _ _).mpr
      ⟨by omega,by omega⟩,_,⟨hp,rfl⟩,value.2.1*4+value.2.2,(consume_ok (by omega) _ _ _ _).mpr
      ⟨by omega,by omega⟩,value.2.2,(consume_ok (by omega) _ _ _ _).mpr ⟨by omega,by omega⟩,
      rfl,rfl⟩

/-- The rows of a layer are read as they stand. -/
theorem readLayerRows_recognises (count : ℕ) (entryPoint : UInt32) (layerNodes layerEdges : ℕ) :
    Recognises (readLayerRows count entryPoint layerNodes layerEdges) (fun bytes layer =>
      bytes=layer.nodes.flatMap encode++(layer.offsets.flatMap encode++layer.edges.flatMap encode) ∧
      layer.nodes.length=layerNodes ∧ layer.edges.length=layerEdges ∧ layerNodes+1≤uint64Max ∧
      LayerRows layer count entryPoint) := by
  have hg : Recognises (readLayerRows count entryPoint layerNodes layerEdges) _ :=
    (readVector_recognises UInt32 layerNodes).field (fun nodes => .attempted _ (fun entries =>
    (readVector_recognises UInt64 entries).field (fun offsets =>
    (readVector_recognises UInt32 layerEdges).field (fun edges =>
    .guarded _ _ (.guarded _ _ (.guarded _ _ (.guarded _ _
      (.pure (UpperLayer.mk nodes offsets edges)))))))))
  refine hg.congr (fun bytes layer => ?_)
  simp only [plus64_ok,not_or,not_not,binarySearch,decide_eq_true_eq]
  constructor
  · rintro ⟨nodes,hn,_,rfl,_,⟨hb,rfl⟩,offsets,ho,_,rfl,edges,he,_,rfl,⟨hle,hne,hlt,-,hspan⟩,hrise,
      hedges,hentry,rfl,rfl⟩
    subst hn
    refine ⟨by simp,rfl,he,hb,⟨(isChain_lt_iff nodes).mpr ⟨hle,hne⟩,hlt,
      ⟨ho,hspan,hrise,fun id h => (hedges id h).1⟩,fun id h => (hedges id h).2,hentry⟩⟩
  · rintro ⟨rfl,rfl,he,hb,hrows⟩
    obtain ⟨hle,hne⟩ := (isChain_lt_iff layer.nodes).mp hrows.nodes_chain
    have hl := hrows.rows.offsets_length
    have hempty : ¬layer.offsets.isEmpty := by
      rw [List.isEmpty_iff,←List.length_eq_zero_iff]
      omega
    exact ⟨layer.nodes,rfl,_,rfl,_,⟨hb,rfl⟩,layer.offsets,hl,_,rfl,layer.edges,he,[],
      (List.append_nil _).symm,⟨hle,hne,hrows.nodes_lt,hempty,hrows.rows.spanning⟩,
      hrows.rows.rising,fun id h => ⟨hrows.rows.edges_lt id h,hrows.edges_mem id h⟩,
      hrows.entry_mem,rfl,rfl⟩

/-- The size of a layer on disk. -/
theorem layerBytes_length {layer : UpperLayer} {count : ℕ} {entryPoint : UInt32}
    (h : LayerRows layer count entryPoint) : (layerBytes layer).length=
      16+(layer.nodes.length*4+((layer.nodes.length+1)*8+layer.edges.length*4)) := by
  simp only [layerBytes,List.length_append,encode_length,encode_flatMap_length,width_uint64,
    width_uint32,h.rows.offsets_length]
  omega

/-- The layers are read one behind the other. -/
theorem readUpperLayers_recognises {count : ℕ} (hc : count+1≤uint64Max) (entryPoint : UInt32)
    (levels : ℕ) {remaining : ℕ} (hr : remaining≤uint64Max) :
    Recognises (readUpperLayers count entryPoint levels remaining) (fun bytes value =>
      bytes=value.1.flatMap layerBytes ∧ value.1.length=levels ∧
      (∀ layer∈value.1,LayerRows layer count entryPoint) ∧ bytes.length+value.2=remaining) := by
  induction levels generalizing remaining with
  | zero =>
    refine (Recognises.pure ([],remaining)).congr (fun bytes value => ?_)
    constructor
    · rintro ⟨rfl,rfl⟩
      simp
    · rintro ⟨rfl,hl,-,hs⟩
      obtain ⟨layers,rest⟩ := value
      rw [List.length_eq_zero_iff] at hl
      dsimp only at hl hs
      subst hl
      simp only [List.flatMap_nil,List.length_nil,Nat.zero_add] at hs
      exact ⟨by simp,by rw [hs]⟩
  | succ levels ih =>
    have hg : Recognises (readUpperLayers count entryPoint (levels+1) remaining) _ :=
      (readLayerHeader_recognises hr).bindOf (fun header _ hh =>
      (readLayerRows_recognises count entryPoint header.1 header.2.1).bind (fun layer =>
      (ih (show header.2.2≤uint64Max by omega)).returning (fun tail => (layer::tail.1,tail.2))))
    refine hg.congr (fun bytes value => ?_)
    constructor
    · rintro ⟨⟨layerNodes,layerEdges,middle⟩,_,_,rfl,⟨rfl,-,-,-,hs⟩,layer,_,_,rfl,
        ⟨rfl,rfl,rfl,-,hrows⟩,⟨layers,rest⟩,⟨rfl,rfl,hall,ht⟩,rfl⟩
      have hl := layerBytes_length hrows
      refine ⟨by simp [layerBytes],rfl,List.forall_mem_cons.mpr ⟨hrows,hall⟩,?_⟩
      dsimp only at hs ht ⊢
      simp only [List.length_append,encode_length,encode_flatMap_length,width_uint64,width_uint32,
        hrows.rows.offsets_length] at ht hl ⊢
      omega
    · rintro ⟨rfl,hl,hall,hs⟩
      obtain ⟨layers,rest⟩ := value
      cases layers with
      | nil => simp at hl
      | cons layer layers =>
        rw [List.forall_mem_cons] at hall
        have hb := layerBytes_length hall.1
        have hn := length_le_of_chain hall.1.nodes_chain hall.1.nodes_lt
        simp only [List.flatMap_cons,List.length_append,hb] at hs
        refine ⟨(layer.nodes.length,layer.edges.length,(layers.flatMap layerBytes).length+rest),
          _,_,?_,⟨rfl,hn,by dsimp only; omega,by dsimp only; omega,by dsimp only; omega⟩,layer,_,_,
          rfl,⟨rfl,rfl,rfl,by dsimp only; omega,hall.1⟩,(layers,rest),
          ⟨rfl,by simpa using hl,hall.2,rfl⟩,rfl⟩
        simp [layerBytes]

end Rows

section Codes

/-- The scalar fields of an index with sketches. -/
structure SketchParameters (parameters : Parameters) : Prop where
  /-- A sketch has at least one word. -/
  sketchBits_ge : 64≤parameters.sketchBits.toNat
  /-- A sketch is made of words. -/
  sketchBits_mod : parameters.sketchBits.toNat%64=0
  /-- No subspaces. -/
  subquantizers_zero : parameters.pqSubquantizers=0
  /-- No centroid numbers. -/
  bits_zero : parameters.pqBits=0
  /-- No centroids. -/
  centroids_zero : parameters.pqCentroids=0
  /-- No coordinates of centroids. -/
  subdimension_zero : parameters.pqSubdimension=0

/-- The scalar fields of an index with quantised vectors. -/
structure QuantizedParameters (parameters : Parameters) : Prop where
  /-- No sketches. -/
  sketchBits_zero : parameters.sketchBits=0
  /-- There is a subspace. -/
  subquantizers_pos : parameters.pqSubquantizers≠0
  /-- A centroid number has a bit. -/
  bits_pos : parameters.pqBits≠0
  /-- A centroid number fits a byte. -/
  bits_le : parameters.pqBits.toNat≤8
  /-- A subspace has a centroid. -/
  centroids_pos : parameters.pqCentroids≠0
  /-- Centroid numbers can tell the centroids apart. -/
  centroids_le : parameters.pqCentroids.toNat≤2^parameters.pqBits.toNat
  /-- A subspace has a coordinate. -/
  subdimension_pos : parameters.pqSubdimension≠0
  /-- The subspaces divide the coordinates among them. -/
  dimension_eq : parameters.pqSubquantizers.toNat*parameters.pqSubdimension.toNat=
    parameters.dimension.toNat

/-- Bytes of the packed centroid numbers of one node. -/
def Parameters.bytesPerVector (parameters : Parameters) : ℕ :=
  (parameters.pqSubquantizers.toNat*parameters.pqBits.toNat+7)/8

/-- A coordinate of a centroid that the loader accepts. -/
def Coordinate (value : Single) : Prop := value.Finite ∧ ¬(1 : Single)<value.abs

theorem ofBitCast_bitCast (value : Single) : ofBitCast (bitCast value)=value := by
  have hl : value.toBits<2^32 := value.toBits_lt
  rw [ofBitCast,bitCast,UInt32.toNat_ofNat',Nat.mod_eq_of_lt hl,Binary.ofBits_toBits]

theorem bitCast_ofBitCast (bits : UInt32) : bitCast (ofBitCast bits)=bits := by
  rw [bitCast,ofBitCast,Binary.toBits_ofBits bits.toNat_lt,UInt32.ofNat_toNat]

/-- A coordinate is read from its bits. -/
theorem readFloat_recognises :
    Recognises readFloat (fun bytes value => bytes=floatBytes value ∧ Coordinate value) := by
  have hg : Recognises readFloat _ :=
    (readLe_field UInt32).field (fun bits => .guarded _ _ (.pure (ofBitCast bits)))
  refine hg.congr (fun bytes value => ?_)
  simp only [true_and,not_or,not_not]
  constructor
  · rintro ⟨bits,_,rfl,hc,rfl,rfl⟩
    exact ⟨by rw [floatBytes,bitCast_ofBitCast,List.append_nil],hc⟩
  · rintro ⟨rfl,hc⟩
    exact ⟨bitCast value,[],(List.append_nil _).symm,by rw [ofBitCast_bitCast]; exact hc,rfl,
      (ofBitCast_bitCast value).symm⟩

@[simp] theorem floatBytes_length (value : Single) : (floatBytes value).length=4 := encode_length _

@[simp] theorem floatBytes_flatMap_length (values : List Single) :
    (values.flatMap floatBytes).length=values.length*4 := by
  simp [List.length_flatMap,List.map_const']

/-- The centroids are read from their bits. -/
theorem readFloatVector_recognises (count : ℕ) :
    Recognises (readFloatVector count) (fun bytes values =>
      bytes=values.flatMap floatBytes ∧ values.length=count ∧ ∀ value∈values,Coordinate value) := by
  refine Recognises.demand Fault.unbacked (readFloat_recognises.readMany count) ?_
  rintro bytes values ⟨rfl,rfl,-⟩
  rw [floatBytes_flatMap_length]

/-- The sketches are read when the header describes them. -/
theorem readSketches_recognises {parameters : Parameters} {counts : Counts} {remaining : ℕ}
    (hr : remaining≤uint64Max) :
    Recognises (readSketches parameters counts remaining) (fun bytes value =>
      bytes=value.1.flatMap encode ∧ SketchParameters parameters ∧ counts.codebookValues=0 ∧
      counts.codeBytes.toNat=value.1.length*8 ∧
      value.1.length=counts.nodes.toNat*(parameters.sketchBits.toNat/64) ∧
      bytes.length+value.2=remaining) := by
  have hg : Recognises (readSketches parameters counts remaining) _ :=
    .guarded _ _ (.guarded _ _ (.attempted _ (fun expected => .guarded _ _ (.attempted _ (fun rest =>
    (readVector_recognises UInt64 (counts.codeBytes.toNat/8)).returning
      (fun sketches => (sketches,rest)))))))
  have h8 : (parameters.sketchBits/8).toNat=parameters.sketchBits.toNat/8 := by
    rw [UInt32.toNat_div]
    rfl
  have h64 : (parameters.sketchBits%64).toNat=parameters.sketchBits.toNat%64 := by
    rw [UInt32.toNat_mod]
    rfl
  have hlt : parameters.sketchBits<64 ↔ parameters.sketchBits.toNat<64 := UInt32.lt_iff_toNat_lt
  have hmod : parameters.sketchBits%64=0 ↔ parameters.sketchBits.toNat%64=0 := by
    rw [←h64,←UInt32.toNat_inj]
    rfl
  refine hg.congr (fun bytes value => ?_)
  simp only [h8,hlt,times64_ok,not_or,not_not,not_lt,ne_eq,hmod,gt_iff_lt]
  constructor
  · rintro ⟨⟨hge,hm,hq,hb,hc,hd,hv⟩,-,expected,⟨-,rfl⟩,he,rest,hs,sketches,⟨rfl,hl⟩,rfl⟩
    obtain ⟨-,hs⟩ := (consume_ok hr _ _ _ _).mp hs
    have hw : parameters.sketchBits.toNat/8=8*(parameters.sketchBits.toNat/64) := by omega
    rw [hw,Nat.mul_left_comm] at he
    refine ⟨rfl,⟨hge,hm,hq,hb,hc,hd⟩,hv,by dsimp only; omega,by dsimp only; omega,?_⟩
    rw [encode_flatMap_length,width_uint64]
    dsimp only
    omega
  · rintro ⟨rfl,hp,hv,he,hl,hs⟩
    rw [encode_flatMap_length,width_uint64] at hs
    have hw : parameters.sketchBits.toNat/8=8*(parameters.sketchBits.toNat/64) := by
      have := hp.sketchBits_mod
      omega
    have hge := hp.sketchBits_ge
    have hexp : counts.nodes.toNat*(parameters.sketchBits.toNat/8)=value.1.length*8 := by
      rw [hw,Nat.mul_left_comm,←hl,Nat.mul_comm]
    refine ⟨⟨hge,hp.sketchBits_mod,hp.subquantizers_zero,hp.bits_zero,hp.centroids_zero,
      hp.subdimension_zero,hv⟩,?_,_,⟨by omega,rfl⟩,by omega,value.2,
      (consume_ok hr _ _ _ _).mpr ⟨by omega,by omega⟩,value.1,⟨rfl,by omega⟩,rfl⟩
    rw [Nat.le_div_iff_mul_le (by omega)]
    omega

/-- The codebook and the packed codes are read when the header describes them. -/
theorem readQuantized_recognises {parameters : Parameters} {counts : Counts} {remaining : ℕ}
    (hr : remaining≤uint64Max) :
    Recognises (readQuantized parameters counts remaining) (fun bytes value =>
      bytes=value.1.flatMap floatBytes++value.2.1 ∧ QuantizedParameters parameters ∧
      counts.codebookValues.toNat=value.1.length ∧ counts.codeBytes.toNat=value.2.1.length ∧
      value.1.length=parameters.pqSubquantizers.toNat*parameters.pqCentroids.toNat*
        parameters.pqSubdimension.toNat ∧
      value.2.1.length=counts.nodes.toNat*parameters.bytesPerVector ∧
      (∀ coordinate∈value.1,Coordinate coordinate) ∧ bytes.length+value.2.2=remaining) := by
  have hg : Recognises (readQuantized parameters counts remaining) _ :=
    .guarded _ _ (.attempted _ (fun rows => .guarded _ _ (.attempted _ (fun expectedCodebook =>
    .attempted _ (fun bits => .attempted _ (fun padded => .guarded _ _ (.attempted _ (fun expected =>
    .guarded _ _ (.attempted _ (fun middle =>
    (readFloatVector_recognises counts.codebookValues.toNat).field (fun codebook =>
    .attempted _ (fun rest => (readResized_recognises counts.codeBytes.toNat).returning
      (fun codes => (codebook,codes,rest))))))))))))))
  have hlt : parameters.pqBits>8 ↔ 8<parameters.pqBits.toNat := UInt32.lt_iff_toNat_lt
  refine hg.congr (fun bytes value => ?_)
  simp only [hlt,times64_ok,plus64_ok,not_or,not_not,not_lt,ne_eq,gt_iff_lt]
  constructor
  · rintro ⟨⟨hsk,hq,hb,hbl,hc,hcl,hd,hdim⟩,_,⟨-,rfl⟩,-,_,⟨-,rfl⟩,_,⟨-,rfl⟩,_,⟨-,rfl⟩,-,_,⟨-,rfl⟩,
      ⟨hv,hcode⟩,middle,h1,codebook,⟨hl,hall⟩,_,rfl,rest,h2,codes,⟨rfl,hlen⟩,rfl⟩
    obtain ⟨-,h1⟩ := (consume_ok hr _ _ _ _).mp h1
    obtain ⟨-,h2⟩ := (consume_ok (by omega) _ _ _ _).mp h2
    refine ⟨rfl,⟨hsk,hq,hb,hbl,hc,hcl,hd,hdim⟩,hl.symm,hlen.symm,hl.trans hv,hlen.trans hcode,hall,?_⟩
    rw [List.length_append,floatBytes_flatMap_length]
    dsimp only
    omega
  · rintro ⟨rfl,hp,hv,hcode,hl,hlen,hall,hs⟩
    rw [List.length_append,floatBytes_flatMap_length] at hs
    have hsub : 0<parameters.pqSubdimension.toNat := by
      have h0 : parameters.pqSubdimension.toNat≠0 := fun h =>
        hp.subdimension_pos (UInt32.toNat_inj.mp h)
      omega
    have hsq : 0<parameters.pqSubquantizers.toNat := by
      have h0 : parameters.pqSubquantizers.toNat≠0 := fun h =>
        hp.subquantizers_pos (UInt32.toNat_inj.mp h)
      omega
    have hbits : 0<parameters.pqBits.toNat := by
      have h0 : parameters.pqBits.toNat≠0 := fun h => hp.bits_pos (UInt32.toNat_inj.mp h)
      omega
    have hbytes : 0<parameters.bytesPerVector := by
      have hm : 1≤parameters.pqSubquantizers.toNat*parameters.pqBits.toNat := Nat.mul_pos hsq hbits
      unfold Parameters.bytesPerVector
      omega
    have hvector : parameters.pqSubquantizers.toNat*parameters.pqBits.toNat≤2^32*8 :=
      Nat.mul_le_mul parameters.pqSubquantizers.toNat_lt.le hp.bits_le
    have hrows : parameters.pqSubquantizers.toNat*parameters.pqCentroids.toNat≤value.1.length := by
      rw [hl]
      exact Nat.le_mul_of_pos_right _ hsub
    unfold uint64Max at hr ⊢
    refine ⟨⟨hp.sketchBits_zero,hp.subquantizers_pos,hp.bits_pos,hp.bits_le,hp.centroids_pos,
      hp.centroids_le,hp.subdimension_pos,hp.dimension_eq⟩,_,⟨by omega,rfl⟩,?_,_,⟨by omega,rfl⟩,_,
      ⟨by omega,rfl⟩,_,⟨by omega,rfl⟩,?_,_,⟨?_,rfl⟩,⟨by omega,hcode.trans hlen⟩,
      value.2.1.length+value.2.2,(consume_ok hr _ _ _ _).mpr ⟨by omega,by omega⟩,value.1,
      ⟨hv.symm,hall⟩,_,rfl,value.2.2,(consume_ok (by unfold uint64Max; omega) _ _ _ _).mpr
      ⟨by omega,by omega⟩,value.2.1,⟨rfl,hcode.symm⟩,rfl⟩
    · rw [Nat.le_div_iff_mul_le hsub]
      omega
    · change _≤_/parameters.bytesPerVector
      rw [Nat.le_div_iff_mul_le hbytes]
      omega
    · change counts.nodes.toNat*parameters.bytesPerVector≤_
      omega

end Codes

section Loading

/-- The tables of an index with sketches. -/
structure SketchTables (index : Index) : Prop extends SketchParameters index.toParameters where
  /-- Every node has a sketch. -/
  sketches_length : index.sketches.length=index.size*(index.sketchBits.toNat/64)
  /-- No centroids. -/
  codebook_nil : index.pqCodebook=[]
  /-- No packed codes. -/
  codes_nil : index.pqCodes=[]

/-- The tables of an index with quantised vectors. -/
structure QuantizedTables (index : Index) : Prop extends QuantizedParameters index.toParameters where
  /-- Every centroid of every subspace has its coordinates. -/
  codebook_length : index.pqCodebook.length=
    index.pqSubquantizers.toNat*index.pqCentroids.toNat*index.pqSubdimension.toNat
  /-- Every coordinate is finite and inside the unit interval. -/
  coordinates : ∀ coordinate∈index.pqCodebook,Coordinate coordinate
  /-- Every node has its packed codes. -/
  codes_length : index.pqCodes.length=index.size*index.bytesPerVector
  /-- No sketches. -/
  sketches_nil : index.sketches=[]

/-- The structural conditions of the loader. -/
structure Loadable (index : Index) : Prop where
  /-- The identity is not the reserved one. -/
  identity_nonzero : isZeroIdentity index.pairIdentity=false
  /-- Embeddings have a coordinate. -/
  dimension_pos : index.dimension≠0
  /-- Routing starts at a node. -/
  entry_lt : index.entryPoint.toNat< index.size
  /-- The number of layers is bounded. -/
  level_le : index.maxLevel.toNat≤64
  /-- Every level has its layer. -/
  layers_length : index.upperLayers.length=index.maxLevel.toNat
  /-- The base graph is well formed. -/
  rows : Rows index.offsets index.edges index.size index.size
  /-- The layers are well formed. -/
  layers : ∀ layer∈index.upperLayers,LayerRows layer index.size index.entryPoint
  /-- The size of the fingerprint fits its field. -/
  fingerprint_lt : index.embedderFingerprint.length<2^32
  /-- The tables of sketches are well formed. -/
  sketched : index.approximation=.simHash → SketchTables index
  /-- The tables of quantised vectors are well formed. -/
  quantized : index.approximation=.productQuantization → QuantizedTables index

/-- The declared sizes agree with the tables. -/
structure Declares (counts : Counts) (index : Index) : Prop where
  /-- The number of nodes. -/
  nodes : index.offsets.length=counts.nodes.toNat+1
  /-- The number of edges. -/
  edges : index.edges.length=counts.edges.toNat
  /-- The number of coordinates of centroids. -/
  codebook : index.pqCodebook.length=counts.codebookValues.toNat
  /-- The bytes of the codes. -/
  codes : index.codesLength=counts.codeBytes.toNat
  /-- The bytes of the fingerprint. -/
  fingerprint : index.embedderFingerprint.length=counts.fingerprintSize.toNat

/-- The size is the number of rows. -/
theorem size_of_offsets {index : Index} {rows : ℕ} (h : index.offsets.length=rows+1) :
    index.size=rows := by
  have he : ¬index.offsets.isEmpty := by
    rw [List.isEmpty_iff,←List.length_eq_zero_iff]
    omega
  rw [Index.size,if_neg he,h,Nat.add_sub_cancel]

/-- The declared number of nodes is the size. -/
theorem Declares.size {counts : Counts} {index : Index} (h : Declares counts index) :
    index.size=counts.nodes.toNat := size_of_offsets h.nodes

/-- The declared sizes are those the index would declare. -/
theorem Declares.counts_eq {counts : Counts} {index : Index} (h : Declares counts index) :
    index.counts index.size=counts := by
  obtain ⟨nodes,edges,values,codes,size⟩ := counts
  rw [Index.counts,h.size,h.edges,h.codebook,h.codes,h.fingerprint]
  simp only [UInt64.ofNat_toNat,UInt32.ofNat_toNat]

/-- The conditions that only concern what lies behind the header. -/
structure TablesLoadable (index : Index) : Prop where
  /-- Every level has its layer. -/
  layers_length : index.upperLayers.length=index.maxLevel.toNat
  /-- The base graph is well formed. -/
  rows : Rows index.offsets index.edges index.size index.size
  /-- The layers are well formed. -/
  layers : ∀ layer∈index.upperLayers,LayerRows layer index.size index.entryPoint
  /-- The tables of sketches are well formed. -/
  sketched : index.approximation=.simHash → SketchTables index
  /-- The tables of quantised vectors are well formed. -/
  quantized : index.approximation=.productQuantization → QuantizedTables index

/-- The codes are read when they are well formed and fill what remains. -/
theorem readCodes_recognises (base : Index) {counts : Counts} {remaining : ℕ}
    (hr : remaining≤uint64Max) (hsize : base.size=counts.nodes.toNat) (hs : base.sketches=[])
    (hb : base.pqCodebook=[]) (hc : base.pqCodes=[]) :
    Recognises (readCodes base counts remaining) (fun bytes index =>
      bytes=codesBytes index ∧ bytes.length=remaining ∧
      index={base with sketches := index.sketches,pqCodebook := index.pqCodebook,pqCodes := index.pqCodes} ∧
      index.pqCodebook.length=counts.codebookValues.toNat ∧ index.codesLength=counts.codeBytes.toNat ∧
      (index.approximation=.simHash → SketchTables index) ∧
      (index.approximation=.productQuantization → QuantizedTables index)) := by
  unfold readCodes
  cases hk : base.approximation with
  | simHash =>
    have hg := (show Recognises (readSketches base.toParameters counts remaining) _ from
      readSketches_recognises hr).bind
      (fun value => Recognises.guarded (value.2≠0)
        (.thrown (runtimeError "index has unexpected trailing bytes"))
        (.pure ({base with sketches := value.1} : Index)))
    refine hg.congr (fun bytes index => ?_)
    constructor
    · rintro ⟨⟨sketches,rest⟩,_,_,rfl,⟨rfl,hp,hv,hcode,hl,hlen⟩,hz,rfl,rfl⟩
      dsimp only at *
      rw [ne_eq,not_not] at hz
      have hk' : ({base with sketches := sketches} : Index).approximation=.simHash := hk
      refine ⟨?_,?_,rfl,?_,?_,fun _ => ⟨hp,?_,hb,hc⟩,fun h => ?_⟩
      · rw [codesBytes,if_pos hk',List.append_nil]
      · rw [List.append_nil]
        omega
      · rw [hb,hv]
        rfl
      · rw [Index.codesLength,if_pos hk',hcode]
      · exact hl.trans (by rw [←hsize]; rfl)
      · rw [hk'] at h
        cases h
    · rintro ⟨rfl,hlen,hi,hv,hcode,hs',-⟩
      have hk' : index.approximation=.simHash := by rw [hi]; exact hk
      have ht := hs' hk'
      have hpar : index.toParameters=base.toParameters := by rw [hi]
      have hsz : index.size=base.size := by rw [hi]; rfl
      rw [codesBytes,if_pos hk'] at hlen ⊢
      rw [Index.codesLength,if_pos hk'] at hcode
      have hp := ht.toSketchParameters
      have hl := ht.sketches_length
      rw [hpar] at hp
      rw [hsz,hsize] at hl
      rw [ht.codebook_nil] at hv
      refine ⟨(index.sketches,0),_,[],(List.append_nil _).symm,⟨rfl,hp,?_,hcode.symm,?_,hlen⟩,
        by simp,rfl,?_⟩
      · exact UInt64.toNat_inj.mp hv.symm
      · rw [hl,←hpar]
      · rw [hi]
        simp [ht.codebook_nil,ht.codes_nil,hb,hc]
  | productQuantization =>
    have hg := (show Recognises (readQuantized base.toParameters counts remaining) _ from
      readQuantized_recognises hr).bind
      (fun value => Recognises.guarded (value.2.2≠0)
        (.thrown (runtimeError "index has unexpected trailing bytes"))
        (.pure ({base with pqCodebook := value.1,pqCodes := value.2.1} : Index)))
    refine hg.congr (fun bytes index => ?_)
    constructor
    · rintro ⟨⟨codebook,codes,rest⟩,_,_,rfl,⟨rfl,hp,hv,hcode,hl,hlen,hall,hsum⟩,hz,rfl,rfl⟩
      dsimp only at *
      rw [ne_eq,not_not] at hz
      have hk' : ¬({base with pqCodebook := codebook,pqCodes := codes} : Index).approximation=
          .simHash := by
        change ¬base.approximation=_
        rw [hk]
        decide
      refine ⟨?_,?_,rfl,hv.symm,?_,fun h => absurd h hk',fun _ => ⟨hp,hl,hall,?_,hs⟩⟩
      · rw [codesBytes,if_neg hk',List.append_nil]
      · rw [List.append_nil]
        omega
      · rw [Index.codesLength,if_neg hk',hcode]
      · exact hlen.trans (by rw [←hsize]; rfl)
    · rintro ⟨rfl,hlen,hi,hv,hcode,-,hq⟩
      have hkq : index.approximation=.productQuantization := by rw [hi]; exact hk
      have hk' : ¬index.approximation=.simHash := by
        rw [hkq]
        decide
      have ht := hq hkq
      have hpar : index.toParameters=base.toParameters := by rw [hi]
      have hsz : index.size=base.size := by rw [hi]; rfl
      rw [codesBytes,if_neg hk'] at hlen ⊢
      rw [Index.codesLength,if_neg hk'] at hcode
      have hp := ht.toQuantizedParameters
      have hl := ht.codebook_length
      have hcl := ht.codes_length
      rw [hpar] at hp hl hcl
      rw [hsz,hsize] at hcl
      refine ⟨(index.pqCodebook,index.pqCodes,0),_,[],(List.append_nil _).symm,
        ⟨rfl,hp,hv.symm,hcode.symm,hl,hcl,ht.coordinates,hlen⟩,by simp,rfl,?_⟩
      rw [hi]
      simp [ht.sketches_nil,hs]

/-- The tables are read when they are well formed and fill what remains. -/
theorem readTables_recognises (path : Text) (pairIdentity : PairIdentity) (parameters : Parameters)
    {counts : Counts} {remaining : ℕ} (hr : remaining≤uint64Max)
    (hc : counts.nodes.toNat+1≤uint64Max) :
    Recognises (readTables path pairIdentity parameters counts remaining) (fun bytes index =>
      bytes=tableBytes index ∧ bytes.length=remaining ∧ index.path=path ∧
      index.pairIdentity=pairIdentity ∧ index.toParameters=parameters ∧ Declares counts index ∧
      TablesLoadable index) := by
  have hg : Recognises (readTables path pairIdentity parameters counts remaining) _ :=
    Recognises.attemptedOf _ (fun first hf => (readResized_recognises counts.fingerprintSize.toNat).bind
    (fun fingerprint => (readBaseGraph_recognises
      (by have := (consume_ok hr _ _ _ _).mp hf; omega)).bindOf
    (fun base _ hbase => (readUpperLayers_recognises hc parameters.entryPoint parameters.maxLevel.toNat
      (show base.2.2≤uint64Max by have := (consume_ok hr _ _ _ _).mp hf; omega)).bindOf
    (fun layers _ hlayers => readCodes_recognises
      ⟨parameters,path,pairIdentity,fingerprint,base.1,base.2.1,layers.1,[],[],[]⟩
      (show layers.2≤uint64Max by have := (consume_ok hr _ _ _ _).mp hf; omega) (size_of_offsets hbase.2.2.1.offsets_length)
      rfl rfl rfl))))
  refine hg.congr (fun bytes index => ?_)
  constructor
  · rintro ⟨first,hf,fingerprint,_,_,rfl,⟨rfl,hfp⟩,⟨offsets,edges,middle⟩,_,_,rfl,
      ⟨rfl,he,hrows,-,h1⟩,⟨layers,rest⟩,_,_,rfl,⟨rfl,hl,hall,h2⟩,rfl,h3,hi,hv,hcode,hs,hq⟩
    obtain ⟨-,hf⟩ := (consume_ok hr _ _ _ _).mp hf
    dsimp only at *
    have hsize : index.size=counts.nodes.toNat := by
      rw [hi]
      exact size_of_offsets hrows.offsets_length
    have hfields : index.embedderFingerprint=fingerprint ∧ index.offsets=offsets ∧
        index.edges=edges ∧ index.upperLayers=layers ∧ index.path=path ∧
        index.pairIdentity=pairIdentity ∧ index.toParameters=parameters := by
      rw [hi]
      exact ⟨rfl,rfl,rfl,rfl,rfl,rfl,rfl⟩
    obtain ⟨rfl,rfl,rfl,rfl,rfl,rfl,rfl⟩ := hfields
    refine ⟨by simp [tableBytes],?_,rfl,rfl,rfl,⟨hrows.offsets_length,he,hv,hcode,hfp⟩,
      ⟨hl,by rw [hsize]; exact hrows,by rw [hsize]; exact hall,hs,hq⟩⟩
    simp only [List.length_append] at h1 ⊢
    omega
  · rintro ⟨rfl,hlen,rfl,rfl,rfl,hd,ht⟩
    have hsize := hd.size
    have hrows := ht.rows
    have hlayers := ht.layers
    rw [hsize] at hrows hlayers
    simp only [tableBytes,List.length_append] at hlen
    refine ⟨remaining-index.embedderFingerprint.length,(consume_ok hr _ _ _ _).mpr
      ⟨by omega,by rw [←hd.fingerprint]; omega⟩,index.embedderFingerprint,_,_,rfl,
      ⟨rfl,hd.fingerprint⟩,(index.offsets,index.edges,
        (index.upperLayers.flatMap layerBytes).length+(codesBytes index).length),
      index.offsets.flatMap encode++index.edges.flatMap encode,_,by rw [List.append_assoc],
      ⟨rfl,hd.edges,hrows,hc,?_⟩,(index.upperLayers,(codesBytes index).length),_,_,rfl,
      ⟨rfl,ht.layers_length,hlayers,rfl⟩,rfl,rfl,rfl,hd.codebook,hd.codes,ht.sketched,ht.quantized⟩
    rw [List.length_append]
    dsimp only
    omega

@[simp] theorem parameterBytes_length (parameters : Parameters) :
    (parameterBytes parameters).length=48 := by
  simp [parameterBytes]

@[simp] theorem countBytes_length (counts : Counts) : (countBytes counts).length=36 := by
  simp [countBytes]

@[simp] theorem indexMagic_length : indexMagic.length=8 := by decide

/-- An index file without its digest is a header and tables. -/
theorem indexBytes_length (index : Index) (count : ℕ) :
    (indexBytes index count).length=132+(tableBytes index).length := by
  simp only [indexBytes,bodyBytes,List.length_append,indexMagic_length,encode_length,width_uint32,
    Vector.length_toList,parameterBytes_length,countBytes_length]
  omega

/-- The conditions on the tables and the declared sizes make an index loadable. -/
theorem TablesLoadable.loadable {index : Index} {counts : Counts} (h : TablesLoadable index)
    (hd : Declares counts index) (hi : isZeroIdentity index.pairIdentity=false)
    (hdim : index.dimension≠0) (he : index.entryPoint.toNat<counts.nodes.toNat)
    (hl : index.maxLevel.toNat≤64) : Loadable index := by
  have hf : index.embedderFingerprint.length<2^32 := by
    rw [hd.fingerprint]
    exact counts.fingerprintSize.toNat_lt
  exact ⟨hi,hdim,by rw [hd.size]; exact he,hl,h.layers_length,h.rows,h.layers,hf,h.sketched,h.quantized⟩

/-- A loadable index whose tables can be addressed declares their sizes. -/
theorem Loadable.declares {index : Index} (h : Loadable index)
    (hs : (tableBytes index).length≤uint64Max) :
    Declares (index.counts index.size) index := by
  have hw : ∀ size≤uint64Max,(UInt64.ofNat size).toNat=size := by
    intro size hle
    unfold uint64Max at hle
    rw [UInt64.toNat_ofNat']
    omega
  have hoff := h.rows.offsets_length
  have hcodes : index.codesLength≤(codesBytes index).length ∧
      index.pqCodebook.length≤(codesBytes index).length := by
    unfold Index.codesLength codesBytes
    cases hk : index.approximation with
    | simHash =>
      simp only [if_true,encode_flatMap_length,width_uint64,(h.sketched hk).codebook_nil]
      exact ⟨le_refl _,Nat.zero_le _⟩
    | productQuantization =>
      simp only [reduceCtorEq,if_false,List.length_append,floatBytes_flatMap_length]
      omega
  simp only [tableBytes,List.length_append,encode_flatMap_length,width_uint64,width_uint32] at hs
  have hfp := h.fingerprint_lt
  refine ⟨?_,?_,?_,?_,?_⟩
  · rw [Index.counts,hw _ (by omega)]
    exact hoff
  · rw [Index.counts,hw _ (by omega)]
  · rw [Index.counts,hw _ (by omega)]
  · rw [Index.counts,hw _ (by omega)]
  · rw [Index.counts,UInt32.toNat_ofNat',Nat.mod_eq_of_lt hfp]

/-- Loading succeeds exactly on the sealed serialisation of an index that
satisfies the structural conditions. -/
theorem load_ok (path : Text) (file : List UInt8) (index : Index) :
    load path file=.ok index ↔ Loadable index ∧ index.path=path ∧
      (indexBytes index index.size).length≤uint64Max/8 ∧
      file=sealBytes (indexBytes index index.size) := by
  have hrun : load path file=.ok index ↔ ∃ stop,loadReader path ⟨file,0⟩=.ok (index,stop) := by
    unfold load
    cases loadReader path ⟨file,0⟩ with
    | error fault => simp [bind,Except.bind]
    | ok pair =>
      obtain ⟨loaded,stop⟩ := pair
      simp [bind,Except.bind,pure,Except.pure]
  rw [hrun]
  simp only [loadReader,readBody,run_bind_ok,readBytes_recognises _ _ _ _,readLe_recognises _ _ _ _,
    readArray_recognises 32 _ _ _,verifySha256Footer_ok,readParameters_recognises _ _ _,
    readCounts_recognises _ _ _,run_tell_ok,run_attempt_ok,run_seek_ok,check,run_failIf_ok,
    checkedSize_ok,exists_and_left,exists_eq_left,exists_const,and_assoc,ne_eq,not_not,
    Stream.skip,Stream.rest,List.drop_zero,Nat.zero_add,Nat.reduceAdd,encode_length,width_uint32,
    Vector.length_toList,parameterBytes_length,countBytes_length,indexMagic_length,and_true]
  constructor
  · rintro ⟨stop,magic,_,⟨_,rfl,-,hmagic,rfl⟩,rfl,_,hversion,rfl,size,_,
      ⟨payload,hfile,hs,rfl,rfl⟩,_,hmetric,rfl,identity,hidentity,hzero,parameters,hparameters,
      counts,hcounts,hheader,hsize,hmax,hnodes,-,-,-,-,htables⟩
    dsimp only at *
    rw [indexMagic_length] at hversion
    simp only [not_or,ge_iff_le,not_le,gt_iff_lt] at hheader
    obtain ⟨-,hdim,hentry,hlevel⟩ := hheader
    have hlevel : parameters.maxLevel.toNat≤64 := Nat.not_lt.mp (fun h =>
      hlevel (UInt32.lt_iff_toNat_lt.mpr (show (64 : UInt32).toNat<_ from h)))
    have hbound : payload.length-132≤uint64Max := by
      unfold uint64Max at hs ⊢
      omega
    obtain ⟨_,⟨rfl,hlen,hpath,rfl,rfl,hd,ht⟩,hrest,-⟩ :=
      (readTables_recognises path identity parameters hbound (by omega) _ _ _).mp htables
    have hload := ht.loadable hd (by simpa using hzero) hdim hentry hlevel
    rw [←hd.counts_eq] at hcounts
    have h96 : countBytes (index.counts index.size)++tableBytes index<+:file.drop 96 :=
      append_prefix hcounts (by rw [countBytes_length,List.drop_drop]; exact hrest)
    have h48 : parameterBytes index.toParameters++(countBytes (index.counts index.size)++
        tableBytes index)<+:file.drop 48 :=
      append_prefix hparameters (by rw [parameterBytes_length,List.drop_drop]; exact h96)
    have h16 : index.pairIdentity.toList++(parameterBytes index.toParameters++
        (countBytes (index.counts index.size)++tableBytes index))<+:file.drop 16 :=
      append_prefix hidentity (by rw [Vector.length_toList,List.drop_drop]; exact h48)
    have h12 : bodyBytes index index.size<+:file.drop 12 :=
      append_prefix hmetric (by rw [encode_length,List.drop_drop]; exact h16)
    have h8 : encode indexVersion++bodyBytes index index.size<+:file.drop 8 :=
      append_prefix hversion (by rw [encode_length,List.drop_drop]; exact h12)
    have h0 : indexBytes index index.size<+:file :=
      append_prefix hmagic (by rw [indexMagic_length]; exact h8)
    have hpayload : payload=indexBytes index index.size := by
      have hp : payload<+:file := ⟨_,hfile.symm⟩
      have hl : payload.length=(indexBytes index index.size).length := by
        rw [indexBytes_length]
        omega
      rw [List.prefix_iff_eq_take.mp hp,List.prefix_iff_eq_take.mp h0,hl]
    rw [hpayload] at hs hfile
    exact ⟨hload,hpath,hs,hfile⟩
  · rintro ⟨hload,hpath,hs,rfl⟩
    have hlen := indexBytes_length index index.size
    have hd := hload.declares (by unfold uint64Max at hs ⊢; omega)
    have hbound : (indexBytes index index.size).length-132≤uint64Max := by
      unfold uint64Max at hs ⊢
      omega
    have hoff : index.size+1≤uint64Max := by
      have ho := hload.rows.offsets_length
      have ht : (tableBytes index).length≥index.offsets.length*8 := by
        simp only [tableBytes,List.length_append,encode_flatMap_length,width_uint64]
        omega
      unfold uint64Max at hs ⊢
      omega
    have hnodes := hd.size
    have hsplit : sealBytes (indexBytes index index.size)=indexMagic++(encode indexVersion++
        (encode cosineMetric++(index.pairIdentity.toList++(parameterBytes index.toParameters++
        (countBytes (index.counts index.size)++(tableBytes index++
          (digest (indexBytes index index.size)).toList)))))) := by
      simp only [sealBytes,indexBytes,bodyBytes,List.append_assoc]
    have h8 : (sealBytes (indexBytes index index.size)).drop 8=encode indexVersion++
        (encode cosineMetric++(index.pairIdentity.toList++(parameterBytes index.toParameters++
        (countBytes (index.counts index.size)++(tableBytes index++
          (digest (indexBytes index index.size)).toList))))) := by
      rw [hsplit]
      exact List.drop_left' indexMagic_length
    have hnext {front back : List UInt8} {n m : ℕ}
        (h : (sealBytes (indexBytes index index.size)).drop n=front++back)
        (hm : n+front.length=m) : (sealBytes (indexBytes index index.size)).drop m=back := by
      rw [←hm,←List.drop_drop,h,List.drop_left]
    have h12 := hnext h8 (m := 12) (by rw [encode_length,width_uint32])
    have h16 := hnext h12 (m := 16) (by rw [encode_length,width_uint32])
    have h48 := hnext h16 (m := 48) (by rw [Vector.length_toList])
    have h96 := hnext h48 (m := 96) (by rw [parameterBytes_length])
    have h132 := hnext h96 (m := 132) (by rw [countBytes_length])
    have hlevel := hload.level_le
    have hentry := hload.entry_lt
    have hne : (index.counts index.size).nodes≠0 := fun h => by
      rw [hnodes,h] at hentry
      exact Nat.not_lt_zero _ hentry
    have htables := (readTables_recognises path index.pairIdentity index.toParameters hbound
      (by rw [←hnodes]; exact hoff) ⟨sealBytes (indexBytes index index.size),132⟩ index _).mpr
      ⟨tableBytes index,⟨rfl,by omega,hpath,rfl,rfl,hd,⟨hload.layers_length,hload.rows,hload.layers,
        hload.sketched,hload.quantized⟩⟩,by rw [Stream.rest,h132]; exact List.prefix_append _ _,rfl⟩
    refine ⟨_,indexMagic,_,⟨indexMagic,rfl,indexMagic_length,?_,rfl⟩,rfl,indexVersion,?_,rfl,
      (indexBytes index index.size).length,_,⟨indexBytes index index.size,rfl,hs,rfl,rfl⟩,
      cosineMetric,?_,rfl,index.pairIdentity,?_,?_,index.toParameters,?_,
      index.counts index.size,?_,?_,by omega,by omega,by omega,?_,?_,?_,?_,htables⟩
    · rw [hsplit]
      exact List.prefix_append _ _
    · rw [indexMagic_length,h8]
      exact List.prefix_append _ _
    · rw [h12]
      exact List.prefix_append _ _
    · rw [h16]
      exact List.prefix_append _ _
    · rw [hload.identity_nonzero]
      simp
    · rw [h48]
      exact List.prefix_append _ _
    · rw [h96]
      exact List.prefix_append _ _
    · simp only [not_or]
      refine ⟨hne,hload.dimension_pos,by rw [←hnodes]; omega,fun h => ?_⟩
      have hlt : 64< index.maxLevel.toNat := UInt32.lt_iff_toNat_lt.mp h
      omega
    · exact Nat.le_pred_of_lt (index.counts index.size).edges.toNat_lt
    · have := (index.counts index.size).fingerprintSize.toNat_lt
      unfold uint64Max
      omega
    · exact Nat.le_pred_of_lt (index.counts index.size).codebookValues.toNat_lt
    · exact Nat.le_pred_of_lt (index.counts index.size).codeBytes.toNat_lt

/-- A loadable index whose fields can be hashed is loaded from its bytes. -/
theorem Loadable.load_sealed {index : Index} (h : Loadable index)
    (hsize : (indexBytes index index.size).length≤uint64Max/8) :
    load index.path (sealBytes (indexBytes index index.size))=.ok index :=
  (load_ok _ _ _).mpr ⟨h,rfl,hsize,rfl⟩

end Loading

section RoundTrip

/-- Saving succeeds exactly when the fingerprint fits its field, the codes
can be counted and the result can be hashed; it then seals the fields. -/
theorem saveIndex_ok (index : Index) (count : ℕ) (file : List UInt8) :
    saveIndex index count=.ok file ↔ index.embedderFingerprint.length<2^32 ∧
      (index.approximation=.simHash → index.sketches.length*8≤uint64Max) ∧
      (indexBytes index count).length≤uint64Max/8 ∧ file=sealBytes (indexBytes index count) := by
  have hstages : saveIndex index count=.ok file ↔ index.embedderFingerprint.length<2^32 ∧
      ∃ fields,writeIndex index count []=.ok ((),fields) ∧
        appendSha256Footer index.path fields=.ok ((),file) := by
    simp only [saveIndex,checkFingerprint,bind_eq_ok,throwIf_ok,exists_const,Prod.exists,pure_eq_ok,
      output_bind_ok]
    refine and_congr (by omega) ?_
    constructor
    · rintro ⟨_,_,⟨_,fields,hw,hf⟩,rfl⟩
      exact ⟨fields,hw,hf⟩
    · rintro ⟨fields,hw,hf⟩
      exact ⟨(),file,⟨(),fields,hw,hf⟩,rfl⟩
  rw [hstages]
  have hlimit : (0 : ℕ)≤ streamoffMax := Nat.zero_le _
  refine and_congr_right (fun _ => ?_)
  constructor
  · rintro ⟨fields,hw,hf⟩
    have hcodes : index.codeBytes=.ok index.codesLength := by
      simp only [writeIndex,output_bind_ok] at hw
      obtain ⟨_,_,-,_,_,-,_,_,-,_,_,-,_,_,-,_,_,hc,-⟩ := hw
      exact writeCounts_ok index count hc
    obtain ⟨-,rfl⟩ := (writeIndex_appends index count hcodes [] () fields hlimit).mp hw
    obtain ⟨hl,rfl⟩ := (appendSha256Footer_ok _ _ _ _).mp hf
    exact ⟨((codeBytes_ok index _).mp hcodes).2,hl,rfl⟩
  · rintro ⟨hc,hl,rfl⟩
    have hcodes := (codeBytes_ok index index.codesLength).mpr ⟨rfl,hc⟩
    refine ⟨indexBytes index count,(writeIndex_appends index count hcodes [] () _ hlimit).mpr
      ⟨?_,rfl⟩,(appendSha256Footer_ok _ _ _ _).mpr ⟨hl,rfl⟩⟩
    unfold uint64Max at hl
    unfold streamoffMax
    rw [List.length_nil]
    omega

/-- A loadable index whose fields can be hashed is saved and loaded back, and
a loaded index is saved again byte for byte. -/
theorem indexFile_round_trip :
    (∀ index : Index,Loadable index →
      ((∃ file,saveIndex index index.size=.ok file) ↔
        (indexBytes index index.size).length≤uint64Max/8) ∧
      ∀ file,saveIndex index index.size=.ok file → load index.path file=.ok index) ∧
    ∀ (path : Text) (file : List UInt8) (index : Index),load path file=.ok index →
      index.path=path ∧ Loadable index ∧ saveIndex index index.size=.ok file := by
  have hcodes (index : Index) (hl : (indexBytes index index.size).length≤uint64Max/8) :
      index.approximation=.simHash → index.sketches.length*8≤uint64Max := by
    intro hk
    have hc : (codesBytes index).length=index.sketches.length*8 := by
      rw [codesBytes,if_pos hk,encode_flatMap_length,width_uint64]
    rw [indexBytes_length] at hl
    simp only [tableBytes,List.length_append] at hl
    omega
  constructor
  · intro index hload
    refine ⟨⟨?_,fun hl => ?_⟩,fun file hs => ?_⟩
    · rintro ⟨file,hs⟩
      exact ((saveIndex_ok _ _ _).mp hs).2.2.1
    · exact ⟨_,(saveIndex_ok _ _ _).mpr ⟨hload.fingerprint_lt,hcodes index hl,hl,rfl⟩⟩
    · obtain ⟨-,-,hl,rfl⟩ := (saveIndex_ok _ _ _).mp hs
      exact (load_ok _ _ _).mpr ⟨hload,rfl,hl,rfl⟩
  · intro path file index hl
    obtain ⟨hload,hpath,hsize,rfl⟩ := (load_ok _ _ _).mp hl
    exact ⟨hpath,hload,(saveIndex_ok _ _ _).mpr
      ⟨hload.fingerprint_lt,hcodes index hsize,hsize,rfl⟩⟩

/-- Two nodes below one layer, with two centroids of two coordinates. -/
def pairIndex : Index where
  dimension := 2
  approximation := .productQuantization
  maxDegree := 4
  entryPoint := 1
  maxLevel := 1
  sketchBits := 0
  pqSubquantizers := 1
  pqBits := 1
  pqCentroids := 2
  pqSubdimension := 2
  sketchSeed := 0
  path := "pair.leann"
  pairIdentity := .replicate 32 1
  embedderFingerprint := [104]
  offsets := [0,1,2]
  edges := [1,0]
  upperLayers := [⟨[1],[0,0],[]⟩]
  sketches := []
  pqCodebook := [0,1,1,0]
  pqCodes := [0,1]

/-- The coordinates that the centroids of such small indexes have. -/
theorem coordinates : Coordinate 0 ∧ Coordinate 1 ∧ Coordinate (-1) := by
  unfold Coordinate
  decide +kernel

theorem pairIndex_loadable : Loadable pairIndex where
  identity_nonzero := by decide
  dimension_pos := by decide
  entry_lt := by decide
  level_le := by decide
  layers_length := by decide
  rows := ⟨by decide,by decide,by decide,by decide⟩
  layers := by
    intro layer hl
    have he : layer=⟨[1],[0,0],[]⟩ := by simpa [pairIndex] using hl
    subst he
    exact ⟨by decide,by decide,⟨by decide,by decide,by decide,by decide⟩,by decide,by decide⟩
  fingerprint_lt := by decide
  sketched h := absurd h (by decide)
  quantized _ := ⟨⟨by decide,by decide,by decide,by decide,by decide,by decide,by decide,by decide⟩,
    by decide,by simp [pairIndex,coordinates],by decide,rfl⟩

/-- An index with a layer and centroids is saved, loaded and saved again. -/
theorem indexFile_round_trip_pair :
    ∃ file,saveIndex pairIndex 2=.ok file ∧ load pairIndex.path file=.ok pairIndex ∧
      Loadable pairIndex := by
  obtain ⟨hforward,hback⟩ := indexFile_round_trip
  obtain ⟨hwrite,hload⟩ := hforward pairIndex pairIndex_loadable
  obtain ⟨file,hfile⟩ := hwrite.mpr (by rw [indexBytes_length]; decide)
  have hl := hload file hfile
  exact ⟨file,(hback _ _ _ hl).2.2,hl,(hback _ _ _ hl).2.1⟩

end RoundTrip

end Leann.IndexFile
