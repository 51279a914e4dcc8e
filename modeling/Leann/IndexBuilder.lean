import Leann.Search
import Leann.Training
import Mathlib.Data.List.Dedup
import Mathlib.Data.List.Sort

/-!
# From embeddings to an index

What `Index::build` does between the embeddings and the file: the layers of
the graph are read out of the HNSW library, the base graph is pruned and
compacted, and the vectors are reduced to codes.
-/

namespace Leann.IndexBuilder

open BinaryFloat Exceptions Documents IndexFile Embeddings ProductQuantizer Search Training

/-- `BuildConfig` without its observers. -/
structure BuildConfig where
  /-- Neighbours a node is given when it is inserted. -/
  graphDegree : UInt32
  /-- Effort of an insertion. -/
  efConstruction : UInt32
  /-- Neighbours kept for an ordinary node. -/
  lowDegree : UInt32
  /-- Share of the nodes that keep more. -/
  hubRatio : Double
  /-- Which codes the index holds. -/
  approximation : ApproximationKind
  /-- Bits of a sketch. -/
  sketchBits : UInt32
  /-- Number of subspaces. -/
  pqSubquantizers : UInt32
  /-- Bits of a centroid number. -/
  pqBits : UInt32
  /-- Rounds of training. -/
  pqTrainingIterations : UInt32
  /-- Vectors used in training. -/
  pqTrainingSamples : UInt32
  /-- Texts embedded at once. -/
  embeddingBatchSize : UInt32
  /-- Seed of every random choice. -/
  randomSeed : UInt32

/-- `validate_build_config`. -/
def validateBuildConfig (config : BuildConfig) : Except Fault Unit := do
  throwIf (config.graphDegree<2 ∨ config.graphDegree.toNat>(2^32-1)/2)
    (invalidArgument "graph_degree must be in [2, UINT32_MAX / 2]")
  throwIf (config.efConstruction<config.graphDegree)
    (invalidArgument "ef_construction must be at least graph_degree")
  throwIf (config.lowDegree=0 ∨ config.lowDegree>config.graphDegree*2)
    (invalidArgument "low_degree must be in [1, 2 * graph_degree]")
  throwIf (¬config.hubRatio.Finite ∨ config.hubRatio<0 ∨ (1 : Double)<config.hubRatio)
    (invalidArgument "hub_ratio must be finite and in [0, 1]")
  throwIf ((config.sketchBits<64 ∨ config.sketchBits%64≠0) ∧ config.approximation=.simHash)
    (invalidArgument "sketch_bits must be a multiple of 64 and at least 64")
  throwIf (config.approximation=.simHash ∧ config.sketchBits>4096)
    (invalidArgument "sketch_bits must not exceed 4096")
  throwIf (config.approximation=.productQuantization ∧ (config.pqSubquantizers=0 ∨
    config.pqBits=0 ∨ config.pqBits>8 ∨ config.pqTrainingIterations=0 ∨ config.pqTrainingSamples=0))
    (invalidArgument "invalid product quantization settings")
  throwIf (config.embeddingBatchSize=0) (invalidArgument "embedding_batch_size must be positive")

/-- What is read from the HNSW library once all vectors are inserted. -/
structure HnswGraph where
  /-- `getExternalLabel`. -/
  label : ℕ → ℕ
  /-- `element_levels_`. -/
  level : ℕ → ℤ
  /-- `getConnectionsWithLock` of a node at a level. -/
  links : ℕ → ℕ → List ℕ
  /-- `maxlevel_`. -/
  maxLevel : ℤ
  /-- `enterpoint_node_`. -/
  enterpoint : ℕ

section Extraction

/-- Sorted without duplicates. -/
def sortUnique (ids : List UInt32) : List UInt32 :=
  (ids.insertionSort (·≤·)).dedup

/-- `internal_to_external`. -/
def internalToExternal (hnsw : HnswGraph) (count : ℕ) : Except Fault (List UInt32) :=
  (List.range count).mapM (fun internal => do
    throwIf (hnsw.label internal≥count) (runtimeError "hnswlib returned an invalid label")
    return UInt32.ofNat (hnsw.label internal))

/-- The neighbours of a node at a level, under their labels. -/
def connections (hnsw : HnswGraph) (count : ℕ) (externals : List UInt32) (internal level : ℕ)
    (message : Text) : Except Fault (List UInt32) :=
  (hnsw.links internal level).mapM (fun neighbor => do
    throwIf (neighbor≥count) (runtimeError message)
    element externals neighbor)

/-- One round of the loop that fills `original`. -/
def extractRow (hnsw : HnswGraph) (count : ℕ) (externals : List UInt32)
    (original : List (List UInt32)) (internal : ℕ) : Except Fault (List (List UInt32)) := do
  let source ← element externals internal
  let neighbors ← connections hnsw count externals internal 0 "hnswlib returned an invalid edge"
  let row ← element original source.toNat
  assign original source.toNat (row++neighbors)

/-- `original`. -/
def extractAdjacency (hnsw : HnswGraph) (count : ℕ) (externals : List UInt32) :
    Except Fault (List (List UInt32)) :=
  (List.range count).foldlM (extractRow hnsw count externals) (List.replicate count [])

/-- `maximum_level`. -/
def maximumLevel (hnsw : HnswGraph) : ℕ := hnsw.maxLevel.toNat

/-- One node of `adjacency`. -/
def layerNode (hnsw : HnswGraph) (count : ℕ) (externals : List UInt32) (level internal : ℕ) :
    Except Fault (UInt32×List UInt32) := do
  let neighbors ← connections hnsw count externals internal level
    "hnswlib returned an invalid upper-layer edge"
  let source ← element externals internal
  return (source,sortUnique neighbors)

/-- Rows one behind the other. -/
def compress (adjacency : List (UInt32×List UInt32)) : UpperLayer where
  nodes := adjacency.map Prod.fst
  offsets := ((adjacency.map (fun row => row.2.length)).scanl (·+·) 0).map UInt64.ofNat
  edges := adjacency.flatMap Prod.snd

/-- One upper layer. -/
def extractLayer (hnsw : HnswGraph) (count : ℕ) (externals : List UInt32) (level : ℕ) :
    Except Fault UpperLayer := do
  let members := (List.range count).filter (fun internal => decide (¬hnsw.level internal<level))
  let adjacency ← members.mapM (layerNode hnsw count externals level)
  return compress (adjacency.insertionSort (fun lhs rhs => lhs.1≤ rhs.1))

/-- `upper_layers`. -/
def extractLayers (hnsw : HnswGraph) (count : ℕ) (externals : List UInt32) :
    Except Fault (List UpperLayer) :=
  (List.range (maximumLevel hnsw)).mapM (fun above => extractLayer hnsw count externals (above+1))

end Extraction

section Pruning

/-- `degree_order`. -/
def degreeOrder (original : List (List UInt32)) : List ℕ :=
  (List.range original.length).insertionSort (fun lhs rhs =>
    (original.getD rhs []).length≤(original.getD lhs []).length)

/-- `hub_count`. -/
def hubCount (config : BuildConfig) (count : ℕ) : ℕ :=
  if config.hubRatio≤0 ∧ 0≤ config.hubRatio then 0 else max 1 (config.hubRatio*Binary.ofNat count).ceil

/-- `is_hub`. -/
def hubs (config : BuildConfig) (original : List (List UInt32)) : Except Fault (List Bool) :=
  ((degreeOrder original).take (min original.length (hubCount config original.length))).foldlM
    (fun isHub node => assign isHub node true) (List.replicate original.length false)

/-- The distances that are compared to sort the neighbours of a node. A list
of one is not compared. -/
def neighborDistances (embeddings : List Embedding) (source : ℕ) (neighbors : List UInt32) :
    Except Fault (List (UInt32×Single)) :=
  if neighbors.length<2 then return neighbors.map (fun neighbor => (neighbor,0))
  else neighbors.mapM (fun neighbor => do
    let lhs ← element embeddings source
    let rhs ← element embeddings neighbor.toNat
    let distance ← cosineDistance lhs rhs
    return (neighbor,distance))

/-- `stable_sort` by the distance to a node. -/
def closestFirst (embeddings : List Embedding) (source : ℕ) (neighbors : List UInt32) :
    Except Fault (List UInt32) := do
  let distances ← neighborDistances embeddings source neighbors
  return (distances.insertionSort (fun lhs rhs => ¬rhs.2<lhs.2)).map Prod.fst

/-- `maximum_degree`. -/
def maximumDegree (config : BuildConfig) : UInt32 := config.graphDegree*2

/-- `push_back` of one neighbour. -/
def pushNeighbor (graph : List (List UInt32)) (source : ℕ) (neighbor : UInt32) :
    Except Fault (List (List UInt32)) := do
  let row ← element graph source
  assign graph source (row++[neighbor])

/-- An edge in both directions, unless it is a loop. -/
def linkBoth (source : ℕ) (graph : List (List UInt32)) (neighbor : UInt32) :
    Except Fault (List (List UInt32)) :=
  if neighbor=UInt32.ofNat source then return graph
  else do
    let graph ← pushNeighbor graph source neighbor
    pushNeighbor graph neighbor.toNat (UInt32.ofNat source)

/-- One round of the pruning loop. -/
def pruneNode (config : BuildConfig) (embeddings : List Embedding) (original : List (List UInt32))
    (isHub : List Bool) (graph : List (List UInt32)) (source : ℕ) :
    Except Fault (List (List UInt32)) := do
  let row ← element original source
  let neighbors ← closestFirst embeddings source (sortUnique row)
  let hub ← element isHub source
  let cap := if hub then (maximumDegree config).toNat else config.lowDegree.toNat
  (neighbors.take cap).foldlM (linkBoth source) graph

/-- `graph`. -/
def prune (config : BuildConfig) (embeddings : List Embedding) (original : List (List UInt32))
    (isHub : List Bool) : Except Fault (List (List UInt32)) :=
  (List.range original.length).foldlM (pruneNode config embeddings original isHub)
    (List.replicate original.length [])

/-- One round of the compacting loop. -/
def compactNode (config : BuildConfig) (embeddings : List Embedding) (graph : List (List UInt32))
    (rows : List (List UInt32)) (source : ℕ) : Except Fault (List (List UInt32)) := do
  let row ← element graph source
  let neighbors ← closestFirst embeddings source (sortUnique row)
  return rows++[neighbors.take (maximumDegree config).toNat]

/-- The rows of the base graph. -/
def compact (config : BuildConfig) (embeddings : List Embedding) (graph : List (List UInt32)) :
    Except Fault (List (List UInt32)) :=
  (List.range graph.length).foldlM (compactNode config embeddings graph) []

/-- `offsets` of rows. -/
def rowOffsets (rows : List (List UInt32)) : List UInt64 :=
  ((rows.map List.length).scanl (·+·) 0).map UInt64.ofNat

end Pruning

section Quantizing

/-- What the vectors are reduced to. -/
structure Codes where
  /-- Seed of the random projections. -/
  sketchSeed : UInt64
  /-- Sketches of all nodes, one behind the other. -/
  sketches : List UInt64
  /-- `pq`. -/
  pq : ProductQuantizerModel Single

/-- A default `ProductQuantizerModel`. -/
def noQuantizer : ProductQuantizerModel Single := ⟨0,0,0,0,0,[],[]⟩

/-- `sketch_seed`. -/
def sketchSeed (config : BuildConfig) : UInt64 :=
  splitmix64 (config.randomSeed.toUInt64^^^0x4c45414e4e435050)

/-- One round of the loop that fills `sketches`. -/
def sketchNode (config : BuildConfig) (sketches : List UInt64) (embedding : Embedding) :
    Except Fault (List UInt64) := do
  let sketch ← makeSketch embedding config.sketchBits.toNat (sketchSeed config)
  return sketches++sketch

/-- The call of `train_product_quantizer`. -/
def trainCodes (config : BuildConfig) (choices : Choices Double) (embeddings : List Embedding) :
    Except Fault (ProductQuantizerModel Single) :=
  trainProductQuantizer choices embeddings config.pqSubquantizers.toNat config.pqBits.toNat
    config.pqTrainingIterations.toNat config.pqTrainingSamples.toNat

/-- The codes of all vectors. -/
def quantize (config : BuildConfig) (choices : Choices Double) (embeddings : List Embedding) :
    Except Fault Codes :=
  match config.approximation with
  | .simHash => do
    let sketches ← embeddings.foldlM (sketchNode config) []
    return ⟨sketchSeed config,sketches,noQuantizer⟩
  | .productQuantization => do
    let pq ← trainCodes config choices embeddings
    return ⟨0,[],pq⟩

end Quantizing

section Building

/-- `hnsw_dimension`. -/
def hnswDimension (dimension : ℕ) : ℕ := dimension+(if dimension%2=0 then 1 else 0)

/-- The size of the vectors that are handed to the HNSW library. -/
def checkVectors (dimension count : ℕ) : Except Fault Unit :=
  throwIf (count>(2^64-1)/hnswDimension dimension)
    (runtimeError "temporary HNSW vectors are too large")

/-- What an index is made of besides its codes. -/
structure Graph where
  /-- `upper_layers`. -/
  upperLayers : List UpperLayer
  /-- The rows of the base graph. -/
  rows : List (List UInt32)
  /-- `maximum_level`. -/
  maximumLevel : ℕ
  /-- `entry_point`. -/
  entryPoint : ℕ

/-- The graph of an index. -/
def buildGraph (config : BuildConfig) (hnsw : HnswGraph) (embeddings : List Embedding) :
    Except Fault Graph := do
  let count := embeddings.length
  let externals ← internalToExternal hnsw count
  let original ← extractAdjacency hnsw count externals
  let upperLayers ← extractLayers hnsw count externals
  let isHub ← hubs config original
  let graph ← prune config embeddings original isHub
  let rows ← compact config embeddings graph
  return ⟨upperLayers,rows,maximumLevel hnsw,hnsw.label hnsw.enterpoint⟩

/-- The fields that are written to the file. -/
def assemble (config : BuildConfig) (path : Text) (pairIdentity : PairIdentity) (fingerprint : Text)
    (dimension : ℕ) (graph : Graph) (codes : Codes) : Index where
  path := path
  pairIdentity := pairIdentity
  dimension := UInt32.ofNat dimension
  approximation := config.approximation
  maxDegree := maximumDegree config
  entryPoint := UInt32.ofNat graph.entryPoint
  maxLevel := UInt32.ofNat graph.maximumLevel
  sketchBits := if config.approximation=.simHash then config.sketchBits else 0
  pqSubquantizers := UInt32.ofNat codes.pq.subquantizers
  pqBits := UInt32.ofNat codes.pq.bits
  pqCentroids := UInt32.ofNat codes.pq.centroids
  pqSubdimension := UInt32.ofNat codes.pq.subdimension
  sketchSeed := codes.sketchSeed
  embedderFingerprint := fingerprint
  offsets := rowOffsets graph.rows
  edges := graph.rows.flatten
  upperLayers := graph.upperLayers
  sketches := codes.sketches
  pqCodebook := codes.pq.codebook
  pqCodes := codes.pq.codes

/-- From normalised embeddings to the fields of an index. -/
def buildIndex (config : BuildConfig) (choices : Choices Double) (hnsw : List Embedding → HnswGraph)
    (path : Text) (pairIdentity : PairIdentity) (fingerprint : Text) (dimension : ℕ)
    (embeddings : List Embedding) : Except Fault Index := do
  checkVectors dimension embeddings.length
  let graph ← buildGraph config (hnsw embeddings) embeddings
  let codes ← quantize config choices embeddings
  checkFingerprint fingerprint
  return assemble config path pairIdentity fingerprint dimension graph codes

end Building

end Leann.IndexBuilder
