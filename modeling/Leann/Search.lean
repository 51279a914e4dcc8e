import Leann.IndexFile
import Leann.ProductQuantizer
import Leann.Selection

/-!
# Searching an index

`Index::search` and `Index::search_embedding`. Routing, the flat scan, the
best-first search and the final ranking only compare distances, so they are
written for any linearly ordered rank of distances; the code runs them on
floats, which are never NaN there and compare by their key.
-/

namespace Leann.Search

open BinaryFloat Exceptions Documents IndexFile Embeddings ProductQuantizer

/-- `SearchConfig`. -/
structure SearchConfig where
  /-- How many results are asked for. -/
  topK : UInt32
  /-- How many candidates are recomputed. -/
  efSearch : UInt32
  /-- How many texts the embedder is given at once. -/
  recomputeBatchSize : UInt32
  /-- Up to how many nodes are scanned without the graph. -/
  approximateScanLimit : UInt32
  /-- Recomputed candidates per shortlisted one. -/
  rerankRatio : Double

/-- `SearchMetrics` without the time. -/
structure SearchMetrics where
  /-- Approximate distances computed. -/
  approximateDistances : ℕ := 0
  /-- Documents embedded again. -/
  exactRecomputations : ℕ := 0
  /-- Nodes taken from the frontier. -/
  expandedNodes : ℕ := 0
  /-- Calls of the embedder. -/
  embeddingBatches : ℕ := 0
  /-- Moves in the upper layers. -/
  upperLayerHops : ℕ := 0
  deriving DecidableEq

/-- A search in progress. -/
abbrev Searching := StateT SearchMetrics (Except Fault)

/-- A node and its distance. -/
structure Candidate (δ : Type) where
  /-- The distance of the node. -/
  distance : δ
  /-- The node. -/
  id : UInt32
  deriving DecidableEq

/-- `SearchResult`. -/
abbrev SearchResult := Candidate

/-- What a search asks about nodes. -/
structure Distances (δ : Type) where
  /-- The approximate distance of a node. -/
  approximate : UInt32 → Except Fault δ
  /-- The exact distances of the nodes of a batch, given its number. -/
  evaluate : ℕ → List UInt32 → Except Fault (List δ)

section Core

variable {δ κ : Type} [LinearOrder κ] (rank : δ → κ) (distances : Distances δ)

/-- The order of distances, equal ones in the order of the nodes. -/
def Candidate.key (candidate : Candidate δ) : κ×ₗℕ := toLex (rank candidate.distance,candidate.id.toNat)

/-- The comparison that the loops spell out. -/
def Candidate.Nearer (first second : Candidate δ) : Prop :=
  rank first.distance< rank second.distance ∨
    rank first.distance=rank second.distance ∧ first.id<second.id

instance (first second : Candidate δ) : Decidable (first.Nearer rank second) :=
  inferInstanceAs (Decidable (_∨_))

/-- The counting lambda `approximate_distance`. -/
def approximateDistance (node : UInt32) : Searching δ := do
  modify (fun metrics => {metrics with approximateDistances := metrics.approximateDistances+1})
  StateT.lift (distances.approximate node)

section Route

/-- `upper-layer route does not contain its entry node`. -/
def routeError : Exception := runtimeError "upper-layer route does not contain its entry node"

/-- The better of the best node so far and the target of an edge. -/
def improve (layer : UpperLayer) (best : Candidate δ) (edge : ℕ) : Searching (Candidate δ) := do
  let neighbor ← StateT.lift (element layer.edges edge)
  let distance ← approximateDistance distances neighbor
  let candidate : Candidate δ := ⟨distance,neighbor⟩
  return if candidate.Nearer rank best then candidate else best

/-- The best node among a node of a layer and its neighbours. -/
def bestNeighbor (layer : UpperLayer) (routed : Candidate δ) : Searching (Candidate δ) := do
  let position := layer.nodes.findIdx (fun node => decide (routed.id≤node))
  StateT.lift (throwIf (layer.nodes[position]?≠some routed.id) routeError)
  let first ← StateT.lift (element layer.offsets position)
  let last ← StateT.lift (element layer.offsets (position+1))
  (List.range' first.toNat (last.toNat-first.toNat)).foldlM (improve rank distances layer) routed

/-- The loop inside one layer. It is given more turns than the layer has
nodes. -/
def descendLayer (layer : UpperLayer) : ℕ → Candidate δ → Searching (Candidate δ)
  | 0,_ => StateT.lift (.error .endless)
  | turns+1,routed => do
    let best ← bestNeighbor rank distances layer routed
    if best.id=routed.id then return routed
    else do
      modify (fun metrics => {metrics with upperLayerHops := metrics.upperLayerHops+1})
      descendLayer layer turns best

/-- Descend from the entry point through the upper layers. -/
def route (index : Index) : Searching (Candidate δ) := do
  let distance ← approximateDistance distances index.entryPoint
  index.upperLayers.reverse.foldlM
    (fun routed layer => descendLayer rank distances layer (layer.nodes.length+1) routed)
    ⟨distance,index.entryPoint⟩

end Route

section Shortlist

/-- `top` of a priority queue. -/
def top {α : Type} (queue : List α) : Except Fault α := element queue 0

/-- The queues and the marks of the best-first search. -/
structure BeamState (δ : Type) where
  /-- Which nodes were met. -/
  visited : List Bool
  /-- Nodes to expand, the nearest first. -/
  frontier : List (Candidate δ)
  /-- The nearest nodes met, the farthest first. -/
  shortlist : List (Candidate δ)

/-- `approximate_frontier.push`. -/
def pushFrontier (candidate : Candidate δ) (frontier : List (Candidate δ)) : List (Candidate δ) :=
  Selection.push (fun other => OrderDual.toDual (other.key rank)) candidate frontier

/-- `approximate_shortlist.push`, and `pop` beyond the beam. -/
def pushShortlist (beam : ℕ) (candidate : Candidate δ) (shortlist : List (Candidate δ)) :
    List (Candidate δ) := Selection.offer (fun other => other.key rank) beam candidate shortlist

/-- Whether the shortlist has room for a node or a farther one to give up. -/
def competitive (beam : ℕ) (candidate : Candidate δ) (shortlist : List (Candidate δ)) :
    Except Fault Bool :=
  if shortlist.length<beam then return true
  else do
    let worst ← top shortlist
    return decide (candidate.Nearer rank worst)

/-- Follow one edge of the base graph. -/
def visit (index : Index) (beam : ℕ) (state : BeamState δ) (edge : ℕ) : Searching (BeamState δ) := do
  let neighbor ← StateT.lift (element index.edges edge)
  let met ← StateT.lift (element state.visited neighbor.toNat)
  if met then return state
  else do
    let visited ← StateT.lift (assign state.visited neighbor.toNat true)
    let distance ← approximateDistance distances neighbor
    let candidate : Candidate δ := ⟨distance,neighbor⟩
    if ← StateT.lift (competitive rank beam candidate state.shortlist) then
      return ⟨visited,pushFrontier rank candidate state.frontier,
        pushShortlist rank beam candidate state.shortlist⟩
    else return {state with visited := visited}

/-- Whether the nearest node to expand is farther than all of a full
shortlist. -/
def finished (beam : ℕ) (current : Candidate δ) (shortlist : List (Candidate δ)) :
    Except Fault Bool :=
  if shortlist.length≥beam then do
    let worst ← top shortlist
    return decide (worst.Nearer rank current)
  else return false

/-- Follow all edges of a node. The end of its row is looked up at the next
node number in 32 bits. -/
def expand (index : Index) (beam : ℕ) (current : Candidate δ) (state : BeamState δ) :
    Searching (BeamState δ) := do
  modify (fun metrics => {metrics with expandedNodes := metrics.expandedNodes+1})
  let first ← StateT.lift (element index.offsets current.id.toNat)
  let last ← StateT.lift (element index.offsets (current.id+1).toNat)
  (List.range' first.toNat (last.toNat-first.toNat)).foldlM (visit rank distances index beam) state

/-- The best-first loop. It is given more turns than the index has nodes. -/
def beamSearch (index : Index) (beam : ℕ) : ℕ → BeamState δ → Searching (List (Candidate δ))
  | 0,_ => StateT.lift (.error .endless)
  | turns+1,state =>
    match state.frontier with
    | [] => return state.shortlist
    | current::frontier => do
      if ← StateT.lift (finished rank beam current state.shortlist) then return state.shortlist
      else do
        let state ← expand rank distances index beam current {state with frontier := frontier}
        beamSearch index beam turns state

/-- The distance of a node in the scan. That of the routed node is known. -/
def scanDistance (routed : Candidate δ) (node : UInt32) : Searching δ :=
  if node=routed.id then return routed.distance else approximateDistance distances node

/-- One node of the scan. -/
def scanNode (beam : ℕ) (routed : Candidate δ) (shortlist : List (Candidate δ)) (node : ℕ) :
    Searching (List (Candidate δ)) := do
  let distance ← scanDistance distances routed (UInt32.ofNat node)
  return pushShortlist rank beam ⟨distance,UInt32.ofNat node⟩ shortlist

/-- The scan of all nodes. The routed node leaves the shortlist first. -/
def flatScan (index : Index) (beam : ℕ) (routed : Candidate δ) : Searching (List (Candidate δ)) := do
  let shortlist ← (List.range index.size).foldlM (scanNode rank distances beam routed) [routed].tail
  modify (fun metrics => {metrics with expandedNodes := index.size})
  return shortlist

/-- `exact_budget`. -/
def exactBudget (config : SearchConfig) (size : ℕ) : ℕ := min config.efSearch.toNat size

/-- `approximate_beam`. -/
def approximateBeam (config : SearchConfig) (size : ℕ) : ℕ :=
  let requestedBeam : Double := Binary.ofNat (exactBudget config size)/config.rerankRatio
  if (Binary.ofNat size : Double)≤ requestedBeam then size
  else max (exactBudget config size) requestedBeam.ceil

/-- Whether the graph is left aside. -/
def Flat (config : SearchConfig) (size : ℕ) : Prop :=
  config.approximateScanLimit>0 ∧ size≤ config.approximateScanLimit.toNat

instance (config : SearchConfig) (size : ℕ) : Decidable (Flat config size) :=
  inferInstanceAs (Decidable (_∧_))

/-- The shortlist of either path. -/
def shortlist (index : Index) (config : SearchConfig) (routed : Candidate δ) :
    Searching (List (Candidate δ)) := do
  let beam := approximateBeam config index.size
  let visited ← StateT.lift (assign (List.replicate index.size false) routed.id.toNat true)
  if Flat config index.size then flatScan rank distances index beam routed
  else beamSearch rank distances index beam (index.size+1) ⟨visited,[routed],[routed]⟩

/-- The candidates in their order, as many as are recomputed. -/
def candidates (index : Index) (config : SearchConfig) (routed : Candidate δ) :
    Searching (List (Candidate δ)) := do
  let found ← shortlist rank distances index config routed
  return (Selection.ranked (fun candidate => candidate.key rank) found).take
    (exactBudget config index.size)

end Shortlist

section Rerank

/-- The lambda `evaluate` on the batch of a number. -/
def evaluateBatch (number : ℕ) (scored : List (SearchResult δ)) (ids : List UInt32) :
    Searching (List (SearchResult δ)) :=
  if ids.isEmpty then return scored
  else do
    let exact ← StateT.lift (distances.evaluate number ids)
    modify (fun metrics => {metrics with
      embeddingBatches := metrics.embeddingBatches+1
      exactRecomputations := metrics.exactRecomputations+ids.length})
    return scored++List.zipWith (fun id distance => ⟨distance,id⟩) ids exact

/-- Recompute the distances of the candidates batch by batch. -/
def recompute (batchSize : ℕ) (found : List (Candidate δ)) : Searching (List (SearchResult δ)) :=
  (List.range ((found.length+batchSize-1)/batchSize)).foldlM (fun scored number =>
    evaluateBatch distances number scored
      (((found.drop (number*batchSize)).take batchSize).map Candidate.id)) []

/-- The nearest results among the recomputed candidates. -/
def rerank (config : SearchConfig) (found : List (Candidate δ)) :
    Searching (List (SearchResult δ)) := do
  let scored ← recompute distances config.recomputeBatchSize.toNat found
  return (Selection.ranked (fun result => result.key rank) scored).take config.topK.toNat

end Rerank

/-- Everything behind the preparation of the query. -/
def searchNodes (index : Index) (config : SearchConfig) : Searching (List (SearchResult δ)) := do
  let routed ← route rank distances index
  let found ← candidates rank distances index config routed
  rerank rank distances config found

end Core

section Sketches

/-- `splitmix64`. -/
def splitmix64 (value : UInt64) : UInt64 :=
  let value := value+0x9e3779b97f4a7c15
  let value := (value^^^(value>>>30))*0xbf58476d1ce4e5b9
  let value := (value^^^(value>>>27))*0x94d049bb133111eb
  value^^^(value>>>31)

/-- The signed sum of sixteen coordinates behind one bit. -/
def projection (embedding : Embedding) (seed : UInt64) (bit : ℕ) : Except Fault Double :=
  (List.range 16).foldlM (fun projection lane => do
    let random := splitmix64 (seed^^^(UInt64.ofNat bit<<<32)^^^UInt64.ofNat lane)
    let coordinate ← element embedding (random.toNat%embedding.length)
    let sign : Double := if random>>>63=0 then 1 else -1
    return projection+sign*coordinate.convert) 0

/-- `make_sketch`. -/
def makeSketch (embedding : Embedding) (bits : ℕ) (seed : UInt64) : Except Fault (List UInt64) := do
  throwIf (embedding.isEmpty ∨ bits=0 ∨ bits%64≠0) (invalidArgument "invalid SimHash configuration")
  (List.range bits).foldlM (fun result bit => do
    let projected ← projection embedding seed bit
    if 0≤projected then do
      let word ← element result (bit/64)
      assign result (bit/64) (word|||(1 : UInt64)<<<UInt64.ofNat (bit%64))
    else return result) (List.replicate (bits/64) 0)

/-- `std::popcount`. -/
def popcount (word : UInt64) : ℕ := (List.range 64).countP (fun bit => word.toNat.testBit bit)

/-- `sketch_distance`. -/
def sketchDistance (query sketches : List UInt64) (node : ℕ) : Except Fault Single := do
  let different ← (List.range query.length).foldlM (fun different word => do
    let left ← element query word
    let right ← element sketches (node*query.length+word)
    return different+popcount (left^^^right)) 0
  return (Binary.ofNat different : Single)/Binary.ofNat (query.length*64)

end Sketches

section Search

/-- `validate_search_config`. -/
def validateSearchConfig (config : SearchConfig) : Except Fault Unit := do
  throwIf (config.topK=0 ∨ config.efSearch<config.topK)
    (invalidArgument "ef_search must be at least top_k > 0")
  throwIf (config.recomputeBatchSize=0) (invalidArgument "recompute_batch_size must be positive")
  throwIf (¬config.rerankRatio.Finite ∨ config.rerankRatio≤0 ∨ (1 : Double)<config.rerankRatio)
    (invalidArgument "rerank_ratio must be finite and in (0, 1]")

/-- `Index::validate_document_store`. -/
def validateDocumentStore (index : Index) (documents : DocumentStore) : Except Fault Unit := do
  throwIf (documents.pairIdentity≠index.pairIdentity)
    (invalidArgument "document store and index pair identity mismatch")
  throwIf (documents.size≠index.size)
    (invalidArgument "document store and index node counts differ")

/-- The text of the error about fingerprints. -/
def fingerprintMismatch (index : Index) (embedder : Embedder) : Exception :=
  invalidArgument ("embedder fingerprint mismatch: index uses '"++index.embedderFingerprint++
    "', query uses '"++embedder.fingerprint++"'")

/-- The view of the quantised vectors of an index. -/
def Index.view (index : Index) : ProductQuantizerView Single where
  dimension := index.dimension.toNat
  subquantizers := index.pqSubquantizers.toNat
  bits := index.pqBits.toNat
  centroids := index.pqCentroids.toNat
  subdimension := index.pqSubdimension.toNat
  codebook := index.pqCodebook
  codes := index.pqCodes

/-- The approximate distance to a normalised query. -/
def prepareDistance (index : Index) (query : Embedding) :
    Except Fault (UInt32 → Except Fault Single) :=
  match index.approximation with
  | .simHash => do
    let sketch ← makeSketch query index.sketchBits.toNat index.sketchSeed
    return fun node => sketchDistance sketch index.sketches node.toNat
  | .productQuantization => do
    let table ← (Index.view index).distanceTable query
    return fun node => (Index.view index).approximateDistance table node.toNat

/-- One embedding in the lambda `evaluate`. -/
def exactDistance (index : Index) (query embedding : Embedding) : Except Fault Single := do
  validateEmbedding embedding index.dimension.toNat
  let embedding ← normalize embedding
  cosineDistance query embedding

/-- The exact distances of the documents of a batch. -/
def evaluate (index : Index) (embedder : Embedder) (documents : DocumentStore) (query : Embedding)
    (number : ℕ) (ids : List UInt32) : Except Fault (List Single) := do
  let texts ← documents.readMany ids
  let embeddings ← embedder.embed number texts
  throwIf (embeddings.length≠ids.length) (runtimeError "embedder returned the wrong batch size")
  embeddings.mapM (exactDistance index query)

/-- `Index::search_embedding`. -/
def searchEmbedding (index : Index) (queryEmbedding : Embedding) (embedder : Embedder)
    (documents : DocumentStore) (config : SearchConfig) :
    Except Fault (List (SearchResult Single)×SearchMetrics) := do
  validateDocumentStore index documents
  validateSearchConfig config
  throwIf (embedder.fingerprint≠index.embedderFingerprint) (fingerprintMismatch index embedder)
  throwIf (queryEmbedding.length≠index.dimension.toNat ∨
    embedder.dimension≠index.dimension.toNat)
    (invalidArgument "query embedding dimension mismatch")
  throwIf (¬∀ value∈queryEmbedding,value.Finite)
    (invalidArgument "query embedding contains NaN or infinity")
  let query ← normalize queryEmbedding
  let approximate ← prepareDistance index query
  searchNodes Binary.key ⟨approximate,evaluate index embedder documents query⟩ index config {}

/-- `Index::search`. The embedder is asked for the query first. -/
def search (index : Index) (query : Text) (embedder : Embedder) (documents : DocumentStore)
    (config : SearchConfig) : Except Fault (List (SearchResult Single)×SearchMetrics) := do
  validateDocumentStore index documents
  validateSearchConfig config
  throwIf (embedder.fingerprint≠index.embedderFingerprint) (fingerprintMismatch index embedder)
  throwIf (embedder.dimension≠index.dimension.toNat)
    (invalidArgument "query embedding dimension mismatch")
  let embeddings ← embedder.embed 0 [query]
  throwIf (embeddings.length≠1) (runtimeError "embedder returned the wrong query batch size")
  let embedding ← element embeddings 0
  validateEmbedding embedding index.dimension.toNat
  let embedding ← normalize embedding
  searchEmbedding index embedding {embedder with embed := fun call => embedder.embed (call+1)}
    documents config

end Search

end Leann.Search
