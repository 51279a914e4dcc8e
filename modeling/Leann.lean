import Leann.ArtifactPublisher
import Leann.RaisingPrograms
import Leann.StagedFiles
import Leann.CacheFiles
import Leann.IndexFile
import Leann.Embeddings
import Leann.PackedBits
import Leann.Interleaving
import Leann.ProductQuantizer
import Leann.Selection
import Leann.Routing
import Leann.Shortlists
import Leann.Ranking
import Leann.SearchResults
import Leann.Preparation
import Leann.BuildLocks
import Leann.IndexBuilder
import Leann.Training
import Leann.BuiltIndex
import Leann.BenchRecall
import Leann.ResultCount
import Leann.Lines
import Leann.Host
import Leann.BuildProgram
import Leann.BuildSteps
import Leann.BuildArtifacts
import Leann.BuildScopes
import Leann.BuildStops
import Leann.PairIdentity
import Leann.LockOwner
import Leann.StructuredOutput
import Leann.Doctor
import Leann.CommittedPair
import Leann.Readers
import Leann.FaithfulReport
import Leann.BeamLoop
import Leann.GroundTruth
import Leann.GroundTruthReaders
import Leann.EmbeddingCache
import Leann.CacheServing
import Leann.ShiftRegister
import Leann.Namespaces
import Leann.PathNames
import Leann.BlockwiseTopK
import Leann.Utf8
import Leann.BatchSizes
import Leann.LayerDescent
import Leann.Numerals
import Leann.DecimalScanner
import Leann.NumericOptions
import Leann.Metering
import Leann.DocumentCorruption
import Leann.StableSort
import Leann.PrunedGraph
import Leann.ExactNumbers
import Leann.TrainingSuccess
import Leann.QuantizerExact
import Leann.JsonTexts
import Leann.JsonStream
import Leann.JsonScalars
import Leann.JsonRoundTrip
import Leann.SecureHash
import Leann.StreamingHash
import Leann.Clustering
import Leann.LloydDescent
import Leann.TornOwner
import Leann.LlamaBatches
import Leann.PythonValues
import Leann.PreparedLines
import Leann.RepeatedStage
import Leann.MeteredWindows
import Leann.EndpointMetrics
import Leann.CacheGeneration
import Leann.CacheResumption
import Leann.CacheRestart
import Leann.TruthGeneration
import Leann.TruthFiles
import Leann.TruthResumption
import Leann.TruthRestart
