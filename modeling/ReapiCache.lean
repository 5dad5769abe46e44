import ReapiCache.Interaction.RelyGuarantee
import ReapiCache.Services.Server
import ReapiCache.Storage.CodecLaws
import ReapiCache.Storage.StoreLog
import ReapiCache.Services.Uploads
import ReapiCache.Server.Calls
import ReapiCache.Server.Integrity
import ReapiCache.Server.Discipline
import ReapiCache.Server.Accepted
import ReapiCache.Server.Missing
import ReapiCache.Server.Artifacts
import ReapiCache.Server.Validation
import ReapiCache.Server.Closure
import ReapiCache.Services.Downloads
import ReapiCache.Server.CacheHits
import ReapiCache.Server.Reads
import ReapiCache.Services.ResourceNameLaws
import ReapiCache.Server.Lookups
import ReapiCache.Server.HitDownloads
import ReapiCache.Server.RoundTrip
import ReapiCache.Server.Publishing
import ReapiCache.Interaction.Isolation
import ReapiCache.Server.Isolation
import ReapiCache.Interaction.Commuting
import ReapiCache.Server.Commuting
import ReapiCache.Server.UploadPaths
import ReapiCache.Server.Writes
import ReapiCache.Server.BatchUpdates
import ReapiCache.Server.BatchReads
import ReapiCache.Server.ReadWindows
import ReapiCache.Server.Collection
import ReapiCache.Server.Complete
import ReapiCache.Server.OutputOrder
import ReapiCache.Server.Footprint
import ReapiCache.Stream.ReadSteps
import ReapiCache.Codec.Decompression
import ReapiCache.Codec.Transcoding
import ReapiCache.Services.ResourceNameGrammar
import ReapiCache.Interaction.Simulation
import ReapiCache.Interaction.Settling
import ReapiCache.Interaction.Linearization
import ReapiCache.Interaction.Retries
import ReapiCache.Abstract.Cache
import ReapiCache.Abstract.Server
import ReapiCache.Abstract.Represents
import ReapiCache.Abstract.Refinement
import ReapiCache.Abstract.Parts
import ReapiCache.Abstract.Atomicity
import ReapiCache.Abstract.Calls
import ReapiCache.Abstract.Published
import ReapiCache.Abstract.Linearization
import ReapiCache.Abstract.Batches
import ReapiCache.Interaction.Noninterference
import ReapiCache.Server.Noninterference
import ReapiCache.Server.Poisoned
import ReapiCache.Abstract.Coherence
import ReapiCache.Server.Supplied
import ReapiCache.Server.Provenance
import ReapiCache.Server.Incremental
import ReapiCache.Server.MonotonicReads
import ReapiCache.Services.Capabilities
import ReapiCache.Services.NormalNames
import ReapiCache.Interaction.Returns
import ReapiCache.Server.Failures
import ReapiCache.Server.Advertised
import ReapiCache.Server.Conforming
import ReapiCache.Server.Resumption
import ReapiCache.Server.SharedBuilds
import ReapiCache.Abstract.Observation
import ReapiCache.Abstract.Retries
