import ReapiCache.Reference
import ReapiCache.Server.Accepted
import ReapiCache.Server.Failures
import ReapiCache.Services.Capabilities

/-! # What is advertised is what is accepted

The capabilities list the digest functions and the compressors of the server. A request
that names another one is refused before it calls the store, and one that keeps to the
lists is never refused for that, whatever the store replies.
-/
namespace ReapiCache
open Interaction
variable {env : Externals} {numbers : EnumNumbers}

/-- The digest function that a request names. An action request names it for an action, and
an update for a result. -/
def Request.digestFunction : Request → Option Int32
  | .findMissingBlobs r => some r.digestFunction
  | .batchReadBlobs r => some r.digestFunction
  | .batchUpdateBlobs r => some r.digestFunction
  | .getActionResult q => q.actionDigest.map (fun _ => q.digestFunction)
  | .updateActionResult q => q.actionDigest.bind (fun _ => q.actionResult.map (fun _ => q.digestFunction))
  | _ => none

/-- The status with which a request has failed as a whole. -/
def Response.failure : Response → Option Status
  | .findMissingBlobs (.error s) => some s
  | .batchReadBlobs (.error s) => some s
  | .batchUpdateBlobs (.error s) => some s
  | .read (.error s) => some s
  | .write (.error s) => some s
  | .actionResult (.error s) => some s
  | .unimplemented (.error s) => some s
  | _ => none

section Decisions
variable (env) (code : Code) (req : Request)

/-- The request is refused with the code before it calls the store. -/
def Refuses : Prop :=
  ∃ response s, serve env req = .done response ∧ response.failure = some s ∧ s.code = code

/-- Started in any configuration, the request never fails with the code, whatever is scheduled. -/
def Admits : Prop :=
  ∀ (c : ServerConfig) schedule i response s, c.threads.length ≤ i →
    (serverRun env c schedule).Returned i req response → response.failure = some s → s.code ≠ code

/-- The request is admitted if the condition holds, and refused if it does not. -/
structure DecidedBy (condition : Prop) : Prop where
  admits : condition → Admits env code req
  refuses : ¬ condition → Refuses env code req

end Decisions

section Advertised
variable (env numbers) (cache : CacheCapabilities)

/-- The digest function is advertised, or left to the server. -/
def FunctionAdvertised (value : Int32) : Prop :=
  value = numbers.digestFunction .unknown ∨ value ∈ cache.digestFunctions

/-- The compressor is in the list, or is the identity. -/
def CompressorAdvertised (compressors : List Int32) (value : Int32) : Prop :=
  value = env.compressor.value .identity ∨ value ∈ compressors

instance (compressors : List Int32) (value : Int32) : Decidable (CompressorAdvertised env compressors value) :=
  inferInstanceAs (Decidable (_ ∨ _))

/-- The name is that of a plain blob, or has the segment of an advertised compressor. -/
def StreamAdvertised (compression : Compression) : Prop :=
  ∃ encoding : StorageEncoding, compression = encoding.compression ∧
    CompressorAdvertised env cache.supportedCompressors (encoding.asProtoValue env)

/-- The handlers decide by what is advertised, and no feature is advertised that they lack. -/
structure AdvertisedExactly (capabilities : ServerCapabilities) : Prop where
  listed : capabilities.cacheCapabilities = some cache
  function : ∀ req value, req.digestFunction = some value →
    DecidedBy env .invalidArgument req (FunctionAdvertised numbers cache value)
  download : ∀ (r : ReadRequest) parsed, parseBytestreamResourceName r.resourceName = .ok parsed →
    parsed.uploadId = none → DecidedBy env .unimplemented (.read r) (StreamAdvertised env cache parsed.compression)
  upload : ∀ (s : WriteStream) state parsed,
    ByteStreamService.receive s.transportError ⟨[],none⟩ s.messages = .ok state → s.target = some parsed →
      DecidedBy env .unimplemented (.write s) (StreamAdvertised env cache parsed.compression)
  batchUpload : ∀ r, FunctionAdvertised numbers cache r.digestFunction → ∀ (c : ServerConfig) schedule i response,
    c.threads.length ≤ i → (serverRun env c schedule).Returned i (.batchUpdateBlobs r) response →
      ∃ out, response = .batchUpdateBlobs (.ok out) ∧ List.Forall₂ (fun item answer => item.digest.isSome →
        (CasService.Unsupported answer ↔ ¬ CompressorAdvertised env cache.supportedBatchUpdateCompressors item.compressor))
        r.requests out.responses
  batchDownload : ∀ r, serve env (.batchReadBlobs r) = serve env (.batchReadBlobs { r with
    acceptableCompressors := r.acceptableCompressors.filter (CompressorAdvertised env cache.supportedCompressors) })
  execution : ∀ execution, capabilities.executionCapabilities = some execution →
    execution.execEnabled = false ∧ execution.digestFunctions = cache.digestFunctions ∧
      execution.digestFunction ∈ cache.digestFunctions
  split : cache.splitBlobSupport = false ∧ Refuses env .unimplemented .splitBlob
  splice : cache.spliceBlobSupport = false ∧ Refuses env .unimplemented .spliceBlob

end Advertised

theorem supportsFunction_iff {value : Int32} :
    SupportsFunction env value ↔ ∃ algorithm, DigestAlgorithm.resolveProtoValue env value = .ok algorithm := by
  constructor
  · intro h
    exact ⟨.sha256,resolveProtoValue_eq_ok h⟩
  · rintro ⟨algorithm,h⟩
    exact supportsFunction_of_ok h

theorem functionAdvertised_iff (hn : numbers.Agree env) {value : Int32} :
    value = numbers.digestFunction .unknown ∨ value ∈ DigestAlgorithm.supportedDigestFunctions numbers ↔
      SupportsFunction env value := by
  simp only [DigestAlgorithm.supportedDigestFunctions, DigestAlgorithm.SUPPORTED, List.map_cons, List.map_nil,
    List.mem_singleton, DigestAlgorithm.toProto, SupportsFunction, hn .unknown (by decide), hn .sha256 (by decide)]

/-- The compressors that the server advertises are those it can decode. -/
theorem compressorAdvertised_iff {value : Int32} :
    CompressorAdvertised env [env.compressor.value .zstd] value ↔
      ∃ encoding, StorageEncoding.fromProtoValue env value = some encoding := by
  simp only [CompressorAdvertised, List.mem_singleton, StorageEncoding.fromProtoValue_eq_some]
  constructor
  · rintro (rfl | rfl)
    · exact ⟨.identity,rfl⟩
    · exact ⟨.zstd,rfl⟩
  · rintro ⟨encoding,rfl⟩
    cases encoding with
    | identity => exact Or.inl rfl
    | zstd => exact Or.inr rfl

theorem streamAdvertised_iff {cache : CacheCapabilities} (h : cache.supportedCompressors = [env.compressor.value .zstd])
    {compression : Compression} :
    StreamAdvertised env cache compression ↔ ∃ encoding, compression.storageEncoding = .ok encoding := by
  unfold StreamAdvertised
  simp only [h, compressorAdvertised_iff, StorageEncoding.fromProtoValue_eq_some, storageEncoding_eq_ok]
  constructor
  · rintro ⟨encoding,hcompression,_⟩
    exact ⟨encoding,hcompression⟩
  · rintro ⟨encoding,hcompression⟩
    exact ⟨encoding,hcompression,encoding,rfl⟩

section Refused
variable {req : Request}

/-- A request that names an unsupported digest function makes no call. -/
theorem refuses_function {value : Int32} (hreq : req.digestFunction = some value) {err : String}
    (herr : DigestAlgorithm.resolveProtoValue env value = .error err) : Refuses env .invalidArgument req := by
  have hresolved : (DigestAlgorithm.resolveProtoValue env value).mapError Status.invalidArgument =
      .error (.invalidArgument err) := by
    rw [herr, mapError_error]
  cases req with
  | findMissingBlobs r =>
    obtain rfl := Option.some.inj hreq
    refine ⟨.findMissingBlobs (.error (.invalidArgument err)),.invalidArgument err,?_,rfl,rfl⟩
    rw [serve, CasService.findMissingBlobs, hresolved]
    rfl
  | batchReadBlobs r =>
    obtain rfl := Option.some.inj hreq
    refine ⟨.batchReadBlobs (.error (.invalidArgument err)),.invalidArgument err,?_,rfl,rfl⟩
    rw [serve, CasService.batchReadBlobs, hresolved]
    rfl
  | batchUpdateBlobs r =>
    obtain rfl := Option.some.inj hreq
    refine ⟨.batchUpdateBlobs (.error (.invalidArgument err)),.invalidArgument err,?_,rfl,rfl⟩
    rw [serve, CasService.batchUpdateBlobs, hresolved]
    rfl
  | getActionResult q =>
    obtain ⟨digest,hdigest,rfl⟩ := Option.map_eq_some_iff.mp hreq
    refine ⟨.actionResult (.error (.invalidArgument err)),.invalidArgument err,?_,rfl,rfl⟩
    rw [serve, ActionCacheService.getActionResult, hdigest, hresolved]
    rfl
  | updateActionResult q =>
    obtain ⟨digest,hdigest,hrest⟩ := Option.bind_eq_some_iff.mp hreq
    obtain ⟨r,hr,rfl⟩ := Option.map_eq_some_iff.mp hrest
    refine ⟨.actionResult (.error (.invalidArgument err)),.invalidArgument err,?_,rfl,rfl⟩
    rw [serve, ActionCacheService.updateActionResult, hdigest, hr, hresolved]
    rfl
  | getTree => cases hreq
  | splitBlob => cases hreq
  | spliceBlob => cases hreq
  | read r => cases hreq
  | write s => cases hreq
  | queryWriteStatus => cases hreq

theorem storageEncoding_error {compression : Compression} (h : ¬ ∃ encoding, compression.storageEncoding = .ok encoding) :
    ∃ s, compression.storageEncoding = .error s ∧ s.code = .unimplemented := by
  have hends := ends_storageEncoding compression
  cases hencoding : compression.storageEncoding with
  | ok encoding => exact absurd ⟨encoding,hencoding⟩ h
  | error s =>
    rw [hencoding] at hends
    exact ⟨s,rfl,hends⟩

/-- A read that names an unsupported compressor makes no call. -/
theorem refuses_read {r : ReadRequest} {parsed : ParsedReadResource}
    (hparse : parseBytestreamResourceName r.resourceName = .ok parsed) (hupload : parsed.uploadId = none)
    (h : ¬ ∃ encoding, parsed.compression.storageEncoding = .ok encoding) : Refuses env .unimplemented (.read r) := by
  obtain ⟨s,hs,hcode⟩ := storageEncoding_error h
  have htarget : ByteStreamService.readTarget r = .error s := by
    simp only [ByteStreamService.readTarget, hparse, mapError_ok, ok_bind, hupload, Option.isSome_none,
      Bool.false_eq_true, ↓reduceIte, hs, error_bind]
  refine ⟨.read (.error s),s,?_,rfl,hcode⟩
  rw [serve, ByteStreamService.read_eq, htarget]
  rfl

/-- A received stream that names an unsupported compressor makes no call. -/
theorem refuses_write {stream : WriteStream} {state : ByteStreamService.WriteState} {parsed : ParsedReadResource}
    (hstate : ByteStreamService.receive stream.transportError ⟨[],none⟩ stream.messages = .ok state)
    (htarget : stream.target = some parsed) (h : ¬ ∃ encoding, parsed.compression.storageEncoding = .ok encoding) :
    Refuses env .unimplemented (.write stream) := by
  obtain ⟨s,hs,hcode⟩ := storageEncoding_error h
  obtain ⟨name,key,hresource,hkey⟩ := ByteStreamService.receive_target hstate htarget
  have hverify : ByteStreamService.verifyUpload env state = .error s := by
    simp only [ByteStreamService.verifyUpload, hresource, okOr_some, ok_bind, hkey, hs, error_bind]
  refine ⟨.write (.error s),s,?_,rfl,hcode⟩
  rw [serve, ByteStreamService.write, hstate, Failing.ofExcept_ok, pure_bind, hverify]
  rfl

end Refused

section Admitted
variable {α : Type} {code : Code}

theorem admits_of_failsWith {req : Request} {p : Handler Status α} {f : Except Status α → Response}
    (hserve : serve env req = f <$> p.run) (hf : ∀ out s, (f out).failure = some s → out = .error s)
    (h : FailsWith (fun s => s.code ≠ code) p) : Admits env code req := by
  intro c schedule i response s hi hreturned hfailure
  have hreturns : (serve env req).Returns (fun response => ∀ s, response.failure = some s → s.code ≠ code) := by
    rw [hserve]
    apply Program.Returns.map
    apply Program.Returns.mono h
    intro out hout s hs
    obtain rfl := hf out s hs
    exact hout
  exact Config.returned_of_returns _ _ hreturns c schedule hi hreturned s hfailure

/-- How the responses of the services carry their failure. -/
theorem failure_error {f : Except Status α → Response} (herror : ∀ s, (f (.error s)).failure = some s)
    (hok : ∀ a, (f (.ok a)).failure = none) (out : Except Status α) (s : Status) (h : (f out).failure = some s) :
    out = .error s := by
  cases out with
  | error e => exact congrArg Except.error (Option.some.inj ((herror e).symm.trans h))
  | ok a => exact absurd ((hok a).symm.trans h) (by simp)

open ActionCacheService in
theorem ne_invalidArgument_of_failure {missingCode : Code} {s : Status} (h : ValidationFailure missingCode s)
    (hcode : missingCode ≠ .invalidArgument) : s.code ≠ .invalidArgument := by
  rcases h with h | h
  · rwa [h]
  · rw [h]
    decide

/-- A request that names a supported digest function is not refused as invalid. -/
theorem admits_function {req : Request} {value : Int32} (hreq : req.digestFunction = some value)
    {algorithm : DigestAlgorithm} (h : DigestAlgorithm.resolveProtoValue env value = .ok algorithm) :
    Admits env .invalidArgument req := by
  cases req with
  | findMissingBlobs r =>
    obtain rfl := Option.some.inj hreq
    refine admits_of_failsWith rfl (failure_error (fun _ => rfl) (fun _ => rfl)) ?_
    exact (CasService.failsWith_findMissingBlobs h).imp (fun s hs => by rw [hs]; decide)
  | batchReadBlobs r =>
    obtain rfl := Option.some.inj hreq
    refine admits_of_failsWith rfl (failure_error (fun _ => rfl) (fun _ => rfl)) ?_
    exact (CasService.failsWith_batchReadBlobs h).imp (fun _ hs => hs.elim)
  | batchUpdateBlobs r =>
    obtain rfl := Option.some.inj hreq
    refine admits_of_failsWith rfl (failure_error (fun _ => rfl) (fun _ => rfl)) ?_
    apply Program.Returns.mono (CasService.returns_batchUpdateBlobs h)
    rintro (s | out) hout
    · exact hout.elim
    · trivial
  | getActionResult q =>
    obtain ⟨digest,hdigest,rfl⟩ := Option.map_eq_some_iff.mp hreq
    refine admits_of_failsWith rfl (failure_error (fun _ => rfl) (fun _ => rfl)) ?_
    exact (ActionCacheService.failsWith_getActionResult hdigest h).imp (fun _ hs => ne_invalidArgument_of_failure hs (by decide))
  | updateActionResult q =>
    obtain ⟨digest,hdigest,hrest⟩ := Option.bind_eq_some_iff.mp hreq
    obtain ⟨r,hr,rfl⟩ := Option.map_eq_some_iff.mp hrest
    refine admits_of_failsWith rfl (failure_error (fun _ => rfl) (fun _ => rfl)) ?_
    exact (ActionCacheService.failsWith_updateActionResult hdigest hr h).imp
      (fun _ hs => ne_invalidArgument_of_failure hs (by decide))
  | getTree => cases hreq
  | splitBlob => cases hreq
  | spliceBlob => cases hreq
  | read r => cases hreq
  | write s => cases hreq
  | queryWriteStatus => cases hreq

end Admitted

theorem decidedBy_function (hn : numbers.Agree env) {cache : CacheCapabilities}
    (hcache : cache.digestFunctions = DigestAlgorithm.supportedDigestFunctions numbers) {req : Request} {value : Int32}
    (hreq : req.digestFunction = some value) :
    DecidedBy env .invalidArgument req (FunctionAdvertised numbers cache value) := by
  have hiff : FunctionAdvertised numbers cache value ↔
      ∃ algorithm, DigestAlgorithm.resolveProtoValue env value = .ok algorithm := by
    rw [FunctionAdvertised, hcache, functionAdvertised_iff hn, supportsFunction_iff]
  constructor
  · intro h
    obtain ⟨algorithm,h⟩ := hiff.mp h
    exact admits_function hreq h
  · intro h
    cases hresolved : DigestAlgorithm.resolveProtoValue env value with
    | error err => exact refuses_function hreq hresolved
    | ok algorithm => exact absurd (hiff.mpr ⟨algorithm,hresolved⟩) h

section Streams
variable {cache : CacheCapabilities} (hcache : cache.supportedCompressors = [env.compressor.value .zstd])
  {parsed : ParsedReadResource}
include hcache

theorem decidedBy_read {r : ReadRequest} (hparse : parseBytestreamResourceName r.resourceName = .ok parsed)
    (hupload : parsed.uploadId = none) :
    DecidedBy env .unimplemented (.read r) (StreamAdvertised env cache parsed.compression) := by
  rw [streamAdvertised_iff hcache]
  refine ⟨?_,refuses_read hparse hupload⟩
  rintro ⟨encoding,hencoding⟩
  exact admits_of_failsWith rfl (failure_error (fun _ => rfl) (fun _ => rfl))
    (ByteStreamService.failsWith_read hparse hencoding)

theorem decidedBy_write {s : WriteStream} {state : ByteStreamService.WriteState}
    (hstate : ByteStreamService.receive s.transportError ⟨[],none⟩ s.messages = .ok state)
    (htarget : s.target = some parsed) :
    DecidedBy env .unimplemented (.write s) (StreamAdvertised env cache parsed.compression) := by
  rw [streamAdvertised_iff hcache]
  refine ⟨?_,refuses_write hstate htarget⟩
  rintro ⟨encoding,hencoding⟩
  exact admits_of_failsWith rfl (failure_error (fun _ => rfl) (fun _ => rfl))
    (ByteStreamService.failsWith_write hstate htarget hencoding)

end Streams

section Batches
variable {compressors : List Int32} (hcompressors : compressors = [env.compressor.value .zstd])
include hcompressors

theorem not_compressorAdvertised_iff {value : Int32} :
    ¬ CompressorAdvertised env compressors value ↔ StorageEncoding.fromProtoValue env value = none := by
  rw [hcompressors, compressorAdvertised_iff, ← Option.isSome_iff_exists, Bool.not_eq_true,
    Option.isSome_eq_false_iff, Option.isNone_iff_eq_none]

/-- A batch read takes no notice of the compressors that are not advertised. -/
theorem batchReadBlobs_filter (r : BatchReadBlobsRequest) : serve env (.batchReadBlobs r) =
    serve env (.batchReadBlobs { r with
      acceptableCompressors := r.acceptableCompressors.filter (CompressorAdvertised env compressors) }) := by
  have hfilter : (r.acceptableCompressors.filter (CompressorAdvertised env compressors)).filterMap
      (StorageEncoding.fromProtoValue env) = r.acceptableCompressors.filterMap (StorageEncoding.fromProtoValue env) := by
    rw [List.filterMap_filter]
    apply List.filterMap_congr
    intro value _
    by_cases h : CompressorAdvertised env compressors value
    · rw [if_pos (by simpa using h)]
    · rw [if_neg (by simpa using h), (not_compressorAdvertised_iff hcompressors).mp h]
  simp only [serve, CasService.batchReadBlobs, hfilter]

/-- A batch update refuses exactly the items whose compressor is not advertised for their compressor. -/
theorem batchUpdate_unsupported {r : BatchUpdateBlobsRequest} (hf : SupportsFunction env r.digestFunction)
    (c : ServerConfig) (schedule : List (Interaction.Action Request)) {i : ℕ} {response : Response}
    (hi : c.threads.length ≤ i) (hreturned : (serverRun env c schedule).Returned i (.batchUpdateBlobs r) response) :
    ∃ out, response = .batchUpdateBlobs (.ok out) ∧ List.Forall₂ (fun item answer => item.digest.isSome →
      (CasService.Unsupported answer ↔ ¬ CompressorAdvertised env compressors item.compressor))
      r.requests out.responses := by
  have hreturns : (serve env (.batchUpdateBlobs r)).Returns (fun response => ∃ out,
      response = .batchUpdateBlobs (.ok out) ∧ List.Forall₂ (fun item answer => item.digest.isSome →
        (CasService.Unsupported answer ↔ ¬ CompressorAdvertised env compressors item.compressor))
        r.requests out.responses) := by
    rw [serve]
    apply Program.Returns.map
    apply Program.Returns.mono (CasService.returns_batchUpdateBlobs (resolveProtoValue_eq_ok hf))
    rintro (s | out) hout
    · exact hout.elim
    · refine ⟨out,rfl,List.Forall₂.imp ?_ hout⟩
      intro item answer hanswer hdigest
      rw [hanswer hdigest, not_compressorAdvertised_iff hcompressors]
  exact Config.returned_of_returns _ _ hreturns c schedule hi hreturned

end Batches

namespace Reference

def enumNumbers : EnumNumbers where
  digestFunction
    | .unknown => 0
    | .sha256 => 1
    | .other => 2
  symlinkAbsolutePathStrategy
    | .unknown => 0
    | .disallowed => 1
    | .allowed => 2

theorem enumNumbers_agree : enumNumbers.Agree externals := by
  intro proto hproto value
  change digestFunction value = some proto ↔ _
  unfold digestFunction enumNumbers
  cases proto with
  | unknown => grind
  | sha256 => grind
  | other => exact absurd rfl hproto

end Reference

end ReapiCache
