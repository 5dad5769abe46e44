import ReapiCache.Abstract.Cache
import ReapiCache.Services.Server
import ReapiCache.Services.Downloads

/-! # The server as a content cache

What the services are for, stated over contents and results: no stored form, no
metadata, no decoding of what was stored and no error that could come from it. A batch
is the sequence of its items.
-/
namespace ReapiCache.Abstract
open Interaction ActionCacheService

/-- The address of a blob, and of the result of an action. -/
structure Locator where
  instanceName : String
  algorithm : DigestAlgorithm
  hash : String
deriving DecidableEq

namespace Locator

def ofKey (key : BlobKey) : Locator := ⟨key.instanceName,key.algorithm,key.hash⟩

def key (kind : CacheKind) (address : Locator) : BlobKey where
  instanceName := address.instanceName
  algorithm := address.algorithm
  hash := address.hash
  kind := kind

end Locator

abbrev BlobCache := Cache Locator Bytes ActionResult
abbrev BlobCall := CacheCall Locator Bytes ActionResult
abbrev CacheM := Program BlobCall CacheCall.Ret
abbrev CacheHandler (ε α : Type) := Failing BlobCall CacheCall.Ret ε α

section Calls
variable {ε : Type}

def fetch (address : Locator) : CacheHandler ε (Option Bytes) := Failing.attempt (.fetch address) .ok
def holds (address : Locator) : CacheHandler ε Bool := Failing.attempt (.holds address) .ok
def store (address : Locator) (content : Bytes) : CacheHandler ε Unit :=
  Failing.attempt (.store address content) .ok
def retrieve (address : Locator) : CacheHandler ε (Option ActionResult) := Failing.attempt (.retrieve address) .ok
def publish (address : Locator) (result : ActionResult) : CacheHandler ε Unit :=
  Failing.attempt (.publish address result) .ok

end Calls

variable (env : Externals)

/-- Answer the items one after the other, under the digest function of the request. -/
def batch {Item Answer Resp : Type} (digestFunction : Int32) (round : DigestAlgorithm → Item → CacheM (List Answer))
    (respond : List Answer → Resp) (items : List Item) : CacheM (Except Status Resp) :=
  match (DigestAlgorithm.resolveProtoValue env digestFunction).mapError Status.invalidArgument with
  | .error s => .done (.error s)
  | .ok algorithm => (fun answers => .ok (respond answers.flatten)) <$> items.mapM (round algorithm)

def missingBlob (instanceName : String) (algorithm : DigestAlgorithm) (digest : Digest) : CacheM (List Digest) :=
  .call (.holds ⟨instanceName,algorithm,digest.hash⟩)
    (fun (present : Bool) => .done (if present then [] else [digest]))

def findMissingBlobs (request : FindMissingBlobsRequest) : CacheM (Except Status FindMissingBlobsResponse) :=
  batch env request.digestFunction (missingBlob request.instanceName) .mk request.blobDigests

/-- A client that accepts the compressed form of a content gets it. -/
def blobReadResponse (acceptable : List StorageEncoding) (digest : Digest) : Option Bytes → BlobReadResponse
  | none => ⟨some digest,[],0,some ⟨5,"",[]⟩⟩
  | some content =>
    if .zstd ∈ acceptable then
      match compressZstd env content with
      | .error err => ⟨some digest,[],StorageEncoding.identity.asProtoValue env,some ⟨13,err.toString,[]⟩⟩
      | .ok data => ⟨some digest,data,StorageEncoding.zstd.asProtoValue env,some ⟨0,"",[]⟩⟩
    else ⟨some digest,content,StorageEncoding.identity.asProtoValue env,some ⟨0,"",[]⟩⟩

def readBlob (instanceName : String) (acceptable : List StorageEncoding) (algorithm : DigestAlgorithm)
    (digest : Digest) : CacheM (List BlobReadResponse) :=
  .call (.fetch ⟨instanceName,algorithm,digest.hash⟩)
    (fun found => .done [blobReadResponse env acceptable digest found])

def batchReadBlobs (request : BatchReadBlobsRequest) : CacheM (Except Status BatchReadBlobsResponse) :=
  batch env request.digestFunction (readBlob env request.instanceName
    (request.acceptableCompressors.filterMap (StorageEncoding.fromProtoValue env))) .mk request.digests

/-- The content of an upload, when its payload is in order. -/
def acceptBlob (algorithm : DigestAlgorithm) (digest : Digest) (data : Bytes) (encoding : StorageEncoding) :
    Except RpcStatus Bytes := do
  let expectedSize ← okOr (rpcStatus .invalidArgument "digest size must not be negative")
    (u64TryFrom digest.sizeBytes)
  let content ← (BlobCodec.intoIdentityData env (BlobRead.encoded data encoding expectedSize)).mapError
    (fun err => rpcStatus .invalidArgument s!"invalid compressed blob: {err.toString}")
  (algorithm.validate env digest.hash digest.sizeBytes content).mapError
    (fun err => rpcStatus .invalidArgument err.toString)
  .ok content

def updateBlob (instanceName : String) (algorithm : DigestAlgorithm) (item : BlobRequest) :
    CacheM (List BlobUpdateResponse) :=
  match item.digest with
  | none => .done [⟨none,some (rpcStatus .invalidArgument "missing digest")⟩]
  | some digest =>
    match StorageEncoding.fromProtoValue env item.compressor with
    | none => .done [⟨some digest,some (rpcStatus .invalidArgument "unsupported compression method")⟩]
    | some encoding =>
      match acceptBlob env algorithm digest item.data.toList encoding with
      | .error status => .done [⟨some digest,some status⟩]
      | .ok content => .call (.store ⟨instanceName,algorithm,digest.hash⟩ content)
          (fun _ => .done [⟨some digest,some (rpcStatus .ok "")⟩])

def batchUpdateBlobs (request : BatchUpdateBlobsRequest) : CacheM (Except Status BatchUpdateBlobsResponse) :=
  batch env request.digestFunction (updateBlob env request.instanceName) .mk request.requests

/-- The content under the name, when it has the size in the name. -/
def namedContent (resource : ParsedReadResource) (found : Option Bytes) : Except Status Bytes := do
  let content ← okOr (.notFound "blob not found") found
  let expectedSize ← okOr (.invalidArgument "resource size must not be negative")
    (u64TryFrom resource.expectedSize)
  if content.length ≠ expectedSize then .error (.notFound "blob size does not match resource name")
  else .ok content

/-- The window of a content, or everything from the offset, compressed. -/
def slice (request : ReadRequest) (content : Bytes) : StorageEncoding → Except Status Bytes
  | .identity =>
    if request.readLimit.toInt < 0 then .error (.invalidArgument "negative read limit")
    else .ok (ByteStreamService.window request.readOffset.toInt.toNat request.readLimit.toInt.toNat content)
  | .zstd => (compressZstd env (content.drop request.readOffset.toInt.toNat)).mapError
      (fun err => Status.internal s!"failed to compress blob: {err.toString}")

/-- What a read delivers of a content, when its offset is inside. -/
def requested (request : ReadRequest) (encoding : StorageEncoding) (content : Bytes) : Except Status Bytes :=
  if request.readOffset.toInt < 0 then .error (.outOfRange "negative read offset")
  else if content.length < request.readOffset.toInt then .error (.outOfRange "read offset larger than blob size")
  else slice env request content encoding

def answerRead (request : ReadRequest) (target : ByteStreamService.ReadTarget) (found : Option Bytes) :
    Except Status (List ReadResponse) := do
  let content ← namedContent target.parsed found
  let data ← requested env request target.responseEncoding content
  .ok ((ByteStreamService.chunks ByteStreamService.READ_CHUNK_SIZE data).map ReadResponse.mk)

def read (request : ReadRequest) : CacheHandler Status (List ReadResponse) := do
  let target ← Failing.ofExcept (ByteStreamService.readTarget request)
  let found ← fetch (.ofKey target.key)
  Failing.ofExcept (answerRead env request target found)

structure Upload where
  address : Locator
  content : Bytes
  committedSize : Int64

def acceptUpload (state : ByteStreamService.WriteState) : Except Status Upload := do
  let (_, parsed) ← okOr (.invalidArgument "missing resource name") state.resource
  let key ← resolveBlobKey parsed
  let encoding ← parsed.compression.storageEncoding
  let expectedSize ← okOr (.invalidArgument "resource size must not be negative")
    (u64TryFrom parsed.expectedSize)
  if i64Max < state.accumulator.length then .error (.internal "blob exceeds expected size")
  else
    let content ← (BlobCodec.intoIdentityData env
        (BlobRead.encoded state.accumulator encoding expectedSize)).mapError
      (fun err => Status.invalidArgument s!"invalid compressed blob: {err.toString}")
    (key.algorithm.validate env parsed.hash parsed.expectedSize content).mapError
      (fun err => Status.invalidArgument err.toString)
    .ok ⟨.ofKey key,content,Int64.ofNat state.accumulator.length⟩

def write (stream : WriteStream) : CacheHandler Status WriteResponse := do
  let state ← Failing.ofExcept (ByteStreamService.receive stream.transportError ⟨[],none⟩ stream.messages)
  let upload ← Failing.ofExcept (acceptUpload env state)
  store upload.address upload.content
  pure ⟨upload.committedSize⟩

def decodeOutputTree (missingCode : Code) (found : Option Bytes) : Except Status Tree := do
  let content ← okOr ⟨missingCode,"output tree is missing from CAS"⟩ found
  (env.decodeTree content).mapError (fun err => Status.internal s!"invalid output tree: {err.message}")

def collectOutputDirectory (instanceName : String) (algorithm : DigestAlgorithm) (missingCode : Code)
    (digests : List Digest) (outputDirectory : OutputDirectory) : CacheHandler Status (List Digest) := do
  let treeDigest ← Failing.ofExcept (okOr ⟨missingCode,"output directory is missing its tree digest"⟩
    outputDirectory.treeDigest)
  let found ← fetch ⟨instanceName,algorithm,treeDigest.hash⟩
  let tree ← Failing.ofExcept (decodeOutputTree env missingCode found)
  Failing.ofExcept (collectTreeFileDigests tree digests missingCode)

/-- The empty blob need not be there. -/
def checkArtifact (instanceName : String) (algorithm : DigestAlgorithm) (missingCode : Code)
    (digest : Digest) : CacheHandler Status Unit :=
  if digest.sizeBytes = 0 ∧ digest.hash = EMPTY_SHA256 then store ⟨instanceName,algorithm,digest.hash⟩ []
  else do
    let present ← holds ⟨instanceName,algorithm,digest.hash⟩
    if present then pure ()
    else throw ⟨missingCode,
      s!"referenced artifact is missing from CAS: {digest.hash}/{digest.sizeBytes.toInt}"⟩

def validateArtifacts (instanceName : String) (algorithm : DigestAlgorithm) (result : ActionResult)
    (missingCode : Code) : CacheHandler Status Unit := do
  let fileDigests ← Failing.ofExcept (collectOutputFileDigests missingCode result.outputFiles)
  let digests := fileDigests ++ result.stdoutDigest.toList ++ result.stderrDigest.toList
  let digests ← result.outputDirectories.foldlM
    (collectOutputDirectory env instanceName algorithm missingCode) digests
  digests.foldlM (fun _ digest => checkArtifact instanceName algorithm missingCode digest) ()

def getActionResult (request : GetActionResultRequest) : CacheHandler Status ActionResult := do
  let actionDigest ← Failing.ofExcept (okOr (.invalidArgument "missing action_digest") request.actionDigest)
  let algorithm ← Failing.ofExcept
    ((DigestAlgorithm.resolveProtoValue env request.digestFunction).mapError Status.invalidArgument)
  let found ← retrieve ⟨request.instanceName,algorithm,actionDigest.hash⟩
  let result ← Failing.ofExcept (okOr (.notFound "action result not cached") found)
  validateArtifacts env request.instanceName algorithm result .notFound
  pure result

def decodeCommandDigest (found : Option Bytes) : Except Status Digest := do
  let content ← okOr (.failedPrecondition "action is missing from CAS") found
  let action ← (env.decodeAction content).mapError
    (fun err => Status.failedPrecondition s!"invalid Action in CAS: {err.message}")
  okOr (.failedPrecondition "Action has no command_digest") action.commandDigest

/-- A result is cached when its message is within the size limit of a blob. -/
def admitResult (result : ActionResult) : Except Status Unit :=
  let size := (env.encodeActionResult result).length
  if MAX_DECOMPRESSED_BLOB_SIZE < size then
    .error (.internal s!"failed to compress action result: {(CompressionError.decompressedSizeLimitExceeded
      size MAX_DECOMPRESSED_BLOB_SIZE).toString}")
  else .ok ()

def updateActionResult (request : UpdateActionResultRequest) : CacheHandler Status ActionResult := do
  let actionDigest ← Failing.ofExcept (okOr (.invalidArgument "missing action_digest") request.actionDigest)
  let result ← Failing.ofExcept (okOr (.invalidArgument "missing action_result") request.actionResult)
  let algorithm ← Failing.ofExcept
    ((DigestAlgorithm.resolveProtoValue env request.digestFunction).mapError Status.invalidArgument)
  let found ← fetch ⟨request.instanceName,algorithm,actionDigest.hash⟩
  let commandDigest ← Failing.ofExcept (decodeCommandDigest env found)
  let present ← holds ⟨request.instanceName,algorithm,commandDigest.hash⟩
  if present then do
    validateArtifacts env request.instanceName algorithm result .failedPrecondition
    Failing.ofExcept (admitResult env result)
    publish ⟨request.instanceName,algorithm,actionDigest.hash⟩ result
    pure result
  else throw (.failedPrecondition "command is missing from CAS")

def serve : Request → CacheM Response
  | .findMissingBlobs r => .findMissingBlobs <$> findMissingBlobs env r
  | .batchReadBlobs r => .batchReadBlobs <$> batchReadBlobs env r
  | .batchUpdateBlobs r => .batchUpdateBlobs <$> batchUpdateBlobs env r
  | .getTree | .splitBlob | .spliceBlob | .queryWriteStatus =>
    .done (.unimplemented (.error (.unimplemented "not implemented yet")))
  | .read r => .read <$> (read env r).run
  | .write s => .write <$> (write env s).run
  | .getActionResult r => .actionResult <$> (getActionResult env r).run
  | .updateActionResult r => .actionResult <$> (updateActionResult env r).run

abbrev CacheConfig := Config BlobCall CacheCall.Ret Request Response BlobCache
abbrev CacheWorld := World BlobCall Request BlobCache

/-- The cache server, from a cache, under a schedule. -/
def cacheRun (c : BlobCache) (schedule : List (Interaction.Action Request)) : CacheConfig :=
  (Config.initial c).run Cache.handle (serve env) schedule

end ReapiCache.Abstract
