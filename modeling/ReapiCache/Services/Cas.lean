import ReapiCache.Storage.InMemory

/-! # The content addressable storage service

`put_verified_blob` checks an upload against its digest and stores one canonical
encoding of it; the batch handlers map over their items and never abort a batch.
-/
namespace ReapiCache.CasService
open Interaction

variable (env : Externals)

def STORAGE_ENCODING : StorageEncoding := .zstd

/-- The key every handler of this service builds. -/
def casKey (instanceName : String) (algorithm : DigestAlgorithm) (hash : String) : BlobKey :=
  ⟨instanceName,algorithm,hash,.contentAddressableStorage⟩

/-- Everything `put_verified_blob` does before it touches the store. -/
def verifyBlob (algorithm : DigestAlgorithm) (digest : Digest) (data : Bytes)
    (encoding : StorageEncoding) : Except RpcStatus BlobRead := do
  let expectedSize ← okOr (rpcStatus .invalidArgument "digest size must not be negative")
    (u64TryFrom digest.sizeBytes)
  let incoming := BlobRead.encoded data encoding expectedSize
  let identity ← (BlobCodec.intoIdentityData env incoming).mapError
    (fun err => rpcStatus .invalidArgument s!"invalid compressed blob: {err.toString}")
  (algorithm.validate env digest.hash digest.sizeBytes identity).mapError
    (fun err => rpcStatus .invalidArgument err.toString)
  (BlobCodec.fromIdentityData env identity STORAGE_ENCODING).mapError
    (fun err => rpcStatus .internal s!"failed to encode blob for storage: {err.toString}")

def putVerifiedBlob (key : BlobKey) (algorithm : DigestAlgorithm) (digest : Digest) (data : Bytes)
    (encoding : StorageEncoding) : Handler RpcStatus Unit := do
  let stored ← Failing.ofExcept (verifyBlob env algorithm digest data encoding)
  storePut (fun err => rpcStatus .internal err.toString) key stored.metadata stored.body

/-- One round of `find_missing_blobs`. -/
def findMissingBlob (instanceName : String) (algorithm : DigestAlgorithm) (missing : List Digest)
    (digest : Digest) : Handler Status (List Digest) := do
  let present ← storeContains (fun err => Status.internal err.toString)
    (casKey instanceName algorithm digest.hash)
  pure (if present then missing else missing ++ [digest])

def findMissingBlobs (request : FindMissingBlobsRequest) : Handler Status FindMissingBlobsResponse := do
  let algorithm ← Failing.ofExcept
    ((DigestAlgorithm.resolveProtoValue env request.digestFunction).mapError Status.invalidArgument)
  let missing ← request.blobDigests.foldlM (findMissingBlob request.instanceName algorithm) []
  pure ⟨missing⟩

/-- The response to one digest of a batch read, from the store's reply. -/
def blobReadResponse (acceptable : List StorageEncoding) (digest : Digest) :
    Except StorageError (Option BlobRead) → BlobReadResponse
  | .error err => ⟨some digest,[],0,some ⟨13,err.toString,[]⟩⟩
  | .ok none => ⟨some digest,[],0,some ⟨5,"",[]⟩⟩
  | .ok (some blob) =>
    let target := BlobCodec.selectBatchReadResponseEncoding blob.metadata.encoding acceptable
    match BlobCodec.transcode env blob target with
    | .error err =>
      ⟨some digest,[],StorageEncoding.identity.asProtoValue env,some ⟨13,err.toString,[]⟩⟩
    | .ok blob =>
      match blob.body.readToEnd with
      | .error err =>
        ⟨some digest,[],StorageEncoding.identity.asProtoValue env,some ⟨13,err.message,[]⟩⟩
      | .ok data =>
        ⟨some digest,data,blob.metadata.encoding.asProtoValue env,some ⟨0,"",[]⟩⟩

/-- One round of `batch_read_blobs`. -/
def batchReadBlob (instanceName : String) (algorithm : DigestAlgorithm)
    (acceptable : List StorageEncoding) (responses : List BlobReadResponse) (digest : Digest) :
    Handler Status (List BlobReadResponse) := do
  let response ← Failing.attempt (.get (casKey instanceName algorithm digest.hash))
    (fun r => .ok (blobReadResponse env acceptable digest r))
  pure (responses ++ [response])

def batchReadBlobs (request : BatchReadBlobsRequest) : Handler Status BatchReadBlobsResponse := do
  let algorithm ← Failing.ofExcept
    ((DigestAlgorithm.resolveProtoValue env request.digestFunction).mapError Status.invalidArgument)
  let acceptable := request.acceptableCompressors.filterMap (StorageEncoding.fromProtoValue env)
  let responses ← request.digests.foldlM (batchReadBlob env request.instanceName algorithm acceptable) []
  pure ⟨responses⟩

/-- One round of `batch_update_blobs`. A refused item yields its own status and the
batch goes on. -/
def batchUpdateBlob (instanceName : String) (algorithm : DigestAlgorithm)
    (responses : List BlobUpdateResponse) (req : BlobRequest) :
    Handler Status (List BlobUpdateResponse) :=
  match req.digest with
  | none => pure (responses ++ [⟨none,some (rpcStatus .invalidArgument "missing digest")⟩])
  | some digest =>
    match StorageEncoding.fromProtoValue env req.compressor with
    | none =>
      pure (responses ++
        [⟨some digest,some (rpcStatus .invalidArgument "unsupported compression method")⟩])
    | some encoding => do
      let result ← Failing.outcome (putVerifiedBlob env (casKey instanceName algorithm digest.hash)
        algorithm digest req.data.toList encoding)
      let status := match result with
        | .ok () => rpcStatus .ok ""
        | .error status => status
      pure (responses ++ [⟨some digest,some status⟩])

def batchUpdateBlobs (request : BatchUpdateBlobsRequest) : Handler Status BatchUpdateBlobsResponse := do
  let algorithm ← Failing.ofExcept
    ((DigestAlgorithm.resolveProtoValue env request.digestFunction).mapError Status.invalidArgument)
  let responses ← request.requests.foldlM (batchUpdateBlob env request.instanceName algorithm) []
  pure ⟨responses⟩

def getTree : Handler Status Unit := throw (.unimplemented "not implemented yet")
def splitBlob : Handler Status Unit := throw (.unimplemented "not implemented yet")
def spliceBlob : Handler Status Unit := throw (.unimplemented "not implemented yet")

end ReapiCache.CasService
