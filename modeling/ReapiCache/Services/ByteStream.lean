import ReapiCache.Services.ResourceName

/-! # The byte stream service

A read touches the store once, between resolving the name and slicing the decoded
blob. A write accumulates its stream and touches the store once, at the finishing
message.
-/
namespace ReapiCache.ByteStreamService
open Interaction

variable (env : Externals)

def READ_CHUNK_SIZE : ℕ := 64 * 1024
def STORAGE_ENCODING : StorageEncoding := .zstd

/-- What a read resolves its request to before it touches the store. -/
structure ReadTarget where
  parsed : ParsedReadResource
  responseEncoding : StorageEncoding
  key : BlobKey

def readTarget (request : ReadRequest) : Except Status ReadTarget := do
  let parsed ← (parseBytestreamResourceName request.resourceName).mapError
    (fun err => Status.invalidArgument err.toString)
  if parsed.uploadId.isSome then
    .error (.invalidArgument "read resource name must not contain an upload id")
  else
    let responseEncoding ← parsed.compression.storageEncoding
    if responseEncoding ≠ .identity ∧ request.readLimit ≠ 0 then
      .error (.invalidArgument "read_limit is not supported for compressed reads")
    else
      let key ← resolveBlobKey parsed
      .ok { parsed, responseEncoding, key }

/-- The stored blob in identity encoding, once its size and hash are checked. -/
def readIdentity (target : ReadTarget) (blob : Option BlobRead) : Except Status Bytes := do
  let blob ← okOr (.notFound "blob not found") blob
  let expectedSize ← okOr (.invalidArgument "resource size must not be negative")
    (u64TryFrom target.parsed.expectedSize)
  if blob.metadata.uncompressedSize ≠ expectedSize then
    .error (.notFound "blob size does not match resource name")
  else
    let identity ← (BlobCodec.intoIdentityData env blob).mapError
      (fun err => Status.internal s!"failed to decompress blob: {err.toString}")
    (target.key.algorithm.validate env target.parsed.hash target.parsed.expectedSize identity).mapError
      (fun err => Status.internal s!"stored blob failed validation: {err.toString}")
    .ok identity

/-- The requested window of the decoded blob, in the response encoding. -/
def readWindow (request : ReadRequest) (responseEncoding : StorageEncoding) (identity : Bytes) :
    Except Status Bytes := do
  let offset ← okOr (.outOfRange "negative read offset") (u64TryFrom request.readOffset)
  if identity.length < offset then .error (.outOfRange "read offset larger than blob size")
  else
    let available := identity.drop offset
    if responseEncoding = .identity then
      if request.readLimit = 0 then .ok available
      else
        let limit ← okOr (.invalidArgument "negative read limit") (u64TryFrom request.readLimit)
        .ok (available.take (min limit available.length))
    else
      let blob ← (BlobCodec.fromIdentityData env available responseEncoding).mapError
        (fun err => Status.internal s!"failed to compress blob: {err.toString}")
      blob.body.readToEnd.mapError
        (fun err => Status.internal s!"failed to read compressed blob: {err.message}")

/-- `slice::chunks`, with the length of the data as fuel. -/
def chunksAux (size : ℕ) : ℕ → Bytes → List Bytes
  | 0, _ => []
  | _ + 1, [] => []
  | fuel + 1, b :: rest => (b :: rest).take size :: chunksAux size fuel ((b :: rest).drop size)

def chunks (size : ℕ) (data : Bytes) : List Bytes := chunksAux size data.length data

def read (request : ReadRequest) : Handler Status (List ReadResponse) := do
  let target ← Failing.ofExcept (readTarget request)
  let blob ← storeGet (fun err => Status.internal err.toString) target.key
  let identity ← Failing.ofExcept (readIdentity env target blob)
  let data ← Failing.ofExcept (readWindow env request target.responseEncoding identity)
  pure ((chunks READ_CHUNK_SIZE data).map ReadResponse.mk)

/-- The accumulated state of a write stream. -/
structure WriteState where
  accumulator : Bytes
  resource : Option (String × ParsedReadResource)

/-- What one message of a write stream does before its finish flag is looked at. -/
def acceptMessage (state : WriteState) (chunk : WriteRequest) : Except Status WriteState :=
  if chunk.writeOffset ≠ Int64.ofNat state.accumulator.length then
    .error (.invalidArgument "unexpected write offset")
  else
    match state.resource with
    | some (expectedName, parsed) =>
      if chunk.resourceName ≠ "" ∧ chunk.resourceName ≠ expectedName then
        .error (.invalidArgument "unexpected chunk name")
      else .ok ⟨state.accumulator ++ chunk.data.toList,some (expectedName,parsed)⟩
    | none =>
      if chunk.resourceName = "" then
        .error (.invalidArgument "expected chunk name on first write")
      else do
        let parsed ← (parseBytestreamResourceName chunk.resourceName).mapError
          (fun err => Status.invalidArgument err.toString)
        if parsed.uploadId.isNone then
          .error (.invalidArgument "write resource name must contain an upload id")
        else .ok ⟨state.accumulator ++ chunk.data.toList,some (chunk.resourceName,parsed)⟩

/-- The message loop, up to and including the first finishing message. -/
def receive (transportError : Option Status) : WriteState → List WriteRequest → Except Status WriteState
  | _, [] =>
    match transportError with
    | some status => .error status
    | none => .error (.invalidArgument "write stream ended before finish_write")
  | state, chunk :: messages => do
    let state ← acceptMessage state chunk
    if chunk.finishWrite then .ok state else receive transportError state messages

/-- A verified upload, ready to be stored. -/
structure Commit where
  key : BlobKey
  stored : BlobRead
  committedSize : Int64

/-- Everything the finishing message does before it touches the store. -/
def verifyUpload (state : WriteState) : Except Status Commit := do
  let (_, parsed) ← okOr (.invalidArgument "missing resource name") state.resource
  let key ← resolveBlobKey parsed
  let incomingEncoding ← parsed.compression.storageEncoding
  let expectedSize ← okOr (.invalidArgument "resource size must not be negative")
    (u64TryFrom parsed.expectedSize)
  let incoming := BlobRead.encoded state.accumulator incomingEncoding expectedSize
  if i64Max < incoming.metadata.storedSize then .error (.internal "blob exceeds expected size")
  else
    let committedSize := Int64.ofNat incoming.metadata.storedSize
    let identity ← (BlobCodec.intoIdentityData env incoming).mapError
      (fun err => Status.invalidArgument s!"invalid compressed blob: {err.toString}")
    (key.algorithm.validate env parsed.hash parsed.expectedSize identity).mapError
      (fun err => Status.invalidArgument err.toString)
    let stored ← (BlobCodec.fromIdentityData env identity STORAGE_ENCODING).mapError
      (fun err => Status.internal s!"failed to encode blob for storage: {err.toString}")
    .ok { key, stored, committedSize }

def write (stream : WriteStream) : Handler Status WriteResponse := do
  let state ← Failing.ofExcept (receive stream.transportError ⟨[],none⟩ stream.messages)
  let commit ← Failing.ofExcept (verifyUpload env state)
  storePut (fun err => Status.internal err.toString) commit.key commit.stored.metadata
    commit.stored.body
  pure ⟨commit.committedSize⟩

def queryWriteStatus : Handler Status Unit := throw (.unimplemented "not implemented yet")

end ReapiCache.ByteStreamService
