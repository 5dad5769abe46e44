import ReapiCache.Storage.BlobStore

/-! # The blob codec

Transcoding between the identity and the compressed encoding, with the size checks
of each branch, and the choice of a response encoding.
-/
namespace ReapiCache

def u64Max : ℕ := 18446744073709551615

/-- Maximum uncompressed size accepted by the codec (100 MiB). -/
def MAX_DECOMPRESSED_BLOB_SIZE : ℕ := 100 * 1024 * 1024

inductive CompressionError
  | unsupported
  | io (err : IoError)
  | sizeMismatch (expected actual : ℕ)
  | decompressedSizeLimitExceeded (actual limit : ℕ)
deriving DecidableEq

def CompressionError.toString : CompressionError → String
  | .unsupported => "unsupported compression method"
  | .io err => s!"compression failed: {err.message}"
  | .sizeMismatch expected actual => s!"size mismatch, expected: {expected}, actual: {actual}"
  | .decompressedSizeLimitExceeded actual limit =>
    s!"decompressed size {actual} exceeds limit of {limit} bytes"

variable (env : Externals)

def compressZstd (data : Bytes) : Except CompressionError Bytes :=
  (env.encodeAll data).mapError .io

/-- At most one byte more than expected is read, so a longer stream is noticed. -/
def decompressZstd (data : Bytes) (expectedSize : ℕ) : Except CompressionError Bytes := do
  let decoder ← (env.decoder data).mapError .io
  let output ← (decoder.takeReadToEnd (min (expectedSize + 1) u64Max)).mapError .io
  if output.length ≠ expectedSize then
    .error (.sizeMismatch expectedSize output.length)
  else .ok output

namespace BlobCodec

def transcode (blob : BlobRead) (target : StorageEncoding) : Except CompressionError BlobRead :=
  let metadata := blob.metadata
  if MAX_DECOMPRESSED_BLOB_SIZE < metadata.uncompressedSize then
    .error (.decompressedSizeLimitExceeded metadata.uncompressedSize MAX_DECOMPRESSED_BLOB_SIZE)
  else if metadata.encoding = target then .ok blob
  else do
    let data ← blob.body.readToEnd.mapError .io
    let data ← match metadata.encoding, target with
      | .identity, .zstd =>
        if data.length ≠ metadata.uncompressedSize then
          .error (.sizeMismatch metadata.uncompressedSize data.length)
        else compressZstd env data
      | .zstd, .identity => decompressZstd env data metadata.uncompressedSize
      | _, _ => .error .unsupported
    .ok {
      metadata := {
        encoding := target
        storedSize := data.length
        uncompressedSize := metadata.uncompressedSize }
      body := ⟨data⟩ }

def intoIdentityData (blob : BlobRead) : Except CompressionError Bytes := do
  let blob ← transcode env blob .identity
  blob.body.readToEnd.mapError .io

def fromIdentityData (data : Bytes) (target : StorageEncoding) : Except CompressionError BlobRead :=
  transcode env (.identity data) target

def RESPONSE_PRIORITY : List StorageEncoding := [.zstd,.identity]

def selectBatchReadResponseEncoding (stored : StorageEncoding) (acceptable : List StorageEncoding) :
    StorageEncoding :=
  if stored ≠ .identity ∧ stored ∈ acceptable then stored
  else
    (RESPONSE_PRIORITY.find? (fun encoding => encoding = .identity ∨ encoding ∈ acceptable)).getD
      .identity

end BlobCodec
end ReapiCache
