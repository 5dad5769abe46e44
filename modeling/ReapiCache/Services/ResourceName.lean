import ReapiCache.Storage.InMemory
import ReapiCache.Text.Segments
import ReapiCache.Text.Decimal

/-! # Resource names of the byte stream service

The grammar is `[instance/][uploads/id/](blobs|compressed-blobs/name)/[algorithm/]hash/size`,
with anything after the size ignored.
-/
namespace ReapiCache

inductive ParseResourceError
  | invalidShape
  | invalidSize (err : Text.ParseIntError)
  | negativeSize
deriving DecidableEq

def ParseResourceError.toString : ParseResourceError → String
  | .invalidShape => "invalid bytestream resource name"
  | .invalidSize _ => "resource size is invalid"
  | .negativeSize => "resource size must not be negative"

inductive Compression
  | identity
  | named (name : String)
deriving DecidableEq

def Compression.storageEncoding : Compression → Except Status StorageEncoding
  | .identity => .ok .identity
  | .named name =>
    if name = "zstd" then .ok .zstd
    else .error (.unimplemented s!"unsupported compression method: {name}")

structure ParsedReadResource where
  instanceName : String
  uploadId : Option String
  algorithm : Option String
  hash : String
  expectedSize : Int64
  compression : Compression
deriving DecidableEq

def i64Min : ℤ := -9223372036854775808
def i64Max : ℤ := 9223372036854775807

def parseI64 (s : String) : Except Text.ParseIntError Int64 :=
  (Text.parseInt i64Min i64Max s).map Int64.ofInt

/-- The segments before the marker: an instance name, with an upload id when they
end in `uploads` and a non-empty segment. -/
def splitUpload (leading : List String) : String × Option String :=
  if h : 2 ≤ leading.length then
    if leading[leading.length - 2] = "uploads" ∧ leading[leading.length - 1] ≠ "" then
      (Text.join '/' (leading.take (leading.length - 2)),some leading[leading.length - 1])
    else (Text.join '/' leading,none)
  else (Text.join '/' leading,none)

/-- The segments after the marker, once a compressor name is taken off. -/
def splitCompression (marker : String) (suffix : List String) :
    Except ParseResourceError (Compression × List String) :=
  if marker = "blobs" then .ok (.identity,suffix)
  else
    -- the only other marker is `compressed-blobs`
    match suffix with
    | [] => .error .invalidShape
    | compressor :: digestParts =>
      if compressor = "" then .error .invalidShape else .ok (.named compressor,digestParts)

/-- Algorithm, hash and size. The algorithm is recognised only before two more segments. -/
def splitDigest : List String → Except ParseResourceError (Option String × String × String)
  | a :: b :: c :: _ =>
    if (DigestAlgorithm.fromStr a).isOk then .ok (some a,b,c) else .ok (none,a,b)
  | [a,b] => .ok (none,a,b)
  | _ => .error .invalidShape

def parseBytestreamResourceName (resourceName : String) :
    Except ParseResourceError ParsedReadResource :=
  let parts := Text.split '/' resourceName
  match parts.findIdx? (fun part => part == "blobs" || part == "compressed-blobs") with
  | none => .error .invalidShape
  | some markerIndex => do
    let (instanceName, uploadId) := splitUpload (parts.take markerIndex)
    let (compression, digestParts) ←
      splitCompression (parts.getD markerIndex "") (parts.drop (markerIndex + 1))
    let (algorithm, hash, size) ← splitDigest digestParts
    if hash = "" then .error .invalidShape
    else
      let expectedSize ← (parseI64 size).mapError .invalidSize
      if expectedSize.toInt < 0 then .error .negativeSize
      else .ok { instanceName, uploadId, algorithm, hash, expectedSize, compression }

def resolveBlobKey (resource : ParsedReadResource) : Except Status BlobKey := do
  let algorithm ← match resource.algorithm with
    | some name => (DigestAlgorithm.fromStr name).mapError Status.invalidArgument
    | none => .ok .sha256
  .ok {
    instanceName := resource.instanceName
    algorithm
    hash := resource.hash
    kind := .contentAddressableStorage }

end ReapiCache
