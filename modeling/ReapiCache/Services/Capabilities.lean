import ReapiCache.Storage.BlobStore

/-! # The capabilities service

What the server advertises, as the source has it. The numbers of the generated
enumerations are a parameter; the other services read such numbers back.
-/
namespace ReapiCache

inductive SymlinkAbsolutePathStrategy
  | unknown | disallowed | allowed
deriving DecidableEq

/-- `as i32` of the generated enumerations. -/
structure EnumNumbers where
  digestFunction : ProtoDigestFunction → Int32
  symlinkAbsolutePathStrategy : SymlinkAbsolutePathStrategy → Int32

/-- The numbers are those that are read back. -/
def EnumNumbers.Agree (numbers : EnumNumbers) (env : Externals) : Prop :=
  ∀ proto, proto ≠ .other → ∀ value, env.digestFunction value = some proto ↔ value = numbers.digestFunction proto

namespace DigestAlgorithm

def SUPPORTED : List DigestAlgorithm := [.sha256]

def toProto : DigestAlgorithm → ProtoDigestFunction
  | .sha256 => .sha256

def supportedDigestFunctions (numbers : EnumNumbers) : List Int32 :=
  SUPPORTED.map (fun algorithm => numbers.digestFunction algorithm.toProto)

end DigestAlgorithm

structure SemVer where
  major : Int32
  minor : Int32
  patch : Int32
  prerelease : String
deriving DecidableEq

structure GetCapabilitiesRequest where
  instanceName : String

structure ActionCacheUpdateCapabilities where
  updateEnabled : Bool
deriving DecidableEq

/-- A message that is never filled in is kept in wire form. -/
structure CacheCapabilities where
  digestFunctions : List Int32
  actionCacheUpdateCapabilities : Option ActionCacheUpdateCapabilities
  cachePriorityCapabilities : Option Bytes
  maxBatchTotalSizeBytes : Int64
  maxCasBlobSizeBytes : Int64
  symlinkAbsolutePathStrategy : Int32
  supportedCompressors : List Int32
  supportedBatchUpdateCompressors : List Int32
  splitBlobSupport : Bool
  spliceBlobSupport : Bool
  fastCdc2020Params : Option Bytes
  repMaxCdcParams : Option Bytes
deriving DecidableEq

structure ExecutionCapabilities where
  digestFunction : Int32
  execEnabled : Bool
  executionPriorityCapabilities : Option Bytes
  supportedNodeProperties : List String
  digestFunctions : List Int32
deriving DecidableEq

structure ServerCapabilities where
  cacheCapabilities : Option CacheCapabilities
  executionCapabilities : Option ExecutionCapabilities
  deprecatedApiVersion : Option SemVer
  lowApiVersion : Option SemVer
  highApiVersion : Option SemVer
deriving DecidableEq

namespace CapabilitiesService
variable (env : Externals) (numbers : EnumNumbers)

def HIGH_REAPI_VERSION : SemVer := ⟨2,12,0,""⟩

def LOW_REAPI_VERSION : SemVer := ⟨2,0,0,""⟩

def getCapabilities (_request : GetCapabilitiesRequest) : Except Status ServerCapabilities :=
  .ok {
    cacheCapabilities := some {
      digestFunctions := DigestAlgorithm.supportedDigestFunctions numbers
      actionCacheUpdateCapabilities := some ⟨true⟩
      cachePriorityCapabilities := none
      maxBatchTotalSizeBytes := 0
      maxCasBlobSizeBytes := 0
      symlinkAbsolutePathStrategy := numbers.symlinkAbsolutePathStrategy .disallowed
      supportedCompressors := [env.compressor.value .zstd]
      supportedBatchUpdateCompressors := [env.compressor.value .zstd]
      splitBlobSupport := false
      spliceBlobSupport := false
      fastCdc2020Params := none
      repMaxCdcParams := none }
    executionCapabilities := some {
      digestFunction := numbers.digestFunction .sha256
      execEnabled := false
      executionPriorityCapabilities := none
      supportedNodeProperties := []
      digestFunctions := [numbers.digestFunction .sha256] }
    deprecatedApiVersion := none
    lowApiVersion := some LOW_REAPI_VERSION
    highApiVersion := some HIGH_REAPI_VERSION }

end CapabilitiesService
end ReapiCache
