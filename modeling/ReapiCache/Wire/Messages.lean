import Mathlib.Data.List.Basic

/-! # Messages of the three services

Requests, responses and statuses as the handlers see them. A message that is stored
and returned keeps the fields no handler reads in wire form, so that two results are
equal only when all their fields are; a message that is only decoded and inspected
has the inspected fields.
-/
namespace ReapiCache

abbrev Bytes := List UInt8

/-- The largest allocation of a vector. -/
def isizeMax : ℕ := 9223372036854775807

/-- The payload of a received message: no vector is longer than `isizeMax`. -/
structure ByteVec where
  toList : Bytes
  length_le : toList.length ≤ isizeMax
deriving DecidableEq

structure Digest where
  hash : String
  sizeBytes : Int64
deriving DecidableEq

inductive Code
  | ok | cancelled | unknown | invalidArgument | deadlineExceeded | notFound | alreadyExists
  | permissionDenied | resourceExhausted | failedPrecondition | aborted | outOfRange
  | unimplemented | internal | unavailable | dataLoss | unauthenticated
deriving DecidableEq

def Code.toI32 : Code → Int32
  | .ok => 0
  | .cancelled => 1
  | .unknown => 2
  | .invalidArgument => 3
  | .deadlineExceeded => 4
  | .notFound => 5
  | .alreadyExists => 6
  | .permissionDenied => 7
  | .resourceExhausted => 8
  | .failedPrecondition => 9
  | .aborted => 10
  | .outOfRange => 11
  | .unimplemented => 12
  | .internal => 13
  | .unavailable => 14
  | .dataLoss => 15
  | .unauthenticated => 16

structure Status where
  code : Code
  message : String
deriving DecidableEq

namespace Status
def invalidArgument (message : String) : Status := ⟨.invalidArgument,message⟩
def notFound (message : String) : Status := ⟨.notFound,message⟩
def failedPrecondition (message : String) : Status := ⟨.failedPrecondition,message⟩
def outOfRange (message : String) : Status := ⟨.outOfRange,message⟩
def unimplemented (message : String) : Status := ⟨.unimplemented,message⟩
def internal (message : String) : Status := ⟨.internal,message⟩
end Status

/-- `Option::ok_or`. -/
def okOr {ε α : Type} (e : ε) : Option α → Except ε α
  | none => .error e
  | some a => .ok a

structure Any where
  typeUrl : String
  value : Bytes
deriving DecidableEq

structure RpcStatus where
  code : Int32
  message : String
  details : List Any
deriving DecidableEq

def rpcStatus (code : Code) (message : String) : RpcStatus := ⟨code.toI32,message,[]⟩

inductive Compressor
  | identity | zstd | deflate | brotli
deriving DecidableEq

/-- `other` stands for every digest function the server knows by name but does not support. -/
inductive ProtoDigestFunction
  | unknown | sha256 | other
deriving DecidableEq

structure FindMissingBlobsRequest where
  instanceName : String
  blobDigests : List Digest
  digestFunction : Int32

structure FindMissingBlobsResponse where
  missingBlobDigests : List Digest
deriving DecidableEq

structure BatchReadBlobsRequest where
  instanceName : String
  digests : List Digest
  acceptableCompressors : List Int32
  digestFunction : Int32

structure BlobReadResponse where
  digest : Option Digest
  data : Bytes
  compressor : Int32
  status : Option RpcStatus
deriving DecidableEq

structure BatchReadBlobsResponse where
  responses : List BlobReadResponse
deriving DecidableEq

structure BlobRequest where
  digest : Option Digest
  data : ByteVec
  compressor : Int32

structure BatchUpdateBlobsRequest where
  instanceName : String
  requests : List BlobRequest
  digestFunction : Int32

structure BlobUpdateResponse where
  digest : Option Digest
  status : Option RpcStatus
deriving DecidableEq

structure BatchUpdateBlobsResponse where
  responses : List BlobUpdateResponse
deriving DecidableEq

structure ReadRequest where
  resourceName : String
  readOffset : Int64
  readLimit : Int64

structure ReadResponse where
  data : Bytes
deriving DecidableEq

structure WriteRequest where
  resourceName : String
  writeOffset : Int64
  finishWrite : Bool
  data : ByteVec

/-- The messages a client sends, and the transport error that cuts them off, if any. -/
structure WriteStream where
  messages : List WriteRequest
  transportError : Option Status

structure WriteResponse where
  committedSize : Int64
deriving DecidableEq

structure OutputFile where
  digest : Option Digest
  otherFields : Bytes
deriving DecidableEq

structure OutputDirectory where
  treeDigest : Option Digest
  otherFields : Bytes
deriving DecidableEq

structure ActionResult where
  outputFiles : List OutputFile
  outputDirectories : List OutputDirectory
  stdoutDigest : Option Digest
  stderrDigest : Option Digest
  otherFields : Bytes
deriving DecidableEq

structure Action where
  commandDigest : Option Digest

structure FileNode where
  digest : Option Digest

structure Directory where
  files : List FileNode

structure Tree where
  root : Option Directory
  children : List Directory

structure GetActionResultRequest where
  instanceName : String
  actionDigest : Option Digest
  digestFunction : Int32

structure UpdateActionResultRequest where
  instanceName : String
  actionDigest : Option Digest
  actionResult : Option ActionResult
  digestFunction : Int32

end ReapiCache
