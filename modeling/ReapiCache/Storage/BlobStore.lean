import ReapiCache.Digest.Algorithm

/-! # Keys, encodings and blobs -/
namespace ReapiCache

inductive StorageError
  | unavailable (reason : String)
  | io (err : IoError)
deriving DecidableEq

def StorageError.toString : StorageError → String
  | .unavailable reason => s!"storage unavailable: {reason}"
  | .io err => s!"storage I/O error: {err.message}"

inductive CacheKind
  | contentAddressableStorage
  | actionCache
deriving DecidableEq

/-- The key of a stored blob. It names the hash, not the size. -/
structure BlobKey where
  instanceName : String
  algorithm : DigestAlgorithm
  hash : String
  kind : CacheKind
deriving DecidableEq

inductive StorageEncoding
  | identity
  | zstd
deriving DecidableEq

namespace StorageEncoding
variable (env : Externals)

def fromProtoValue (value : Int32) : Option StorageEncoding :=
  match env.compressor.tryFrom value with
  | none => none
  | some .identity => some .identity
  | some .zstd => some .zstd
  | some .deflate | some .brotli => none

def asProtoValue : StorageEncoding → Int32
  | .identity => env.compressor.value .identity
  | .zstd => env.compressor.value .zstd

/-- The reported compressor is read back as the encoding it reports. -/
@[simp] theorem fromProtoValue_asProtoValue (e : StorageEncoding) :
    fromProtoValue env (e.asProtoValue env) = some e := by
  cases e with
  | identity => simp only [fromProtoValue, asProtoValue, (env.compressor.tryFrom_eq_some _ _).mpr rfl]
  | zstd => simp only [fromProtoValue, asProtoValue, (env.compressor.tryFrom_eq_some _ _).mpr rfl]

variable {env}

theorem fromProtoValue_eq_some {value : Int32} {e : StorageEncoding} :
    fromProtoValue env value = some e ↔ value = e.asProtoValue env := by
  constructor
  · intro h
    unfold fromProtoValue at h
    cases hv : env.compressor.tryFrom value with
    | none =>
      rw [hv] at h
      cases h
    | some c =>
      rw [hv] at h
      have hvalue := (env.compressor.tryFrom_eq_some _ _).mp hv
      cases c with
      | identity =>
        cases h
        exact hvalue.symm
      | zstd =>
        cases h
        exact hvalue.symm
      | deflate => cases h
      | brotli => cases h
  · rintro rfl
    exact fromProtoValue_asProtoValue env e

end StorageEncoding

structure StoredBlobMetadata where
  encoding : StorageEncoding
  uncompressedSize : ℕ
  storedSize : ℕ
deriving DecidableEq

/-- A boxed reader. Every reader the server builds is a cursor over bytes it holds. -/
structure BlobReader where
  cursor : Bytes
deriving DecidableEq

def BlobReader.readToEnd (body : BlobReader) : Except IoError Bytes := .ok body.cursor

structure BlobRead where
  metadata : StoredBlobMetadata
  body : BlobReader
deriving DecidableEq

namespace BlobRead

def encoded (data : Bytes) (encoding : StorageEncoding) (uncompressedSize : ℕ) : BlobRead where
  metadata := { encoding, uncompressedSize, storedSize := data.length }
  body := ⟨data⟩

def identity (data : Bytes) : BlobRead := encoded data .identity data.length

end BlobRead

end ReapiCache
