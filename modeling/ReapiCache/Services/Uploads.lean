import ReapiCache.Services.Cas
import ReapiCache.Services.ByteStream
import ReapiCache.Storage.CodecLaws

/-! # What both upload paths check

`Verified` is the common core: the payload decodes under the declared size, the
decoded bytes have the declared size and hash, and they are re-encoded for storage.
The batch path verifies exactly that. The stream path verifies it for the payload
accumulated up to the first finishing message, under the name of the first message.
-/
namespace ReapiCache
open Interaction
variable {env : Externals}

theorem okOr_eq_ok {ε α : Type} {e : ε} {x : Option α} {a : α} : okOr e x = .ok a ↔ x = some a := by
  cases x <;> simp [okOr]

theorem okOr_eq_error {ε α : Type} {e e' : ε} {x : Option α} : okOr e x = .error e' ↔ x = none ∧ e = e' := by
  cases x <;> simp [okOr]

@[simp] theorem okOr_some {ε α : Type} (e : ε) (a : α) : okOr e (some a) = .ok a := rfl
@[simp] theorem okOr_none {ε α : Type} (e : ε) : okOr e (none : Option α) = .error e := rfl

/-- The compression segment of an encoding. -/
def StorageEncoding.compression : StorageEncoding → Compression
  | .identity => .identity
  | .zstd => .named "zstd"

theorem storageEncoding_eq_ok {c : Compression} {encoding : StorageEncoding} :
    c.storageEncoding = .ok encoding ↔ c = encoding.compression := by
  cases c with
  | identity => cases encoding <;> simp [Compression.storageEncoding, StorageEncoding.compression]
  | named name =>
    by_cases hname : name = "zstd"
    · cases encoding <;> simp [Compression.storageEncoding, StorageEncoding.compression, hname]
    · cases encoding <;> simp [Compression.storageEncoding, StorageEncoding.compression, hname]

structure Verified (env : Externals) (algorithm : DigestAlgorithm) (hash : String) (size : Int64)
    (payload : Bytes) (encoding : StorageEncoding) (identity : Bytes) (stored : BlobRead) : Prop where
  decoded : BlobCodec.intoIdentityData env (BlobRead.encoded payload encoding size.toInt.toNat) =
    .ok identity
  size : size.toInt = identity.length
  hash : algorithm.hashBytes env identity = hash
  stored : BlobCodec.fromIdentityData env identity .zstd = .ok stored

namespace Verified
variable {algorithm : DigestAlgorithm} {hash : String} {size : Int64} {payload identity : Bytes}
  {encoding : StorageEncoding} {stored : BlobRead}

/-- Verification asks for a content within the limit, of the declared size and hash. -/
theorem iff_decodes : Verified env algorithm hash size payload encoding identity stored ↔
    (size.toInt ≤ MAX_DECOMPRESSED_BLOB_SIZE ∧ Decodes env encoding payload identity) ∧
      size.toInt = identity.length ∧ algorithm.hashBytes env identity = hash ∧
      BlobCodec.fromIdentityData env identity .zstd = .ok stored := by
  constructor
  · rintro ⟨decoded,hsize,hhash,hstored⟩
    obtain ⟨hn,hdec,_⟩ := intoIdentityData_encoded.mp decoded
    exact ⟨⟨by omega,hdec⟩,hsize,hhash,hstored⟩
  · rintro ⟨⟨hn,hdec⟩,hsize,hhash,hstored⟩
    refine ⟨intoIdentityData_encoded.mpr ⟨by omega,hdec,fun _ => ?_⟩,hsize,hhash,hstored⟩
    omega

theorem decodes (h : Verified env algorithm hash size payload encoding identity stored) :
    Decodes env encoding payload identity := (iff_decodes.mp h).1.2

/-- A payload that stands for `d` is verified as `d`. -/
theorem identity_eq (h : Verified env algorithm hash size payload encoding identity stored) {d : Bytes}
    (hd : Decodes env encoding payload d) : identity = d := h.decodes.unique hd

theorem hash_ne_empty (h : Verified env algorithm hash size payload encoding identity stored) :
    hash ≠ "" := (hash_segment h.hash).2

theorem size_nonneg (h : Verified env algorithm hash size payload encoding identity stored) :
    0 ≤ size.toInt := by
  rw [h.size]
  exact Int.natCast_nonneg _

end Verified

theorem CasService.verifyBlob_eq_ok {algorithm : DigestAlgorithm} {digest : Digest} {data : Bytes}
    {encoding : StorageEncoding} {stored : BlobRead} :
    CasService.verifyBlob env algorithm digest data encoding = .ok stored ↔
      ∃ identity, Verified env algorithm digest.hash digest.sizeBytes data encoding identity stored := by
  unfold CasService.verifyBlob
  simp only [bind_eq_ok, okOr_eq_ok, mapError_eq_ok, u64TryFrom_eq_some]
  constructor
  · rintro ⟨n,hn,identity,hid,u,hu,hs⟩
    obtain ⟨hsize,hhash⟩ := validate_eq_ok.mp hu
    refine ⟨identity,?_,hsize,hhash,hs⟩
    rw [hn, Int.toNat_natCast]
    exact hid
  · rintro ⟨identity,h⟩
    refine ⟨identity.length,h.size,identity,?_,(),validate_eq_ok.mpr ⟨h.size,h.hash⟩,h.stored⟩
    have hid := h.decoded
    rwa [h.size, Int.toNat_natCast] at hid

/-- A refused blob is reported with a code other than 0. -/
theorem CasService.verifyBlob_error {algorithm : DigestAlgorithm} {digest : Digest} {data : Bytes}
    {encoding : StorageEncoding} {status : RpcStatus}
    (h : CasService.verifyBlob env algorithm digest data encoding = .error status) : status.code ≠ 0 := by
  unfold CasService.verifyBlob at h
  cases hn : u64TryFrom digest.sizeBytes with
  | none =>
    rw [hn] at h
    cases h
    decide
  | some n =>
    simp only [hn, okOr_some, ok_bind] at h
    cases hid : BlobCodec.intoIdentityData env (BlobRead.encoded data encoding n) with
    | error err =>
      rw [hid] at h
      cases h
      exact show (3 : Int32) ≠ 0 by decide
    | ok identity =>
      simp only [hid, mapError_ok, ok_bind] at h
      cases hv : algorithm.validate env digest.hash digest.sizeBytes identity with
      | error err =>
        rw [hv] at h
        cases h
        exact show (3 : Int32) ≠ 0 by decide
      | ok u =>
        simp only [hv, mapError_ok, ok_bind, mapError_eq_error] at h
        obtain ⟨err,_,rfl⟩ := h
        exact show (13 : Int32) ≠ 0 by decide

namespace ByteStreamService

/-- The messages the server takes from a stream: up to the first finishing one. -/
def taken : List WriteRequest → List WriteRequest
  | [] => []
  | m :: messages => if m.finishWrite then [m] else m :: taken messages

end ByteStreamService

namespace WriteStream
open ByteStreamService

/-- The resource a stream is addressed to, from the name of its first message. -/
def target (stream : WriteStream) : Option ParsedReadResource :=
  stream.messages.head?.bind (fun m => (parseBytestreamResourceName m.resourceName).toOption)

/-- The bytes a stream uploads. -/
def payload (stream : WriteStream) : Bytes := (taken stream.messages).flatMap (fun m => m.data.toList)

end WriteStream

namespace ByteStreamService

/-- An accepted message appends its data, and the first one fixes the resource. -/
theorem acceptMessage_ok {state state' : WriteState} {m : WriteRequest}
    (h : acceptMessage state m = .ok state') :
    state'.accumulator = state.accumulator ++ m.data.toList ∧
      ∃ name parsed, state'.resource = some (name,parsed) ∧ (∀ r, state.resource = some r → r = (name,parsed)) ∧
        (state.resource = none → parseBytestreamResourceName m.resourceName = .ok parsed) := by
  rcases state with ⟨accumulator,resource⟩
  unfold acceptMessage at h
  by_cases hoff : m.writeOffset = Int64.ofNat accumulator.length
  · rw [if_neg (not_not.mpr hoff)] at h
    cases resource with
    | some r =>
      rcases r with ⟨name,parsed⟩
      dsimp only at h
      by_cases hname : m.resourceName ≠ "" ∧ m.resourceName ≠ name
      · rw [if_pos hname] at h
        cases h
      · rw [if_neg hname] at h
        obtain rfl := Except.ok.inj h
        refine ⟨rfl,name,parsed,rfl,?_,?_⟩
        · intro r hr
          exact (Option.some.inj hr).symm
        · intro hr
          cases hr
    | none =>
      dsimp only at h
      by_cases hname : m.resourceName = ""
      · rw [if_pos hname] at h
        cases h
      · rw [if_neg hname] at h
        obtain ⟨parsed,hparsed,h⟩ := bind_eq_ok.mp h
        rw [mapError_eq_ok] at hparsed
        by_cases hup : parsed.uploadId.isNone = true
        · rw [if_pos hup] at h
          cases h
        · rw [if_neg hup] at h
          obtain rfl := Except.ok.inj h
          refine ⟨rfl,m.resourceName,parsed,rfl,?_,fun _ => hparsed⟩
          intro r hr
          cases hr
  · rw [if_pos hoff] at h
    cases h

/-- The loop appends what it takes and keeps the resource it has. -/
theorem receive_ok {transportError : Option Status} {messages : List WriteRequest}
    {state state' : WriteState} (h : receive transportError state messages = .ok state') :
    state'.accumulator = state.accumulator ++ (taken messages).flatMap (fun m => m.data.toList) ∧
      ∃ name parsed, state'.resource = some (name,parsed) ∧ (∀ r, state.resource = some r → r = (name,parsed)) ∧
        (state.resource = none → ∃ m, messages.head? = some m ∧
          parseBytestreamResourceName m.resourceName = .ok parsed) := by
  induction messages generalizing state with
  | nil =>
    unfold receive at h
    cases transportError <;> cases h
  | cons m messages ih =>
    obtain ⟨next,hnext,h⟩ := bind_eq_ok.mp h
    obtain ⟨hacc,name,parsed,hres,hold,hnew⟩ := acceptMessage_ok hnext
    by_cases hf : m.finishWrite = true
    · rw [if_pos hf] at h
      obtain rfl := Except.ok.inj h
      refine ⟨by simp [taken, hf, hacc],name,parsed,hres,hold,?_⟩
      exact fun hn => ⟨m,rfl,hnew hn⟩
    · rw [if_neg hf] at h
      obtain ⟨hacc',name',parsed',hres',hold',_⟩ := ih h
      obtain ⟨rfl,rfl⟩ := Prod.mk.inj (hold' _ hres)
      refine ⟨by simp [taken, hf, hacc', hacc],name,parsed,hres',hold,?_⟩
      exact fun hn => ⟨m,rfl,hnew hn⟩

/-- What has been received when a stream is finished: its payload, for its target. -/
theorem receive_start {stream : WriteStream} {state : WriteState}
    (h : receive stream.transportError ⟨[],none⟩ stream.messages = .ok state) :
    state.accumulator = stream.payload ∧
      ∃ name parsed, state.resource = some (name,parsed) ∧ stream.target = some parsed := by
  obtain ⟨hacc,name,parsed,hres,_,hnew⟩ := receive_ok h
  obtain ⟨m,hm,hp⟩ := hnew rfl
  refine ⟨by simpa [WriteStream.payload] using hacc,name,parsed,hres,?_⟩
  simp [WriteStream.target, hm, hp, Except.toOption]

theorem verifyUpload_eq_ok {accumulator : Bytes} {name : String} {parsed : ParsedReadResource}
    {commit : Commit} : verifyUpload env ⟨accumulator,some (name,parsed)⟩ = .ok commit ↔
      resolveBlobKey parsed = .ok commit.key ∧ (accumulator.length : ℤ) ≤ i64Max ∧
      commit.committedSize = Int64.ofNat accumulator.length ∧
      ∃ encoding identity, parsed.compression.storageEncoding = .ok encoding ∧
        Verified env commit.key.algorithm parsed.hash parsed.expectedSize accumulator encoding identity
          commit.stored := by
  unfold verifyUpload
  simp only [okOr_some, ok_bind, bind_eq_ok, okOr_eq_ok, u64TryFrom_eq_some]
  constructor
  · rintro ⟨key,hkey,encoding,henc,n,hn,h⟩
    by_cases hmax : i64Max < ((BlobRead.encoded accumulator encoding n).metadata.storedSize : ℤ)
    · rw [if_pos hmax] at h
      cases h
    · rw [if_neg hmax] at h
      simp only [bind_eq_ok, mapError_eq_ok] at h
      obtain ⟨identity,hid,u,hu,stored,hs,h⟩ := h
      obtain rfl := Except.ok.inj h
      obtain ⟨hsize,hhash⟩ := validate_eq_ok.mp hu
      refine ⟨hkey,Int.not_lt.mp hmax,rfl,encoding,identity,henc,?_,hsize,hhash,hs⟩
      rw [hn, Int.toNat_natCast]
      exact hid
  · rintro ⟨hkey,hmax,hsize,encoding,identity,henc,h⟩
    refine ⟨commit.key,hkey,encoding,henc,identity.length,h.size,?_⟩
    have hid := h.decoded
    rw [h.size, Int.toNat_natCast] at hid
    have hstored : ¬ i64Max <
        ((BlobRead.encoded accumulator encoding identity.length).metadata.storedSize : ℤ) := Int.not_lt.mpr hmax
    rw [if_neg hstored]
    simp only [bind_eq_ok, mapError_eq_ok]
    refine ⟨identity,hid,(),validate_eq_ok.mpr ⟨h.size,h.hash⟩,commit.stored,h.stored,?_⟩
    rcases commit with ⟨key,stored,committedSize⟩
    obtain rfl : committedSize = Int64.ofNat accumulator.length := hsize
    rfl

end ByteStreamService
end ReapiCache
