import ReapiCache.Server.Accepted
import ReapiCache.Services.ResourceNameLaws

/-! # The two upload paths

A batch item states its digest in fields, a stream in its name, cut into messages. Both
verify the same payload under the same digest and put the same blob under the same key,
so on every store they accept and refuse together and leave the same store behind.
-/
namespace ReapiCache
open Interaction ByteStreamService
variable {env : Externals}

/-- The name under which a blob is uploaded in an encoding. -/
def uploadName (instanceName uploadId : String) (encoding : StorageEncoding) (algorithm : Bool)
    (digest : Digest) : ResourceName :=
  ⟨instanceName,some uploadId,encoding.segment,algorithm,digest.hash,digest.sizeBytes⟩

/-- From an offset on, the messages send the payload in chunks, possibly empty ones, and
only the last finishes. Names may be repeated or left out. -/
inductive Chunked (name : String) : ℕ → List WriteRequest → Bytes → Prop
  | last (offset : ℕ) (m : WriteRequest) (named : m.resourceName = "" ∨ m.resourceName = name)
      (offset_eq : m.writeOffset = Int64.ofNat offset) (finish : m.finishWrite = true) :
      Chunked name offset [m] m.data.toList
  | more (offset : ℕ) (m : WriteRequest) (messages : List WriteRequest) (payload : Bytes)
      (named : m.resourceName = "" ∨ m.resourceName = name)
      (offset_eq : m.writeOffset = Int64.ofNat offset) (unfinished : m.finishWrite = false)
      (rest : Chunked name (offset + m.data.toList.length) messages payload) :
      Chunked name offset (m :: messages) (m.data.toList ++ payload)

/-- The stream sends the payload under the name, which its first message carries. -/
structure Sends (stream : WriteStream) (name : String) (payload : Bytes) : Prop where
  named : ∃ m, stream.messages.head? = some m ∧ m.resourceName = name
  chunked : Chunked name 0 stream.messages payload

namespace ByteStreamService
variable {name : String} {parsed : ParsedReadResource}

theorem acceptMessage_named {accumulator : Bytes} {m : WriteRequest}
    (hname : m.resourceName = "" ∨ m.resourceName = name)
    (hoffset : m.writeOffset = Int64.ofNat accumulator.length) :
    acceptMessage ⟨accumulator,some (name,parsed)⟩ m =
      .ok ⟨accumulator ++ m.data.toList,some (name,parsed)⟩ := by
  have hsame : ¬ (m.resourceName ≠ "" ∧ m.resourceName ≠ name) := by
    rintro ⟨hne,hne'⟩
    rcases hname with h | h
    · exact hne h
    · exact hne' h
  unfold acceptMessage
  rw [if_neg (not_not.mpr hoffset)]
  dsimp only
  rw [if_neg hsame]

/-- Once the resource is known, the loop receives exactly the payload. -/
theorem receive_chunked {offset : ℕ} {messages : List WriteRequest} {payload : Bytes}
    (h : Chunked name offset messages payload) (transportError : Option Status) {accumulator : Bytes}
    (hoffset : accumulator.length = offset) :
    receive transportError ⟨accumulator,some (name,parsed)⟩ messages =
      .ok ⟨accumulator ++ payload,some (name,parsed)⟩ := by
  induction h generalizing accumulator with
  | last offset m named offset_eq finish =>
    subst hoffset
    rw [receive, acceptMessage_named named offset_eq, ok_bind, if_pos finish]
  | more offset m messages payload named offset_eq unfinished rest ih =>
    subst hoffset
    rw [receive, acceptMessage_named named offset_eq, ok_bind, if_neg (by simp [unfinished]),
      ih (List.length_append), List.append_assoc]

/-- The first message makes the resource known. -/
theorem acceptMessage_first {m : WriteRequest} (hname : m.resourceName = name)
    (hoffset : m.writeOffset = Int64.ofNat ([] : Bytes).length) (hparse : parseBytestreamResourceName name = .ok parsed)
    (hupload : parsed.uploadId.isNone = false) :
    acceptMessage ⟨[],none⟩ m = acceptMessage ⟨[],some (name,parsed)⟩ m := by
  have hne : name ≠ "" := by
    rintro rfl
    have hempty : parseBytestreamResourceName "" = .error .invalidShape := by decide
    rw [hempty] at hparse
    cases hparse
  rw [acceptMessage_named (Or.inr hname) hoffset]
  have hsome : ¬ parsed.uploadId.isNone = true := by
    rw [hupload]
    exact Bool.false_ne_true
  unfold acceptMessage
  rw [if_neg (not_not.mpr hoffset)]
  dsimp only
  rw [hname, if_neg hne, hparse, mapError_ok, ok_bind, if_neg hsome]

theorem head_offset {offset : ℕ} {m : WriteRequest} {messages : List WriteRequest} {payload : Bytes}
    (h : Chunked name offset (m :: messages) payload) : m.writeOffset = Int64.ofNat offset := by
  cases h with
  | last _ _ _ offset_eq _ => exact offset_eq
  | more _ _ _ _ _ offset_eq _ _ => exact offset_eq

theorem receive_sends {stream : WriteStream} {payload : Bytes} (h : Sends stream name payload)
    (hparse : parseBytestreamResourceName name = .ok parsed) (hupload : parsed.uploadId.isNone = false) :
    receive stream.transportError ⟨[],none⟩ stream.messages = .ok ⟨payload,some (name,parsed)⟩ := by
  obtain ⟨⟨m,hm,hname⟩,hchunked⟩ := h
  have hreceive : receive stream.transportError ⟨[],some (name,parsed)⟩ stream.messages =
      .ok ⟨payload,some (name,parsed)⟩ := receive_chunked hchunked stream.transportError rfl
  cases hmessages : stream.messages with
  | nil =>
    rw [hmessages] at hm
    cases hm
  | cons m' messages =>
    rw [hmessages] at hm hchunked hreceive
    obtain rfl := Option.some.inj hm
    rw [receive, acceptMessage_first hname (head_offset hchunked) hparse hupload]
    exact hreceive

/-- A stream whose name is malformed is refused at its first message. -/
theorem receive_malformed {stream : WriteStream} {payload : Bytes} (h : Sends stream name payload)
    {err : ParseResourceError} (hparse : parseBytestreamResourceName name = .error err) :
    ∃ s, receive stream.transportError ⟨[],none⟩ stream.messages = .error s := by
  obtain ⟨⟨m,hm,hname⟩,hchunked⟩ := h
  cases hmessages : stream.messages with
  | nil =>
    rw [hmessages] at hm
    cases hm
  | cons m' messages =>
    rw [hmessages] at hm hchunked
    obtain rfl := Option.some.inj hm
    have hoffset : m'.writeOffset = Int64.ofNat ([] : Bytes).length := head_offset hchunked
    have haccept : ∃ s, acceptMessage ⟨[],none⟩ m' = .error s := by
      unfold acceptMessage
      rw [if_neg (not_not.mpr hoffset)]
      dsimp only
      by_cases hne : m'.resourceName = ""
      · exact ⟨_,by rw [if_pos hne]⟩
      · rw [if_neg hne, hname, hparse]
        exact ⟨_,rfl⟩
    obtain ⟨s,hs⟩ := haccept
    exact ⟨s,by rw [receive, hs, error_bind]⟩

end ByteStreamService

/-- A batch with a single item is answered with code 0. -/
def ItemAccepted (response : Response) : Prop :=
  ∃ answer status, response = .batchUpdateBlobs (.ok ⟨[answer]⟩) ∧ answer.status = some status ∧
    status.code = 0

def StreamAccepted (response : Response) : Prop := ∃ r, response = .write (.ok r)

/-- A put that fails has no effect. -/
theorem InMemoryStore.put_error {store : InMemoryStore} {key : BlobKey} {metadata : StoredBlobMetadata}
    {body : BlobReader} {err : StorageError} (h : (store.put key metadata body).1 = .error err) :
    (store.put key metadata body).2 = store := by
  by_cases hp : store.poisoned = true
  · simp [InMemoryStore.put, hp, BlobReader.readToEnd]
  · rw [InMemoryStore.put_eq (by simpa using hp)] at h
    cases h

section Batch
variable {store : InMemoryStore} {instanceName : String} {digest : Digest} {payload : ByteVec}
  {compressor function : Int32} {encoding : StorageEncoding} (hf : SupportsFunction env function)
  (hcompressor : StorageEncoding.fromProtoValue env compressor = some encoding)
include hf hcompressor

/-- The answer to the item reports the outcome of the put. -/
theorem execute_batchUpdateBlob {result : Except RpcStatus Unit} {store' : InMemoryStore}
    (h : (CasService.putVerifiedBlob env (CasService.casKey instanceName .sha256 digest.hash) .sha256 digest
      payload.toList encoding).run.exec InMemoryStore.handle store = (result,store')) :
    ∃ status, execute env (.batchUpdateBlobs ⟨instanceName,[⟨some digest,payload,compressor⟩],function⟩) store =
        (.batchUpdateBlobs (.ok ⟨[⟨some digest,some status⟩]⟩),store') ∧
      (result = .ok () ∧ status = rpcStatus .ok "" ∨ result = .error status) := by
  simp only [execute, serve, Program.exec_map, CasService.batchUpdateBlobs, resolveProtoValue_eq_ok hf,
    mapError_ok, Failing.exec_bind, Failing.exec_ofExcept, List.foldlM_cons, List.foldlM_nil,
    CasService.batchUpdateBlob, hcompressor, Failing.exec_outcome, Failing.exec_pure, List.nil_append, h]
  cases result with
  | ok u => exact ⟨_,rfl,Or.inl ⟨rfl,rfl⟩⟩
  | error status => exact ⟨status,rfl,Or.inr rfl⟩

theorem item_refused {status : RpcStatus}
    (h : CasService.verifyBlob env .sha256 digest payload.toList encoding = .error status) :
    ¬ ItemAccepted (execute env
        (.batchUpdateBlobs ⟨instanceName,[⟨some digest,payload,compressor⟩],function⟩) store).1 ∧
      (execute env (.batchUpdateBlobs ⟨instanceName,[⟨some digest,payload,compressor⟩],function⟩) store).2 =
        store := by
  have hput : (CasService.putVerifiedBlob env (CasService.casKey instanceName .sha256 digest.hash) .sha256
      digest payload.toList encoding).run.exec InMemoryStore.handle store = (.error status,store) := by
    simp only [CasService.putVerifiedBlob, h, Failing.exec_bind, Failing.exec_ofExcept]
  obtain ⟨status',hexec,⟨hok,_⟩ | herror⟩ := execute_batchUpdateBlob hf hcompressor hput
  · cases hok
  · obtain rfl := Except.error.inj herror
    rw [hexec]
    refine ⟨?_,rfl⟩
    rintro ⟨answer,status',hresponse,hstatus,hcode⟩
    cases hresponse
    obtain rfl := Option.some.inj hstatus
    exact CasService.verifyBlob_error h hcode

theorem item_verified {blob : BlobRead}
    (h : CasService.verifyBlob env .sha256 digest payload.toList encoding = .ok blob) :
    (ItemAccepted (execute env
        (.batchUpdateBlobs ⟨instanceName,[⟨some digest,payload,compressor⟩],function⟩) store).1 ↔
      (store.put (CasService.casKey instanceName .sha256 digest.hash) blob.metadata blob.body).1 = .ok ()) ∧
    (execute env (.batchUpdateBlobs ⟨instanceName,[⟨some digest,payload,compressor⟩],function⟩) store).2 =
      (store.put (CasService.casKey instanceName .sha256 digest.hash) blob.metadata blob.body).2 := by
  have hput : (CasService.putVerifiedBlob env (CasService.casKey instanceName .sha256 digest.hash) .sha256
      digest payload.toList encoding).run.exec InMemoryStore.handle store =
      ((store.put (CasService.casKey instanceName .sha256 digest.hash) blob.metadata blob.body).1.mapError
          (fun err => rpcStatus .internal err.toString),
        (store.put (CasService.casKey instanceName .sha256 digest.hash) blob.metadata blob.body).2) := by
    simp only [CasService.putVerifiedBlob, h, Failing.exec_bind, Failing.exec_ofExcept, storePut,
      Failing.exec_attempt, InMemoryStore.handle_put]
  obtain ⟨status,hexec,hstatus⟩ := execute_batchUpdateBlob hf hcompressor hput
  rw [hexec]
  refine ⟨?_,rfl⟩
  constructor
  · rintro ⟨answer,status',hresponse,hstatus',hcode⟩
    cases hresponse
    obtain rfl := Option.some.inj hstatus'
    rcases hstatus with ⟨hok,_⟩ | herror
    · exact mapError_eq_ok.mp hok
    · obtain ⟨err,_,rfl⟩ := mapError_eq_error.mp herror
      exact absurd hcode (show (13 : Int32) ≠ 0 by decide)
  · intro hok
    rcases hstatus with ⟨_,rfl⟩ | herror
    · exact ⟨_,_,rfl,rfl,rfl⟩
    · rw [hok] at herror
      cases herror

end Batch

section Stream
variable {store : InMemoryStore} {stream : WriteStream} {state : WriteState}

theorem stream_refused {s : Status} (h : receive stream.transportError ⟨[],none⟩ stream.messages = .error s ∨
      ∃ state, receive stream.transportError ⟨[],none⟩ stream.messages = .ok state ∧
        verifyUpload env state = .error s) :
    execute env (.write stream) store = (.write (.error s),store) := by
  rcases h with h | ⟨state,hstate,h⟩
  · simp only [execute, serve, Program.exec_map, ByteStreamService.write, h, Failing.exec_bind,
      Failing.exec_ofExcept]
  · simp only [execute, serve, Program.exec_map, ByteStreamService.write, hstate, h, Failing.exec_bind,
      Failing.exec_ofExcept]

theorem stream_verified {commit : Commit}
    (hstate : receive stream.transportError ⟨[],none⟩ stream.messages = .ok state)
    (h : verifyUpload env state = .ok commit) :
    (StreamAccepted (execute env (.write stream) store).1 ↔
      (store.put commit.key commit.stored.metadata commit.stored.body).1 = .ok ()) ∧
    (execute env (.write stream) store).2 =
      (store.put commit.key commit.stored.metadata commit.stored.body).2 := by
  simp only [execute, serve, Program.exec_map, ByteStreamService.write, hstate, h, Failing.exec_bind,
    Failing.exec_ofExcept, storePut, Failing.exec_attempt, InMemoryStore.handle_put]
  cases hput : (store.put commit.key commit.stored.metadata commit.stored.body).1 with
  | ok u => exact ⟨⟨fun _ => rfl,fun _ => ⟨_,rfl⟩⟩,rfl⟩
  | error err =>
    refine ⟨⟨?_,?_⟩,rfl⟩
    · rintro ⟨r,hr⟩
      cases hr
    · rintro ⟨⟩

/-- Under an upload name the stream path verifies what the batch path verifies. -/
theorem verifyUpload_parsed {name : ResourceName} {encoding : StorageEncoding}
    (hname : name.compressor = encoding.segment) (payload : ByteVec) (rendered : String) {commit : Commit} :
    verifyUpload env ⟨payload.toList,some (rendered,name.parsed)⟩ = .ok commit ↔
      commit.key = CasService.casKey name.instanceName .sha256 name.hash ∧
        commit.committedSize = Int64.ofNat payload.toList.length ∧
        CasService.verifyBlob env .sha256 ⟨name.hash,name.size⟩ payload.toList encoding = .ok commit.stored := by
  have hencoding := storageEncoding_parsed hname
  have hlength : (payload.toList.length : ℤ) ≤ i64Max := Int.ofNat_le.mpr payload.length_le
  rw [verifyUpload_eq_ok, resolveBlobKey_parsed, CasService.verifyBlob_eq_ok]
  constructor
  · rintro ⟨hkey,_,hsize,encoding',identity,hencoding',hverified⟩
    obtain rfl := Except.ok.inj (hencoding.symm.trans hencoding')
    have hkey := (Except.ok.inj hkey).symm
    rw [hkey] at hverified
    exact ⟨hkey,hsize,identity,hverified⟩
  · rintro ⟨hkey,hsize,identity,hverified⟩
    refine ⟨congrArg Except.ok hkey.symm,hlength,hsize,encoding,identity,hencoding,?_⟩
    rw [hkey]
    exact hverified

section Named
variable {name : ResourceName} (hreadable : name.Readable) (hupload : name.uploadId.isNone = false)
  {encoding : StorageEncoding} (hname : name.compressor = encoding.segment) {payload : ByteVec}
  (hsends : Sends stream name.render payload.toList)
include hreadable hupload hname hsends

/-- A payload that does not verify is refused, at the name or at the last message. -/
theorem stream_refused_of_sends {status : RpcStatus}
    (h : CasService.verifyBlob env .sha256 ⟨name.hash,name.size⟩ payload.toList encoding = .error status) :
    ∃ s, execute env (.write stream) store = (.write (.error s),store) := by
  cases hparse : parseBytestreamResourceName name.render with
  | error err =>
    obtain ⟨s,hs⟩ := receive_malformed hsends hparse
    exact ⟨s,stream_refused (Or.inl hs)⟩
  | ok parsed =>
    have hparsed : name.parsed = parsed := by
      rw [parse_render hreadable] at hparse
      split_ifs at hparse
      exact Except.ok.inj hparse
    subst hparsed
    have hreceive := receive_sends hsends hparse hupload
    cases hverify : verifyUpload env ⟨payload.toList,some (name.render,name.parsed)⟩ with
    | error s => exact ⟨s,stream_refused (Or.inr ⟨_,hreceive,hverify⟩)⟩
    | ok commit =>
      have hok := ((verifyUpload_parsed hname payload name.render).mp hverify).2.2
      rw [h] at hok
      cases hok

/-- A payload that verifies is put. -/
theorem stream_verified_of_sends {blob : BlobRead}
    (h : CasService.verifyBlob env .sha256 ⟨name.hash,name.size⟩ payload.toList encoding = .ok blob) :
    (StreamAccepted (execute env (.write stream) store).1 ↔
      (store.put (CasService.casKey name.instanceName .sha256 name.hash) blob.metadata blob.body).1 = .ok ()) ∧
    (execute env (.write stream) store).2 =
      (store.put (CasService.casKey name.instanceName .sha256 name.hash) blob.metadata blob.body).2 := by
  obtain ⟨identity,hverified⟩ := CasService.verifyBlob_eq_ok.mp h
  have hne : name.hash ≠ "" := hverified.hash_ne_empty
  have hsize : ¬ name.size.toInt < 0 := Int.not_lt.mpr hverified.size_nonneg
  have hparse := parse_render hreadable
  rw [if_neg hne, if_neg hsize] at hparse
  have hcommit : verifyUpload env ⟨payload.toList,some (name.render,name.parsed)⟩ =
      .ok ⟨CasService.casKey name.instanceName .sha256 name.hash,blob,Int64.ofNat payload.toList.length⟩ :=
    (verifyUpload_parsed hname payload name.render).mpr ⟨rfl,rfl,h⟩
  exact stream_verified (receive_sends hsends hparse hupload) hcommit

end Named
end Stream

/-- Both uploads are accepted or none is, and they leave the same store, which is the
old one when they are refused. -/
structure SameUpload (store : InMemoryStore) (item stream : Response × InMemoryStore) : Prop where
  accepted : ItemAccepted item.1 ↔ StreamAccepted stream.1
  stores : item.2 = stream.2
  refused : ¬ ItemAccepted item.1 → item.2 = store

theorem sameUpload_of_sends (store : InMemoryStore) {instanceName uploadId : String}
    (hinst : ∀ s ∈ Text.split '/' instanceName, NotMarker s)
    (hid : uploadId ≠ "" ∧ '/' ∉ uploadId.toList ∧ NotMarker uploadId) {digest : Digest}
    (hhash : '/' ∉ digest.hash.toList) {function compressor : Int32} (hf : SupportsFunction env function)
    {encoding : StorageEncoding} (hcompressor : StorageEncoding.fromProtoValue env compressor = some encoding)
    {payload : ByteVec} {algorithm : Bool} {stream : WriteStream}
    (hsends : Sends stream (uploadName instanceName uploadId encoding algorithm digest).render payload.toList) :
    SameUpload store
      (execute env (.batchUpdateBlobs ⟨instanceName,[⟨some digest,payload,compressor⟩],function⟩) store)
      (execute env (.write stream) store) := by
  have hreadable : (uploadName instanceName uploadId encoding algorithm digest).Readable := by
    refine ⟨hinst,?_,?_,fun _ hc => StorageEncoding.segment_readable hc,hhash⟩
    · rintro ⟨⟩
    · rintro _ ⟨⟩
      exact hid
  cases hverify : CasService.verifyBlob env .sha256 digest payload.toList encoding with
  | error status =>
    obtain ⟨hitem,hstore⟩ := item_refused hf hcompressor hverify
    obtain ⟨s,hs⟩ := stream_refused_of_sends hreadable rfl rfl hsends hverify
    rw [hs]
    refine ⟨⟨fun h => absurd h hitem,?_⟩,hstore,fun _ => hstore⟩
    rintro ⟨r,hr⟩
    cases hr
  | ok blob =>
    obtain ⟨haccepted,hstore⟩ := item_verified hf hcompressor hverify
    obtain ⟨haccepted',hstore'⟩ := stream_verified_of_sends hreadable rfl rfl hsends hverify
    refine ⟨haccepted.trans haccepted'.symm,hstore.trans hstore'.symm,?_⟩
    intro hrefused
    rw [hstore]
    cases hput : (store.put (CasService.casKey instanceName .sha256 digest.hash) blob.metadata blob.body).1 with
    | ok u => exact absurd (haccepted.mpr hput) hrefused
    | error err => exact InMemoryStore.put_error hput

/-- A payload can be sent in one message. -/
theorem sends_whole (name : String) (payload : ByteVec) :
    Sends ⟨[⟨name,0,true,payload⟩],none⟩ name payload.toList where
  named := ⟨_,rfl,rfl⟩
  chunked := .last 0 _ (Or.inr rfl) rfl rfl

/-- The item is accepted exactly when every stream of the payload is, and each of them
leaves the store the item leaves. -/
structure UploadsEquivalent (env : Externals) (store : InMemoryStore) (instanceName uploadId : String)
    (digest : Digest) (payload : ByteVec) (encoding : StorageEncoding) (function compressor : Int32) : Prop where
  accepted : ItemAccepted (execute env
      (.batchUpdateBlobs ⟨instanceName,[⟨some digest,payload,compressor⟩],function⟩) store).1 ↔
    ∀ algorithm stream,
      Sends stream (uploadName instanceName uploadId encoding algorithm digest).render payload.toList →
      StreamAccepted (execute env (.write stream) store).1
  same : ∀ algorithm stream,
    Sends stream (uploadName instanceName uploadId encoding algorithm digest).render payload.toList →
    SameUpload store
      (execute env (.batchUpdateBlobs ⟨instanceName,[⟨some digest,payload,compressor⟩],function⟩) store)
      (execute env (.write stream) store)

theorem uploads_equivalent (store : InMemoryStore) {instanceName uploadId : String}
    (hinst : ∀ s ∈ Text.split '/' instanceName, NotMarker s)
    (hid : uploadId ≠ "" ∧ '/' ∉ uploadId.toList ∧ NotMarker uploadId) {digest : Digest}
    (hhash : '/' ∉ digest.hash.toList) {function compressor : Int32} (hf : SupportsFunction env function)
    {encoding : StorageEncoding} (hcompressor : StorageEncoding.fromProtoValue env compressor = some encoding)
    (payload : ByteVec) :
    UploadsEquivalent env store instanceName uploadId digest payload encoding function compressor where
  accepted := by
    constructor
    · intro h algorithm stream hsends
      exact (sameUpload_of_sends store hinst hid hhash hf hcompressor hsends).accepted.mp h
    · intro h
      have hsends := sends_whole (uploadName instanceName uploadId encoding true digest).render payload
      exact (sameUpload_of_sends store hinst hid hhash hf hcompressor hsends).accepted.mpr (h true _ hsends)
  same := fun _ _ hsends => sameUpload_of_sends store hinst hid hhash hf hcompressor hsends

namespace Reference

/-- The name of an upload of the command. -/
def commandUpload : String := "main/uploads/7/blobs/" ++ commandHash ++ "/4"

/-- The command in three chunks, one of them empty. -/
def commandStream : WriteStream where
  messages := [⟨commandUpload,0,false,⟨ascii "te",by decide⟩⟩,⟨"",2,false,⟨[],by decide⟩⟩,
    ⟨commandUpload,2,true,⟨ascii "st",by decide⟩⟩]
  transportError := none

theorem commandStream_sends : Sends commandStream commandUpload commandData.toList where
  named := ⟨_,rfl,rfl⟩
  chunked := .more 0 _ _ _ (Or.inr rfl) rfl rfl
    (.more 2 _ _ _ (Or.inl rfl) rfl rfl (.last 2 _ (Or.inr rfl) rfl rfl))

end Reference

open Reference in
theorem uploads_equivalent_command :
    StreamAccepted (execute externals (.write commandStream) InMemoryStore.new).1 := by
  have hname : (uploadName "main" "7" .identity false commandDigest).render = commandUpload := by decide
  have hitem : ItemAccepted (execute externals
      (.batchUpdateBlobs ⟨"main",[⟨some commandDigest,commandData,0⟩],0⟩) InMemoryStore.new).1 :=
    ⟨⟨some commandDigest,some ⟨0,"",[]⟩⟩,⟨0,"",[]⟩,by decide +kernel,rfl,rfl⟩
  have hequivalent : UploadsEquivalent externals InMemoryStore.new "main" "7" commandDigest commandData
      .identity 0 0 := by
    apply uploads_equivalent
    · exact fun s hs => (plain_main s hs).1
    · exact ⟨by decide,by decide,by decide,by decide⟩
    · decide
    · exact Or.inl rfl
    · rfl
  apply hequivalent.accepted.mp hitem false
  rw [hname]
  exact commandStream_sends

end ReapiCache
