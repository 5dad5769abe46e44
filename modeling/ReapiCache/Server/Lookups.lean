import ReapiCache.Server.Reads
import ReapiCache.Services.ResourceNameLaws

/-! # The three lookup paths

A key carries the hash of a digest and not its size. The batch handlers go by the key
alone, the stream handler also compares the size with the one recorded in the entry.
So the paths agree about a digest exactly when no entry of another size stands under
its hash.
-/
namespace ReapiCache
open Interaction ByteStreamService
variable {env : Externals}

/-- The name under which a blob is read in an encoding. -/
def blobName (instanceName : String) (encoding : StorageEncoding) (algorithm : Bool) (digest : Digest) :
    ResourceName := ⟨instanceName,none,encoding.segment,algorithm,digest.hash,digest.sizeBytes⟩

/-- No segment of the instance name has a meaning in a resource name. -/
def PlainInstance (instanceName : String) : Prop :=
  ∀ s ∈ Text.split '/' instanceName, NotMarker s ∧ s ≠ "uploads"

theorem blobName_readable {instanceName : String} {digest : Digest} (h : PlainInstance instanceName)
    (hh : '/' ∉ digest.hash.toList) (encoding : StorageEncoding) (algorithm : Bool) :
    (blobName instanceName encoding algorithm digest).Readable where
  instanceName := fun s hs => (h s hs).1
  noUpload := fun _ hm => (h _ hm).2 rfl
  uploadId := by rintro _ ⟨⟩
  compressor := fun _ hc => StorageEncoding.segment_readable hc
  hash := hh

/-- What such a name asks for. -/
def blobTarget (instanceName : String) (encoding : StorageEncoding) (algorithm : Bool) (digest : Digest) :
    ReadTarget :=
  ⟨(blobName instanceName encoding algorithm digest).parsed,encoding,
    CasService.casKey instanceName .sha256 digest.hash⟩

@[simp] theorem blobTarget_key (instanceName : String) (encoding : StorageEncoding) (algorithm : Bool)
    (digest : Digest) : (blobTarget instanceName encoding algorithm digest).key =
      CasService.casKey instanceName .sha256 digest.hash := rfl

/-- A read under a rendered name looks up the key of the digest. -/
theorem readTarget_blobName {instanceName : String} {digest : Digest} (h : PlainInstance instanceName)
    (hh : '/' ∉ digest.hash.toList) (hne : digest.hash ≠ "") (hsize : 0 ≤ digest.sizeBytes.toInt)
    (encoding : StorageEncoding) (algorithm : Bool) :
    readTarget ⟨(blobName instanceName encoding algorithm digest).render,0,0⟩ =
      .ok (blobTarget instanceName encoding algorithm digest) := by
  have hparse := parse_render (blobName_readable h hh encoding algorithm)
  have hkey := resolveBlobKey_parsed (blobName instanceName encoding algorithm digest)
  have hne' : (blobName instanceName encoding algorithm digest).hash ≠ "" := hne
  have hsize' : ¬ (blobName instanceName encoding algorithm digest).size.toInt < 0 := Int.not_lt.mpr hsize
  rw [if_neg hne', if_neg hsize'] at hparse
  have hencoding : (blobName instanceName encoding algorithm digest).parsed.compression.storageEncoding =
      .ok encoding := storageEncoding_parsed rfl
  have hupload : (blobName instanceName encoding algorithm digest).parsed.uploadId.isSome = false := rfl
  simp only [readTarget, hparse, mapError_ok, ok_bind, hupload, Bool.false_eq_true, ↓reduceIte, hencoding,
    not_true, and_false, hkey, ne_eq]
  rfl

section Store
variable {store : InMemoryStore} (hopen : store.poisoned = false)
include hopen

theorem execute_findMissingBlob {instanceName : String} {digest : Digest} {function : Int32}
    (hf : SupportsFunction env function) :
    (execute env (.findMissingBlobs ⟨instanceName,[digest],function⟩) store).1 =
      .findMissingBlobs (.ok ⟨if (store.blobs (CasService.casKey instanceName .sha256 digest.hash)).isSome
        then [] else [digest]⟩) := by
  simp only [execute, serve, Program.exec_map, CasService.findMissingBlobs, resolveProtoValue_eq_ok hf,
    mapError_ok, Failing.exec_bind, Failing.exec_ofExcept, List.foldlM_cons, List.foldlM_nil,
    CasService.findMissingBlob, storeContains, Failing.exec_attempt, InMemoryStore.handle_contains,
    InMemoryStore.contains_eq hopen, Failing.exec_pure, List.nil_append]

theorem execute_batchReadBlob {instanceName : String} {digest : Digest} {function : Int32}
    (hf : SupportsFunction env function) (acceptable : List Int32) :
    (execute env (.batchReadBlobs ⟨instanceName,[digest],acceptable,function⟩) store).1 =
      .batchReadBlobs (.ok ⟨[CasService.blobReadResponse env
        (acceptable.filterMap (StorageEncoding.fromProtoValue env)) digest
        (.ok ((store.blobs (CasService.casKey instanceName .sha256 digest.hash)).map
          (fun b => ⟨b.metadata,⟨b.data⟩⟩)))]⟩) := by
  simp only [execute, serve, Program.exec_map, CasService.batchReadBlobs, resolveProtoValue_eq_ok hf,
    mapError_ok, Failing.exec_bind, Failing.exec_ofExcept, List.foldlM_cons, List.foldlM_nil,
    CasService.batchReadBlob, Failing.exec_attempt, InMemoryStore.handle_get,
    InMemoryStore.get_eq hopen, Failing.exec_pure, List.nil_append]

theorem execute_read {request : ReadRequest} {target : ReadTarget} (ht : readTarget request = .ok target) :
    (execute env (.read request) store).1 = .read (answerRead env request target
      ((store.blobs target.key).map (fun b => ⟨b.metadata,⟨b.data⟩⟩))) := by
  simp only [execute, serve, Program.exec_map, read_eq, ht, Failing.exec_bind, Failing.exec_ofExcept,
    storeGet, Failing.exec_attempt, InMemoryStore.handle_get, InMemoryStore.get_eq hopen, mapError_ok]

end Store

section Agreement
variable (env) (store : InMemoryStore) (instanceName : String) (digest : Digest) (function : Int32)
  (acceptable : List Int32)

/-- `FindMissingBlobs` does not report the digest. -/
def Found : Prop :=
  ∃ missing, (execute env (.findMissingBlobs ⟨instanceName,[digest],function⟩) store).1 =
    .findMissingBlobs (.ok ⟨missing⟩) ∧ digest ∉ missing

/-- `BatchReadBlobs` answers the digest with code 0. -/
def BatchServed (response : BlobReadResponse) : Prop :=
  (execute env (.batchReadBlobs ⟨instanceName,[digest],acceptable,function⟩) store).1 =
    .batchReadBlobs (.ok ⟨[response]⟩) ∧ ∃ status, response.status = some status ∧ status.code = 0

/-- `ByteStream.Read` of the digest succeeds with these responses. -/
def Streamed (responses : List ReadResponse) : Prop :=
  (execute env (.read ⟨(blobName instanceName .identity true digest).render,0,0⟩) store).1 =
    .read (.ok responses)

structure LookupsAgree : Prop where
  found_iff_batch : Found env store instanceName digest function ↔
    ∃ response, BatchServed env store instanceName digest function acceptable response
  batch_iff_stream : (∃ response, BatchServed env store instanceName digest function acceptable response) ↔
    ∃ responses, Streamed env store instanceName digest responses
  content : ∀ response, BatchServed env store instanceName digest function acceptable response →
    ∃ encoding d, StorageEncoding.fromProtoValue env response.compressor = some encoding ∧
      Decodes env encoding response.data d ∧ digest.sizeBytes.toInt = d.length ∧
      DigestAlgorithm.sha256.hashBytes env d = digest.hash

/-- No entry under the hash of the digest records another size. -/
def SizeRecorded : Prop :=
  ∀ b, store.blobs (CasService.casKey instanceName .sha256 digest.hash) = some b →
    digest.sizeBytes.toInt = b.metadata.uncompressedSize

end Agreement

theorem sizeRecorded_iff {store : InMemoryStore} {instanceName : String} (digest : Digest) {n : ℕ}
    (h : (store.blobs (CasService.casKey instanceName .sha256 digest.hash)).map
      (fun b => b.metadata.uncompressedSize) = some n) :
    SizeRecorded store instanceName digest ↔ digest.sizeBytes.toInt = n := by
  obtain ⟨b,hb,rfl⟩ := Option.map_eq_some_iff.mp h
  constructor
  · exact fun hall => hall b hb
  · intro hsize b' hb'
    obtain rfl := Option.some.inj (hb.symm.trans hb')
    exact hsize

section Store
variable {store : InMemoryStore} (hopen : store.poisoned = false) (hint : CasIntegrity env store)
  {instanceName : String} {digest : Digest} {function : Int32} {acceptable : List Int32}

include hopen in
theorem found_iff (hf : SupportsFunction env function) : Found env store instanceName digest function ↔
    store.Present (CasService.casKey instanceName .sha256 digest.hash) := by
  unfold Found InMemoryStore.Present
  rw [execute_findMissingBlob hopen hf]
  cases hb : store.blobs (CasService.casKey instanceName .sha256 digest.hash) with
  | none => simp
  | some b => simp

include hopen hint

/-- The content behind a key, as the batch path serves it. -/
theorem batchServed_of_holds (hz : env.ZstdRoundTrip) (hcomp : env.CompressionTotal)
    (hf : SupportsFunction env function) {response : BlobReadResponse}
    (h : BatchServed env store instanceName digest function acceptable response) :
    ∃ b d, store.blobs (CasService.casKey instanceName .sha256 digest.hash) = some b ∧
      Holds env b.metadata b.data d ∧ DigestAlgorithm.sha256.hashBytes env d = digest.hash ∧
      ∃ encoding, StorageEncoding.fromProtoValue env response.compressor = some encoding ∧
        Decodes env encoding response.data d := by
  obtain ⟨hexec,status,hstatus,hcode⟩ := h
  rw [execute_batchReadBlob hopen hf] at hexec
  cases hb : store.blobs (CasService.casKey instanceName .sha256 digest.hash) with
  | none =>
    rw [hb] at hexec
    cases hexec
    cases hstatus
    exact absurd hcode (by decide)
  | some b =>
    obtain ⟨d,hd,hhash⟩ := hint _ b rfl hb
    obtain ⟨data,encoding,hresp,hdec⟩ := CasService.blobReadResponse_of_holds hcomp hz
      (acceptable.filterMap (StorageEncoding.fromProtoValue env)) digest hd
    rw [hb, Option.map_some, hresp] at hexec
    cases hexec
    exact ⟨b,d,rfl,hd,hhash,encoding,StorageEncoding.fromProtoValue_asProtoValue env encoding,hdec⟩

theorem batchServed_iff (hz : env.ZstdRoundTrip) (hcomp : env.CompressionTotal)
    (hf : SupportsFunction env function) :
    (∃ response, BatchServed env store instanceName digest function acceptable response) ↔
      store.Present (CasService.casKey instanceName .sha256 digest.hash) := by
  constructor
  · rintro ⟨response,h⟩
    obtain ⟨b,_,hb,_⟩ := batchServed_of_holds hopen hint hz hcomp hf h
    exact ⟨b,hb⟩
  · rintro ⟨b,hb⟩
    obtain ⟨d,hd,_⟩ := hint _ b rfl hb
    obtain ⟨data,encoding,hresp,_⟩ := CasService.blobReadResponse_of_holds hcomp hz
      (acceptable.filterMap (StorageEncoding.fromProtoValue env)) digest hd
    refine ⟨⟨some digest,data,encoding.asProtoValue env,some ⟨0,"",[]⟩⟩,?_,⟨0,"",[]⟩,rfl,rfl⟩
    rw [execute_batchReadBlob hopen hf, hb, Option.map_some, hresp]

/-- The stream path serves an entry of the size in the name, and nothing else. -/
theorem streamed_content (hplain : PlainInstance instanceName) (hslash : '/' ∉ digest.hash.toList)
    (hne : digest.hash ≠ "") (hsize : 0 ≤ digest.sizeBytes.toInt) {responses : List ReadResponse} :
    Streamed env store instanceName digest responses ↔
      ∃ b d, store.blobs (CasService.casKey instanceName .sha256 digest.hash) = some b ∧
        Holds env b.metadata b.data d ∧ digest.sizeBytes.toInt = d.length ∧
        responses = (chunks READ_CHUNK_SIZE d).map ReadResponse.mk := by
  have hexec : (execute env (.read ⟨(blobName instanceName .identity true digest).render,0,0⟩) store).1 = _ :=
    execute_read hopen (readTarget_blobName hplain hslash hne hsize .identity true)
  unfold Streamed
  rw [hexec, blobTarget_key]
  cases hb : store.blobs (CasService.casKey instanceName .sha256 digest.hash) with
  | none => simp [answerRead_none]
  | some b =>
    rw [Option.map_some]
    obtain ⟨d,hd,hhash⟩ := hint _ b rfl hb
    constructor
    · intro hr
      by_cases hsize' : digest.sizeBytes.toInt = d.length
      · rw [answerRead_identity _ hd hhash hsize' rfl] at hr
        cases hr
        exact ⟨b,d,rfl,hd,hsize',rfl⟩
      · obtain ⟨s,hs,_⟩ := (readIdentity_of_holds (blobTarget instanceName .identity true digest) hd hhash).2 hsize'
        rw [answerRead, hs] at hr
        cases hr
    · rintro ⟨b',d',hb',hd',hsize',rfl⟩
      obtain rfl := Option.some.inj hb'
      obtain rfl := hd.unique hd'
      rw [answerRead_identity _ hd hhash hsize' rfl]

theorem streamed_iff (hplain : PlainInstance instanceName) (hslash : '/' ∉ digest.hash.toList)
    (hne : digest.hash ≠ "") (hsize : 0 ≤ digest.sizeBytes.toInt) :
    (∃ responses, Streamed env store instanceName digest responses) ↔
      ∃ b, store.blobs (CasService.casKey instanceName .sha256 digest.hash) = some b ∧
        digest.sizeBytes.toInt = b.metadata.uncompressedSize := by
  constructor
  · rintro ⟨responses,h⟩
    obtain ⟨b,d,hb,hd,hlength,_⟩ := (streamed_content hopen hint hplain hslash hne hsize).mp h
    exact ⟨b,hb,by rw [hd.uncompressedSize]; exact hlength⟩
  · rintro ⟨b,hb,hrecorded⟩
    obtain ⟨d,hd,_⟩ := hint _ b rfl hb
    rw [hd.uncompressedSize] at hrecorded
    exact ⟨_,(streamed_content hopen hint hplain hslash hne hsize).mpr ⟨b,d,hb,hd,hrecorded,rfl⟩⟩

theorem lookupsAgree_iff (hz : env.ZstdRoundTrip) (hcomp : env.CompressionTotal)
    (hf : SupportsFunction env function) (hplain : PlainInstance instanceName)
    (hslash : '/' ∉ digest.hash.toList) (hne : digest.hash ≠ "") (hsize : 0 ≤ digest.sizeBytes.toInt) :
    LookupsAgree env store instanceName digest function acceptable ↔
      SizeRecorded store instanceName digest := by
  have hfound : Found env store instanceName digest function ↔ _ := found_iff hopen hf
  have hbatch : (∃ response, BatchServed env store instanceName digest function acceptable response) ↔ _ :=
    batchServed_iff hopen hint hz hcomp hf
  have hstream := streamed_iff hopen hint hplain hslash hne hsize
  constructor
  · intro h b hb
    obtain ⟨b',hb',hsize'⟩ := hstream.mp (h.batch_iff_stream.mp (hbatch.mpr ⟨b,hb⟩))
    obtain rfl := Option.some.inj (hb.symm.trans hb')
    exact hsize'
  · intro h
    refine ⟨hfound.trans hbatch.symm,?_,?_⟩
    · rw [hbatch, hstream]
      constructor
      · rintro ⟨b,hb⟩
        exact ⟨b,hb,h b hb⟩
      · rintro ⟨b,hb,_⟩
        exact ⟨b,hb⟩
    · intro response hr
      obtain ⟨b,d,hb,hd,hhash,encoding,henc,hdec⟩ := batchServed_of_holds hopen hint hz hcomp hf hr
      refine ⟨encoding,d,henc,hdec,?_,hhash⟩
      rw [h b hb, hd.uncompressedSize]

end Store

section Reachable
variable {instanceName : String} {digest : Digest} {function : Int32} {acceptable : List Int32}

theorem lookups_agree (hz : env.ZstdRoundTrip) (he : env.HashesEmpty) (hcomp : env.CompressionTotal)
    (schedule : List (Interaction.Action Request)) (hf : SupportsFunction env function)
    (hplain : PlainInstance instanceName) (hslash : '/' ∉ digest.hash.toList) (hne : digest.hash ≠ "")
    (hsize : 0 ≤ digest.sizeBytes.toInt) :
    LookupsAgree env (serverFrom env schedule).world.state instanceName digest function acceptable ↔
      SizeRecorded (serverFrom env schedule).world.state instanceName digest := by
  obtain ⟨hopen,hint⟩ := serverFrom_sound hz he schedule
  exact lookupsAgree_iff hopen hint hz hcomp hf hplain hslash hne hsize

end Reachable

namespace Reference

theorem plainInstance_main : PlainInstance "main" := plain_main

theorem supportsFunction_unset : SupportsFunction externals 0 := Or.inl rfl

/-- The digest of the command with a wrong size. -/
def oversized : Digest := ⟨commandHash,5⟩

/-- What the upload has put under the hash of the command. -/
theorem uploadRun_command : ((serverFrom externals uploadRun).world.state.blobs
    (CasService.casKey "main" .sha256 commandHash)).map (fun b => b.metadata.uncompressedSize) = some 4 := by
  decide +kernel

end Reference

open Reference in
theorem lookups_agree_uploadRun :
    LookupsAgree externals (serverFrom externals uploadRun).world.state "main" commandDigest 0 [1] := by
  apply (lookups_agree zstdRoundTrip hashBytes_empty compressionTotal uploadRun supportsFunction_unset
    plainInstance_main (by decide) (by decide) (by decide)).mpr
  exact (sizeRecorded_iff commandDigest uploadRun_command).mpr rfl

open Reference in
theorem lookups_disagree_uploadRun : PlainInstance "main" ∧ oversized.hash ≠ "" ∧
    '/' ∉ oversized.hash.toList ∧ 0 ≤ oversized.sizeBytes.toInt ∧
    ¬ LookupsAgree externals (serverFrom externals uploadRun).world.state "main" oversized 0 [1] := by
  refine ⟨plainInstance_main,by decide,by decide,by decide,?_⟩
  obtain ⟨hopen,hint⟩ := serverFrom_sound zstdRoundTrip hashBytes_empty uploadRun
  intro h
  have hrecorded := (lookupsAgree_iff hopen hint zstdRoundTrip compressionTotal supportsFunction_unset
    plainInstance_main (by decide) (by decide) (by decide)).mp h
  exact absurd ((sizeRecorded_iff oversized uploadRun_command).mp hrecorded) (by decide)

end ReapiCache
