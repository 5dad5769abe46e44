import ReapiCache.Server.Lookups

/-! # The answers of a batch read

Entries are stored in two encodings. Whichever it is, a digest is answered in the
compressed form if the client accepts it and in the plain form if not, and the answer
names the form it is in.
-/
namespace ReapiCache
open Interaction
variable {env : Externals}

/-- The encoding a client with this list of compressors is answered in. -/
def preferredEncoding (env : Externals) (acceptable : List Int32) : StorageEncoding :=
  if StorageEncoding.zstd.asProtoValue env ∈ acceptable then .zstd else .identity

theorem select_preferred (stored : StorageEncoding) (acceptable : List Int32) :
    BlobCodec.selectBatchReadResponseEncoding stored
        (acceptable.filterMap (StorageEncoding.fromProtoValue env)) = preferredEncoding env acceptable := by
  have hmem : StorageEncoding.zstd ∈ acceptable.filterMap (StorageEncoding.fromProtoValue env) ↔
      StorageEncoding.zstd.asProtoValue env ∈ acceptable := by
    simp [List.mem_filterMap, StorageEncoding.fromProtoValue_eq_some]
  rw [CasService.select_eq, preferredEncoding]
  simp only [hmem]

/-- What a batch read answers for one digest. -/
structure DigestAnswered (env : Externals) (store : InMemoryStore) (instanceName : String)
    (encoding : StorageEncoding) (digest : Digest) (response : BlobReadResponse) : Prop where
  named : response.digest = some digest
  absent : ¬ store.Present (CasService.casKey instanceName .sha256 digest.hash) →
    (∃ status, response.status = some status ∧ status.code = 5) ∧ response.data = []
  present : store.Present (CasService.casKey instanceName .sha256 digest.hash) →
    (∃ status, response.status = some status ∧ status.code = 0) ∧
      response.compressor = encoding.asProtoValue env ∧
      ∃ d, Decodes env encoding response.data d ∧ DigestAlgorithm.sha256.hashBytes env d = digest.hash

section Store
variable {store : InMemoryStore} (hopen : store.poisoned = false) (hint : CasIntegrity env store)
  (hz : env.ZstdRoundTrip) (hcomp : env.CompressionTotal) {instanceName : String} (acceptable : List Int32)
include hopen hint hz hcomp

/-- One round: the answer to the digest is appended, and the store is as before. -/
theorem exec_batchReadBlob (responses : List BlobReadResponse) (digest : Digest) :
    ∃ response, (CasService.batchReadBlob env instanceName .sha256
        (acceptable.filterMap (StorageEncoding.fromProtoValue env)) responses digest).run.exec
          InMemoryStore.handle store = (.ok (responses ++ [response]),store) ∧
      DigestAnswered env store instanceName (preferredEncoding env acceptable) digest response := by
  simp only [CasService.batchReadBlob, Failing.exec_bind, Failing.exec_attempt, InMemoryStore.handle_get,
    InMemoryStore.get_eq hopen, Failing.exec_pure]
  refine ⟨_,rfl,?_⟩
  cases hb : store.blobs (CasService.casKey instanceName .sha256 digest.hash) with
  | none =>
    refine ⟨rfl,fun _ => ⟨⟨_,rfl,rfl⟩,rfl⟩,?_⟩
    rintro ⟨b,hb'⟩
    rw [hb] at hb'
    cases hb'
  | some b =>
    obtain ⟨d,hd,hhash⟩ := hint _ b rfl hb
    obtain ⟨data,hresponse,hdec⟩ := CasService.blobReadResponse_selected hcomp hz
      (acceptable.filterMap (StorageEncoding.fromProtoValue env)) digest hd _ (select_preferred _ acceptable)
    rw [Option.map_some, hresponse]
    exact ⟨rfl,fun h => absurd ⟨b,hb⟩ h,fun _ => ⟨⟨_,rfl,rfl⟩,rfl,d,hdec,hhash⟩⟩

theorem execute_batchReadBlobs {r : BatchReadBlobsRequest} (hf : SupportsFunction env r.digestFunction) :
    ∃ responses, execute env (.batchReadBlobs r) store = (.batchReadBlobs (.ok ⟨responses⟩),store) ∧
      List.Forall₂ (DigestAnswered env store r.instanceName (preferredEncoding env r.acceptableCompressors))
        r.digests responses := by
  have hround : ∀ pre digest acc s, digest ∈ r.digests →
      s = store ∧ List.Forall₂ (DigestAnswered env store r.instanceName
        (preferredEncoding env r.acceptableCompressors)) pre acc →
      ∃ acc' s', (CasService.batchReadBlob env r.instanceName .sha256 (r.acceptableCompressors.filterMap
          (StorageEncoding.fromProtoValue env)) acc digest).run.exec InMemoryStore.handle s = (.ok acc',s') ∧
        s' = store ∧ List.Forall₂ (DigestAnswered env store r.instanceName
          (preferredEncoding env r.acceptableCompressors)) (pre ++ [digest]) acc' := by
    rintro pre digest acc s _ ⟨rfl,hanswers⟩
    obtain ⟨response,hexec,hanswer⟩ := exec_batchReadBlob hopen hint hz hcomp r.acceptableCompressors acc digest
    exact ⟨_,s,hexec,rfl,List.rel_append hanswers (.cons hanswer .nil)⟩
  obtain ⟨responses,_,hexec,rfl,hanswers⟩ :=
    Failing.exec_foldlM InMemoryStore.handle _ hround [] [] store ⟨rfl,.nil⟩
  refine ⟨responses,?_,hanswers⟩
  simp only [execute, serve, Program.exec_map, CasService.batchReadBlobs, resolveProtoValue_eq_ok hf,
    mapError_ok, Failing.exec_bind, Failing.exec_ofExcept, hexec, Failing.exec_pure]

end Store

theorem batchRead_answers (hz : env.ZstdRoundTrip) (he : env.HashesEmpty) (hcomp : env.CompressionTotal)
    (schedule : List (Interaction.Action Request)) {r : BatchReadBlobsRequest}
    (hf : SupportsFunction env r.digestFunction) :
    ∃ responses, execute env (.batchReadBlobs r) (serverFrom env schedule).world.state =
        (.batchReadBlobs (.ok ⟨responses⟩),(serverFrom env schedule).world.state) ∧
      List.Forall₂ (DigestAnswered env (serverFrom env schedule).world.state r.instanceName
        (preferredEncoding env r.acceptableCompressors)) r.digests responses := by
  obtain ⟨hopen,hint⟩ := serverFrom_sound hz he schedule
  exact execute_batchReadBlobs hopen hint hz hcomp hf

open Reference in
/-- The uploaded command and a blob that is not there, for a client that accepts anything. -/
theorem batchRead_answers_uploadRun : ∃ responses,
    execute externals (.batchReadBlobs ⟨"main",[commandDigest,⟨ActionCacheService.EMPTY_SHA256,0⟩],[9,1,0,1],0⟩)
        (serverFrom externals uploadRun).world.state =
      (.batchReadBlobs (.ok ⟨responses⟩),(serverFrom externals uploadRun).world.state) ∧
    List.Forall₂ (DigestAnswered externals (serverFrom externals uploadRun).world.state "main" .zstd)
      [commandDigest,⟨ActionCacheService.EMPTY_SHA256,0⟩] responses :=
  batchRead_answers zstdRoundTrip hashBytes_empty compressionTotal uploadRun supportsFunction_unset

end ReapiCache
