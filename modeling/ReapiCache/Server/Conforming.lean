import ReapiCache.Server.Advertised
import ReapiCache.Server.BatchUpdates
import ReapiCache.Server.Reads
import ReapiCache.Server.Missing
import ReapiCache.Server.Writes

/-! # Who keeps to what is advertised is served

A client that names only what the capabilities list, and sends what it says it sends, gets
what it asks for, whatever the others do. The capabilities list no size limits, but the
server has some, and the client keeps to them too.
-/
namespace ReapiCache
open Interaction
variable {env : Externals} {numbers : EnumNumbers}

/-- The item sends the content of its digest, as it is or compressed as advertised. The bound
is one that the server has without advertising it. -/
structure ConformingItem (env : Externals) (cache : CacheCapabilities) (item : BlobRequest) (digest : Digest)
    (d : Bytes) : Prop where
  named : item.digest = some digest
  sent : item.compressor = env.compressor.value .identity ∧ item.data.toList = d ∨
    item.compressor = env.compressor.value .zstd ∧ item.compressor ∈ cache.supportedBatchUpdateCompressors ∧
      env.Decompresses item.data.toList d
  size : digest.sizeBytes.toInt = d.length
  bounded : d.length ≤ MAX_DECOMPRESSED_BLOB_SIZE
  hash : DigestAlgorithm.sha256.hashBytes env d = digest.hash

theorem ConformingItem.valid {cache : CacheCapabilities} {item : BlobRequest} {digest : Digest} {d : Bytes}
    (h : ConformingItem env cache item digest d) : ∃ encoding, ItemValid env item digest encoding d := by
  have hsize := h.size
  have hbounded := h.bounded
  have hbounds : 0 ≤ digest.sizeBytes.toInt ∧ digest.sizeBytes.toInt ≤ MAX_DECOMPRESSED_BLOB_SIZE := by omega
  rcases h.sent with ⟨hcompressor,hdata⟩ | ⟨hcompressor,_,hdata⟩
  · exact ⟨.identity,h.named,hbounds,hcompressor,hdata,hsize,h.hash⟩
  · exact ⟨.zstd,h.named,hbounds,hcompressor,hdata,hsize,h.hash⟩

/-- A client that read the capabilities may send the request, within the bounds that they do
not mention. -/
inductive Conforming (env : Externals) (numbers : EnumNumbers) (cache : CacheCapabilities) : Request → Prop
  | findMissingBlobs (r : FindMissingBlobsRequest) (function : FunctionAdvertised numbers cache r.digestFunction) :
      Conforming env numbers cache (.findMissingBlobs r)
  | batchReadBlobs (r : BatchReadBlobsRequest) (function : FunctionAdvertised numbers cache r.digestFunction) :
      Conforming env numbers cache (.batchReadBlobs r)
  | batchUpdateBlobs (r : BatchUpdateBlobsRequest) (function : FunctionAdvertised numbers cache r.digestFunction)
      (items : ∀ item ∈ r.requests, ∃ digest d, ConformingItem env cache item digest d) :
      Conforming env numbers cache (.batchUpdateBlobs r)
  | write (s : WriteStream) (n : ℕ) (parsed : ParsedReadResource) (encoding : StorageEncoding) (d : Bytes)
      (wellFormed : s.WellFormed env n parsed encoding d) (reportable : s.Reportable n)
      (compressor : CompressorAdvertised env cache.supportedCompressors (encoding.asProtoValue env)) :
      Conforming env numbers cache (.write s)

/-- An answer of code 0. -/
def Succeeds (answer : BlobUpdateResponse) : Prop := ∃ status, answer.status = some status ∧ status.code = 0

/-- The response to a request that was not refused. -/
def ServedWell : Request → Response → Prop
  | .findMissingBlobs _, response => ∃ out, response = .findMissingBlobs (.ok out)
  | .batchReadBlobs r, response => ∃ out, response = .batchReadBlobs (.ok out) ∧
      out.responses.map BlobReadResponse.digest = r.digests.map some
  | .batchUpdateBlobs r, response => ∃ out, response = .batchUpdateBlobs (.ok out) ∧
      List.Forall₂ (fun item answer => answer.digest = item.digest ∧ Succeeds answer) r.requests out.responses
  | .write _, response => ∃ out, response = .write (.ok out)
  | _, _ => True

section Handlers
variable {P : Protocol InMemoryStore.handle Request} (hP : Orderly P) {me : ℕ} {req : Request} {w : ServerWorld}
include hP

theorem ensures_put_served {ε : Type} {f : StorageError → ε} {E : ε → Prop} {key : BlobKey}
    (hkind : key.kind = .contentAddressableStorage) {metadata : StoredBlobMetadata} {body : BlobReader} :
    P.Ensures me req (storePut f key metadata body) w (fun _ _ => True) E :=
  (ensures_storePut_cas hP hkind).imp (fun _ _ _ _ _ => trivial)

/-- A valid item is answered with code 0. -/
theorem ensures_batchUpdateBlob_valid (hc : env.CompressionTotal) {instanceName : String}
    {responses : List BlobUpdateResponse} {item : BlobRequest} {digest : Digest} {encoding : StorageEncoding} {d : Bytes}
    (h : ItemValid env item digest encoding d) :
    P.Ensures me req (CasService.batchUpdateBlob env instanceName .sha256 responses item) w
      (fun out _ => ∃ answer, out = responses ++ [answer] ∧ answer.digest = item.digest ∧ Succeeds answer)
      (fun _ => False) := by
  have hencoding := StorageEncoding.fromProtoValue_eq_some.mpr h.compressor
  obtain ⟨blob,hblob⟩ := verifyBlob_of_itemValid h.named hencoding hc h
  have hput : P.Ensures me req (CasService.putVerifiedBlob env (CasService.casKey instanceName .sha256 digest.hash)
      .sha256 digest item.data.toList encoding) w (fun _ _ => True) (fun _ => False) :=
    Protocol.ensures_ok_bind hblob (ensures_put_served hP rfl)
  simp only [CasService.batchUpdateBlob, h.named, hencoding]
  apply (Protocol.ensures_outcome hput).bind
  rintro (status | ⟨⟩) w' hw' _ hout
  · exact hout.elim
  · exact Protocol.ensures_pure hw' (fun _ _ _ _ _ h => h) ⟨_,rfl,rfl,_,rfl,rfl⟩

theorem ensures_batchUpdateBlobs_valid (hc : env.CompressionTotal) {r : BatchUpdateBlobsRequest}
    (hf : SupportsFunction env r.digestFunction)
    (hitems : ∀ item ∈ r.requests, ∃ digest encoding d, ItemValid env item digest encoding d) (hw : P.inv w) :
    P.Ensures me req (CasService.batchUpdateBlobs env r) w
      (fun out _ => List.Forall₂ (fun item answer => answer.digest = item.digest ∧ Succeeds answer) r.requests
        out.responses) (fun _ => False) := by
  apply Protocol.ensures_ok_bind (mapError_eq_ok.mpr (resolveProtoValue_eq_ok hf))
  apply Protocol.Ensures.bind (Protocol.ensures_foldlM
    (fun pre acc _ => List.Forall₂ (fun item answer => answer.digest = item.digest ∧ Succeeds answer) pre acc)
    ?_ r.requests ?_ [] [] w hw .nil)
  · intro responses w' hw' _ h
    exact Protocol.ensures_pure hw' (fun _ _ _ _ _ h => h) h
  · exact fun _ _ _ _ _ _ _ h => h
  · intro pre item acc w' hmem hw' h
    obtain ⟨digest,encoding,d,hvalid⟩ := hitems item hmem
    apply (ensures_batchUpdateBlob_valid hP hc hvalid).imp
    rintro out w'' _ _ ⟨answer,rfl,hanswer⟩
    exact List.rel_append h (.cons hanswer .nil)

omit hP in
/-- Whatever the store replies, the answer repeats the digest. -/
theorem blobReadResponse_digest (acceptable : List StorageEncoding) (digest : Digest)
    (reply : Except StorageError (Option BlobRead)) :
    (CasService.blobReadResponse env acceptable digest reply).digest = some digest := by
  cases reply with
  | error err => rfl
  | ok found =>
    cases found with
    | none => rfl
    | some blob =>
      simp only [CasService.blobReadResponse]
      cases BlobCodec.transcode env blob (BlobCodec.selectBatchReadResponseEncoding blob.metadata.encoding acceptable) with
      | error err => rfl
      | ok blob => rfl

theorem ensures_batchReadBlob_named {acceptable : List StorageEncoding} {digest : Digest} {key : BlobKey}
    {E : Status → Prop} : P.Ensures me req (Failing.attempt (.get key)
      (fun r => .ok (CasService.blobReadResponse env acceptable digest r)) : Handler Status BlobReadResponse) w
      (fun answer _ => answer.digest = some digest) E := by
  apply Protocol.ensures_attempt
  · intro w' hw' _
    exact hP.free me req _ w' hw' (by rintro _ _ _ ⟨⟩)
  · exact fun _ _ _ _ _ _ h => h
  · exact fun w' _ _ _ => blobReadResponse_digest acceptable digest _

theorem ensures_batchReadBlobs_served {r : BatchReadBlobsRequest} (hf : SupportsFunction env r.digestFunction)
    (hw : P.inv w) : P.Ensures me req (CasService.batchReadBlobs env r) w
      (fun out _ => out.responses.map BlobReadResponse.digest = r.digests.map some) (fun _ => False) := by
  apply Protocol.ensures_ok_bind (mapError_eq_ok.mpr (resolveProtoValue_eq_ok hf))
  apply Protocol.Ensures.bind (Protocol.ensures_foldlM
    (fun pre acc _ => acc.map BlobReadResponse.digest = pre.map some) ?_ r.digests ?_ [] [] w hw rfl)
  · intro responses w' hw' _ h
    exact Protocol.ensures_pure hw' (fun _ _ _ _ _ h => h) h
  · exact fun _ _ _ _ _ _ _ h => h
  · intro pre digest acc w' _ hw' h
    apply (ensures_batchReadBlob_named hP).bind
    intro out w'' hw'' _ hout
    exact Protocol.ensures_pure hw'' (fun _ _ _ _ _ h => h) (by simp [h, hout])

open ByteStreamService in
theorem ensures_write_wellFormed (hc : env.CompressionTotal) {s : WriteStream} {n : ℕ} {parsed : ParsedReadResource}
    {encoding : StorageEncoding} {d : Bytes} (h : s.WellFormed env n parsed encoding d) (hreport : s.Reportable n) :
    P.Ensures me req (ByteStreamService.write env s) w (fun _ _ => True) (fun _ => False) := by
  obtain ⟨state,commit,hstate,hcommit,hcommits⟩ := commit_of_wellFormed hc h hreport
  apply Protocol.ensures_ok_bind hstate
  apply Protocol.ensures_ok_bind hcommit
  apply (ensures_put_served hP (by rw [hcommits.key]; rfl)).bind
  intro _ w' hw' _ _
  exact Protocol.ensures_pure hw' (fun _ _ _ _ _ h => h) trivial

end Handlers

namespace Reference

def cache : CacheCapabilities := ⟨[1],some ⟨true⟩,none,0,0,1,[1],[1],false,false,none,none⟩

theorem upload_conforming : Conforming externals enumNumbers cache upload := by
  apply Conforming.batchUpdateBlobs
  · exact Or.inr (List.mem_singleton_self _)
  intro item hitem
  simp only [List.mem_cons, List.not_mem_nil, or_false] at hitem
  obtain rfl | rfl | rfl := hitem
  · exact ⟨commandDigest,commandBlob,rfl,Or.inl ⟨rfl,rfl⟩,by decide,by decide,hashBytes_command⟩
  · exact ⟨actionDigest,actionBlob,rfl,Or.inl ⟨rfl,rfl⟩,by decide,by decide,hashBytes_action⟩
  · exact ⟨treeDigest,treeBlob,rfl,Or.inl ⟨rfl,rfl⟩,by decide,by decide,hashBytes_tree⟩

end Reference

end ReapiCache
