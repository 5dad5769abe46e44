import ReapiCache.Server.Lookups
import ReapiCache.Server.Missing

/-! # From uploads to downloads

An accepted upload leaves a blob that holds the uploaded content, and no later put can
change what its key holds. So from its acceptance on, whatever the others do, every
download path delivers that content.
-/
namespace ReapiCache
open Interaction ByteStreamService
variable {env : Externals}

/-- The digest of an uploaded content is the content's own. -/
theorem Uploaded.digest_eq {log : List (StoreEntry Request)} {instanceName : String} {digest : Digest}
    {payload d : Bytes} {encoding : StorageEncoding} (h : Uploaded env log instanceName digest payload encoding)
    (hd : Decodes env encoding payload d) :
    DigestAlgorithm.sha256.hashBytes env d = digest.hash ∧ digest.sizeBytes.toInt = d.length := by
  obtain ⟨identity,_,hv,_⟩ := h
  obtain rfl := hv.identity_eq hd
  exact ⟨hv.hash,hv.size⟩

/-- What was uploaded is held, at the upload and later. -/
theorem Uploaded.held {L log log' : List (StoreEntry Request)} (hL : Lawful env L) (hl : log <+: log')
    (hl' : log' <+: L) {instanceName : String} {digest : Digest} {payload d : Bytes}
    {encoding : StorageEncoding} (h : Uploaded env log instanceName digest payload encoding)
    (hd : Decodes env encoding payload d) :
    (stored log').Held env (CasService.casKey instanceName .sha256 digest.hash) d := by
  have hhash := (h.digest_eq hd).1
  obtain ⟨identity,blob,hv,e,he,hop⟩ := h
  obtain rfl := hv.identity_eq hd
  have he' := hl.subset he
  have hpresent : (stored log').Present (CasService.casKey instanceName .sha256 digest.hash) :=
    present_of_mem he' hop
  obtain ⟨d',hd',hhash'⟩ := hL.held_of_present hl' rfl hpresent
  have hmem : identity ∈ casContents env L :=
    ⟨e,hl'.subset he',_,_,_,hop,rfl,(fromIdentityData_holds hL.zstd hv.stored).1⟩
  have hmem' : d' ∈ casContents env L := casContents_mono hl' (mem_casContents rfl hd')
  have hsame : DigestAlgorithm.sha256.hashBytes env d' = digest.hash := hhash'
  obtain rfl := hL.collisionFree hmem hmem' (hhash.trans hsame.symm)
  exact hd'

/-- The response of a batch read to the digest delivers `d`. -/
def BatchDelivers (env : Externals) (digest : Digest) (d : Bytes) (requested : Digest)
    (response : BlobReadResponse) : Prop :=
  requested = digest → response.digest = some digest ∧
    (∃ status, response.status = some status ∧ status.code = 0) ∧
    ∃ encoding, StorageEncoding.fromProtoValue env response.compressor = some encoding ∧
      Decodes env encoding response.data d

/-- Every download path, started in `c`, delivers `d` for the digest. -/
structure Delivered (env : Externals) (c : ServerConfig) (after : List (Interaction.Action Request))
    (instanceName : String) (digest : Digest) (d : Bytes) : Prop where
  findMissingBlobs : ∀ r : FindMissingBlobsRequest, r.instanceName = instanceName →
    SupportsFunction env r.digestFunction → Answers env c (.findMissingBlobs r) after
      (fun resp _ => ∃ missing, resp = .findMissingBlobs (.ok ⟨missing⟩) ∧ digest ∉ missing)
  batchReadBlobs : ∀ r : BatchReadBlobsRequest, r.instanceName = instanceName →
    SupportsFunction env r.digestFunction →
    CollisionFree env (serverAfter env c (.batchReadBlobs r) after).world.log →
    Answers env c (.batchReadBlobs r) after (fun resp _ => ∃ responses,
      resp = .batchReadBlobs (.ok ⟨responses⟩) ∧
        List.Forall₂ (BatchDelivers env digest d) r.digests responses)
  read : ∀ algorithm,
    CollisionFree env (serverAfter env c
      (.read ⟨(blobName instanceName .identity algorithm digest).render,0,0⟩) after).world.log →
    Answers env c (.read ⟨(blobName instanceName .identity algorithm digest).render,0,0⟩) after
      (fun resp _ => ∃ responses, resp = .read (.ok responses) ∧ streamed responses = d)
  readCompressed :
    CollisionFree env (serverAfter env c
      (.read ⟨(blobName instanceName .zstd true digest).render,0,0⟩) after).world.log →
    Answers env c (.read ⟨(blobName instanceName .zstd true digest).render,0,0⟩) after
      (fun resp _ => ∃ responses, resp = .read (.ok responses) ∧ env.Decompresses (streamed responses) d)

section Download
variable (hz : env.ZstdRoundTrip) (he : env.HashesEmpty) (hcomp : env.CompressionTotal)
  {before between after : List (Interaction.Action Request)} {instanceName : String} {digest : Digest}
  {payload d : Bytes} {encoding : StorageEncoding}
  (h : Accepted env (serverFrom env before) instanceName digest payload encoding)
  (hd : Decodes env encoding payload d)

include h hd hz he in
/-- In a later state the content is held. -/
theorem Accepted.held {req : Request} (hc : CollisionFree env
      (serverAfter env (serverFrom env (before ++ between)) req after).world.log) :
    (serverFrom env (before ++ between)).world.state.Held env
      (CasService.casKey instanceName .sha256 digest.hash) d := by
  have hL := serverAfter_lawful hz he hc
  have hl : (serverFrom env before).world.log <+: (serverFrom env (before ++ between)).world.log := by
    rw [← serverRun_serverFrom]
    exact Config.log_run InMemoryStore.handle (serve env) (serverFrom env before) between
  rw [serverFrom_state]
  exact h.uploaded.held hL hl (log_serverAfter _ _ after) hd

include h hd hz he hcomp

theorem read_delivers (hplain : PlainInstance instanceName) (target : StorageEncoding) (algorithm : Bool)
    {request : ReadRequest}
    (hrequest : request = ⟨(blobName instanceName target algorithm digest).render,0,0⟩)
    (hc : CollisionFree env
      (serverAfter env (serverFrom env (before ++ between)) (.read request) after).world.log) :
    Answers env (serverFrom env (before ++ between)) (.read request) after (fun resp _ => ∃ responses,
      resp = .read (.ok responses) ∧ Decodes env target (streamed responses) d) := by
  subst hrequest
  have hL := serverAfter_lawful hz he hc
  have hheld := h.held hz he hd hc
  obtain ⟨hhash,hsize⟩ := h.uploaded.digest_eq hd
  obtain ⟨hslash,hne⟩ := hash_segment hhash
  have hnonneg : 0 ≤ digest.sizeBytes.toInt := by omega
  have htarget := readTarget_blobName hplain hslash hne hnonneg target algorithm
  exact answers_of_plain rfl (fun hw => ensures_read_held (plain_orderly _) hL hcomp hw htarget hheld hsize)

theorem batchReadBlobs_delivers {r : BatchReadBlobsRequest} (hinst : r.instanceName = instanceName)
    (hf : SupportsFunction env r.digestFunction)
    (hc : CollisionFree env
      (serverAfter env (serverFrom env (before ++ between)) (.batchReadBlobs r) after).world.log) :
    Answers env (serverFrom env (before ++ between)) (.batchReadBlobs r) after (fun resp _ => ∃ responses,
      resp = .batchReadBlobs (.ok ⟨responses⟩) ∧
        List.Forall₂ (BatchDelivers env digest d) r.digests responses) := by
  subst hinst
  have hL := serverAfter_lawful hz he hc
  have hheld := h.held hz he hd hc
  have hanswers := answers_of_plain rfl (fun hw => ensures_batchReadBlobs (plain_orderly _) hL hcomp hw
    (fun _ hfail => hfail (resolveProtoValue_eq_ok hf)))
  apply hanswers.imp
  rintro resp w ⟨⟨responses⟩,rfl,hall⟩
  refine ⟨responses,rfl,hall.imp ?_⟩
  rintro requested response ⟨status,hdigest,hstatus,_,hdelivers⟩ rfl
  obtain ⟨hcode,encoding',hcompressor,hdec⟩ := hdelivers d hheld
  refine ⟨hdigest,⟨status,hstatus,hcode⟩,encoding',?_,hdec⟩
  rw [hcompressor]
  exact StorageEncoding.fromProtoValue_asProtoValue env encoding'

/-- Once an upload of `d` has been accepted, every later download delivers `d`. -/
theorem upload_delivered (hplain : PlainInstance instanceName) :
    Delivered env (serverFrom env (before ++ between)) after instanceName digest d where
  findMissingBlobs := by
    rintro r rfl hf
    obtain ⟨hret,hend⟩ := findMissingBlobs_answers (before ++ between) after hf
    refine ⟨?_,hend⟩
    intro resp hresp
    obtain ⟨missing,marks,rfl,hpicked⟩ := hret resp hresp
    refine ⟨missing,rfl,hpicked.not_mem ?_⟩
    rw [← serverRun_serverFrom]
    exact present_serverRun h.present between
  batchReadBlobs := fun _ hinst hf hc => batchReadBlobs_delivers hz he hcomp h hd hinst hf hc
  read := fun algorithm hc => read_delivers hz he hcomp h hd hplain .identity algorithm rfl hc
  readCompressed := fun hc => read_delivers hz he hcomp h hd hplain .zstd true rfl hc

end Download

namespace Reference

def accepted (digest : Digest) : BlobUpdateResponse := ⟨some digest,some ⟨0,"",[]⟩⟩

theorem uploadRun_returned : (serverFrom externals uploadRun).Returned 0 upload (.batchUpdateBlobs
    (.ok ⟨[accepted commandDigest,accepted actionDigest,accepted treeDigest]⟩)) :=
  returned_of_answer rfl (by decide +kernel)

/-- The first item of the upload is the command, as it is. -/
theorem uploadRun_accepted :
    Accepted externals (serverFrom externals uploadRun) "main" commandDigest commandBlob .identity :=
  .item 0 _ _ 0 _ _ _ uploadRun_returned rfl rfl rfl rfl rfl rfl rfl rfl

end Reference

open Reference in
theorem upload_delivered_cached :
    Answers externals (serverFrom externals cachingRun)
      (.read ⟨(blobName "main" .zstd true commandDigest).render,0,0⟩) [.advance 2]
      (fun resp _ => ∃ responses, resp = .read (.ok responses) ∧
        externals.Decompresses (streamed responses) commandBlob) ∧
    Answers externals (serverFrom externals cachingRun)
      (.batchReadBlobs ⟨"main",[treeDigest,commandDigest],[1],0⟩) [.advance 2]
      (fun resp _ => ∃ responses, resp = .batchReadBlobs (.ok ⟨responses⟩) ∧
        List.Forall₂ (BatchDelivers externals commandDigest commandBlob) [treeDigest,commandDigest] responses) := by
  have hdelivered : ∀ after, Delivered externals (serverFrom externals cachingRun) after "main"
      commandDigest commandBlob := fun _ =>
    upload_delivered zstdRoundTrip hashBytes_empty compressionTotal uploadRun_accepted rfl plainInstance_main
  exact ⟨(hdelivered _).readCompressed (collisionFree (by decide +kernel)),
    (hdelivered _).batchReadBlobs _ rfl supportsFunction_unset (collisionFree (by decide +kernel))⟩

end ReapiCache
