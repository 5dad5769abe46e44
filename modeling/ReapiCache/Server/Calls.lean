import ReapiCache.Services.Server
import ReapiCache.Services.Uploads
import ReapiCache.Storage.StoreLog

/-! # What a request may call

Every call of a request stays in the instance the request addresses, and whatever it
puts is a verified upload, the empty blob, or the result of an update under the key of
its action. The bound is syntactic: it covers every reply the store could give.
-/
namespace ReapiCache
open Interaction ActionCacheService
variable (env : Externals)

/-- The instance a request is addressed to. A stream is addressed by name. -/
def Request.addressee : Request → Option String
  | .findMissingBlobs r => some r.instanceName
  | .batchReadBlobs r => some r.instanceName
  | .batchUpdateBlobs r => some r.instanceName
  | .read r => (parseBytestreamResourceName r.resourceName).toOption.map ParsedReadResource.instanceName
  | .write s => s.target.map ParsedReadResource.instanceName
  | .getActionResult r => some r.instanceName
  | .updateActionResult r => some r.instanceName
  | .getTree | .splitBlob | .spliceBlob | .queryWriteStatus => none

/-- The key and the result of an update whose action digest and function are in order. -/
def UpdateActionResultRequest.Targets (q : UpdateActionResultRequest) (key : BlobKey)
    (r : ActionResult) : Prop :=
  q.actionResult = some r ∧ ∃ digest algorithm, q.actionDigest = some digest ∧
    DigestAlgorithm.resolveProtoValue env q.digestFunction = .ok algorithm ∧
      key = actionKey q.instanceName algorithm digest

inductive Puts (req : Request) (key : BlobKey) (blob : BlobRead) : Prop
  | upload (d : Bytes) (kind : key.kind = .contentAddressableStorage)
      (hash : key.algorithm.hashBytes env d = key.hash)
      (encoded : BlobCodec.fromIdentityData env d .zstd = .ok blob)
  | empty (kind : key.kind = .contentAddressableStorage) (hash : key.hash = EMPTY_SHA256)
      (encoded : blob = .identity [])
  | result (q : UpdateActionResultRequest) (r : ActionResult) (request : req = .updateActionResult q)
      (targets : q.Targets env key r) (encoded : encodeResult env r = .ok blob)

structure Permitted (req : Request) (op : StoreCall) : Prop where
  addressed : req.addressee = some op.key.instanceName
  puts : ∀ key metadata body, op = .put key metadata body → Puts env req key ⟨metadata,body⟩

/-- The call puts a verified upload under its key in the instance of the request. -/
inductive UploadCall (req : Request) : StoreCall → Prop
  | put (key : BlobKey) (blob : BlobRead) (d : Bytes) (addressed : req.addressee = some key.instanceName)
      (kind : key.kind = .contentAddressableStorage) (hash : key.algorithm.hashBytes env d = key.hash)
      (encoded : BlobCodec.fromIdentityData env d .zstd = .ok blob) :
      UploadCall req (.put key blob.metadata blob.body)

variable {env} {req : Request}

theorem permitted_get {key : BlobKey} (h : req.addressee = some key.instanceName) :
    Permitted env req (.get key) where
  addressed := h
  puts := by rintro _ _ _ ⟨⟩

theorem permitted_contains {key : BlobKey} (h : req.addressee = some key.instanceName) :
    Permitted env req (.contains key) where
  addressed := h
  puts := by rintro _ _ _ ⟨⟩

theorem permitted_put {key : BlobKey} {blob : BlobRead} (h : req.addressee = some key.instanceName)
    (hp : Puts env req key blob) : Permitted env req (.put key blob.metadata blob.body) where
  addressed := h
  puts := by
    rintro _ _ _ ⟨⟩
    exact hp

theorem UploadCall.permitted {op : StoreCall} (h : UploadCall env req op) : Permitted env req op := by
  cases h with
  | put key blob d addressed kind hash encoded => exact permitted_put addressed (.upload d kind hash encoded)

section Calls
variable {ε : Type} {f : StorageError → ε} {key : BlobKey}

theorem uses_storeGet (h : req.addressee = some key.instanceName) :
    Failing.Uses (Permitted env req) (storeGet f key) := Failing.uses_attempt _ (permitted_get h)

theorem uses_storeContains (h : req.addressee = some key.instanceName) :
    Failing.Uses (Permitted env req) (storeContains f key) := Failing.uses_attempt _ (permitted_contains h)

theorem uses_storePut {blob : BlobRead} (h : req.addressee = some key.instanceName)
    (hp : Puts env req key blob) :
    Failing.Uses (Permitted env req) (storePut f key blob.metadata blob.body) :=
  Failing.uses_attempt _ (permitted_put h hp)

end Calls

theorem uses_findMissingBlobs (r : FindMissingBlobsRequest) :
    Failing.Uses (Permitted env (.findMissingBlobs r)) (CasService.findMissingBlobs env r) := by
  apply Failing.uses_ofExcept_bind
  intro algorithm _
  apply Failing.Uses.bind ?_ (fun _ => Failing.uses_pure _)
  apply Failing.uses_foldlM
  intro missing digest _
  exact (uses_storeContains rfl).bind (fun _ => Failing.uses_pure _)

theorem uses_batchReadBlobs (r : BatchReadBlobsRequest) :
    Failing.Uses (Permitted env (.batchReadBlobs r)) (CasService.batchReadBlobs env r) := by
  apply Failing.uses_ofExcept_bind
  intro algorithm _
  apply Failing.Uses.bind ?_ (fun _ => Failing.uses_pure _)
  apply Failing.uses_foldlM
  intro responses digest _
  exact (Failing.uses_attempt _ (permitted_get rfl)).bind (fun _ => Failing.uses_pure _)

theorem uses_putVerifiedBlob {key : BlobKey} {digest : Digest} {data : Bytes}
    {encoding : StorageEncoding} (h : req.addressee = some key.instanceName)
    (hkind : key.kind = .contentAddressableStorage) (hhash : key.hash = digest.hash) :
    Failing.Uses (UploadCall env req)
      (CasService.putVerifiedBlob env key key.algorithm digest data encoding) := by
  apply Failing.uses_ofExcept_bind
  intro stored hs
  obtain ⟨d,hd⟩ := CasService.verifyBlob_eq_ok.mp hs
  exact Failing.uses_attempt _ (.put key stored d h hkind (hd.hash.trans hhash.symm) hd.stored)

theorem batchUpdateBlobs_uploads (r : BatchUpdateBlobsRequest) :
    Failing.Uses (UploadCall env (.batchUpdateBlobs r)) (CasService.batchUpdateBlobs env r) := by
  apply Failing.uses_ofExcept_bind
  intro algorithm _
  apply Failing.Uses.bind ?_ (fun _ => Failing.uses_pure _)
  apply Failing.uses_foldlM
  intro responses item _
  unfold CasService.batchUpdateBlob
  cases item.digest with
  | none => exact Failing.uses_pure _
  | some digest =>
    cases StorageEncoding.fromProtoValue env item.compressor with
    | none => exact Failing.uses_pure _
    | some encoding =>
      apply Failing.Uses.bind ?_ (fun _ => Failing.uses_pure _)
      exact Failing.uses_outcome
        (uses_putVerifiedBlob rfl rfl rfl : Failing.Uses (UploadCall env (.batchUpdateBlobs r))
          (CasService.putVerifiedBlob env (CasService.casKey r.instanceName algorithm digest.hash)
            algorithm digest item.data.toList encoding))

theorem uses_batchUpdateBlobs (r : BatchUpdateBlobsRequest) :
    Failing.Uses (Permitted env (.batchUpdateBlobs r)) (CasService.batchUpdateBlobs env r) :=
  (batchUpdateBlobs_uploads r).mono (fun _ h => h.permitted)

theorem resolveBlobKey_eq_ok {resource : ParsedReadResource} {key : BlobKey}
    (h : resolveBlobKey resource = .ok key) :
    key = ⟨resource.instanceName,.sha256,resource.hash,.contentAddressableStorage⟩ := by
  unfold resolveBlobKey at h
  cases ha : resource.algorithm with
  | none =>
    simp only [ha, ok_bind] at h
    exact (Except.ok.inj h).symm
  | some name =>
    simp only [ha, bind_eq_ok] at h
    obtain ⟨algorithm,_,hk⟩ := h
    cases algorithm
    exact (Except.ok.inj hk).symm

namespace ByteStreamService

theorem readTarget_eq_ok {request : ReadRequest} {target : ReadTarget}
    (h : readTarget request = .ok target) :
    parseBytestreamResourceName request.resourceName = .ok target.parsed ∧
      target.parsed.compression.storageEncoding = .ok target.responseEncoding ∧
      (target.responseEncoding = .identity ∨ request.readLimit = 0) ∧
      resolveBlobKey target.parsed = .ok target.key := by
  obtain ⟨parsed,hp,h⟩ := bind_eq_ok.mp h
  rw [mapError_eq_ok] at hp
  by_cases hu : parsed.uploadId.isSome = true
  · rw [if_pos hu] at h
    cases h
  · rw [if_neg hu] at h
    obtain ⟨encoding,he,h⟩ := bind_eq_ok.mp h
    by_cases hl : encoding ≠ .identity ∧ request.readLimit ≠ 0
    · rw [if_pos hl] at h
      cases h
    · rw [if_neg hl] at h
      obtain ⟨key,hk,h⟩ := bind_eq_ok.mp h
      obtain rfl := Except.ok.inj h
      exact ⟨hp,he,by tauto,hk⟩

end ByteStreamService

open ByteStreamService in
theorem uses_read (r : ReadRequest) :
    Failing.Uses (Permitted env (.read r)) (ByteStreamService.read env r) := by
  apply Failing.uses_ofExcept_bind
  intro target ht
  obtain ⟨hp,_,_,hk⟩ := readTarget_eq_ok ht
  have haddr : (Request.read r).addressee = some target.key.instanceName := by
    rw [resolveBlobKey_eq_ok hk]
    simp [Request.addressee, hp, Except.toOption]
  apply (uses_storeGet haddr).bind
  intro blob
  exact (Failing.uses_ofExcept _).bind (fun _ => (Failing.uses_ofExcept _).bind (fun _ => Failing.uses_pure _))

open ByteStreamService in
theorem write_uploads (s : WriteStream) :
    Failing.Uses (UploadCall env (.write s)) (ByteStreamService.write env s) := by
  apply Failing.uses_ofExcept_bind
  intro state hstate
  apply Failing.uses_ofExcept_bind
  intro commit hcommit
  obtain ⟨_,name,parsed,hres,htarget⟩ := receive_start hstate
  rcases state with ⟨accumulator,resource⟩
  obtain rfl : resource = some (name,parsed) := hres
  obtain ⟨hkey,_,_,encoding,d,_,hd⟩ := verifyUpload_eq_ok.mp hcommit
  have hk := resolveBlobKey_eq_ok hkey
  apply Failing.Uses.bind ?_ (fun _ => Failing.uses_pure _)
  apply Failing.uses_attempt
  apply UploadCall.put _ _ d
  · simp [Request.addressee, htarget, hk]
  · rw [hk]
  · rw [hd.hash, hk]
  · exact hd.stored

theorem uses_write (s : WriteStream) :
    Failing.Uses (Permitted env (.write s)) (ByteStreamService.write env s) :=
  (write_uploads s).mono (fun _ h => h.permitted)

section ActionCache
variable {instanceName : String} (algorithm : DigestAlgorithm) (code : Code)

theorem uses_checkArtifact (h : req.addressee = some instanceName) (digest : Digest) :
    Failing.Uses (Permitted env req) (checkArtifact instanceName algorithm code digest) := by
  unfold checkArtifact
  by_cases he : digest.sizeBytes = 0 ∧ digest.hash = EMPTY_SHA256
  · rw [if_pos he]
    exact uses_storePut h (.empty rfl he.2 rfl)
  · rw [if_neg he]
    apply (uses_storeContains h).bind
    intro present
    cases present
    · exact Failing.uses_throw _
    · exact Failing.uses_pure _

theorem uses_validate (h : req.addressee = some instanceName) (r : ActionResult) :
    Failing.Uses (Permitted env req)
      (validateActionResultArtifacts env instanceName algorithm r code) := by
  apply Failing.uses_ofExcept_bind
  intro digests _
  apply Failing.Uses.bind
  · apply Failing.uses_foldlM
    intro acc dir _
    apply Failing.uses_ofExcept_bind
    intro treeDigest _
    apply (uses_storeGet h).bind
    intro blob
    exact (Failing.uses_ofExcept _).bind (fun _ => Failing.uses_ofExcept _)
  · intro digests
    apply Failing.uses_foldlM
    intro _ digest _
    exact uses_checkArtifact algorithm code h digest

end ActionCache

theorem uses_getActionResult (q : GetActionResultRequest) :
    Failing.Uses (Permitted env (.getActionResult q)) (getActionResult env q) := by
  apply Failing.uses_ofExcept_bind
  intro digest _
  apply Failing.uses_ofExcept_bind
  intro algorithm _
  apply (uses_storeGet rfl).bind
  intro blob
  apply Failing.uses_ofExcept_bind
  intro r _
  exact (uses_validate algorithm .notFound rfl r).bind (fun _ => Failing.uses_pure _)

theorem uses_updateActionResult (q : UpdateActionResultRequest) :
    Failing.Uses (Permitted env (.updateActionResult q)) (updateActionResult env q) := by
  apply Failing.uses_ofExcept_bind
  intro digest hdigest
  apply Failing.uses_ofExcept_bind
  intro r hr
  apply Failing.uses_ofExcept_bind
  intro algorithm halg
  apply (uses_storeGet rfl).bind
  intro actionBlob
  apply Failing.uses_ofExcept_bind
  intro command _
  apply (uses_storeContains rfl).bind
  intro present
  cases present
  · exact Failing.uses_throw _
  · apply (uses_validate algorithm .failedPrecondition rfl r).bind
    intro _
    apply Failing.uses_ofExcept_bind
    intro blob hblob
    apply Failing.Uses.bind ?_ (fun _ => Failing.uses_pure _)
    apply uses_storePut rfl
    exact .result q r rfl ⟨okOr_eq_ok.mp hr,digest,algorithm,okOr_eq_ok.mp hdigest,
      mapError_eq_ok.mp halg,rfl⟩ hblob

/-- Whatever the store replies, a request only issues calls permitted to it. -/
theorem serve_uses (req : Request) : (serve env req).Uses (Permitted env req) := by
  cases req with
  | findMissingBlobs r => exact Program.Uses.map _ (uses_findMissingBlobs r)
  | batchReadBlobs r => exact Program.Uses.map _ (uses_batchReadBlobs r)
  | batchUpdateBlobs r => exact Program.Uses.map _ (uses_batchUpdateBlobs r)
  | getTree => trivial
  | splitBlob => trivial
  | spliceBlob => trivial
  | read r => exact Program.Uses.map _ (uses_read r)
  | write s => exact Program.Uses.map _ (uses_write s)
  | queryWriteStatus => trivial
  | getActionResult q => exact Program.Uses.map _ (uses_getActionResult q)
  | updateActionResult q => exact Program.Uses.map _ (uses_updateActionResult q)

theorem server_log_permitted (schedule : List (Interaction.Action Request)) :
    ∀ e ∈ (serverFrom env schedule).world.log, Permitted env e.request e.op :=
  Config.log_allowed InMemoryStore.handle (serve env) serve_uses InMemoryStore.new schedule

end ReapiCache
