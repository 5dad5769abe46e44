import ReapiCache.Server.Discipline
import Mathlib.Data.List.Forall2

/-! # Accepted uploads

An upload that was answered with a success, on either path, is in the log as the put
of a verified blob under the key of its digest.
-/
namespace ReapiCache
open Interaction
variable {env : Externals}

/-- The digest function is SHA-256 or left unset. -/
def SupportsFunction (env : Externals) (value : Int32) : Prop :=
  env.digestFunction value = some .unknown ∨ env.digestFunction value = some .sha256

theorem resolveProtoValue_eq_ok {value : Int32} (h : SupportsFunction env value) :
    DigestAlgorithm.resolveProtoValue env value = .ok .sha256 := by
  rcases h with h | h
  · simp [DigestAlgorithm.resolveProtoValue, h]
  · simp [DigestAlgorithm.resolveProtoValue, DigestAlgorithm.tryFrom, h]

theorem supportsFunction_of_ok {value : Int32} {algorithm : DigestAlgorithm}
    (h : DigestAlgorithm.resolveProtoValue env value = .ok algorithm) : SupportsFunction env value := by
  unfold DigestAlgorithm.resolveProtoValue at h
  cases hproto : env.digestFunction value with
  | none =>
    rw [hproto] at h
    cases h
  | some proto =>
    rw [hproto] at h
    cases proto with
    | unknown => exact Or.inl hproto
    | sha256 => exact Or.inr hproto
    | _ => cases h

/-- The upload was verified and its blob put under the key of the digest. -/
def Uploaded (env : Externals) (log : List (StoreEntry Request)) (instanceName : String)
    (digest : Digest) (payload : Bytes) (encoding : StorageEncoding) : Prop :=
  ∃ identity stored,
    Verified env .sha256 digest.hash digest.sizeBytes payload encoding identity stored ∧
    ∃ e ∈ log, e.op = .put ⟨instanceName,.sha256,digest.hash,.contentAddressableStorage⟩
      stored.metadata stored.body

theorem Uploaded.later {log log' : List (StoreEntry Request)} {instanceName : String} {digest : Digest}
    {payload : Bytes} {encoding : StorageEncoding}
    (h : Uploaded env log instanceName digest payload encoding) (hl : log <+: log') :
    Uploaded env log' instanceName digest payload encoding := by
  obtain ⟨identity,blob,hv,e,he,hop⟩ := h
  exact ⟨identity,blob,hv,e,hl.subset he,hop⟩

section Handlers
variable {P : Protocol InMemoryStore.handle Request} (hP : Orderly P) {me : ℕ} {req : Request}
  {w : ServerWorld}
include hP

theorem ensures_storePut_cas {ε : Type} {f : StorageError → ε} {E : ε → Prop} {key : BlobKey}
    (hkind : key.kind = .contentAddressableStorage) {metadata : StoredBlobMetadata} {body : BlobReader} :
    P.Ensures me req (storePut f key metadata body) w
      (fun _ w' => (⟨me,req,.put key metadata body⟩ : StoreEntry Request) ∈ w'.log) E := by
  apply ensures_storePut hP.toReplaying
  intro w' hw' _
  apply hP.free me req _ w' hw'
  rintro _ _ _ ⟨⟩
  exact hkind

theorem ensures_putVerifiedBlob {instanceName : String} {digest : Digest} {payload : Bytes}
    {encoding : StorageEncoding} :
    P.Ensures me req (CasService.putVerifiedBlob env (CasService.casKey instanceName .sha256 digest.hash)
        .sha256 digest payload encoding) w
      (fun _ w' => Uploaded env w'.log instanceName digest payload encoding) (fun s => s.code ≠ 0) := by
  apply Protocol.ensures_ofExcept_bind
  · exact fun _ hs => CasService.verifyBlob_error hs
  · intro stored hs
    obtain ⟨identity,hv⟩ := CasService.verifyBlob_eq_ok.mp hs
    apply (ensures_storePut_cas hP rfl).imp
    intro _ w' _ _ he
    exact ⟨identity,stored,hv,_,he,rfl⟩

/-- What an answer of code 0 to one item of a batch stands for. -/
def ItemUploaded (env : Externals) (instanceName : String) (w : ServerWorld) (item : BlobRequest)
    (answer : BlobUpdateResponse) : Prop :=
  ∀ status, answer.status = some status → status.code = 0 →
    ∃ digest encoding, item.digest = some digest ∧
      StorageEncoding.fromProtoValue env item.compressor = some encoding ∧
      Uploaded env w.log instanceName digest item.data.toList encoding

omit hP in
theorem ItemUploaded.later {instanceName : String} {w w' : ServerWorld} {item : BlobRequest}
    {answer : BlobUpdateResponse} (h : ItemUploaded env instanceName w item answer)
    (hl : w.log <+: w'.log) : ItemUploaded env instanceName w' item answer := by
  intro status hs hc
  obtain ⟨digest,encoding,hd,he,hu⟩ := h status hs hc
  exact ⟨digest,encoding,hd,he,hu.later hl⟩

theorem ensures_batchUpdateBlob {instanceName : String} {responses : List BlobUpdateResponse}
    {item : BlobRequest} (hw : P.inv w) :
    P.Ensures me req (CasService.batchUpdateBlob env instanceName .sha256 responses item) w
      (fun out w' => ∃ answer, out = responses ++ [answer] ∧ ItemUploaded env instanceName w' item answer)
      (fun _ => True) := by
  have hstable : ∀ out, P.Stable (fun w' => ∃ answer, out = responses ++ [answer] ∧
      ItemUploaded env instanceName w' item answer) := by
    rintro out a b _ _ hab ⟨answer,ho,h⟩
    exact ⟨answer,ho,h.later hab⟩
  unfold CasService.batchUpdateBlob
  cases hd : item.digest with
  | none =>
    apply Protocol.ensures_pure hw (hstable _)
    refine ⟨_,rfl,?_⟩
    rintro status ⟨⟩ hc
    exact absurd hc (by decide)
  | some digest =>
    cases he : StorageEncoding.fromProtoValue env item.compressor with
    | none =>
      apply Protocol.ensures_pure hw (hstable _)
      refine ⟨_,rfl,?_⟩
      rintro status ⟨⟩ hc
      exact absurd hc (by decide)
    | some encoding =>
      apply (Protocol.ensures_outcome (ensures_putVerifiedBlob hP)).bind
      intro result w' hw' _ hr
      apply Protocol.ensures_pure hw' (hstable _)
      refine ⟨_,rfl,?_⟩
      rintro status ⟨⟩ hc
      cases result with
      | error status => exact absurd hc hr
      | ok u => exact ⟨digest,encoding,hd,he,hr⟩

theorem ensures_batchUpdateBlobs {r : BatchUpdateBlobsRequest} (hw : P.inv w) :
    P.Ensures me req (CasService.batchUpdateBlobs env r) w
      (fun resp w' => List.Forall₂ (ItemUploaded env r.instanceName w') r.requests resp.responses)
      (fun _ => True) := by
  have hstable : ∀ (items : List BlobRequest) (answers : List BlobUpdateResponse),
      P.Stable (fun w' => List.Forall₂ (ItemUploaded env r.instanceName w') items answers) := by
    intro items answers a b _ _ hab h
    exact h.imp (fun _ _ h => h.later hab)
  apply Protocol.ensures_ofExcept_bind (fun _ _ => trivial)
  intro algorithm _
  cases algorithm
  apply Protocol.Ensures.bind (Protocol.ensures_foldlM
    (fun pre acc w' => List.Forall₂ (ItemUploaded env r.instanceName w') pre acc) hstable r.requests
    ?_ [] [] w hw .nil)
  · intro responses w' hw' _ h
    exact Protocol.ensures_pure hw' (hstable _ _) h
  · intro pre item acc w' _ hw' h
    apply (ensures_batchUpdateBlob hP hw').imp
    rintro out w'' hw'' hl ⟨answer,rfl,ha⟩
    exact List.rel_append (h.imp (fun _ _ h => h.later hl)) (.cons ha .nil)

open ByteStreamService in
theorem ensures_write {s : WriteStream} :
    P.Ensures me req (ByteStreamService.write env s) w
      (fun _ w' => ∃ parsed encoding, s.target = some parsed ∧
        parsed.compression.storageEncoding = .ok encoding ∧
        Uploaded env w'.log parsed.instanceName ⟨parsed.hash,parsed.expectedSize⟩ s.payload encoding)
      (fun _ => True) := by
  apply Protocol.ensures_ofExcept_bind (fun _ _ => trivial)
  intro state hstate
  apply Protocol.ensures_ofExcept_bind (fun _ _ => trivial)
  intro commit hcommit
  obtain ⟨hacc,name,parsed,hres,htarget⟩ := receive_start hstate
  rcases state with ⟨accumulator,resource⟩
  obtain rfl : resource = some (name,parsed) := hres
  obtain rfl : accumulator = s.payload := hacc
  obtain ⟨hkey,_,_,encoding,identity,henc,hv⟩ := verifyUpload_eq_ok.mp hcommit
  have hk := resolveBlobKey_eq_ok hkey
  rw [hk] at hv ⊢
  apply (ensures_storePut_cas hP rfl).bind
  intro _ w' hw' _ he
  apply Protocol.ensures_pure hw'
  · rintro a b _ _ hab ⟨p,e,hp,hen,hu⟩
    exact ⟨p,e,hp,hen,hu.later hab⟩
  · exact ⟨parsed,encoding,htarget,henc,identity,commit.stored,hv,_,he,rfl⟩

end Handlers

/-- An upload of a payload under a digest that the server has answered with success. -/
inductive Accepted (env : Externals) (c : ServerConfig) (instanceName : String) (digest : Digest)
    (payload : Bytes) (encoding : StorageEncoding) : Prop
  | item (i : ℕ) (q : BatchUpdateBlobsRequest) (responses : List BlobUpdateResponse) (j : ℕ)
      (item : BlobRequest) (answer : BlobUpdateResponse) (status : RpcStatus)
      (returned : c.Returned i (.batchUpdateBlobs q) (.batchUpdateBlobs (.ok ⟨responses⟩)))
      (addressed : q.instanceName = instanceName) (sent : q.requests[j]? = some item)
      (named : item.digest = some digest) (data : item.data.toList = payload)
      (encoded : StorageEncoding.fromProtoValue env item.compressor = some encoding)
      (answered : responses[j]? = some answer) (reported : answer.status = some status)
      (success : status.code = 0)
  | stream (i : ℕ) (s : WriteStream) (response : WriteResponse) (parsed : ParsedReadResource)
      (returned : c.Returned i (.write s) (.write (.ok response)))
      (target : s.target = some parsed) (addressed : parsed.instanceName = instanceName)
      (named : (⟨parsed.hash,parsed.expectedSize⟩ : Digest) = digest) (data : s.payload = payload)
      (encoded : parsed.compression.storageEncoding = .ok encoding)

theorem Accepted.uploaded {schedule : List (Interaction.Action Request)} {instanceName : String}
    {digest : Digest} {payload : Bytes} {encoding : StorageEncoding}
    (h : Accepted env (serverFrom env schedule) instanceName digest payload encoding) :
    Uploaded env (serverFrom env schedule).world.log instanceName digest payload encoding := by
  have hP := plain_orderly (serverFrom env schedule).world.log
  cases h with
  | item i q responses j item answer status returned addressed sent named data encoded answered reported success =>
    subst addressed data
    have hall : List.Forall₂ (ItemUploaded env q.instanceName (serverFrom env schedule).world) q.requests
        responses := outcome_of_plain rfl (fun _ _ => Response.batchUpdateBlobs.inj) returned
      (fun _ hw => ensures_batchUpdateBlobs hP hw)
    obtain ⟨hj,rfl⟩ := List.getElem?_eq_some_iff.mp sent
    obtain ⟨hj',rfl⟩ := List.getElem?_eq_some_iff.mp answered
    obtain ⟨d,e,hd,he,hu⟩ := (List.forall₂_iff_get.mp hall).2 j hj hj' status reported success
    obtain rfl := Option.some.inj (hd.symm.trans named)
    obtain rfl := Option.some.inj (he.symm.trans encoded)
    exact hu
  | stream i s response parsed returned target addressed named data encoded =>
    subst addressed named data
    obtain ⟨p,e,hp,he,hu⟩ := outcome_of_plain rfl (fun _ _ => Response.write.inj) returned
      (fun _ _ => ensures_write hP)
    obtain rfl := Option.some.inj (hp.symm.trans target)
    obtain rfl := Except.ok.inj (he.symm.trans encoded)
    exact hu

end ReapiCache
