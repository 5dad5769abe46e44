import ReapiCache.Abstract.Parts

/-! # What a request calls on the cache

Every request may look up anything, the upload of a content stores the accepted content
under its address, the validation of a result stores the empty blob in its instance, and
only an update publishes.
-/
namespace ReapiCache.Abstract
open Interaction ActionCacheService
variable {env : Externals}

/-- The contents a request may store, under their addresses. -/
inductive Stores (env : Externals) : Request → Locator → Bytes → Prop
  | item (q : BatchUpdateBlobsRequest) (item : BlobRequest) (digest : Digest) (encoding : StorageEncoding)
      (algorithm : DigestAlgorithm) (d : Bytes) (sent : item ∈ q.requests) (named : item.digest = some digest)
      (encoded : StorageEncoding.fromProtoValue env item.compressor = some encoding)
      (accepted : acceptBlob env algorithm digest item.data.toList encoding = .ok d) :
      Stores env (.batchUpdateBlobs q) ⟨q.instanceName,algorithm,digest.hash⟩ d
  | stream (s : WriteStream) (state : ByteStreamService.WriteState) (upload : Upload)
      (received : ByteStreamService.receive s.transportError ⟨[],none⟩ s.messages = .ok state)
      (accepted : acceptUpload env state = .ok upload) : Stores env (.write s) upload.address upload.content
  | emptyOfGet (q : GetActionResultRequest) (algorithm : DigestAlgorithm) :
      Stores env (.getActionResult q) ⟨q.instanceName,algorithm,EMPTY_SHA256⟩ []
  | emptyOfUpdate (q : UpdateActionResultRequest) (algorithm : DigestAlgorithm) :
      Stores env (.updateActionResult q) ⟨q.instanceName,algorithm,EMPTY_SHA256⟩ []

/-- The calls a request may make. -/
def Makes (env : Externals) (req : Request) : BlobCall → Prop
  | .store a d => Stores env req a d
  | .publish _ _ => ∃ q, req = .updateActionResult q
  | _ => True

section Handlers
variable {A : BlobCall → Prop} (hfetch : ∀ a, A (.fetch a)) (hholds : ∀ a, A (.holds a))

include hholds in
theorem uses_checkArtifact {instanceName : String} {algorithm : DigestAlgorithm}
    (hempty : A (.store ⟨instanceName,algorithm,EMPTY_SHA256⟩ [])) (code : Code) (digest : Digest) :
    Failing.Uses A (checkArtifact instanceName algorithm code digest) := by
  unfold checkArtifact
  by_cases h : digest.sizeBytes = 0 ∧ digest.hash = EMPTY_SHA256
  · rw [if_pos h, h.2]
    exact Failing.uses_attempt _ hempty
  · rw [if_neg h]
    apply (Failing.uses_attempt _ (hholds _)).bind
    rintro (present : Bool)
    cases present with
    | true => exact Failing.uses_pure _
    | false => exact Failing.uses_throw _

include hfetch hholds in
theorem uses_validateArtifacts {instanceName : String} {algorithm : DigestAlgorithm}
    (hempty : A (.store ⟨instanceName,algorithm,EMPTY_SHA256⟩ [])) (r : ActionResult) (code : Code) :
    Failing.Uses A (validateArtifacts env instanceName algorithm r code) := by
  apply (Failing.uses_ofExcept _).bind
  intro fileDigests
  apply Failing.Uses.bind
  · apply Failing.uses_foldlM
    intro digests dir _
    apply (Failing.uses_ofExcept _).bind
    intro treeDigest
    apply Failing.Uses.bind (Failing.uses_attempt _ (hfetch _))
    intro found
    exact (Failing.uses_ofExcept _).bind (fun _ => Failing.uses_ofExcept _)
  · intro digests
    exact Failing.uses_foldlM (fun _ digest _ => uses_checkArtifact hholds hempty code digest) _

theorem uses_batch {Item Answer Resp : Type} (digestFunction : Int32)
    {round : DigestAlgorithm → Item → CacheM (List Answer)} (respond : List Answer → Resp) {items : List Item}
    (h : ∀ algorithm, ∀ item ∈ items, (round algorithm item).Uses A) :
    (batch env digestFunction round respond items).Uses A := by
  cases hresolved : (DigestAlgorithm.resolveProtoValue env digestFunction).mapError Status.invalidArgument with
  | error s =>
    rw [batch_error hresolved]
    trivial
  | ok algorithm =>
    rw [batch_ok hresolved]
    apply Program.Uses.map
    induction items with
    | nil => trivial
    | cons item items ih =>
      rw [List.mapM_cons]
      apply (h algorithm item List.mem_cons_self).bind
      intro _
      exact (ih (fun algorithm item hitem => h algorithm item (List.mem_cons_of_mem _ hitem))).bind (fun _ => trivial)

theorem uses_updateBlob {instanceName : String} {algorithm : DigestAlgorithm} {item : BlobRequest}
    (h : ∀ digest encoding d, item.digest = some digest →
      StorageEncoding.fromProtoValue env item.compressor = some encoding →
      acceptBlob env algorithm digest item.data.toList encoding = .ok d →
      A (.store ⟨instanceName,algorithm,digest.hash⟩ d)) : (updateBlob env instanceName algorithm item).Uses A := by
  unfold updateBlob
  cases hdigest : item.digest with
  | none => trivial
  | some digest =>
    cases hencoding : StorageEncoding.fromProtoValue env item.compressor with
    | none => trivial
    | some encoding =>
      dsimp only
      cases haccept : acceptBlob env algorithm digest item.data.toList encoding with
      | error status => trivial
      | ok d => exact ⟨h digest encoding d hdigest hencoding haccept,fun _ => trivial⟩

/-- A batch of uploads stores what it accepts, and calls nothing else. -/
theorem batchUpdateBlobs_uses {q : BatchUpdateBlobsRequest}
    (h : ∀ a d, Stores env (.batchUpdateBlobs q) a d → A (.store a d)) : (batchUpdateBlobs env q).Uses A := by
  apply uses_batch
  intro algorithm item hitem
  apply uses_updateBlob
  intro digest encoding d hdigest hencoding haccept
  exact h _ d (.item q item digest encoding algorithm d hitem hdigest hencoding haccept)

end Handlers

/-- A request makes no other calls. -/
theorem serve_makes (req : Request) : (serve env req).Uses (Makes env req) := by
  cases req with
  | findMissingBlobs q =>
    apply Program.Uses.map
    exact uses_batch _ _ (fun _ _ _ => ⟨trivial,fun _ => trivial⟩)
  | batchReadBlobs q =>
    apply Program.Uses.map
    exact uses_batch _ _ (fun _ _ _ => ⟨trivial,fun _ => trivial⟩)
  | batchUpdateBlobs q => exact Program.Uses.map _ (batchUpdateBlobs_uses (fun _ _ h => h))
  | getTree => trivial
  | splitBlob => trivial
  | spliceBlob => trivial
  | queryWriteStatus => trivial
  | read q =>
    apply Program.Uses.map
    apply (Failing.uses_ofExcept _).bind
    intro target
    exact Failing.Uses.bind (Failing.uses_attempt _ trivial) (fun _ => Failing.uses_ofExcept _)
  | write s =>
    apply Program.Uses.map
    apply Failing.uses_ofExcept_bind
    intro state hstate
    apply Failing.uses_ofExcept_bind
    intro upload hupload
    apply Failing.Uses.bind (Failing.uses_attempt _ ?_) (fun _ => Failing.uses_pure _)
    exact Stores.stream s state upload hstate hupload
  | getActionResult q =>
    apply Program.Uses.map
    apply (Failing.uses_ofExcept _).bind
    intro digest
    apply (Failing.uses_ofExcept _).bind
    intro algorithm
    apply Failing.Uses.bind (Failing.uses_attempt _ trivial)
    intro found
    apply (Failing.uses_ofExcept _).bind
    intro r
    apply Failing.Uses.bind ?_ (fun _ => Failing.uses_pure _)
    exact uses_validateArtifacts (fun _ => trivial) (fun _ => trivial) (Stores.emptyOfGet q algorithm) r .notFound
  | updateActionResult q =>
    apply Program.Uses.map
    apply (Failing.uses_ofExcept _).bind
    intro digest
    apply (Failing.uses_ofExcept _).bind
    intro r
    apply (Failing.uses_ofExcept _).bind
    intro algorithm
    apply Failing.Uses.bind (Failing.uses_attempt _ trivial)
    intro found
    apply (Failing.uses_ofExcept _).bind
    intro command
    apply Failing.Uses.bind (Failing.uses_attempt _ trivial)
    rintro (present : Bool)
    cases present with
    | false => exact Failing.uses_throw _
    | true =>
      apply Failing.Uses.bind (uses_validateArtifacts (fun _ => trivial) (fun _ => trivial)
        (Stores.emptyOfUpdate q algorithm) r .failedPrecondition)
      intro _
      apply (Failing.uses_ofExcept _).bind
      intro _
      exact Failing.Uses.bind (Failing.uses_attempt _ ⟨q,rfl⟩) (fun _ => Failing.uses_pure _)

end ReapiCache.Abstract
