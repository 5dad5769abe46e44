import ReapiCache.Services.Downloads
import ReapiCache.Services.ResourceNameGrammar
import ReapiCache.Services.Server

/-! # The codes a handler can fail with

A handler that has accepted the digest function, or the compressor, has few codes left to
fail with, whatever the store replies.
-/
namespace ReapiCache
open Interaction
variable {env : Externals}

/-- Nothing is said about a success. -/
abbrev FailsWith {ε α : Type} (E : ε → Prop) (p : Handler ε α) : Prop := Failing.Returns (fun _ => True) E p

section Steps
variable {ε α : Type} {E : ε → Prop}

variable {f : StorageError → ε} {key : BlobKey}

theorem failsWith_storeGet (h : ∀ err, E (f err)) : FailsWith E (storeGet f key) :=
  Failing.returns_attempt (fun _ => Failing.ends_mapError h)

theorem failsWith_storeContains (h : ∀ err, E (f err)) : FailsWith E (storeContains f key) :=
  Failing.returns_attempt (fun _ => Failing.ends_mapError h)

theorem failsWith_storePut {metadata : StoredBlobMetadata} {body : BlobReader} (h : ∀ err, E (f err)) :
    FailsWith E (storePut f key metadata body) :=
  Failing.returns_attempt (fun _ => Failing.ends_mapError h)

theorem failsWith_foldlM {γ : Type} {g : α → γ → Handler ε α} {l : List γ} (h : ∀ a, ∀ c ∈ l, FailsWith E (g a c))
    (a : α) : FailsWith E (l.foldlM g a) :=
  Failing.returns_foldlM (fun _ _ => True) (fun _ a c hc _ => h a c hc) [] a trivial

end Steps

namespace CasService
variable {algorithm : DigestAlgorithm}

theorem failsWith_findMissingBlobs {r : FindMissingBlobsRequest}
    (h : DigestAlgorithm.resolveProtoValue env r.digestFunction = .ok algorithm) :
    FailsWith (fun s => s.code = .internal) (findMissingBlobs env r) := by
  rw [findMissingBlobs, h, mapError_ok, Failing.ofExcept_ok, pure_bind]
  apply Failing.Returns.bind (failsWith_foldlM ?_ [])
  · exact fun _ _ => Failing.returns_pure trivial
  · intro missing digest _
    apply (failsWith_storeContains (fun err => show (Status.internal err.toString).code = .internal from rfl)).bind
    exact fun _ _ => Failing.returns_pure trivial

/-- A batch read of a supported digest function has an answer for every digest. -/
theorem failsWith_batchReadBlobs {r : BatchReadBlobsRequest}
    (h : DigestAlgorithm.resolveProtoValue env r.digestFunction = .ok algorithm) :
    FailsWith (fun _ => False) (batchReadBlobs env r) := by
  rw [batchReadBlobs, h, mapError_ok, Failing.ofExcept_ok, pure_bind]
  apply Failing.Returns.bind (failsWith_foldlM ?_ [])
  · exact fun _ _ => Failing.returns_pure trivial
  · intro responses digest _
    have hget : FailsWith (fun _ => False) (Failing.attempt (.get (casKey r.instanceName algorithm digest.hash))
        (fun reply => .ok (blobReadResponse env (r.acceptableCompressors.filterMap (StorageEncoding.fromProtoValue env))
          digest reply)) : Handler Status BlobReadResponse) := Failing.returns_attempt (fun _ => trivial)
    apply hget.bind
    exact fun _ _ => Failing.returns_pure trivial

/-- The item is refused for its compressor. -/
def Unsupported (answer : BlobUpdateResponse) : Prop :=
  answer.status = some (rpcStatus .invalidArgument "unsupported compression method")

theorem head_append {c : Char} {a : String} (h : a.toList.head? = some c) (b : String) :
    (a ++ b).toList.head? = some c := by
  rw [String.toList_append, List.head?_append, h, Option.some_or]

/-- The payload is refused for another reason. -/
def RefusedOtherwise (s : RpcStatus) : Prop := s ≠ rpcStatus .invalidArgument "unsupported compression method"

theorem refusedOtherwise_of_head {code : Code} {message : String} {c : Char} (h : message.toList.head? = some c)
    (hc : c ≠ 'u') : RefusedOtherwise (rpcStatus code message) := by
  intro heq
  obtain rfl : message = "unsupported compression method" := congrArg RpcStatus.message heq
  exact hc (Option.some.inj (h.symm.trans rfl))

theorem refusedOtherwise_internal (message : String) : RefusedOtherwise (rpcStatus .internal message) :=
  fun h => absurd (congrArg RpcStatus.code h) (show (13 : Int32) ≠ 3 by decide)

theorem refusedOtherwise_validation (err : DigestValidationError) :
    RefusedOtherwise (rpcStatus .invalidArgument err.toString) := by
  cases err with
  | negativeSize => exact refusedOtherwise_of_head rfl (by decide : 'd' ≠ 'u')
  | sizeMismatch expected actual =>
    exact refusedOtherwise_of_head (head_append (head_append (head_append rfl _) _) _) (by decide : 's' ≠ 'u')
  | hashMismatch expected actual =>
    exact refusedOtherwise_of_head (head_append (head_append (head_append rfl _) _) _) (by decide : 'h' ≠ 'u')

theorem ends_verifyBlob (digest : Digest) (data : Bytes) (encoding : StorageEncoding) :
    Failing.Ends (fun _ => True) RefusedOtherwise (verifyBlob env algorithm digest data encoding) := by
  apply (ends_okOr (refusedOtherwise_of_head rfl (by decide : 'd' ≠ 'u'))).bind
  intro n _
  apply (Failing.ends_mapError (fun _ => refusedOtherwise_of_head (head_append rfl _) (by decide : 'i' ≠ 'u'))).bind
  intro identity _
  apply (Failing.ends_mapError refusedOtherwise_validation).bind
  exact fun _ _ => Failing.ends_mapError (fun _ => refusedOtherwise_internal _)

theorem failsWith_putVerifiedBlob {key : BlobKey} {digest : Digest} {data : Bytes} {encoding : StorageEncoding} :
    FailsWith RefusedOtherwise (putVerifiedBlob env key algorithm digest data encoding) := by
  apply (Failing.returns_ofExcept (ends_verifyBlob digest data encoding)).bind
  exact fun stored _ => failsWith_storePut (fun _ => refusedOtherwise_internal _)

/-- An item with a digest is refused for its compressor if and only if the server cannot decode it. -/
theorem returns_batchUpdateBlob {instanceName : String} {responses : List BlobUpdateResponse} {item : BlobRequest} :
    Failing.Returns (fun out => ∃ answer, out = responses ++ [answer] ∧ (item.digest.isSome →
        (Unsupported answer ↔ StorageEncoding.fromProtoValue env item.compressor = none)))
      (fun _ => False) (batchUpdateBlob env instanceName algorithm responses item) := by
  unfold batchUpdateBlob
  cases hdigest : item.digest with
  | none => exact Failing.returns_pure ⟨_,rfl,fun h => absurd h (by decide)⟩
  | some digest =>
    cases hencoding : StorageEncoding.fromProtoValue env item.compressor with
    | none => exact Failing.returns_pure ⟨_,rfl,fun _ => iff_of_true rfl rfl⟩
    | some encoding =>
      have hok : RefusedOtherwise (rpcStatus .ok "") := by
        unfold RefusedOtherwise
        decide
      apply (Failing.returns_outcome failsWith_putVerifiedBlob).bind
      rintro (status | ⟨⟩) hstatus
      · exact Failing.returns_pure ⟨_,rfl,fun _ => iff_of_false (fun h => hstatus (Option.some.inj h)) (by simp)⟩
      · exact Failing.returns_pure ⟨_,rfl,fun _ => iff_of_false (fun h => hok (Option.some.inj h)) (by simp)⟩

/-- A batch update of a supported digest function has an answer for every item. -/
theorem returns_batchUpdateBlobs {r : BatchUpdateBlobsRequest}
    (h : DigestAlgorithm.resolveProtoValue env r.digestFunction = .ok algorithm) :
    Failing.Returns (fun out => List.Forall₂ (fun item answer => item.digest.isSome →
        (Unsupported answer ↔ StorageEncoding.fromProtoValue env item.compressor = none)) r.requests out.responses)
      (fun _ => False) (batchUpdateBlobs env r) := by
  rw [batchUpdateBlobs, h, mapError_ok, Failing.ofExcept_ok, pure_bind]
  apply (Failing.returns_foldlM (fun pre out => List.Forall₂ (fun item answer => item.digest.isSome →
    (Unsupported answer ↔ StorageEncoding.fromProtoValue env item.compressor = none)) pre out) ?_ [] [] .nil).bind
  · exact fun _ hout => Failing.returns_pure hout
  · intro pre responses item _ hpre
    apply Program.Returns.mono returns_batchUpdateBlob
    rintro (s | out) hout
    · exact hout
    · obtain ⟨answer,rfl,hanswer⟩ := hout
      exact List.rel_append hpre (.cons hanswer .nil)

end CasService

namespace ActionCacheService
variable {missingCode : Code} {instanceName : String} {algorithm : DigestAlgorithm}

/-- A failed validation has the code of its caller, or is internal. -/
def ValidationFailure (missingCode : Code) (s : Status) : Prop := s.code = missingCode ∨ s.code = .internal

theorem failure_missing (message : String) : ValidationFailure missingCode ⟨missingCode,message⟩ := Or.inl rfl
theorem failure_internal (message : String) : ValidationFailure missingCode (.internal message) := Or.inr rfl

theorem ends_collectFileDigests (files : List FileNode) :
    Failing.Ends (fun _ => True) (ValidationFailure missingCode) (collectFileDigests missingCode files) :=
  Failing.ends_mapM (fun _ => ends_okOr (failure_missing _))

theorem ends_collectTreeFileDigests (tree : Tree) (digests : List Digest) :
    Failing.Ends (fun _ => True) (ValidationFailure missingCode) (collectTreeFileDigests tree digests missingCode) := by
  apply (ends_okOr (failure_missing _)).bind
  intro root _
  apply (ends_collectFileDigests root.files).bind
  intro rootDigests _
  apply (Failing.ends_mapM (fun child : Directory => ends_collectFileDigests child.files)).bind
  exact fun _ _ => trivial

theorem ends_decodeOutputTree (treeBlob : Option BlobRead) :
    Failing.Ends (fun _ => True) (ValidationFailure missingCode) (decodeOutputTree env missingCode treeBlob) := by
  apply (ends_okOr (failure_missing _)).bind
  intro blob _
  apply (Failing.ends_mapError (fun _ => failure_internal _)).bind
  exact fun _ _ => Failing.ends_mapError (fun _ => failure_internal _)

theorem failsWith_collectOutputDirectory (digests : List Digest) (directory : OutputDirectory) :
    FailsWith (ValidationFailure missingCode)
      (collectOutputDirectory env instanceName algorithm missingCode digests directory) := by
  apply (Failing.returns_ofExcept (ends_okOr (failure_missing _))).bind
  intro treeDigest _
  apply (failsWith_storeGet (fun _ => failure_internal _)).bind
  intro treeBlob _
  apply (Failing.returns_ofExcept (ends_decodeOutputTree treeBlob)).bind
  exact fun tree _ => Failing.returns_ofExcept (ends_collectTreeFileDigests tree digests)

theorem failsWith_checkArtifact (digest : Digest) :
    FailsWith (ValidationFailure missingCode) (checkArtifact instanceName algorithm missingCode digest) := by
  unfold checkArtifact
  split
  · exact failsWith_storePut (fun _ => failure_internal _)
  · apply (failsWith_storeContains (fun _ => failure_internal _)).bind
    intro present _
    cases present with
    | true => exact Failing.returns_pure trivial
    | false => exact Failing.returns_throw (failure_missing _)

/-- A validation fails with the code of the caller, or internally. -/
theorem failsWith_validateActionResultArtifacts (result : ActionResult) :
    FailsWith (ValidationFailure missingCode)
      (validateActionResultArtifacts env instanceName algorithm result missingCode) := by
  apply Failing.Returns.bind (Failing.returns_ofExcept (Failing.ends_mapM ?_))
  · intro fileDigests _
    apply (failsWith_foldlM (fun _ _ _ => failsWith_collectOutputDirectory _ _) _).bind
    exact fun _ _ => failsWith_foldlM (fun _ digest _ => failsWith_checkArtifact digest) ()
  · exact fun _ => ends_okOr (failure_missing _)

theorem ends_decodeCachedResult (blob : Option BlobRead) :
    Failing.Ends (fun _ => True) (ValidationFailure .notFound) (decodeCachedResult env blob) := by
  apply (ends_okOr (failure_missing _)).bind
  intro blob _
  apply (Failing.ends_mapError (fun _ => failure_internal _)).bind
  exact fun _ _ => Failing.ends_mapError (fun _ => failure_internal _)

theorem failsWith_getActionResult {q : GetActionResultRequest} {digest : Digest} (hdigest : q.actionDigest = some digest)
    (h : DigestAlgorithm.resolveProtoValue env q.digestFunction = .ok algorithm) :
    FailsWith (ValidationFailure .notFound) (getActionResult env q) := by
  rw [getActionResult, hdigest, okOr_some, Failing.ofExcept_ok, pure_bind, h, mapError_ok, Failing.ofExcept_ok, pure_bind]
  apply (failsWith_storeGet (fun _ => failure_internal _)).bind
  intro blob _
  apply (Failing.returns_ofExcept (ends_decodeCachedResult blob)).bind
  intro result _
  apply (failsWith_validateActionResultArtifacts result).bind
  exact fun _ _ => Failing.returns_pure trivial

theorem ends_decodeCommandDigest (actionBlob : Option BlobRead) :
    Failing.Ends (fun _ => True) (ValidationFailure .failedPrecondition) (decodeCommandDigest env actionBlob) := by
  apply (ends_okOr (failure_missing _)).bind
  intro blob _
  apply (Failing.ends_mapError (fun _ => failure_missing _)).bind
  intro bytes _
  apply (Failing.ends_mapError (fun _ => failure_missing _)).bind
  exact fun _ _ => ends_okOr (failure_missing _)

theorem failsWith_updateActionResult {q : UpdateActionResultRequest} {digest : Digest} {result : ActionResult}
    (hdigest : q.actionDigest = some digest) (hresult : q.actionResult = some result)
    (h : DigestAlgorithm.resolveProtoValue env q.digestFunction = .ok algorithm) :
    FailsWith (ValidationFailure .failedPrecondition) (updateActionResult env q) := by
  rw [updateActionResult, hdigest, okOr_some, Failing.ofExcept_ok, pure_bind, hresult, okOr_some,
    Failing.ofExcept_ok, pure_bind, h, mapError_ok, Failing.ofExcept_ok, pure_bind]
  apply (failsWith_storeGet (fun _ => failure_internal _)).bind
  intro actionBlob _
  apply (Failing.returns_ofExcept (ends_decodeCommandDigest actionBlob)).bind
  intro commandDigest _
  apply (failsWith_storeContains (fun _ => failure_internal _)).bind
  intro present _
  cases present with
  | false => exact Failing.returns_throw (failure_missing _)
  | true =>
    apply (failsWith_validateActionResultArtifacts result).bind
    intro _ _
    apply (Failing.returns_ofExcept (Failing.ends_mapError (fun _ => failure_internal _))).bind
    intro blob _
    apply (failsWith_storePut (fun _ => failure_internal _)).bind
    exact fun _ _ => Failing.returns_pure trivial

end ActionCacheService

namespace ByteStreamService
variable {parsed : ParsedReadResource} {encoding : StorageEncoding}

/-- The request fails for another reason than the compressor in its name. -/
def FailsOtherwise (s : Status) : Prop := s.code ≠ .unimplemented

theorem failsOtherwise {code : Code} (message : String) (h : code ≠ .unimplemented) : FailsOtherwise ⟨code,message⟩ := h

theorem ends_readTarget {r : ReadRequest} (hparse : parseBytestreamResourceName r.resourceName = .ok parsed)
    (hencoding : parsed.compression.storageEncoding = .ok encoding) :
    Failing.Ends (fun _ => True) FailsOtherwise (readTarget r) := by
  rw [readTarget, hparse, mapError_ok, ok_bind]
  split
  · exact failsOtherwise _ (by decide)
  · rw [hencoding, ok_bind]
    split
    · exact failsOtherwise _ (by decide)
    · rw [resolveBlobKey_of_parse hparse, ok_bind]
      trivial

theorem ends_readIdentity (target : ReadTarget) (blob : Option BlobRead) :
    Failing.Ends (fun _ => True) FailsOtherwise (readIdentity env target blob) := by
  apply (ends_okOr (failsOtherwise _ (by decide))).bind
  intro blob _
  apply (ends_okOr (failsOtherwise _ (by decide))).bind
  intro expectedSize _
  split
  · exact failsOtherwise _ (by decide)
  · apply (Failing.ends_mapError (fun _ => failsOtherwise _ (by decide))).bind
    intro identity _
    apply (Failing.ends_mapError (fun _ => failsOtherwise _ (by decide))).bind
    exact fun _ _ => trivial

theorem ends_readWindow (r : ReadRequest) (responseEncoding : StorageEncoding) (identity : Bytes) :
    Failing.Ends (fun _ => True) FailsOtherwise (readWindow env r responseEncoding identity) := by
  apply (ends_okOr (failsOtherwise _ (by decide))).bind
  intro offset _
  split
  · exact failsOtherwise _ (by decide)
  · split
    · split
      · trivial
      · exact (ends_okOr (failsOtherwise _ (by decide))).bind (fun _ _ => trivial)
    · apply (Failing.ends_mapError (fun _ => failsOtherwise _ (by decide))).bind
      exact fun _ _ => Failing.ends_mapError (fun _ => failsOtherwise _ (by decide))

/-- A read that names a compressor of the server does not fail for its compressor. -/
theorem failsWith_read {r : ReadRequest} (hparse : parseBytestreamResourceName r.resourceName = .ok parsed)
    (hencoding : parsed.compression.storageEncoding = .ok encoding) : FailsWith FailsOtherwise (read env r) := by
  apply (Failing.returns_ofExcept (ends_readTarget hparse hencoding)).bind
  intro target _
  apply (failsWith_storeGet (fun _ => failsOtherwise _ (by decide))).bind
  intro blob _
  apply (Failing.returns_ofExcept (ends_readIdentity target blob)).bind
  intro identity _
  apply (Failing.returns_ofExcept (ends_readWindow r target.responseEncoding identity)).bind
  exact fun _ _ => Failing.returns_pure trivial

theorem ends_verifyUpload {state : WriteState} {name : String} {key : BlobKey}
    (hresource : state.resource = some (name,parsed)) (hkey : resolveBlobKey parsed = .ok key)
    (hencoding : parsed.compression.storageEncoding = .ok encoding) :
    Failing.Ends (fun _ => True) FailsOtherwise (verifyUpload env state) := by
  simp only [verifyUpload, hresource, okOr_some, ok_bind, hkey, hencoding]
  apply (ends_okOr (failsOtherwise _ (by decide))).bind
  intro expectedSize _
  split
  · exact failsOtherwise _ (by decide)
  · apply (Failing.ends_mapError (fun _ => failsOtherwise _ (by decide))).bind
    intro identity _
    apply (Failing.ends_mapError (fun _ => failsOtherwise _ (by decide))).bind
    intro _ _
    exact (Failing.ends_mapError (fun _ => failsOtherwise _ (by decide))).bind (fun _ _ => trivial)

/-- What a received stream resolves its name to. -/
theorem receive_target {stream : WriteStream} {state : WriteState}
    (h : receive stream.transportError ⟨[],none⟩ stream.messages = .ok state) (htarget : stream.target = some parsed) :
    ∃ name key, state.resource = some (name,parsed) ∧ resolveBlobKey parsed = .ok key := by
  obtain ⟨_,name,parsed',hresource,_,hnew⟩ := receive_ok h
  obtain ⟨m,hm,hparse⟩ := hnew rfl
  have htarget' : stream.target = some parsed' := by
    simp [WriteStream.target, hm, hparse, Except.toOption]
  obtain rfl := Option.some.inj (htarget.symm.trans htarget')
  exact ⟨name,_,hresource,resolveBlobKey_of_parse hparse⟩

/-- A received stream that names a compressor of the server does not fail for its compressor. -/
theorem failsWith_write {stream : WriteStream} {state : WriteState}
    (hstate : receive stream.transportError ⟨[],none⟩ stream.messages = .ok state)
    (htarget : stream.target = some parsed) (hencoding : parsed.compression.storageEncoding = .ok encoding) :
    FailsWith FailsOtherwise (write env stream) := by
  obtain ⟨name,key,hresource,hkey⟩ := receive_target hstate htarget
  rw [write, hstate, Failing.ofExcept_ok, pure_bind]
  apply (Failing.returns_ofExcept (ends_verifyUpload hresource hkey hencoding)).bind
  intro commit _
  apply (failsWith_storePut (fun _ => failsOtherwise _ (by decide))).bind
  exact fun _ _ => Failing.returns_pure trivial

end ByteStreamService
end ReapiCache
