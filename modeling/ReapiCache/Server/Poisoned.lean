import ReapiCache.Interaction.Noninterference
import ReapiCache.Services.Uploads
import ReapiCache.Storage.StoreLog
import ReapiCache.Reference

/-! # A poisoned lock

Should the lock of the store ever be poisoned, every later call on the store fails. No
request then finds anything, reports anything as missing or present, or is told that
something was stored; and nothing is.
-/
namespace ReapiCache
open Interaction
variable {env : Externals}

/-- The error of every call behind a poisoned lock. -/
def lockPoisoned : StorageError := .unavailable "lock poisoned"

/-- The answer to every digest of a batch read. -/
def unavailableAnswer (digest : Digest) : BlobReadResponse :=
  ⟨some digest,[],0,some ⟨13,lockPoisoned.toString,[]⟩⟩

/-- A refused item. -/
def RefusedItem (item : BlobRequest) (answer : BlobUpdateResponse) : Prop :=
  answer.digest = item.digest ∧ ∃ status, answer.status = some status ∧ status.code ≠ 0

/-- The response says nothing about the store. A batch without items needs no call. -/
def SaysNothing : Request → Response → Prop
  | .findMissingBlobs r, .findMissingBlobs out => r.blobDigests ≠ [] → ∃ s, out = .error s
  | .batchReadBlobs r, .batchReadBlobs out => ∀ answers, out = .ok answers →
      answers.responses = r.digests.map unavailableAnswer
  | .batchUpdateBlobs r, .batchUpdateBlobs out => ∀ answers, out = .ok answers →
      List.Forall₂ RefusedItem r.requests answers.responses
  | .read _, .read out => ∃ s, out = .error s
  | .write _, .write out => ∃ s, out = .error s
  | .getActionResult _, .actionResult out => ∃ s, out = .error s
  | .updateActionResult _, .actionResult out => ∃ s, out = .error s
  | .getTree, .unimplemented out => ∃ s, out = .error s
  | .splitBlob, .unimplemented out => ∃ s, out = .error s
  | .spliceBlob, .unimplemented out => ∃ s, out = .error s
  | .queryWriteStatus, .unimplemented out => ∃ s, out = .error s
  | _, _ => False

section Store
variable {store : InMemoryStore} (h : store.poisoned = true)
include h

theorem poisoned_frozen (op : StoreCall) : (InMemoryStore.handle op store).2 = store := by
  cases op with
  | get key => rfl
  | contains key => rfl
  | put key metadata body => simp [InMemoryStore.put, h, BlobReader.readToEnd]

section Calls
variable {ε : Type} (f : StorageError → ε) (key : BlobKey)

theorem exec_storeGet_poisoned :
    (storeGet f key).run.exec InMemoryStore.handle store = (.error (f lockPoisoned),store) := by
  simp [storeGet, InMemoryStore.get, h, lockPoisoned]

theorem exec_storeContains_poisoned :
    (storeContains f key).run.exec InMemoryStore.handle store = (.error (f lockPoisoned),store) := by
  simp [storeContains, InMemoryStore.contains, h, lockPoisoned]

theorem exec_storePut_poisoned (metadata : StoredBlobMetadata) (body : BlobReader) :
    (storePut f key metadata body).run.exec InMemoryStore.handle store = (.error (f lockPoisoned),store) := by
  simp [storePut, InMemoryStore.put, h, BlobReader.readToEnd, lockPoisoned]

variable {α β : Type}

omit h in
theorem ofExcept_bind_fails {r : Except ε α} {g : α → Handler ε β}
    (hg : ∀ a, ∃ e, ((g a).run.exec InMemoryStore.handle store).1 = .error e) :
    ∃ e, ((Failing.ofExcept r >>= g : Handler ε β).run.exec InMemoryStore.handle store).1 = .error e := by
  rw [Failing.exec_bind]
  cases r with
  | error e => exact ⟨e,rfl⟩
  | ok a => exact hg a

theorem storeGet_bind_fails (g : Option BlobRead → Handler ε β) :
    ((storeGet f key >>= g).run.exec InMemoryStore.handle store).1 = .error (f lockPoisoned) := by
  rw [Failing.exec_bind, exec_storeGet_poisoned h]

theorem storePut_bind_fails (metadata : StoredBlobMetadata) (body : BlobReader) (g : Unit → Handler ε β) :
    ((storePut f key metadata body >>= g).run.exec InMemoryStore.handle store).1 = .error (f lockPoisoned) := by
  rw [Failing.exec_bind, exec_storePut_poisoned h]

end Calls

theorem findMissingBlobs_refused {r : FindMissingBlobsRequest} (hr : r.blobDigests ≠ []) :
    ∃ s, ((CasService.findMissingBlobs env r).run.exec InMemoryStore.handle store).1 = .error s := by
  apply ofExcept_bind_fails
  intro algorithm
  obtain ⟨digest,rest,hdigests⟩ := List.exists_cons_of_ne_nil hr
  refine ⟨Status.internal lockPoisoned.toString,?_⟩
  rw [hdigests, List.foldlM_cons, CasService.findMissingBlob, Failing.exec_bind, Failing.exec_bind, Failing.exec_bind,
    exec_storeContains_poisoned h]

theorem exec_batchReadBlob_poisoned (instanceName : String) (algorithm : DigestAlgorithm)
    (acceptable : List StorageEncoding) (responses : List BlobReadResponse) (digest : Digest) :
    (CasService.batchReadBlob env instanceName algorithm acceptable responses digest).run.exec InMemoryStore.handle
      store = (.ok (responses ++ [unavailableAnswer digest]),store) := by
  simp only [CasService.batchReadBlob, Failing.exec_bind, Failing.exec_attempt, InMemoryStore.handle_get,
    InMemoryStore.get, h, ↓reduceIte, Failing.exec_pure]
  rfl

theorem batchReadBlobs_refused (r : BatchReadBlobsRequest) {answers : BatchReadBlobsResponse}
    (hanswers : ((CasService.batchReadBlobs env r).run.exec InMemoryStore.handle store).1 = .ok answers) :
    answers.responses = r.digests.map unavailableAnswer := by
  simp only [CasService.batchReadBlobs, Failing.exec_bind, Failing.exec_ofExcept] at hanswers
  cases hresolved : (DigestAlgorithm.resolveProtoValue env r.digestFunction).mapError Status.invalidArgument with
  | error s =>
    rw [hresolved] at hanswers
    cases hanswers
  | ok algorithm =>
    have hround : ∀ pre digest acc s, digest ∈ r.digests → acc = pre.map unavailableAnswer ∧ s = store →
        ∃ acc' s', (CasService.batchReadBlob env r.instanceName algorithm (r.acceptableCompressors.filterMap
            (StorageEncoding.fromProtoValue env)) acc digest).run.exec InMemoryStore.handle s = (.ok acc',s') ∧
          acc' = (pre ++ [digest]).map unavailableAnswer ∧ s' = store := by
      rintro pre digest _ s _ ⟨rfl,rfl⟩
      exact ⟨_,s,exec_batchReadBlob_poisoned h _ algorithm _ _ digest,by rw [List.map_append]; rfl,rfl⟩
    obtain ⟨responses,store',hfold,rfl,_⟩ :=
      Failing.exec_foldlM InMemoryStore.handle _ hround [] [] store ⟨rfl,rfl⟩
    simp only [hresolved, hfold, List.nil_append] at hanswers
    cases hanswers
    rfl

theorem exec_batchUpdateBlob_poisoned (instanceName : String) (algorithm : DigestAlgorithm)
    (responses : List BlobUpdateResponse) (item : BlobRequest) :
    ∃ answer, (CasService.batchUpdateBlob env instanceName algorithm responses item).run.exec InMemoryStore.handle
      store = (.ok (responses ++ [answer]),store) ∧ RefusedItem item answer := by
  unfold CasService.batchUpdateBlob
  cases hdigest : item.digest with
  | none => exact ⟨_,rfl,hdigest.symm,_,rfl,show (3 : Int32) ≠ 0 by decide⟩
  | some digest =>
    cases StorageEncoding.fromProtoValue env item.compressor with
    | none => exact ⟨_,rfl,hdigest.symm,_,rfl,show (3 : Int32) ≠ 0 by decide⟩
    | some encoding =>
      simp only [Failing.exec_bind, Failing.exec_outcome, CasService.putVerifiedBlob, Failing.exec_ofExcept,
        Failing.exec_pure]
      cases hverify : CasService.verifyBlob env algorithm digest item.data.toList encoding with
      | error status => exact ⟨_,rfl,hdigest.symm,_,rfl,CasService.verifyBlob_error hverify⟩
      | ok blob =>
        simp only [exec_storePut_poisoned h]
        exact ⟨_,rfl,hdigest.symm,_,rfl,show (13 : Int32) ≠ 0 by decide⟩

theorem batchUpdateBlobs_refused (r : BatchUpdateBlobsRequest) {answers : BatchUpdateBlobsResponse}
    (hanswers : ((CasService.batchUpdateBlobs env r).run.exec InMemoryStore.handle store).1 = .ok answers) :
    List.Forall₂ RefusedItem r.requests answers.responses := by
  simp only [CasService.batchUpdateBlobs, Failing.exec_bind, Failing.exec_ofExcept] at hanswers
  cases hresolved : (DigestAlgorithm.resolveProtoValue env r.digestFunction).mapError Status.invalidArgument with
  | error s =>
    rw [hresolved] at hanswers
    cases hanswers
  | ok algorithm =>
    have hround : ∀ pre item acc s, item ∈ r.requests → List.Forall₂ RefusedItem pre acc ∧ s = store →
        ∃ acc' s', (CasService.batchUpdateBlob env r.instanceName algorithm acc item).run.exec InMemoryStore.handle s =
          (.ok acc',s') ∧ List.Forall₂ RefusedItem (pre ++ [item]) acc' ∧ s' = store := by
      rintro pre item acc s _ ⟨hacc,rfl⟩
      obtain ⟨answer,hexec,hrefused⟩ := @exec_batchUpdateBlob_poisoned env s h r.instanceName algorithm acc item
      exact ⟨_,s,hexec,List.rel_append hacc (.cons hrefused .nil),rfl⟩
    obtain ⟨responses,store',hfold,hitems,_⟩ :=
      Failing.exec_foldlM InMemoryStore.handle _ hround [] [] store ⟨.nil,rfl⟩
    simp only [hresolved, hfold] at hanswers
    cases hanswers
    exact hitems

theorem read_refused (r : ReadRequest) :
    ∃ s, ((ByteStreamService.read env r).run.exec InMemoryStore.handle store).1 = .error s := by
  apply ofExcept_bind_fails
  intro target
  exact ⟨_,storeGet_bind_fails h _ _ _⟩

theorem write_refused (s : WriteStream) :
    ∃ status, ((ByteStreamService.write env s).run.exec InMemoryStore.handle store).1 = .error status := by
  apply ofExcept_bind_fails
  intro state
  apply ofExcept_bind_fails
  intro commit
  exact ⟨_,storePut_bind_fails h _ _ _ _ _⟩

theorem getActionResult_refused (q : GetActionResultRequest) :
    ∃ s, ((ActionCacheService.getActionResult env q).run.exec InMemoryStore.handle store).1 = .error s := by
  apply ofExcept_bind_fails
  intro digest
  apply ofExcept_bind_fails
  intro algorithm
  exact ⟨_,storeGet_bind_fails h _ _ _⟩

theorem updateActionResult_refused (q : UpdateActionResultRequest) :
    ∃ s, ((ActionCacheService.updateActionResult env q).run.exec InMemoryStore.handle store).1 = .error s := by
  apply ofExcept_bind_fails
  intro digest
  apply ofExcept_bind_fails
  intro result
  apply ofExcept_bind_fails
  intro algorithm
  exact ⟨_,storeGet_bind_fails h _ _ _⟩

theorem serve_refused (req : Request) : SaysNothing req ((serve env req).exec InMemoryStore.handle store).1 := by
  cases req with
  | findMissingBlobs r =>
    rw [serve, Program.exec_map]
    exact fun hr => findMissingBlobs_refused h hr
  | batchReadBlobs r =>
    rw [serve, Program.exec_map]
    exact fun answers hanswers => batchReadBlobs_refused h r hanswers
  | batchUpdateBlobs r =>
    rw [serve, Program.exec_map]
    exact fun answers hanswers => batchUpdateBlobs_refused h r hanswers
  | getTree => exact ⟨_,rfl⟩
  | splitBlob => exact ⟨_,rfl⟩
  | spliceBlob => exact ⟨_,rfl⟩
  | read r =>
    rw [serve, Program.exec_map]
    exact read_refused h r
  | write s =>
    rw [serve, Program.exec_map]
    exact write_refused h s
  | queryWriteStatus => exact ⟨_,rfl⟩
  | getActionResult q =>
    rw [serve, Program.exec_map]
    exact getActionResult_refused h q
  | updateActionResult q =>
    rw [serve, Program.exec_map]
    exact updateActionResult_refused h q

end Store

/-- From the moment the lock is poisoned nothing is stored, and whatever is started is refused. -/
theorem poisoned_refuses (c : ServerConfig) (h : c.world.state.poisoned = true)
    (schedule : List (Interaction.Action Request)) :
    (serverRun env c schedule).world.state = c.world.state ∧
      ∀ i r response, c.threads.length ≤ i → (serverRun env c schedule).Returned i r response →
        SaysNothing r response := by
  obtain ⟨hstate,hanswers⟩ := Config.run_frozen InMemoryStore.handle (serve env) c (poisoned_frozen h) schedule
  refine ⟨hstate,?_⟩
  intro i r response hi hreturned
  rw [hanswers i r response hi hreturned]
  exact serve_refused h r

namespace Reference

/-- The blobs have been uploaded when the lock is poisoned. -/
noncomputable def poisonedConfig : ServerConfig :=
  let c := serverFrom externals uploadRun
  { c with world := ⟨{ c.world.state with poisoned := true },c.world.log⟩ }

def findCommand : Request := .findMissingBlobs ⟨"main",[commandDigest],1⟩

end Reference

open Reference in
/-- What has been uploaded is not found any more, but it is not reported missing either. -/
theorem poisoned_refuses_find : SaysNothing findCommand (.findMissingBlobs
    (.error (.internal "storage unavailable: lock poisoned"))) := by
  have hreturned : (serverRun externals poisonedConfig [.start findCommand,.advance 1]).Returned 1 findCommand
      (.findMissingBlobs (.error (.internal "storage unavailable: lock poisoned"))) :=
    Config.returned_of_answer rfl (by decide +kernel)
  exact (poisoned_refuses poisonedConfig rfl [.start findCommand,.advance 1]).2 1 findCommand _ (by decide) hreturned

end ReapiCache
