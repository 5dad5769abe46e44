import ReapiCache.Server.UploadPaths

/-! # The items of a batch update

An item is accepted for what it says itself: neither the other items nor the entries of
the store matter. The batch puts the accepted items one after the other, each in the one
stored form of its content, and leaves no trace of the others.
-/
namespace ReapiCache
open Interaction
variable {env : Externals}

/-- The item sends the content `d` of its digest, in an encoding. -/
structure ItemValid (env : Externals) (item : BlobRequest) (digest : Digest) (encoding : StorageEncoding)
    (d : Bytes) : Prop where
  named : item.digest = some digest
  bounds : 0 ≤ digest.sizeBytes.toInt ∧ digest.sizeBytes.toInt ≤ MAX_DECOMPRESSED_BLOB_SIZE
  compressor : item.compressor = encoding.asProtoValue env
  decodes : Decodes env encoding item.data.toList d
  size : digest.sizeBytes.toInt = d.length
  hash : DigestAlgorithm.sha256.hashBytes env d = digest.hash

/-- The item is put into a store like this one. -/
def ItemAccepts (env : Externals) (store : InMemoryStore) (item : BlobRequest) : Prop :=
  store.poisoned = false ∧ ∃ digest encoding d, ItemValid env item digest encoding d

/-- The answer to an item: its digest, and code 0 exactly when it is put. -/
def ItemAnswered (env : Externals) (store : InMemoryStore) (item : BlobRequest)
    (answer : BlobUpdateResponse) : Prop :=
  answer.digest = item.digest ∧
    ∃ status, answer.status = some status ∧ (status.code = 0 ↔ ItemAccepts env store item)

/-- What one item does to the store. -/
inductive ItemStored (env : Externals) (instanceName : String) (store : InMemoryStore) (item : BlobRequest) :
    InMemoryStore → Prop
  | accepted (digest : Digest) (encoding : StorageEncoding) (d : Bytes) (b : StoredBlob)
      (hopen : store.poisoned = false) (valid : ItemValid env item digest encoding d)
      (stored : StoredAs env d b.metadata b.data) :
      ItemStored env instanceName store item
        (store.set (CasService.casKey instanceName .sha256 digest.hash) b)
  | refused (h : ¬ ItemAccepts env store item) : ItemStored env instanceName store item store

/-- What the items do to the store, one after the other. -/
inductive ItemsStored (env : Externals) (instanceName : String) (store : InMemoryStore) :
    List BlobRequest → InMemoryStore → Prop
  | nil : ItemsStored env instanceName store [] store
  | snoc (items : List BlobRequest) (item : BlobRequest) (store₁ store₂ : InMemoryStore)
      (before : ItemsStored env instanceName store items store₁)
      (step : ItemStored env instanceName store₁ item store₂) :
      ItemsStored env instanceName store (items ++ [item]) store₂

theorem ItemStored.poisoned {instanceName : String} {store store' : InMemoryStore} {item : BlobRequest}
    (h : ItemStored env instanceName store item store') : store'.poisoned = store.poisoned := by
  cases h with
  | accepted => exact InMemoryStore.set_poisoned _ _
  | refused => rfl

theorem ItemAnswered.congr {store store' : InMemoryStore} (h : store'.poisoned = store.poisoned)
    {item : BlobRequest} {answer : BlobUpdateResponse} (ha : ItemAnswered env store' item answer) :
    ItemAnswered env store item answer := by
  unfold ItemAnswered ItemAccepts at ha
  rwa [h] at ha

section Item
variable {item : BlobRequest} {digest : Digest} {encoding : StorageEncoding}
  (hdigest : item.digest = some digest)
  (hcompressor : StorageEncoding.fromProtoValue env item.compressor = some encoding)
include hdigest hcompressor

theorem itemValid_of_verifyBlob {blob : BlobRead}
    (h : CasService.verifyBlob env .sha256 digest item.data.toList encoding = .ok blob) :
    ∃ d, ItemValid env item digest encoding d ∧ StoredAs env d blob.metadata blob.body.cursor := by
  obtain ⟨d,hverified⟩ := CasService.verifyBlob_eq_ok.mp h
  have hnonneg := hverified.size_nonneg
  obtain ⟨⟨hbounded,hdecodes⟩,hsize,hhash,hstored⟩ := Verified.iff_decodes.mp hverified
  exact ⟨d,⟨hdigest,⟨hnonneg,hbounded⟩,StorageEncoding.fromProtoValue_eq_some.mp hcompressor,hdecodes,hsize,
    hhash⟩,(fromIdentityData_zstd.mp hstored).2⟩

theorem verifyBlob_of_itemValid (hc : env.CompressionTotal) {digest' : Digest} {encoding' : StorageEncoding}
    {d : Bytes} (h : ItemValid env item digest' encoding' d) :
    ∃ blob, CasService.verifyBlob env .sha256 digest item.data.toList encoding = .ok blob := by
  obtain rfl := Option.some.inj (hdigest.symm.trans h.named)
  have hencoding := StorageEncoding.fromProtoValue_eq_some.mpr h.compressor
  obtain rfl := Option.some.inj (hcompressor.symm.trans hencoding)
  obtain ⟨metadata,bytes,hstored⟩ := exists_storedAs hc d
  have hlength : d.length ≤ MAX_DECOMPRESSED_BLOB_SIZE := by
    have hsize := h.size
    have hbounds := h.bounds
    omega
  exact ⟨⟨metadata,⟨bytes⟩⟩,CasService.verifyBlob_eq_ok.mpr ⟨d,Verified.iff_decodes.mpr ⟨⟨h.bounds.2,h.decodes⟩,
    h.size,h.hash,fromIdentityData_zstd.mpr ⟨hlength,hstored⟩⟩⟩⟩

end Item

/-- One round: the answer is appended, and the item is put or leaves no trace. -/
theorem exec_batchUpdateBlob (hc : env.CompressionTotal) (instanceName : String)
    (responses : List BlobUpdateResponse) (item : BlobRequest) (store : InMemoryStore) :
    ∃ answer store', (CasService.batchUpdateBlob env instanceName .sha256 responses item).run.exec
        InMemoryStore.handle store = (.ok (responses ++ [answer]),store') ∧
      ItemAnswered env store item answer ∧ ItemStored env instanceName store item store' := by
  have hrefused : ∀ {status : RpcStatus}, status.code ≠ 0 → ¬ ItemAccepts env store item →
      ItemAnswered env store item ⟨item.digest,some status⟩ ∧ ItemStored env instanceName store item store :=
    fun hcode h => ⟨⟨rfl,_,rfl,iff_of_false hcode h⟩,.refused h⟩
  unfold CasService.batchUpdateBlob
  cases hdigest : item.digest with
  | none =>
    have h : ¬ ItemAccepts env store item := by
      rintro ⟨_,digest,_,_,hvalid⟩
      rw [hvalid.named] at hdigest
      cases hdigest
    rw [hdigest] at hrefused
    exact ⟨_,store,rfl,hrefused (by decide) h⟩
  | some digest =>
    rw [hdigest] at hrefused
    cases hcompressor : StorageEncoding.fromProtoValue env item.compressor with
    | none =>
      have h : ¬ ItemAccepts env store item := by
        rintro ⟨_,_,encoding,_,hvalid⟩
        rw [StorageEncoding.fromProtoValue_eq_some.mpr hvalid.compressor] at hcompressor
        cases hcompressor
      exact ⟨_,store,rfl,hrefused (by decide) h⟩
    | some encoding =>
      simp only [Failing.exec_bind, Failing.exec_outcome, CasService.putVerifiedBlob, Failing.exec_ofExcept,
        Failing.exec_pure]
      cases hverify : CasService.verifyBlob env .sha256 digest item.data.toList encoding with
      | error status =>
        have h : ¬ ItemAccepts env store item := by
          rintro ⟨_,_,_,_,hvalid⟩
          obtain ⟨blob,hblob⟩ := verifyBlob_of_itemValid hdigest hcompressor hc hvalid
          rw [hblob] at hverify
          cases hverify
        exact ⟨_,store,rfl,hrefused (CasService.verifyBlob_error hverify) h⟩
      | ok blob =>
        obtain ⟨d,hvalid,hstored⟩ := itemValid_of_verifyBlob hdigest hcompressor hverify
        simp only [storePut, Failing.exec_attempt, InMemoryStore.handle_put]
        cases hpoisoned : store.poisoned with
        | false =>
          rw [InMemoryStore.put_eq hpoisoned]
          refine ⟨_,_,rfl,⟨hdigest.symm,_,rfl,iff_of_true rfl ⟨hpoisoned,_,_,_,hvalid⟩⟩,?_⟩
          exact .accepted digest encoding d ⟨blob.body.cursor,blob.metadata⟩ hpoisoned hvalid hstored
        | true =>
          have h : ¬ ItemAccepts env store item := by
            rintro ⟨hopen,_⟩
            rw [hpoisoned] at hopen
            cases hopen
          simp only [InMemoryStore.put, readToEnd_eq, hpoisoned, ↓reduceIte, mapError_error]
          exact ⟨_,store,rfl,hrefused (by decide) h⟩

theorem batchUpdate_items (hc : env.CompressionTotal) (store : InMemoryStore) {r : BatchUpdateBlobsRequest}
    (hf : SupportsFunction env r.digestFunction) :
    ∃ responses store', execute env (.batchUpdateBlobs r) store =
        (.batchUpdateBlobs (.ok ⟨responses⟩),store') ∧
      List.Forall₂ (ItemAnswered env store) r.requests responses ∧
      ItemsStored env r.instanceName store r.requests store' := by
  have hround : ∀ pre item acc s, item ∈ r.requests →
      s.poisoned = store.poisoned ∧ List.Forall₂ (ItemAnswered env store) pre acc ∧
        ItemsStored env r.instanceName store pre s →
      ∃ acc' s', (CasService.batchUpdateBlob env r.instanceName .sha256 acc item).run.exec
          InMemoryStore.handle s = (.ok acc',s') ∧ s'.poisoned = store.poisoned ∧
        List.Forall₂ (ItemAnswered env store) (pre ++ [item]) acc' ∧
        ItemsStored env r.instanceName store (pre ++ [item]) s' := by
    rintro pre item acc s _ ⟨hpoisoned,hanswers,hstored⟩
    obtain ⟨answer,s',hexec,hanswer,hitem⟩ := exec_batchUpdateBlob hc r.instanceName acc item s
    exact ⟨_,s',hexec,hitem.poisoned.trans hpoisoned,
      List.rel_append hanswers (.cons (hanswer.congr hpoisoned) .nil),.snoc _ _ _ _ hstored hitem⟩
  obtain ⟨responses,store',hexec,_,hanswers,hstored⟩ :=
    Failing.exec_foldlM InMemoryStore.handle _ hround [] [] store ⟨rfl,.nil,.nil⟩
  refine ⟨responses,store',?_,hanswers,hstored⟩
  simp only [execute, serve, Program.exec_map, CasService.batchUpdateBlobs, resolveProtoValue_eq_ok hf,
    mapError_ok, Failing.exec_bind, Failing.exec_ofExcept, hexec, Failing.exec_pure]

namespace Reference

def commandItem : BlobRequest := blobRequest commandDigest commandData

theorem commandItem_valid : ItemValid externals commandItem commandDigest .identity commandBlob :=
  ⟨rfl,by decide,rfl,rfl,by decide,hashBytes_command⟩

end Reference

open Reference in
/-- A good item between one without a digest and one in an unknown compression. -/
theorem batchUpdate_items_command : ∃ responses store',
    execute externals (.batchUpdateBlobs
        ⟨"main",[⟨none,commandData,0⟩,commandItem,{ commandItem with compressor := 7 }],0⟩) InMemoryStore.new =
      (.batchUpdateBlobs (.ok ⟨responses⟩),store') ∧
    List.Forall₂ (ItemAnswered externals InMemoryStore.new)
      [⟨none,commandData,0⟩,commandItem,{ commandItem with compressor := 7 }] responses ∧
    ItemsStored externals "main" InMemoryStore.new
      [⟨none,commandData,0⟩,commandItem,{ commandItem with compressor := 7 }] store' :=
  batchUpdate_items compressionTotal InMemoryStore.new (Or.inl rfl)

open Reference in
/-- Behind a poisoned lock even a valid item is refused. -/
theorem batchUpdate_items_poisoned :
    (∃ digest encoding d, ItemValid externals commandItem digest encoding d) ∧
      ¬ ItemAccepted (execute externals (.batchUpdateBlobs ⟨"main",[commandItem],0⟩)
        { InMemoryStore.new with poisoned := true }).1 := by
  refine ⟨⟨_,_,_,commandItem_valid⟩,?_⟩
  have hexec : (execute externals (.batchUpdateBlobs ⟨"main",[commandItem],0⟩)
      { InMemoryStore.new with poisoned := true }).1 = .batchUpdateBlobs (.ok ⟨[⟨some commandDigest,
        some (rpcStatus .internal "storage unavailable: lock poisoned")⟩]⟩) := by
    decide +kernel
  rw [hexec]
  rintro ⟨answer,status,hresponse,hstatus,hcode⟩
  cases hresponse
  cases hstatus
  exact absurd hcode (by decide)

end ReapiCache
