import ReapiCache.Abstract.Represents
import ReapiCache.Server.Discipline

/-! # The server refines the content cache

Handler by handler: what is decoded from an entry is the content it stands for, what is
stored for a content stands for it, and every check a handler makes of what it has read
back is one that cannot fail.
-/
namespace ReapiCache.Abstract
open Interaction ActionCacheService
variable {env : Externals} (hz : env.ZstdRoundTrip) (hc : env.CompressionTotal) (he : env.HashesEmpty)

section Entries
variable {address : Locator} {b : StoredBlob} {d : Bytes}

include hz in
theorem StandsFor.holds (h : StandsFor env address b d) : Holds env b.metadata b.data d := by
  rcases h.form with hform | rfl
  · exact (fromIdentityData_holds hz (fromIdentityData_zstd (b := ⟨b.metadata,⟨b.data⟩⟩) |>.mpr ⟨h.bounded,hform⟩)).1
  · exact holds_identity h.bounded

include hz in
/-- What is read back from an entry is what it stands for. -/
theorem StandsFor.decoded {blob : BlobRead} (h : StandsFor env address (BlobRead.stored blob) d) :
    BlobCodec.intoIdentityData env blob = .ok d ∧ blob.metadata.uncompressedSize = d.length :=
  ⟨(h.holds hz).intoIdentityData,(h.holds hz).uncompressedSize⟩

include hz in
theorem Caches.decoded {blob : BlobRead} {r : ActionResult} (h : Caches env (BlobRead.stored blob) r) :
    BlobCodec.intoIdentityData env blob = .ok (env.encodeActionResult r) :=
  (fromIdentityData_holds hz (fromIdentityData_zstd.mpr ⟨h.bounded,h.form⟩)).1.intoIdentityData

include hz in
/-- What the store holds, the cache has. -/
theorem Represents.content_of_held {store : InMemoryStore} {cache : BlobCache} (h : Represents env store cache)
    (hheld : store.Held env address.contentKey d) : cache.contents address = some d := by
  obtain ⟨b,hb,hholds⟩ := hheld
  have hrel := h.contents address
  rw [hb] at hrel
  cases hx : cache.contents address with
  | none =>
    rw [hx] at hrel
    cases hrel
  | some d' =>
    rw [hx] at hrel
    cases hrel with
    | some hstands => rw [(hstands.holds hz).unique hholds]

/-- A content within the limit is stored in a form that stands for it. -/
theorem encode_standsFor (address : Locator) (hc : env.CompressionTotal) (hd : d.length ≤ MAX_DECOMPRESSED_BLOB_SIZE)
    (hhash : address.algorithm.hashBytes env d = address.hash) :
    ∃ blob, BlobCodec.fromIdentityData env d .zstd = .ok blob ∧ StandsFor env address (BlobRead.stored blob) d := by
  obtain ⟨metadata,bytes,h⟩ := exists_storedAs hc d
  exact ⟨⟨metadata,⟨bytes⟩⟩,fromIdentityData_zstd.mpr ⟨hd,h⟩,hd,Or.inl h,hhash⟩

theorem empty_standsFor (he : env.HashesEmpty) (hhash : address.hash = EMPTY_SHA256) :
    StandsFor env address ⟨[],(BlobRead.identity []).metadata⟩ [] := by
  refine ⟨Nat.zero_le _,Or.inr rfl,?_⟩
  cases ha : address.algorithm
  rw [hhash]
  exact he

end Entries

section Calls
variable {ε : Type} {f : StorageError → ε} (address : Locator)

abbrev SameBlob (env : Externals) (address : Locator) : Option BlobRead → Option Bytes → Prop :=
  Option.Rel (fun b d => StandsFor env address (BlobRead.stored b) d)

theorem simulates_get : Failing.Simulates (storeMatching env) (SameBlob env address)
    (storeGet f address.contentKey) (fetch address) := by
  apply Failing.simulates_attempt (Goes.get address)
  rintro _ found ⟨blob,rfl,h⟩
  exact h

theorem simulates_lookup : Failing.Simulates (storeMatching env)
    (Option.Rel (fun b r => Caches env (BlobRead.stored b) r))
    (storeGet f address.resultKey) (retrieve address) := by
  apply Failing.simulates_attempt (Goes.lookup address)
  rintro _ found ⟨blob,rfl,h⟩
  exact h

theorem simulates_contains : Failing.Simulates (storeMatching env) (· = ·)
    (storeContains f address.contentKey) (holds address) := by
  apply Failing.simulates_attempt (Goes.contains address)
  rintro _ found rfl
  exact rfl

theorem simulates_put {blob : BlobRead} {d : Bytes} (h : StandsFor env address (BlobRead.stored blob) d) :
    Failing.Simulates (storeMatching env) (fun _ _ => True)
      (storePut f address.contentKey blob.metadata blob.body) (store address d) := by
  apply Failing.simulates_attempt (Goes.put address (BlobRead.stored blob) d h)
  rintro _ _ rfl
  exact trivial

theorem simulates_cache {blob : BlobRead} {r : ActionResult} (h : Caches env (BlobRead.stored blob) r) :
    Failing.Simulates (storeMatching env) (fun _ _ => True)
      (storePut f address.resultKey blob.metadata blob.body) (publish address r) := by
  apply Failing.simulates_attempt (Goes.cache address (BlobRead.stored blob) r h)
  rintro _ _ rfl
  exact trivial

end Calls

/-- A handler that resolves the digest function and then collects an answer for each item. -/
theorem simulates_batch {Item Answer Resp : Type} (digestFunction : Int32)
    {f : DigestAlgorithm → List Answer → Item → Handler Status (List Answer)}
    {g : DigestAlgorithm → Item → CacheM (List Answer)} (respond : List Answer → Resp) (items : List Item)
    (h : ∀ algorithm acc item, (f algorithm acc item).run.Simulates (storeMatching env)
      (fun out new => out = .ok (acc ++ new)) (g algorithm item)) :
    (Failing.ofExcept ((DigestAlgorithm.resolveProtoValue env digestFunction).mapError Status.invalidArgument) >>=
      fun algorithm => items.foldlM (f algorithm) [] >>= fun out =>
        (pure (respond out) : Handler Status Resp)).run.Simulates (storeMatching env) (· = ·)
      (batch env digestFunction g respond items) := by
  unfold batch
  cases (DigestAlgorithm.resolveProtoValue env digestFunction).mapError Status.invalidArgument with
  | error s => exact rfl
  | ok algorithm =>
    have hcollect := Failing.simulates_collect items (fun acc item _ => h algorithm acc item) []
    change Program.Simulates _ _ (items.foldlM (f algorithm) [] >>= fun out => pure (respond out)).run _
    rw [ExceptT.run_bind]
    apply hcollect.bind
    rintro _ out rfl
    exact rfl

theorem findMissingBlobs_simulates (r : FindMissingBlobsRequest) :
    (CasService.findMissingBlobs env r).run.Simulates (storeMatching env) (· = ·) (findMissingBlobs env r) := by
  apply simulates_batch
  intro algorithm missing digest
  refine ⟨Goes.contains ⟨r.instanceName,algorithm,digest.hash⟩,?_⟩
  rintro _ (found : Bool) rfl
  cases found with
  | true => exact congrArg Except.ok (List.append_nil missing).symm
  | false => exact rfl

include hz hc in
/-- A batch read answers from an entry as from the content it stands for. -/
theorem blobReadResponse_eq {address : Locator} (acceptable : List StorageEncoding) (digest : Digest)
    {blob : Option BlobRead} {found : Option Bytes} (h : SameBlob env address blob found) :
    CasService.blobReadResponse env acceptable digest (.ok blob) = blobReadResponse env acceptable digest found := by
  cases h with
  | none => rfl
  | @some blob d h =>
    obtain ⟨c,hcompress⟩ := hc d
    by_cases haccept : .zstd ∈ acceptable
    · have htarget : BlobCodec.transcode env blob .zstd = .ok ⟨⟨.zstd,d.length,c.length⟩,⟨c⟩⟩ := by
        rcases blob with ⟨metadata,⟨bytes⟩⟩
        rcases h.form with ⟨hform,hmetadata⟩ | hform
        · obtain rfl : bytes = c := Except.ok.inj (hform.symm.trans hcompress)
          have hm : metadata = ⟨.zstd,d.length,bytes.length⟩ := hmetadata
          rw [hm]
          exact transcode_same h.bounded rfl
        · have hb : bytes = d := congrArg StoredBlob.data hform
          have hm : metadata = ⟨.identity,d.length,d.length⟩ := congrArg StoredBlob.metadata hform
          rw [hb, hm]
          exact transcode_compress.mpr ⟨h.bounded,rfl,c,hcompress,rfl⟩
      simp only [CasService.blobReadResponse, CasService.select_eq, haccept, if_true, htarget, readToEnd_eq,
        blobReadResponse, compressZstd, hcompress, mapError_ok]
    · obtain ⟨m,bytes,htarget,hholds,hm⟩ := (h.holds hz).transcode hz hc .identity
      have hbytes := hholds.decodes
      rw [hm] at hbytes
      obtain rfl : bytes = d := hbytes
      have htarget' : BlobCodec.transcode env blob .identity = .ok ⟨m,⟨bytes⟩⟩ := htarget
      simp only [CasService.blobReadResponse, CasService.select_eq, haccept, if_false, htarget', readToEnd_eq,
        blobReadResponse, hm]

include hz hc in
theorem batchReadBlobs_simulates (r : BatchReadBlobsRequest) :
    (CasService.batchReadBlobs env r).run.Simulates (storeMatching env) (· = ·) (batchReadBlobs env r) := by
  apply simulates_batch
  intro algorithm responses digest
  refine ⟨Goes.get ⟨r.instanceName,algorithm,digest.hash⟩,?_⟩
  rintro _ found ⟨blob,rfl,h⟩
  exact congrArg (fun response => Except.ok (responses ++ [response])) (blobReadResponse_eq hz hc _ digest h)

/-- An accepted content is within the limit and has the hash it was uploaded under. -/
theorem acceptBlob_ok {algorithm : DigestAlgorithm} {digest : Digest} {data d : Bytes} {encoding : StorageEncoding}
    (h : acceptBlob env algorithm digest data encoding = .ok d) :
    d.length ≤ MAX_DECOMPRESSED_BLOB_SIZE ∧ algorithm.hashBytes env d = digest.hash := by
  simp only [acceptBlob, bind_eq_ok, okOr_eq_ok, mapError_eq_ok, u64TryFrom_eq_some] at h
  obtain ⟨n,hn,content,hcontent,_,hvalid,h⟩ := h
  obtain rfl := Except.ok.inj h
  obtain ⟨hsize,hhash⟩ := validate_eq_ok.mp hvalid
  obtain ⟨hbound,_⟩ := intoIdentityData_encoded.mp hcontent
  exact ⟨by omega,hhash⟩

theorem verifyBlob_eq (algorithm : DigestAlgorithm) (digest : Digest) (data : Bytes) (encoding : StorageEncoding) :
    CasService.verifyBlob env algorithm digest data encoding =
      (acceptBlob env algorithm digest data encoding >>= fun d =>
        (BlobCodec.fromIdentityData env d .zstd).mapError
          (fun err => rpcStatus .internal s!"failed to encode blob for storage: {err.toString}")) := by
  unfold CasService.verifyBlob acceptBlob
  simp only [bind_assoc, ok_bind, CasService.STORAGE_ENCODING]

include hc in
theorem batchUpdateBlobs_simulates (r : BatchUpdateBlobsRequest) :
    (CasService.batchUpdateBlobs env r).run.Simulates (storeMatching env) (· = ·) (batchUpdateBlobs env r) := by
  apply simulates_batch
  intro algorithm responses item
  unfold CasService.batchUpdateBlob updateBlob
  cases item.digest with
  | none => exact rfl
  | some digest =>
    cases StorageEncoding.fromProtoValue env item.compressor with
    | none => exact rfl
    | some encoding =>
      simp only [CasService.putVerifiedBlob, verifyBlob_eq]
      cases haccept : acceptBlob env algorithm digest item.data.toList encoding with
      | error status => exact rfl
      | ok d =>
        obtain ⟨hbound,hhash⟩ := acceptBlob_ok haccept
        obtain ⟨blob,hblob,hstands⟩ := encode_standsFor ⟨r.instanceName,algorithm,digest.hash⟩ hc
          hbound hhash
        simp only [ok_bind, hblob, mapError_ok]
        refine ⟨Goes.put _ _ d hstands,?_⟩
        rintro _ _ rfl
        exact rfl

include hz in
/-- The size and the hash that a read compares are those of the content, so only the size
in the name can be wrong. -/
theorem readIdentity_eq {target : ByteStreamService.ReadTarget} {blob : Option BlobRead} {found : Option Bytes}
    (hkey : resolveBlobKey target.parsed = .ok target.key)
    (h : SameBlob env (.ofKey target.key) blob found) :
    ByteStreamService.readIdentity env target blob = namedContent target.parsed found := by
  cases h with
  | none => rfl
  | @some blob d h =>
    obtain ⟨hidentity,hsize⟩ := h.decoded hz
    have hhash : target.key.algorithm.hashBytes env d = target.parsed.hash := by
      rw [show target.parsed.hash = target.key.hash by rw [resolveBlobKey_eq_ok hkey]]
      exact h.hash
    unfold ByteStreamService.readIdentity namedContent
    simp only [okOr_some, ok_bind, hsize]
    cases hn : u64TryFrom target.parsed.expectedSize with
    | none => rfl
    | some n =>
      simp only [okOr_some, ok_bind]
      by_cases hne : d.length ≠ n
      · rw [if_pos hne, if_pos hne]
      · have hlength : target.parsed.expectedSize.toInt = d.length := by
          rw [u64TryFrom_eq_some] at hn
          omega
        rw [if_neg hne, if_neg hne, hidentity, mapError_ok, ok_bind, validate_eq_ok.mpr ⟨hlength,hhash⟩]
        rfl

theorem requested_eq_ok {request : ReadRequest} {encoding : StorageEncoding} {d data : Bytes} :
    requested env request encoding d = .ok data ↔
      (0 ≤ request.readOffset.toInt ∧ request.readOffset.toInt ≤ d.length) ∧ slice env request d encoding = .ok data := by
  unfold requested
  by_cases hnegative : request.readOffset.toInt < 0
  · simp only [if_pos hnegative, reduceCtorEq, not_le.mpr hnegative, false_and]
  by_cases hbeyond : (d.length : ℤ) < request.readOffset.toInt
  · simp only [if_neg hnegative, if_pos hbeyond, reduceCtorEq, not_le.mpr hbeyond, and_false, false_and]
  · simp only [if_neg hnegative, if_neg hbeyond, not_lt.mp hnegative, not_lt.mp hbeyond, true_and]

/-- A plain read delivers the window it asks for. -/
theorem requested_plain {request : ReadRequest} {d data : Bytes} :
    requested env request .identity d = .ok data ↔
      (0 ≤ request.readOffset.toInt ∧ request.readOffset.toInt ≤ d.length ∧ 0 ≤ request.readLimit.toInt) ∧
        data = ByteStreamService.window request.readOffset.toInt.toNat request.readLimit.toInt.toNat d := by
  rw [requested_eq_ok, slice]
  by_cases hlimit : request.readLimit.toInt < 0
  · simp only [if_pos hlimit, reduceCtorEq, not_le.mpr hlimit, and_false, false_and]
  · simp only [if_neg hlimit, Except.ok.injEq, not_lt.mp hlimit, and_true, eq_comm]

/-- A content within the limit is sliced as the read asks. -/
theorem readWindow_eq (request : ReadRequest) (encoding : StorageEncoding) {d : Bytes}
    (hd : d.length ≤ MAX_DECOMPRESSED_BLOB_SIZE) :
    ByteStreamService.readWindow env request encoding d = requested env request encoding d := by
  rcases request with ⟨name,offset,limit⟩
  unfold requested
  by_cases hnegative : offset.toInt < 0
  · rw [if_pos hnegative, ByteStreamService.readWindow, u64TryFrom_eq_none.mpr hnegative]
    rfl
  rw [if_neg hnegative]
  obtain ⟨o,ho⟩ := Int.eq_ofNat_of_zero_le (not_lt.mp hnegative)
  have hoffset : u64TryFrom offset = some o := u64TryFrom_eq_some.mpr ho
  by_cases hbeyond : (d.length : ℤ) < offset.toInt
  · rw [if_pos hbeyond, ByteStreamService.readWindow, hoffset, okOr_some, ok_bind, if_pos (by omega)]
  rw [if_neg hbeyond]
  cases encoding with
  | identity =>
    by_cases hlimit : limit.toInt < 0
    · have hne : limit ≠ 0 := by
        rintro rfl
        exact absurd hlimit (by decide)
      rw [slice, if_pos hlimit, ByteStreamService.readWindow, hoffset, okOr_some, ok_bind, if_neg (by omega), if_pos rfl,
        if_neg hne, u64TryFrom_eq_none.mpr hlimit]
      rfl
    · rw [slice, if_neg hlimit]
      exact ByteStreamService.readWindow_plain.mpr ⟨⟨by omega,by omega,by omega⟩,rfl⟩
  | zstd =>
    have hdrop : (d.drop o).length ≤ MAX_DECOMPRESSED_BLOB_SIZE := (List.length_drop ▸ Nat.sub_le _ _).trans hd
    rw [ByteStreamService.readWindow, hoffset, okOr_some, ok_bind, if_neg (by omega), if_neg (by decide),
      fromIdentityData_compress hdrop, slice, ho, Int.toNat_natCast]
    cases compressZstd env (d.drop o) with
    | error err => rfl
    | ok c => rfl

theorem namedContent_eq_ok {resource : ParsedReadResource} {found : Option Bytes} {d : Bytes} :
    namedContent resource found = .ok d ↔ found = some d ∧ resource.expectedSize.toInt = d.length := by
  unfold namedContent
  simp only [bind_eq_ok, okOr_eq_ok, u64TryFrom_eq_some]
  constructor
  · rintro ⟨content,hfound,n,hn,h⟩
    by_cases hlength : content.length = n
    · rw [if_neg (not_not.mpr hlength)] at h
      obtain rfl := Except.ok.inj h
      exact ⟨hfound,by rw [hn, hlength]⟩
    · rw [if_pos hlength] at h
      cases h
  · rintro ⟨hfound,hsize⟩
    exact ⟨d,hfound,d.length,hsize,if_neg (not_not.mpr rfl)⟩

include hz in
theorem read_simulates (r : ReadRequest) :
    Failing.Simulates (storeMatching env) (· = ·) (ByteStreamService.read env r) (read env r) := by
  rw [ByteStreamService.read_eq]
  apply Failing.simulates_ofExcept_bind
  intro target htarget
  obtain ⟨_,_,_,hkey⟩ := ByteStreamService.readTarget_eq_ok htarget
  have hcontent : target.key = Locator.contentKey (.ofKey target.key) := by
    rw [resolveBlobKey_eq_ok hkey]
    rfl
  rw [hcontent]
  apply (simulates_get (.ofKey target.key)).bind
  intro blob found h
  have hanswer : ByteStreamService.answerRead env r target blob = answerRead env r target found := by
    rw [ByteStreamService.answerRead, answerRead, readIdentity_eq hz hkey h]
    cases hnamed : namedContent target.parsed found with
    | error s => rfl
    | ok content =>
      obtain ⟨rfl,_⟩ := namedContent_eq_ok.mp hnamed
      obtain ⟨_,_,hstands⟩ := exists_of_rel_some h
      rw [ok_bind, ok_bind, readWindow_eq r target.responseEncoding hstands.bounded]
  rw [hanswer]
  exact Failing.simulates_ofExcept (alike_refl _)

theorem acceptUpload_ok {state : ByteStreamService.WriteState} {upload : Upload}
    (h : acceptUpload env state = .ok upload) :
    upload.content.length ≤ MAX_DECOMPRESSED_BLOB_SIZE ∧
      upload.address.algorithm.hashBytes env upload.content = upload.address.hash := by
  simp only [acceptUpload, bind_eq_ok, okOr_eq_ok, u64TryFrom_eq_some] at h
  obtain ⟨⟨name,parsed⟩,_,key,hkey,encoding,_,n,hn,h⟩ := h
  by_cases hmax : i64Max < state.accumulator.length
  · rw [if_pos hmax] at h
    cases h
  · rw [if_neg hmax] at h
    simp only [bind_eq_ok, mapError_eq_ok] at h
    obtain ⟨content,hcontent,_,hvalid,h⟩ := h
    obtain rfl := Except.ok.inj h
    obtain ⟨hsize,hhash⟩ := validate_eq_ok.mp hvalid
    obtain ⟨hbound,_⟩ := intoIdentityData_encoded.mp hcontent
    have hkeyHash : key.hash = parsed.hash := by rw [resolveBlobKey_eq_ok hkey]
    have hlength : (n : ℤ) = content.length := hn.symm.trans hsize
    exact ⟨show content.length ≤ _ by omega,hhash.trans hkeyHash.symm⟩

/-- What is committed is the stored form of the accepted content. -/
theorem verifyUpload_eq (state : ByteStreamService.WriteState) :
    ByteStreamService.verifyUpload env state = (acceptUpload env state >>= fun upload =>
      (BlobCodec.fromIdentityData env upload.content .zstd).mapError
          (fun err => Status.internal s!"failed to encode blob for storage: {err.toString}") >>= fun stored =>
        .ok ⟨upload.address.contentKey,stored,upload.committedSize⟩) := by
  unfold ByteStreamService.verifyUpload acceptUpload
  cases state.resource with
  | none => rfl
  | some resource =>
    rcases resource with ⟨name,parsed⟩
    simp only [okOr_some, ok_bind]
    cases hkey : resolveBlobKey parsed with
    | error s => rfl
    | ok key =>
      have hcontent : Locator.contentKey (.ofKey key) = key := by
        rw [resolveBlobKey_eq_ok hkey]
        rfl
      simp only [ok_bind]
      cases parsed.compression.storageEncoding with
      | error s => rfl
      | ok encoding =>
        simp only [ok_bind]
        cases u64TryFrom parsed.expectedSize with
        | none => rfl
        | some n =>
          simp only [okOr_some, ok_bind]
          by_cases hmax : i64Max < state.accumulator.length
          · rw [if_pos hmax]
            exact if_pos hmax
          · rw [if_neg hmax, show (BlobRead.encoded state.accumulator encoding n).metadata.storedSize =
              state.accumulator.length from rfl, if_neg hmax]
            simp only [bind_assoc, ok_bind, ByteStreamService.STORAGE_ENCODING, hcontent]

include hc in
theorem write_simulates (s : WriteStream) :
    Failing.Simulates (storeMatching env) (· = ·) (ByteStreamService.write env s) (write env s) := by
  apply Failing.simulates_ofExcept_bind
  intro state _
  rw [verifyUpload_eq]
  cases haccept : acceptUpload env state with
  | error status => exact rfl
  | ok upload =>
    obtain ⟨hbound,hhash⟩ := acceptUpload_ok haccept
    obtain ⟨blob,hblob,hstands⟩ := encode_standsFor upload.address hc hbound hhash
    rw [ok_bind, hblob]
    apply (simulates_put upload.address hstands).bind
    intro _ _ _
    exact Failing.simulates_pure rfl

section ActionCache
variable {instanceName : String} (algorithm : DigestAlgorithm) (code : Code)

include hz in
theorem decodeOutputTree_eq {address : Locator} {blob : Option BlobRead} {found : Option Bytes}
    (h : SameBlob env address blob found) :
    ActionCacheService.decodeOutputTree env code blob = decodeOutputTree env code found := by
  cases h with
  | none => rfl
  | some h =>
    obtain ⟨hidentity,_⟩ := h.decoded hz
    simp only [ActionCacheService.decodeOutputTree, decodeOutputTree, okOr_some, ok_bind, hidentity, mapError_ok]

include hz in
theorem decodeCommandDigest_eq {address : Locator} {blob : Option BlobRead} {found : Option Bytes}
    (h : SameBlob env address blob found) :
    ActionCacheService.decodeCommandDigest env blob = decodeCommandDigest env found := by
  cases h with
  | none => rfl
  | some h =>
    obtain ⟨hidentity,_⟩ := h.decoded hz
    simp only [ActionCacheService.decodeCommandDigest, decodeCommandDigest, okOr_some, ok_bind, hidentity,
      mapError_ok]

include he in
theorem checkArtifact_simulates (digest : Digest) :
    Failing.Simulates (storeMatching env) (fun _ _ => True)
      (ActionCacheService.checkArtifact instanceName algorithm code digest)
      (checkArtifact instanceName algorithm code digest) := by
  unfold ActionCacheService.checkArtifact checkArtifact
  by_cases hempty : digest.sizeBytes = 0 ∧ digest.hash = EMPTY_SHA256
  · rw [if_pos hempty, if_pos hempty]
    exact simulates_put ⟨instanceName,algorithm,digest.hash⟩ (empty_standsFor he hempty.2)
  · rw [if_neg hempty, if_neg hempty]
    apply (simulates_contains ⟨instanceName,algorithm,digest.hash⟩).bind
    rintro present _ rfl
    cases present with
    | true => exact Failing.simulates_pure trivial
    | false => exact Failing.simulates_throw _

include hz he in
theorem validateArtifacts_simulates (r : ActionResult) :
    Failing.Simulates (storeMatching env) (fun _ _ => True)
      (validateActionResultArtifacts env instanceName algorithm r code)
      (validateArtifacts env instanceName algorithm r code) := by
  apply Failing.simulates_ofExcept_bind
  intro fileDigests _
  apply Failing.Simulates.bind (V := (· = ·))
  · apply Failing.simulates_foldlM
    · rintro digests _ rfl dir _
      apply Failing.simulates_ofExcept_bind
      intro treeDigest _
      apply (simulates_get ⟨instanceName,algorithm,treeDigest.hash⟩).bind
      intro blob found h
      rw [decodeOutputTree_eq hz code h]
      apply Failing.simulates_ofExcept_bind
      intro tree _
      exact Failing.simulates_ofExcept (alike_refl _)
    · exact rfl
  · rintro digests _ rfl
    apply Failing.simulates_foldlM
    · intro _ _ _ digest _
      exact checkArtifact_simulates he algorithm code digest
    · exact trivial

end ActionCache

include hz in
theorem decodeCachedResult_eq {blob : Option BlobRead} {found : Option ActionResult}
    (h : Option.Rel (fun b r => Caches env (BlobRead.stored b) r) blob found) :
    decodeCachedResult env blob = okOr (.notFound "action result not cached") found := by
  cases h with
  | none => rfl
  | @some blob r h =>
    simp only [decodeCachedResult, okOr_some, ok_bind, h.decoded hz, mapError_ok, h.decodes]

include hz he in
theorem getActionResult_simulates (q : GetActionResultRequest) :
    Failing.Simulates (storeMatching env) (· = ·) (ActionCacheService.getActionResult env q)
      (getActionResult env q) := by
  apply Failing.simulates_ofExcept_bind
  intro digest _
  apply Failing.simulates_ofExcept_bind
  intro algorithm _
  apply (simulates_lookup ⟨q.instanceName,algorithm,digest.hash⟩).bind
  intro blob found h
  rw [decodeCachedResult_eq hz h]
  apply Failing.simulates_ofExcept_bind
  intro r _
  apply (validateArtifacts_simulates hz he algorithm .notFound r).bind
  intro _ _ _
  exact Failing.simulates_pure rfl

include hc in
/-- A result that is admitted has a stored form, and one that is not has none. -/
theorem encodeResult_eq {r : ActionResult} (hp : env.decodeActionResult (env.encodeActionResult r) = .ok r) :
    (∃ blob, Caches env (BlobRead.stored blob) r ∧ encodeResult env r = .ok blob ∧ admitResult env r = .ok ()) ∨
      ∃ s, encodeResult env r = .error s ∧ admitResult env r = .error s := by
  unfold encodeResult admitResult
  by_cases hmax : MAX_DECOMPRESSED_BLOB_SIZE < (env.encodeActionResult r).length
  · refine Or.inr ⟨_,?_,if_pos hmax⟩
    have hbig : BlobCodec.fromIdentityData env (env.encodeActionResult r) .zstd =
        .error (.decompressedSizeLimitExceeded (env.encodeActionResult r).length MAX_DECOMPRESSED_BLOB_SIZE) :=
      if_pos hmax
    rw [hbig]
    rfl
  · have hbound := Nat.le_of_not_lt hmax
    obtain ⟨metadata,bytes,h⟩ := exists_storedAs hc (env.encodeActionResult r)
    have hblob : BlobCodec.fromIdentityData env (env.encodeActionResult r) .zstd = .ok ⟨metadata,⟨bytes⟩⟩ :=
      fromIdentityData_zstd.mpr ⟨hbound,h⟩
    refine Or.inl ⟨⟨metadata,⟨bytes⟩⟩,⟨hp,hbound,h⟩,?_,if_neg hmax⟩
    rw [hblob, mapError_ok]

include hz hc he in
theorem updateActionResult_simulates (q : UpdateActionResultRequest)
    (hp : env.ProstRoundTrip (submitted [.updateActionResult q])) :
    Failing.Simulates (storeMatching env) (· = ·) (ActionCacheService.updateActionResult env q)
      (updateActionResult env q) := by
  apply Failing.simulates_ofExcept_bind
  intro digest _
  apply Failing.simulates_ofExcept_bind
  intro r hr
  apply Failing.simulates_ofExcept_bind
  intro algorithm _
  apply (simulates_get ⟨q.instanceName,algorithm,digest.hash⟩).bind
  intro blob found h
  rw [decodeCommandDigest_eq hz h]
  apply Failing.simulates_ofExcept_bind
  intro command _
  apply (simulates_contains ⟨q.instanceName,algorithm,command.hash⟩).bind
  rintro present _ rfl
  cases present with
  | false => exact Failing.simulates_throw _
  | true =>
    apply (validateArtifacts_simulates hz he algorithm .failedPrecondition r).bind
    intro _ _ _
    rcases encodeResult_eq hc (hp r ⟨q,List.mem_cons_self,okOr_eq_ok.mp hr⟩) with ⟨blob,hcaches,hencode,hallowed⟩ | ⟨s,hencode,hallowed⟩
    · rw [hencode, hallowed]
      apply (simulates_cache ⟨q.instanceName,algorithm,digest.hash⟩ hcaches).bind
      intro _ _ _
      exact Failing.simulates_pure rfl
    · rw [hencode, hallowed]
      exact Failing.simulates_throw s

theorem run_map_simulates {α : Type} {p : Handler Status α} {q : CacheHandler Status α}
    (h : Failing.Simulates (storeMatching env) (· = ·) p q) (f : Except Status α → Response) :
    (f <$> p.run).Simulates (storeMatching env) (· = ·) (f <$> q.run) :=
  Program.Simulates.map h (fun _ _ ha => congrArg f (eq_of_alike ha))

include hz hc he in
/-- Every request calls the store as its abstract counterpart calls the cache. -/
theorem serve_simulates (r : Request) (hp : env.ProstRoundTrip (submitted [r])) :
    (ReapiCache.serve env r).Simulates (storeMatching env) (· = ·) (serve env r) := by
  cases r with
  | findMissingBlobs r => exact (findMissingBlobs_simulates r).map (fun _ _ h => congrArg _ h)
  | batchReadBlobs r => exact (batchReadBlobs_simulates hz hc r).map (fun _ _ h => congrArg _ h)
  | batchUpdateBlobs r => exact (batchUpdateBlobs_simulates hc r).map (fun _ _ h => congrArg _ h)
  | getTree => exact rfl
  | splitBlob => exact rfl
  | spliceBlob => exact rfl
  | queryWriteStatus => exact rfl
  | read r => exact run_map_simulates (read_simulates hz r) _
  | write s => exact run_map_simulates (write_simulates hc s) _
  | getActionResult q => exact run_map_simulates (getActionResult_simulates hz he q) _
  | updateActionResult q => exact run_map_simulates (updateActionResult_simulates hz hc he q hp) _

include hz hc he in
theorem serve_simulates_of_mem {requests : List Request} (hp : env.ProstRoundTrip (submitted requests)) :
    ∀ r ∈ requests, (ReapiCache.serve env r).Simulates (storeMatching env) (· = ·) (serve env r) :=
  fun r hr => serve_simulates hz hc he r (hp.mono (submitted_mono (List.cons_subset.mpr ⟨hr,List.nil_subset _⟩)))

section Runs
variable {schedule : List (Interaction.Action Request)} (hp : env.ProstRoundTrip (submitted (startedBy schedule)))
include hz hc he hp

theorem server_inStep {store : InMemoryStore} {cache : BlobCache} (h : Represents env store cache) :
    InStep (storeMatching env) (Represents env) (serverRun env (Config.initial store) schedule)
      (cacheRun env cache schedule) :=
  inStep_initial store_refines h schedule (serve_simulates_of_mem hz hc he hp)

/-- Scheduled alike, the server has the same requests in flight as the cache it represents,
answers as that does, and goes on to represent what becomes of it. -/
theorem server_refines {store : InMemoryStore} {cache : BlobCache} (h : Represents env store cache) :
    Represents env (serverRun env (Config.initial store) schedule).world.state
        (cacheRun env cache schedule).world.state ∧
      (∀ i r, (serverRun env (Config.initial store) schedule).InFlight i r ↔
        (cacheRun env cache schedule).InFlight i r) ∧
      ∀ i r response, (serverRun env (Config.initial store) schedule).Returned i r response ↔
        (cacheRun env cache schedule).Returned i r response := by
  have hstep := server_inStep hz hc he hp h
  exact ⟨hstep.state,hstep.inFlight_iff,hstep.returned_iff⟩

end Runs

theorem server_refines_caching :
    (serverRun Reference.externals (Config.initial InMemoryStore.new) Reference.cachingRun).Returned 1
        Reference.update (.actionResult (.ok Reference.result)) ∧
      (cacheRun Reference.externals Cache.new Reference.cachingRun).Returned 1 Reference.update
        (.actionResult (.ok Reference.result)) := by
  have hreturned : (serverRun Reference.externals (Config.initial InMemoryStore.new)
      Reference.cachingRun).Returned 1 Reference.update (.actionResult (.ok Reference.result)) :=
    returned_of_answer rfl (by decide +kernel)
  obtain ⟨_,_,hresponses⟩ := server_refines Reference.zstdRoundTrip Reference.compressionTotal
    Reference.hashBytes_empty (Reference.prostRoundTrip (submitted (startedBy Reference.cachingRun))) represents_new
  exact ⟨hreturned,(hresponses _ _ _).mp hreturned⟩

/-- The stores represent one cache: they differ in how contents are encoded at rest. -/
def SameContents (env : Externals) (store store' : InMemoryStore) : Prop :=
  ∃ cache, Represents env store cache ∧ Represents env store' cache

theorem SameContents.returned_iff (hz : env.ZstdRoundTrip) (hc : env.CompressionTotal) (he : env.HashesEmpty)
    {store store' : InMemoryStore} (h : SameContents env store store') {schedule : List (Interaction.Action Request)}
    (hp : env.ProstRoundTrip (submitted (startedBy schedule))) (i : ℕ) (r : Request) (response : Response) :
    (serverRun env (Config.initial store) schedule).Returned i r response ↔
      (serverRun env (Config.initial store') schedule).Returned i r response := by
  obtain ⟨cache,hcache,hcache'⟩ := h
  rw [(server_inStep hz hc he hp hcache).returned_iff, (server_inStep hz hc he hp hcache').returned_iff]

/-- How contents are encoded at rest cannot be observed, in any interleaving. -/
theorem encoding_unobservable (hz : env.ZstdRoundTrip) (hc : env.CompressionTotal) (he : env.HashesEmpty)
    {store store' : InMemoryStore} (h : SameContents env store store') {schedule : List (Interaction.Action Request)}
    (hp : env.ProstRoundTrip (submitted (startedBy schedule))) :
    SameContents env (serverRun env (Config.initial store) schedule).world.state
        (serverRun env (Config.initial store') schedule).world.state ∧
      ∀ i r response, (serverRun env (Config.initial store) schedule).Returned i r response ↔
        (serverRun env (Config.initial store') schedule).Returned i r response := by
  refine ⟨?_,h.returned_iff hz hc he hp⟩
  obtain ⟨cache,hcache,hcache'⟩ := h
  exact ⟨_,(server_inStep hz hc he hp hcache).state,(server_inStep hz hc he hp hcache').state⟩

namespace Reference
open ReapiCache.Reference

def emptyLocator : Locator := ⟨"main",.sha256,EMPTY_SHA256⟩

/-- The empty blob, as validation stores it and as an upload does. -/
def plainEmpty : InMemoryStore := InMemoryStore.new.set emptyLocator.contentKey ⟨[],⟨.identity,0,0⟩⟩
def compressedEmpty : InMemoryStore :=
  InMemoryStore.new.set emptyLocator.contentKey ⟨frameHeader [],⟨.zstd,0,(frameHeader []).length⟩⟩

theorem empty_ne : plainEmpty.blobs emptyLocator.contentKey ≠ compressedEmpty.blobs emptyLocator.contentKey := by
  rw [plainEmpty, compressedEmpty, InMemoryStore.set_blobs_self, InMemoryStore.set_blobs_self]
  decide

theorem sameContents_empty : SameContents externals plainEmpty compressedEmpty := by
  have hplain : StandsFor externals emptyLocator ⟨[],⟨.identity,0,0⟩⟩ [] := empty_standsFor hashBytes_empty rfl
  have hcompressed : StandsFor externals emptyLocator
      ⟨frameHeader [],⟨.zstd,0,(frameHeader []).length⟩⟩ [] :=
    ⟨Nat.zero_le _,Or.inl ⟨rfl,rfl⟩,hashBytes_empty⟩
  exact ⟨_,represents_new.set_content hplain,represents_new.set_content hcompressed⟩

/-- Both are asked for the empty blob. -/
def emptyRead : Request := .batchReadBlobs ⟨"main",[⟨EMPTY_SHA256,0⟩],[],0⟩

end Reference

theorem encoding_unobservable_empty :
    Reference.plainEmpty.blobs Reference.emptyLocator.contentKey ≠
        Reference.compressedEmpty.blobs Reference.emptyLocator.contentKey ∧
      ∀ i r response,
        (serverRun ReapiCache.Reference.externals (Config.initial Reference.plainEmpty)
          [.start Reference.emptyRead,.advance 0]).Returned i r response ↔
        (serverRun ReapiCache.Reference.externals (Config.initial Reference.compressedEmpty)
          [.start Reference.emptyRead,.advance 0]).Returned i r response :=
  ⟨Reference.empty_ne,(encoding_unobservable ReapiCache.Reference.zstdRoundTrip ReapiCache.Reference.compressionTotal
    ReapiCache.Reference.hashBytes_empty Reference.sameContents_empty (ReapiCache.Reference.prostRoundTrip _)).2⟩

end ReapiCache.Abstract
