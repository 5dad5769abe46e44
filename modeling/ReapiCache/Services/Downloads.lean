import ReapiCache.Interaction.Returns
import ReapiCache.Services.Uploads

/-! # What downloads answer

A stored blob that holds a content is served without an internal error: the stream
path compares the size in the name, the batch path does not, and both hand out the
content itself or a compressed form of it.
-/
namespace ReapiCache
open Interaction
variable {env : Externals}

theorem ends_okOr {ε α : Type} {E : ε → Prop} {e : ε} {x : Option α} (h : E e) :
    Failing.Ends (fun _ => True) E (okOr e x) := by
  cases x with
  | none => exact h
  | some a => trivial

/-- A compressor that the server does not have is refused as unimplemented. -/
theorem ends_storageEncoding (compression : Compression) :
    Failing.Ends (fun _ => True) (fun s => s.code = .unimplemented) compression.storageEncoding := by
  cases compression with
  | identity => trivial
  | named name =>
    by_cases hname : name = "zstd"
    · rw [Compression.storageEncoding, if_pos hname]
      trivial
    · rw [Compression.storageEncoding, if_neg hname]
      exact show (Status.unimplemented _).code = .unimplemented from rfl

namespace ByteStreamService

theorem chunksAux_flatten {size : ℕ} (hs : 0 < size) (fuel : ℕ) (data : Bytes)
    (h : data.length ≤ fuel) : (chunksAux size fuel data).flatten = data := by
  induction fuel generalizing data with
  | zero =>
    have hnil : data = [] := List.length_eq_zero_iff.mp (Nat.le_zero.mp h)
    rw [hnil]
    rfl
  | succ fuel ih =>
    cases data with
    | nil => rfl
    | cons b rest =>
      have hlen : ((b :: rest).drop size).length ≤ fuel := by
        rw [List.length_drop]
        omega
      rw [chunksAux, List.flatten_cons, ih _ hlen, List.take_append_drop]

/-- The chunks of a stream concatenate to its data. -/
theorem chunks_flatten {size : ℕ} (hs : 0 < size) (data : Bytes) : (chunks size data).flatten = data :=
  chunksAux_flatten hs data.length data (Nat.le_refl _)

/-- Nothing but the last chunk is short, and none is empty. -/
structure WellChunked (size : ℕ) (chunks : List Bytes) : Prop where
  nonempty : ∀ c ∈ chunks, c ≠ []
  bounded : ∀ c ∈ chunks, c.length ≤ size
  full : ∀ c ∈ chunks.dropLast, c.length = size

theorem chunksAux_wellChunked {size : ℕ} (hs : 0 < size) (fuel : ℕ) (data : Bytes) (h : data.length ≤ fuel) :
    WellChunked size (chunksAux size fuel data) := by
  induction fuel generalizing data with
  | zero => exact ⟨by simp [chunksAux],by simp [chunksAux],by simp [chunksAux]⟩
  | succ fuel ih =>
    cases data with
    | nil => exact ⟨by simp [chunksAux],by simp [chunksAux],by simp [chunksAux]⟩
    | cons b rest =>
      have hlen : ((b :: rest).drop size).length ≤ fuel := by
        rw [List.length_drop]
        omega
      have htail := ih _ hlen
      have hhead : ((b :: rest).take size).length ≤ size := List.length_take_le _ _
      have hne : (b :: rest).take size ≠ [] := by
        intro hnil
        have hzero := congrArg List.length hnil
        simp only [List.length_take, List.length_cons, List.length_nil] at hzero
        omega
      rw [chunksAux]
      refine ⟨?_,?_,?_⟩
      · intro c hc
        rcases List.mem_cons.mp hc with rfl | hc
        · exact hne
        · exact htail.nonempty c hc
      · intro c hc
        rcases List.mem_cons.mp hc with rfl | hc
        · exact hhead
        · exact htail.bounded c hc
      · intro c hc
        cases hrest : chunksAux size fuel ((b :: rest).drop size) with
        | nil =>
          rw [hrest] at hc
          cases hc
        | cons next chunks =>
          rw [hrest, List.dropLast_cons_cons] at hc
          rw [hrest] at htail
          rcases List.mem_cons.mp hc with rfl | hc
          · -- something is left after this chunk, so it is full
            have hflat := chunksAux_flatten hs fuel _ hlen
            have hnext := htail.nonempty next List.mem_cons_self
            have hleft : (b :: rest).drop size ≠ [] := by
              intro hnil
              rw [hrest, hnil, List.flatten_cons] at hflat
              exact hnext (List.append_eq_nil_iff.mp hflat).1
            have hlt := List.length_pos_iff.mpr hleft
            rw [List.length_drop] at hlt
            rw [List.length_take]
            omega
          · exact htail.full c hc

theorem chunks_wellChunked {size : ℕ} (hs : 0 < size) (data : Bytes) : WellChunked size (chunks size data) :=
  chunksAux_wellChunked hs data.length data (Nat.le_refl _)

/-- The bytes a read streams. -/
def streamed (responses : List ReadResponse) : Bytes := (responses.map ReadResponse.data).flatten

theorem streamed_chunks (data : Bytes) :
    streamed ((chunks READ_CHUNK_SIZE data).map ReadResponse.mk) = data := by
  unfold streamed
  rw [List.map_map]
  have hid : (ReadResponse.data ∘ ReadResponse.mk) = id := rfl
  rw [hid, List.map_id]
  exact chunks_flatten (by decide) data

theorem ends_resolveBlobKey (parsed : ParsedReadResource) :
    Failing.Ends (fun _ => True) (fun s => s.code = .invalidArgument) (resolveBlobKey parsed) := by
  unfold resolveBlobKey
  cases parsed.algorithm with
  | none => trivial
  | some name => exact Failing.Ends.bind (Failing.ends_mapError (fun _ => rfl)) (fun _ _ => trivial)

/-- A read refused before it touches the store is not refused internally. -/
theorem readTarget_error {request : ReadRequest} {s : Status} (h : readTarget request = .error s) :
    s.code ≠ .internal := by
  have hends : Failing.Ends (fun _ => True) (fun s => s.code = .invalidArgument ∨ s.code = .unimplemented)
      (readTarget request) := by
    apply Failing.Ends.bind (Failing.ends_mapError ?_)
    · intro parsed _
      split
      · exact Or.inl rfl
      · apply ((ends_storageEncoding parsed.compression).imp (fun _ => Or.inr)).bind
        intro responseEncoding _
        split
        · exact Or.inl rfl
        · exact ((ends_resolveBlobKey parsed).imp (fun _ => Or.inl)).bind (fun _ _ => trivial)
    · exact fun _ => Or.inl rfl
  rw [h] at hends
  rcases hends with hcode | hcode
  · rw [hcode]
    decide
  · rw [hcode]
    decide

/-- A stored content is read when the size in the name is its length, and is refused
without an internal error when it is not. -/
theorem readIdentity_of_holds (target : ReadTarget) {metadata : StoredBlobMetadata} {c d : Bytes}
    (h : Holds env metadata c d)
    (hh : target.key.algorithm.hashBytes env d = target.parsed.hash) :
    (target.parsed.expectedSize.toInt = d.length →
      readIdentity env target (some ⟨metadata,⟨c⟩⟩) = .ok d) ∧
    (target.parsed.expectedSize.toInt ≠ d.length →
      ∃ s, readIdentity env target (some ⟨metadata,⟨c⟩⟩) = .error s ∧ s.code ≠ .internal) := by
  unfold readIdentity
  simp only [okOr_some, ok_bind, h.uncompressedSize, h.intoIdentityData, mapError_ok]
  constructor
  · intro hsize
    rw [u64TryFrom_eq_some.mpr hsize, okOr_some, ok_bind, if_neg (by simp),
      validate_eq_ok.mpr ⟨hsize,hh⟩]
    rfl
  · intro hsize
    cases hn : u64TryFrom target.parsed.expectedSize with
    | none => exact ⟨_,rfl,by decide⟩
    | some n =>
      have hne : d.length ≠ n := by
        intro he
        rw [u64TryFrom_eq_some] at hn
        omega
      rw [okOr_some, ok_bind, if_pos hne]
      exact ⟨_,rfl,by decide⟩

/-- Slicing a content never fails internally when compression does not. -/
theorem readWindow_error (hc : env.CompressionTotal) (hz : env.ZstdRoundTrip) {request : ReadRequest}
    {encoding : StorageEncoding} {d : Bytes} (hd : d.length ≤ MAX_DECOMPRESSED_BLOB_SIZE) {s : Status}
    (h : readWindow env request encoding d = .error s) : s.code ≠ .internal := by
  unfold readWindow at h
  cases ho : u64TryFrom request.readOffset with
  | none =>
    rw [ho] at h
    cases h
    decide
  | some offset =>
    simp only [ho, okOr_some, ok_bind] at h
    by_cases hlt : d.length < offset
    · rw [if_pos hlt] at h
      cases h
      decide
    rw [if_neg hlt] at h
    by_cases he : encoding = .identity
    · rw [if_pos he] at h
      by_cases hl : request.readLimit = 0
      · rw [if_pos hl] at h
        cases h
      · rw [if_neg hl] at h
        cases hn : u64TryFrom request.readLimit with
        | none =>
          rw [hn] at h
          cases h
          decide
        | some limit =>
          rw [hn] at h
          cases h
    · rw [if_neg he] at h
      have hdrop : (d.drop offset).length ≤ MAX_DECOMPRESSED_BLOB_SIZE := by
        rw [List.length_drop]
        omega
      obtain ⟨m,c,hb,_⟩ := fromIdentityData_total hz hc hdrop encoding
      rw [hb] at h
      cases h

/-- The window a plain read asks for. A limit of 0 is no limit. -/
def window (offset limit : ℕ) (d : Bytes) : Bytes :=
  if limit = 0 then d.drop offset else (d.drop offset).take limit

/-- A limited window and the rest after it make up the rest from its offset. -/
theorem window_resumed {a b : ℕ} (h : a < b) (d : Bytes) :
    window a (b - a) d ++ window b 0 d = window a 0 d := by
  have hne : b - a ≠ 0 := by omega
  have hsum : b = a + (b - a) := by omega
  have hrest : d.drop b = (d.drop a).drop (b - a) := by rw [List.drop_drop, ← hsum]
  rw [window, window, window, if_neg hne, if_pos rfl, if_pos rfl, hrest, List.take_append_drop]

theorem readWindow_plain {name : String} {offset limit : Int64} {d data : Bytes} :
    readWindow env ⟨name,offset,limit⟩ .identity d = .ok data ↔
      (0 ≤ offset.toInt ∧ offset.toInt ≤ d.length ∧ 0 ≤ limit.toInt) ∧
        data = window offset.toInt.toNat limit.toInt.toNat d := by
  unfold readWindow
  simp only [bind_eq_ok, okOr_eq_ok, u64TryFrom_eq_some]
  constructor
  · rintro ⟨o,ho,h⟩
    rw [ho, Int.toNat_natCast]
    by_cases hlt : d.length < o
    · rw [if_pos hlt] at h
      cases h
    rw [if_neg hlt, if_pos trivial] at h
    by_cases hl : limit = 0
    · rw [if_pos hl] at h
      obtain rfl := Except.ok.inj h
      subst hl
      exact ⟨⟨by omega,by omega,by decide⟩,rfl⟩
    · rw [if_neg hl, bind_eq_ok] at h
      obtain ⟨l,hlimit,h⟩ := h
      rw [okOr_eq_ok, u64TryFrom_eq_some] at hlimit
      obtain rfl := Except.ok.inj h
      have hne : l ≠ 0 := by
        rintro rfl
        exact hl (Int64.toInt_inj.mp hlimit)
      refine ⟨⟨by omega,by omega,by omega⟩,?_⟩
      rw [window, hlimit, Int.toNat_natCast, if_neg hne, ← List.take_eq_take_min]
  · rintro ⟨⟨h0,hle,hl0⟩,rfl⟩
    obtain ⟨o,ho⟩ := Int.eq_ofNat_of_zero_le h0
    refine ⟨o,ho,?_⟩
    rw [if_neg (by omega), if_pos trivial, ho, Int.toNat_natCast]
    by_cases hl : limit = 0
    · rw [if_pos hl, hl]
      rfl
    · obtain ⟨l,hlimit⟩ := Int.eq_ofNat_of_zero_le hl0
      have hne : l ≠ 0 := by
        rintro rfl
        exact hl (Int64.toInt_inj.mp hlimit)
      rw [if_neg hl, u64TryFrom_eq_some.mpr hlimit, okOr_some, ok_bind, hlimit, Int.toNat_natCast, window,
        if_neg hne, ← List.take_eq_take_min]

/-- A compressed read asks for everything from an offset. -/
theorem readWindow_compressed (hc : env.CompressionTotal) (hz : env.ZstdRoundTrip) (name : String)
    (offset limit : Int64) {d : Bytes} (hd : d.length ≤ MAX_DECOMPRESSED_BLOB_SIZE) :
    ((∃ data, readWindow env ⟨name,offset,limit⟩ .zstd d = .ok data) ↔
      0 ≤ offset.toInt ∧ offset.toInt ≤ d.length) ∧
    ∀ data, readWindow env ⟨name,offset,limit⟩ .zstd d = .ok data →
      env.Decompresses data (d.drop offset.toInt.toNat) := by
  by_cases hrange : 0 ≤ offset.toInt ∧ offset.toInt ≤ d.length
  · obtain ⟨o,ho⟩ := Int.eq_ofNat_of_zero_le hrange.1
    have hdrop : (d.drop o).length ≤ MAX_DECOMPRESSED_BLOB_SIZE := by
      rw [List.length_drop]
      omega
    obtain ⟨m,c,hb,hh,hm⟩ := fromIdentityData_total hz hc hdrop .zstd
    have hdec : env.Decompresses c (d.drop o) := by
      have hdecodes := hh.decodes
      rwa [hm] at hdecodes
    have hread : readWindow env ⟨name,offset,limit⟩ .zstd d = .ok c := by
      unfold readWindow
      rw [u64TryFrom_eq_some.mpr ho, okOr_some, ok_bind, if_neg (by omega), if_neg (by decide), hb]
      rfl
    rw [hread, ho, Int.toNat_natCast]
    refine ⟨iff_of_true ⟨c,rfl⟩ (by omega),?_⟩
    rintro data ⟨⟩
    exact hdec
  · have hread : ∀ data, readWindow env ⟨name,offset,limit⟩ .zstd d ≠ .ok data := by
      intro data h
      unfold readWindow at h
      simp only [bind_eq_ok, okOr_eq_ok, u64TryFrom_eq_some] at h
      obtain ⟨o,ho,h⟩ := h
      rw [if_pos (by omega)] at h
      cases h
    refine ⟨iff_of_false ?_ hrange,fun data h => absurd h (hread data)⟩
    rintro ⟨data,h⟩
    exact hread data h

theorem readWindow_identity (name : String) (d : Bytes) :
    readWindow env ⟨name,0,0⟩ .identity d = .ok d := by
  have h0 : u64TryFrom (0 : Int64) = some 0 := by decide
  simp only [readWindow, h0, okOr_some, ok_bind, Nat.not_lt_zero, ↓reduceIte, List.drop_zero]

/-- A read without offset and limit delivers the whole content, compressed if asked. -/
theorem readWindow_whole (hc : env.CompressionTotal) (hz : env.ZstdRoundTrip) (name : String)
    (encoding : StorageEncoding) {d : Bytes} (hd : d.length ≤ MAX_DECOMPRESSED_BLOB_SIZE) :
    ∃ c, readWindow env ⟨name,0,0⟩ encoding d = .ok c ∧ Decodes env encoding c d := by
  by_cases he : encoding = .identity
  · rw [he]
    exact ⟨d,readWindow_identity name d,rfl⟩
  · have h0 : u64TryFrom (0 : Int64) = some 0 := by decide
    simp only [readWindow, h0, okOr_some, ok_bind, Nat.not_lt_zero, ↓reduceIte, List.drop_zero, he]
    obtain ⟨m,c,hb,hh,hm⟩ := fromIdentityData_total hz hc hd encoding
    refine ⟨c,by rw [hb]; rfl,?_⟩
    have hdec := hh.decodes
    rwa [hm] at hdec

/-- What a read answers to the store's reply. -/
def answerRead (env : Externals) (request : ReadRequest) (target : ReadTarget) (blob : Option BlobRead) :
    Except Status (List ReadResponse) := do
  let identity ← readIdentity env target blob
  let data ← readWindow env request target.responseEncoding identity
  .ok ((chunks READ_CHUNK_SIZE data).map ReadResponse.mk)

theorem read_eq (request : ReadRequest) : read env request =
    (Failing.ofExcept (readTarget request) >>= fun target =>
      storeGet (fun err => Status.internal err.toString) target.key >>= fun blob =>
        Failing.ofExcept (answerRead env request target blob)) := by
  unfold read answerRead
  simp only [Failing.ofExcept_bind, Failing.ofExcept_ok]

theorem answerRead_none (request : ReadRequest) (target : ReadTarget) :
    answerRead env request target none = .error (.notFound "blob not found") := rfl

variable {request : ReadRequest} (target : ReadTarget) {metadata : StoredBlobMetadata} {c d : Bytes}

theorem answerRead_not_internal (hz : env.ZstdRoundTrip) (hc : env.CompressionTotal)
    (h : Holds env metadata c d)
    (hh : target.key.algorithm.hashBytes env d = target.parsed.hash) {s : Status}
    (hs : answerRead env request target (some ⟨metadata,⟨c⟩⟩) = .error s) : s.code ≠ .internal := by
  obtain ⟨hmatch,hdiffer⟩ := readIdentity_of_holds target h hh
  unfold answerRead at hs
  by_cases hsize : target.parsed.expectedSize.toInt = d.length
  · rw [hmatch hsize, ok_bind] at hs
    cases hw : readWindow env request target.responseEncoding d with
    | ok data =>
      rw [hw] at hs
      cases hs
    | error s' =>
      rw [hw] at hs
      obtain rfl : s' = s := Except.error.inj hs
      have hbound := h.bounded
      rw [h.uncompressedSize] at hbound
      exact readWindow_error hc hz hbound hw
  · obtain ⟨s',hs',hcode⟩ := hdiffer hsize
    rw [hs'] at hs
    obtain rfl : s' = s := Except.error.inj hs
    exact hcode

/-- A read of the whole blob streams its content when the sizes agree. -/
theorem answerRead_whole (hz : env.ZstdRoundTrip) (hc : env.CompressionTotal)
    (h : Holds env metadata c d) (hh : target.key.algorithm.hashBytes env d = target.parsed.hash)
    (hsize : target.parsed.expectedSize.toInt = d.length) (name : String) :
    ∃ responses, answerRead env ⟨name,0,0⟩ target (some ⟨metadata,⟨c⟩⟩) = .ok responses ∧
      Decodes env target.responseEncoding (streamed responses) d := by
  have hbound := h.bounded
  rw [h.uncompressedSize] at hbound
  obtain ⟨data,hdata,hdec⟩ := readWindow_whole hc hz name target.responseEncoding hbound
  refine ⟨_,?_,by rw [streamed_chunks]; exact hdec⟩
  rw [answerRead, (readIdentity_of_holds target h hh).1 hsize, ok_bind, hdata, ok_bind]

/-- An uncompressed read needs nothing of the compressor. -/
theorem answerRead_identity (h : Holds env metadata c d)
    (hh : target.key.algorithm.hashBytes env d = target.parsed.hash)
    (hsize : target.parsed.expectedSize.toInt = d.length) (he : target.responseEncoding = .identity)
    (name : String) : answerRead env ⟨name,0,0⟩ target (some ⟨metadata,⟨c⟩⟩) =
      .ok ((chunks READ_CHUNK_SIZE d).map ReadResponse.mk) := by
  rw [answerRead, (readIdentity_of_holds target h hh).1 hsize, ok_bind, he, readWindow_identity, ok_bind]

end ByteStreamService

namespace CasService

/-- Whatever the stored encoding, a client that accepts the compressed form gets it, and
any other client the plain one. -/
theorem select_eq (stored : StorageEncoding) (acceptable : List StorageEncoding) :
    BlobCodec.selectBatchReadResponseEncoding stored acceptable =
      if .zstd ∈ acceptable then .zstd else .identity := by
  have hfind : BlobCodec.RESPONSE_PRIORITY.find?
      (fun encoding => decide (encoding = .identity ∨ encoding ∈ acceptable)) =
        some (if .zstd ∈ acceptable then .zstd else .identity) := by
    by_cases h : StorageEncoding.zstd ∈ acceptable
    · simp [BlobCodec.RESPONSE_PRIORITY, h]
    · simp [BlobCodec.RESPONSE_PRIORITY, h]
  unfold BlobCodec.selectBatchReadResponseEncoding
  rw [hfind]
  by_cases h : stored ≠ .identity ∧ stored ∈ acceptable
  · rw [if_pos h]
    cases stored with
    | identity => exact absurd rfl h.1
    | zstd => rw [if_pos h.2]
  · rw [if_neg h, Option.getD_some]

/-- The batch path serves a stored content in the selected encoding. -/
theorem blobReadResponse_selected (hc : env.CompressionTotal) (hz : env.ZstdRoundTrip)
    (acceptable : List StorageEncoding) (digest : Digest) {metadata : StoredBlobMetadata}
    {c d : Bytes} (h : Holds env metadata c d) (encoding : StorageEncoding)
    (hencoding : BlobCodec.selectBatchReadResponseEncoding metadata.encoding acceptable = encoding) :
    ∃ data, blobReadResponse env acceptable digest (.ok (some ⟨metadata,⟨c⟩⟩)) =
        ⟨some digest,data,encoding.asProtoValue env,some ⟨0,"",[]⟩⟩ ∧ Decodes env encoding data d := by
  obtain ⟨m,data,ht,hh,rfl⟩ := h.transcode hz hc encoding
  refine ⟨data,?_,hh.decodes⟩
  simp only [blobReadResponse, hencoding, ht, readToEnd_eq]

theorem blobReadResponse_of_holds (hc : env.CompressionTotal) (hz : env.ZstdRoundTrip)
    (acceptable : List StorageEncoding) (digest : Digest) {metadata : StoredBlobMetadata}
    {c d : Bytes} (h : Holds env metadata c d) :
    ∃ data encoding, blobReadResponse env acceptable digest (.ok (some ⟨metadata,⟨c⟩⟩)) =
        ⟨some digest,data,encoding.asProtoValue env,some ⟨0,"",[]⟩⟩ ∧ Decodes env encoding data d := by
  obtain ⟨data,hresponse,hdec⟩ := blobReadResponse_selected hc hz acceptable digest h _ rfl
  exact ⟨data,_,hresponse,hdec⟩

end CasService
end ReapiCache
