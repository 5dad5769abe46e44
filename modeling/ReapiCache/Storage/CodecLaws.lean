import ReapiCache.Storage.BlobCodec
import ReapiCache.Interaction.Fallible

/-! # What stored bytes stand for

`Holds` says that bytes under their metadata stand for a content. Transcoding keeps
the content, and a blob that holds a content is decoded without an error. The size
checks of the codec only ever refuse blobs whose metadata are wrong.
-/
namespace ReapiCache
open Interaction BlobCodec
variable {env : Externals}

@[simp] theorem readToEnd_eq (body : BlobReader) : body.readToEnd = .ok body.cursor := rfl

/-- Under an encoding the bytes stand for `d`. -/
def Decodes (env : Externals) : StorageEncoding → Bytes → Bytes → Prop
  | .identity, bytes, d => bytes = d
  | .zstd, bytes, d => env.Decompresses bytes d

theorem Decodes.unique {e : StorageEncoding} {bytes d d' : Bytes} (h : Decodes env e bytes d)
    (h' : Decodes env e bytes d') : d = d' := by
  cases e with
  | identity => exact h.symm.trans h'
  | zstd => exact Externals.Decompresses.unique h h'

structure Holds (env : Externals) (metadata : StoredBlobMetadata) (bytes d : Bytes) : Prop where
  decodes : Decodes env metadata.encoding bytes d
  uncompressedSize : metadata.uncompressedSize = d.length
  storedSize : metadata.storedSize = bytes.length
  bounded : metadata.uncompressedSize ≤ MAX_DECOMPRESSED_BLOB_SIZE

theorem Holds.unique {metadata : StoredBlobMetadata} {bytes d d' : Bytes}
    (h : Holds env metadata bytes d) (h' : Holds env metadata bytes d') : d = d' :=
  h.decodes.unique h'.decodes

/-- The decompressor accepts exactly the streams that stand for a content of the size. -/
theorem decompressZstd_eq_ok {c d : Bytes} {n : ℕ} (hn : n < u64Max) :
    decompressZstd env c n = .ok d ↔ env.Decompresses c d ∧ d.length = n := by
  have hmin : min (n + 1) u64Max = n + 1 := by omega
  unfold decompressZstd
  simp only [bind_eq_ok, mapError_eq_ok, Stream.Source.takeReadToEnd_eq, hmin]
  constructor
  · rintro ⟨source,hs,output,hout,h⟩
    by_cases hlen : output.length = n
    · rw [if_neg (not_not.mpr hlen)] at h
      obtain rfl := Except.ok.inj h
      obtain ⟨hcontent,_⟩ := Stream.Content.upTo_eq_ok.mp ⟨hout,hlen⟩
      exact ⟨⟨source,hs,hcontent⟩,hlen⟩
    · rw [if_pos hlen] at h
      cases h
  · rintro ⟨⟨source,hs,hcontent⟩,hlen⟩
    obtain ⟨hout,_⟩ := Stream.Content.upTo_eq_ok.mpr ⟨hcontent,hlen⟩
    exact ⟨source,hs,d,hout,by rw [if_neg (not_not.mpr hlen)]⟩

theorem intoIdentityData_eq_ok {blob : BlobRead} {d : Bytes} :
    intoIdentityData env blob = .ok d ↔ ∃ b, transcode env blob .identity = .ok b ∧ b.body.cursor = d := by
  unfold intoIdentityData
  simp [bind_eq_ok]

theorem transcode_same {blob : BlobRead} {target : StorageEncoding}
    (hn : blob.metadata.uncompressedSize ≤ MAX_DECOMPRESSED_BLOB_SIZE)
    (he : blob.metadata.encoding = target) : transcode env blob target = .ok blob := by
  unfold transcode
  rw [if_neg (by omega), if_pos he]

/-- The size limit is checked first, whatever the encodings are. -/
theorem transcode_bounded {blob b : BlobRead} {target : StorageEncoding}
    (h : transcode env blob target = .ok b) :
    blob.metadata.uncompressedSize ≤ MAX_DECOMPRESSED_BLOB_SIZE := by
  unfold transcode at h
  by_cases hn : MAX_DECOMPRESSED_BLOB_SIZE < blob.metadata.uncompressedSize
  · rw [if_pos hn] at h
    cases h
  · omega

theorem transcode_compress {n s : ℕ} {d : Bytes} {b : BlobRead} :
    transcode env ⟨⟨.identity,n,s⟩,⟨d⟩⟩ .zstd = .ok b ↔
      n ≤ MAX_DECOMPRESSED_BLOB_SIZE ∧ d.length = n ∧
        ∃ c, env.encodeAll d = .ok c ∧ b = ⟨⟨.zstd,n,c.length⟩,⟨c⟩⟩ := by
  unfold transcode
  by_cases hn : MAX_DECOMPRESSED_BLOB_SIZE < n
  · simp only [if_pos hn, reduceCtorEq, false_iff, not_and]
    omega
  · rw [if_neg hn, if_neg (by simp)]
    by_cases hd : d.length = n
    · simp only [readToEnd_eq, mapError_ok, ok_bind, ne_eq, hd, not_true, ↓reduceIte, compressZstd,
        bind_eq_ok, mapError_eq_ok, Except.ok.injEq, true_and]
      constructor
      · rintro ⟨c,hc,rfl⟩
        exact ⟨Nat.le_of_not_lt hn,c,hc,rfl⟩
      · rintro ⟨_,c,hc,rfl⟩
        exact ⟨c,hc,rfl⟩
    · simp [hd]

theorem transcode_decompress {n s : ℕ} {c : Bytes} {b : BlobRead} :
    transcode env ⟨⟨.zstd,n,s⟩,⟨c⟩⟩ .identity = .ok b ↔
      n ≤ MAX_DECOMPRESSED_BLOB_SIZE ∧
        ∃ d, decompressZstd env c n = .ok d ∧ b = ⟨⟨.identity,n,d.length⟩,⟨d⟩⟩ := by
  unfold transcode
  by_cases hn : MAX_DECOMPRESSED_BLOB_SIZE < n
  · simp only [if_pos hn, reduceCtorEq, false_iff, not_and]
    omega
  · rw [if_neg hn, if_neg (by simp)]
    simp only [readToEnd_eq, mapError_ok, ok_bind, bind_eq_ok, Except.ok.injEq]
    constructor
    · rintro ⟨d,hd,rfl⟩
      exact ⟨Nat.le_of_not_lt hn,d,hd,rfl⟩
    · rintro ⟨_,d,hd,rfl⟩
      exact ⟨d,hd,rfl⟩

theorem lt_u64Max {n : ℕ} (h : n ≤ MAX_DECOMPRESSED_BLOB_SIZE) : n < u64Max := by
  unfold MAX_DECOMPRESSED_BLOB_SIZE at h
  unfold u64Max
  omega

/-- Transcoding a blob that holds `d` always succeeds, in a blob that holds `d`. -/
theorem Holds.transcode (hz : env.ZstdRoundTrip) (hc : env.CompressionTotal)
    {metadata : StoredBlobMetadata} {bytes d : Bytes} (h : Holds env metadata bytes d)
    (target : StorageEncoding) : ∃ m c, BlobCodec.transcode env ⟨metadata,⟨bytes⟩⟩ target = .ok ⟨m,⟨c⟩⟩ ∧
      Holds env m c d ∧ m.encoding = target := by
  rcases metadata with ⟨encoding,n,s⟩
  by_cases he : encoding = target
  · exact ⟨_,_,transcode_same h.bounded he,h,he⟩
  · cases encoding with
    | identity =>
      cases target with
      | identity => exact absurd rfl he
      | zstd =>
        obtain ⟨c,hcd⟩ := hc d
        obtain rfl : bytes = d := h.decodes
        exact ⟨_,_,transcode_compress.mpr ⟨h.bounded,h.uncompressedSize.symm,c,hcd,rfl⟩,
          ⟨hz _ _ hcd,h.uncompressedSize,rfl,h.bounded⟩,rfl⟩
    | zstd =>
      cases target with
      | zstd => exact absurd rfl he
      | identity =>
        have hd := (decompressZstd_eq_ok (lt_u64Max h.bounded)).mpr ⟨h.decodes,h.uncompressedSize.symm⟩
        exact ⟨_,_,transcode_decompress.mpr ⟨h.bounded,d,hd,rfl⟩,
          ⟨rfl,h.uncompressedSize,rfl,h.bounded⟩,rfl⟩

/-- Decoding a blob that holds `d` gives `d`. -/
theorem Holds.intoIdentityData {metadata : StoredBlobMetadata} {bytes d : Bytes}
    (h : Holds env metadata bytes d) : BlobCodec.intoIdentityData env ⟨metadata,⟨bytes⟩⟩ = .ok d := by
  rcases metadata with ⟨encoding,n,s⟩
  rw [intoIdentityData_eq_ok]
  cases encoding with
  | identity => exact ⟨_,transcode_same h.bounded rfl,h.decodes⟩
  | zstd =>
    have hd := (decompressZstd_eq_ok (lt_u64Max h.bounded)).mpr ⟨h.decodes,h.uncompressedSize.symm⟩
    exact ⟨_,transcode_decompress.mpr ⟨h.bounded,d,hd,rfl⟩,rfl⟩

/-- Received bytes are accepted under a declared size when it is within the limit and they
stand for a content, in a compressed form of that size. -/
theorem intoIdentityData_encoded {e : StorageEncoding} {c d : Bytes} {n : ℕ} :
    BlobCodec.intoIdentityData env (BlobRead.encoded c e n) = .ok d ↔
      n ≤ MAX_DECOMPRESSED_BLOB_SIZE ∧ Decodes env e c d ∧ (e = .zstd → d.length = n) := by
  rw [intoIdentityData_eq_ok]
  cases e with
  | identity =>
    constructor
    · rintro ⟨b,hb,rfl⟩
      have hn := transcode_bounded hb
      have hs : transcode env (BlobRead.encoded c .identity n) .identity = .ok _ := transcode_same hn rfl
      obtain rfl := Except.ok.inj (hs.symm.trans hb)
      exact ⟨hn,rfl,fun he => by cases he⟩
    · rintro ⟨hn,hd,_⟩
      exact ⟨_,transcode_same hn rfl,hd⟩
  | zstd =>
    constructor
    · rintro ⟨b,hb,rfl⟩
      obtain ⟨hn,d',hd',rfl⟩ := transcode_decompress.mp hb
      obtain ⟨hdec,hlen⟩ := (decompressZstd_eq_ok (lt_u64Max hn)).mp hd'
      exact ⟨hn,hdec,fun _ => hlen⟩
    · rintro ⟨hn,hdec,hlen⟩
      have hd := (decompressZstd_eq_ok (lt_u64Max hn)).mpr ⟨hdec,hlen rfl⟩
      exact ⟨_,transcode_decompress.mpr ⟨hn,d,hd,rfl⟩,rfl⟩

theorem holds_identity {d : Bytes} (h : d.length ≤ MAX_DECOMPRESSED_BLOB_SIZE) :
    Holds env (BlobRead.identity d).metadata (BlobRead.identity d).body.cursor d :=
  ⟨rfl,rfl,rfl,h⟩

theorem fromIdentityData_bounded {d : Bytes} {target : StorageEncoding} {b : BlobRead}
    (h : fromIdentityData env d target = .ok b) : d.length ≤ MAX_DECOMPRESSED_BLOB_SIZE :=
  transcode_bounded h

theorem fromIdentityData_holds (hz : env.ZstdRoundTrip) {d : Bytes} {target : StorageEncoding}
    {b : BlobRead} (h : fromIdentityData env d target = .ok b) :
    Holds env b.metadata b.body.cursor d ∧ b.metadata.encoding = target := by
  have hn := fromIdentityData_bounded h
  cases target with
  | identity =>
    have hs : transcode env (BlobRead.identity d) .identity = .ok _ := transcode_same hn rfl
    obtain rfl := Except.ok.inj (hs.symm.trans h)
    exact ⟨holds_identity hn,rfl⟩
  | zstd =>
    obtain ⟨_,_,c,hc,rfl⟩ := transcode_compress.mp h
    exact ⟨⟨hz _ _ hc,rfl,rfl,hn⟩,rfl⟩

/-- The one form in which an uploaded content is stored. -/
structure StoredAs (env : Externals) (d : Bytes) (metadata : StoredBlobMetadata) (bytes : Bytes) : Prop where
  encoded : env.encodeAll d = .ok bytes
  metadata : metadata = ⟨.zstd,d.length,bytes.length⟩

/-- A content within the limit is compressed as a whole. -/
theorem fromIdentityData_compress {d : Bytes} (hd : d.length ≤ MAX_DECOMPRESSED_BLOB_SIZE) :
    fromIdentityData env d .zstd = (compressZstd env d >>= fun c => .ok ⟨⟨.zstd,d.length,c.length⟩,⟨c⟩⟩) := by
  change transcode env ⟨⟨.identity,d.length,d.length⟩,⟨d⟩⟩ .zstd = _
  unfold transcode
  simp only [Nat.not_lt.mpr hd, reduceCtorEq, readToEnd_eq, mapError_ok, ok_bind, ne_eq, not_true, ↓reduceIte]

theorem fromIdentityData_zstd {d : Bytes} {b : BlobRead} : fromIdentityData env d .zstd = .ok b ↔
    d.length ≤ MAX_DECOMPRESSED_BLOB_SIZE ∧ StoredAs env d b.metadata b.body.cursor := by
  have hcompress : fromIdentityData env d .zstd = .ok b ↔ _ := transcode_compress
  rw [hcompress]
  constructor
  · rintro ⟨hn,_,c,hc,rfl⟩
    exact ⟨hn,hc,rfl⟩
  · rintro ⟨hn,hc,hm⟩
    rcases b with ⟨metadata,⟨bytes⟩⟩
    obtain rfl : metadata = ⟨.zstd,d.length,bytes.length⟩ := hm
    exact ⟨hn,rfl,bytes,hc,rfl⟩

theorem exists_storedAs (hc : env.CompressionTotal) (d : Bytes) : ∃ metadata bytes,
    StoredAs env d metadata bytes := by
  obtain ⟨bytes,h⟩ := hc d
  exact ⟨_,bytes,h,rfl⟩

theorem fromIdentityData_total (hz : env.ZstdRoundTrip) (hc : env.CompressionTotal) {d : Bytes}
    (hd : d.length ≤ MAX_DECOMPRESSED_BLOB_SIZE) (target : StorageEncoding) :
    ∃ m c, fromIdentityData env d target = .ok ⟨m,⟨c⟩⟩ ∧ Holds env m c d ∧ m.encoding = target :=
  (holds_identity hd).transcode hz hc target

end ReapiCache
