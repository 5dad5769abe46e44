import ReapiCache.Reference
import ReapiCache.Storage.CodecLaws

/-! # Transcoding along every path

A well-formed blob within the size limit can be transcoded any number of times, and
every blob on the way stands for the same content. The declared size of received
bytes is enforced wherever they are converted, but not where they are passed through.
-/
namespace ReapiCache
open Interaction BlobCodec
variable {env : Externals}

/-- The metadata of a blob are those of its body, which stands for `d`. -/
structure WellFormed (env : Externals) (blob : BlobRead) (d : Bytes) : Prop where
  decodes : Decodes env blob.metadata.encoding blob.body.cursor d
  uncompressedSize : blob.metadata.uncompressedSize = d.length
  storedSize : blob.metadata.storedSize = blob.body.cursor.length

theorem WellFormed.holds {blob : BlobRead} {d : Bytes} (h : WellFormed env blob d)
    (hd : d.length ≤ MAX_DECOMPRESSED_BLOB_SIZE) : Holds env blob.metadata blob.body.cursor d where
  decodes := h.decodes
  uncompressedSize := h.uncompressedSize
  storedSize := h.storedSize
  bounded := h.uncompressedSize.trans_le hd

theorem Holds.wellFormed {metadata : StoredBlobMetadata} {bytes d : Bytes}
    (h : Holds env metadata bytes d) : WellFormed env ⟨metadata,⟨bytes⟩⟩ d :=
  ⟨h.decodes,h.uncompressedSize,h.storedSize⟩

/-- The size limit comes before everything else, also before the shortcut for the own encoding. -/
theorem transcode_exceeds {blob : BlobRead} (target : StorageEncoding)
    (h : MAX_DECOMPRESSED_BLOB_SIZE < blob.metadata.uncompressedSize) : transcode env blob target =
      .error (.decompressedSizeLimitExceeded blob.metadata.uncompressedSize MAX_DECOMPRESSED_BLOB_SIZE) := by
  unfold transcode
  exact if_pos h

section Chain
variable (hz : env.ZstdRoundTrip) (hc : env.CompressionTotal)
include hz hc

/-- One step of a chain of conversions. -/
theorem WellFormed.transcode {blob : BlobRead} {d : Bytes} (h : WellFormed env blob d)
    (hd : d.length ≤ MAX_DECOMPRESSED_BLOB_SIZE) (target : StorageEncoding) :
    ∃ b, BlobCodec.transcode env blob target = .ok b ∧ WellFormed env b d ∧
      b.metadata.encoding = target := by
  obtain ⟨m,c,htranscode,hholds,htarget⟩ := (h.holds hd).transcode hz hc target
  exact ⟨_,htranscode,hholds.wellFormed,htarget⟩

theorem intoIdentityData_fromIdentityData {d : Bytes} (hd : d.length ≤ MAX_DECOMPRESSED_BLOB_SIZE)
    (encoding : StorageEncoding) : (fromIdentityData env d encoding >>= intoIdentityData env) = .ok d := by
  obtain ⟨m,c,hfrom,hholds,_⟩ := fromIdentityData_total hz hc hd encoding
  rw [hfrom, ok_bind]
  exact hholds.intoIdentityData

/-- Transcoding keeps content and metadata along every path of conversions, and the size
limit is the only thing that stops it. -/
theorem transcoding_preserves {blob : BlobRead} {d : Bytes} (h : WellFormed env blob d) :
    (d.length ≤ MAX_DECOMPRESSED_BLOB_SIZE → ∀ targets, ∃ results,
      chain (transcode env) blob targets = .ok results ∧
      List.Forall₂ (fun target b => WellFormed env b d ∧ b.metadata.encoding = target) targets results ∧
      intoIdentityData env (results.getLastD blob) = .ok d) ∧
    (MAX_DECOMPRESSED_BLOB_SIZE < d.length → ∀ target targets,
      transcode env blob target =
        .error (.decompressedSizeLimitExceeded d.length MAX_DECOMPRESSED_BLOB_SIZE) ∧
      chain (transcode env) blob (target :: targets) =
        .error (.decompressedSizeLimitExceeded d.length MAX_DECOMPRESSED_BLOB_SIZE)) ∧
    (∀ data encoding, data.length ≤ MAX_DECOMPRESSED_BLOB_SIZE →
      (fromIdentityData env data encoding >>= intoIdentityData env) = .ok data) ∧
    (d.length ≤ MAX_DECOMPRESSED_BLOB_SIZE →
      transcode env blob blob.metadata.encoding = .ok blob) := by
  refine ⟨?_,?_,?_,?_⟩
  · intro hd targets
    obtain ⟨results,hchain,hall⟩ :=
      chain_total (fun b target hb => WellFormed.transcode hz hc hb hd target) h targets
    refine ⟨results,hchain,hall,?_⟩
    have hlast : WellFormed env (results.getLastD blob) d :=
      chain_last (fun b => WellFormed env b d) h hall (fun _ _ hb => hb.1)
    exact (hlast.holds hd).intoIdentityData
  · intro hd target targets
    have hlimit : MAX_DECOMPRESSED_BLOB_SIZE < blob.metadata.uncompressedSize := by
      rw [h.uncompressedSize]
      exact hd
    have hfirst : transcode env blob target = .error _ := transcode_exceeds target hlimit
    rw [h.uncompressedSize] at hfirst
    exact ⟨hfirst,chain_cons_error hfirst targets⟩
  · intro data encoding hd
    exact intoIdentityData_fromIdentityData hz hc hd encoding
  · intro hd
    exact transcode_same (h.holds hd).bounded rfl

end Chain

section Example
open Reference

/-- The test blob in a frame is unpacked, packed again and passed through. -/
theorem transcoding_preserves_command : ∃ results,
    chain (transcode externals) (BlobRead.encoded (frameHeader commandBlob ++ commandBlob) .zstd 4)
      [.identity,.zstd,.zstd] = .ok results ∧
    intoIdentityData externals (results.getLastD (BlobRead.identity [])) = .ok commandBlob := by
  have hwf : WellFormed externals
      (BlobRead.encoded (frameHeader commandBlob ++ commandBlob) .zstd 4) commandBlob :=
    ⟨decompresses commandBlob,rfl,rfl⟩
  have hlen : commandBlob.length ≤ MAX_DECOMPRESSED_BLOB_SIZE := by
    have : commandBlob.length = 4 := rfl
    unfold MAX_DECOMPRESSED_BLOB_SIZE
    omega
  obtain ⟨hpath,_⟩ := transcoding_preserves zstdRoundTrip compressionTotal hwf
  obtain ⟨results,hchain,hall,hlast⟩ := hpath hlen [.identity,.zstd,.zstd]
  refine ⟨results,hchain,?_⟩
  cases hall with
  | cons _ _ => exact hlast

end Example

/-- Only data of the declared size come out, and a wrong size is refused. -/
structure SizeEnforced (env : Externals) (bytes : Bytes) (encoding : StorageEncoding)
    (declared : ℕ) : Prop where
  exact : ∀ d, intoIdentityData env (BlobRead.encoded bytes encoding declared) = .ok d →
    d.length = declared ∧ d.length ≤ MAX_DECOMPRESSED_BLOB_SIZE
  refused : ∀ d, Decodes env encoding bytes d → d.length ≠ declared →
    ∃ err, intoIdentityData env (BlobRead.encoded bytes encoding declared) = .error err

/-- Identity bytes are passed through without a look at their length. -/
theorem intoIdentityData_identity (bytes : Bytes) {declared : ℕ}
    (hn : declared ≤ MAX_DECOMPRESSED_BLOB_SIZE) :
    intoIdentityData env (BlobRead.encoded bytes .identity declared) = .ok bytes :=
  intoIdentityData_encoded.mpr ⟨hn,rfl,fun he => nomatch he⟩

/-- So the declared size is enforced exactly when it is right or over the limit, or when
the bytes are compressed. -/
theorem sizeEnforced_iff {bytes : Bytes} {encoding : StorageEncoding} {declared : ℕ} :
    SizeEnforced env bytes encoding declared ↔
      (encoding = .identity → bytes.length = declared ∨ MAX_DECOMPRESSED_BLOB_SIZE < declared) := by
  constructor
  · intro henforced he
    subst he
    by_cases hn : declared ≤ MAX_DECOMPRESSED_BLOB_SIZE
    · exact Or.inl (henforced.exact bytes (intoIdentityData_identity bytes hn)).1
    · exact Or.inr (Nat.lt_of_not_le hn)
  · intro hcond
    have hexact : ∀ d, intoIdentityData env (BlobRead.encoded bytes encoding declared) = .ok d →
        d.length = declared ∧ d.length ≤ MAX_DECOMPRESSED_BLOB_SIZE := by
      intro d hinto
      obtain ⟨hn,hdecodes,hlen⟩ := intoIdentityData_encoded.mp hinto
      have hsize : d.length = declared := by
        cases encoding with
        | zstd => exact hlen rfl
        | identity =>
          obtain rfl : bytes = d := hdecodes
          have hor := hcond rfl
          omega
      omega
    refine ⟨hexact,?_⟩
    intro d hdecodes hne
    cases hinto : intoIdentityData env (BlobRead.encoded bytes encoding declared) with
    | error err => exact ⟨err,rfl⟩
    | ok d' =>
      obtain rfl := (intoIdentityData_encoded.mp hinto).2.1.unique hdecodes
      exact absurd (hexact _ hinto).1 hne

/-- Four identity bytes under a declared size of three are accepted. -/
theorem sizeEnforced_command : ¬ ∀ bytes encoding declared d,
    intoIdentityData Reference.externals (BlobRead.encoded bytes encoding declared) = .ok d →
      d.length = declared ∧ d.length ≤ MAX_DECOMPRESSED_BLOB_SIZE := by
  intro h
  have hn : 3 ≤ MAX_DECOMPRESSED_BLOB_SIZE := by
    unfold MAX_DECOMPRESSED_BLOB_SIZE
    omega
  have hlen : Reference.commandBlob.length = 4 := rfl
  have hsize := (h _ _ _ _ (intoIdentityData_identity Reference.commandBlob hn)).1
  omega

end ReapiCache
