import ReapiCache.Reference
import ReapiCache.Storage.CodecLaws
import ReapiCache.Stream.ReadSteps

/-! # Bounded decompression

The decompressor reads one byte more than it expects. That is enough to tell a stream
of the expected size from every other one, and it never holds more than these bytes.
-/
namespace ReapiCache
open Interaction

/-- What the decompressor makes of the result of its reads. -/
def checkDecompressed (expected : ℕ) (result : Except IoError Bytes) : Except CompressionError Bytes := do
  let output ← result.mapError .io
  if output.length ≠ expected then
    .error (.sizeMismatch expected output.length)
  else .ok output

section Source
variable {env : Externals} {data : Bytes} {expected : ℕ} {source : Stream.Source UInt8 IoError}
  (hs : env.decoder data = .ok source) (hn : expected < u64Max)
include hs hn

theorem decompressZstd_reads : decompressZstd env data expected =
    checkDecompressed expected (source.takeReadToEnd (expected + 1)) := by
  have hmin : min (expected + 1) u64Max = expected + 1 := by omega
  unfold decompressZstd checkDecompressed
  rw [hs, hmin]
  rfl

theorem decompressZstd_upTo : decompressZstd env data expected =
    checkDecompressed expected (source.content.upTo (expected + 1)) := by
  rw [decompressZstd_reads hs hn, Stream.Source.takeReadToEnd_eq]

/-- What was read has the wrong size. -/
theorem decompressZstd_sizeMismatch {output : Bytes}
    (hout : source.content.upTo (expected + 1) = .ok output) (hlen : output.length ≠ expected) :
    decompressZstd env data expected = .error (.sizeMismatch expected output.length) := by
  rw [decompressZstd_upTo hs hn, hout]
  exact if_pos hlen

theorem decompressZstd_exact {out : Bytes} : decompressZstd env data expected = .ok out ↔
    source.content = .finite out .clean ∧ out.length = expected := by
  rw [decompressZstd_eq_ok hn]
  constructor
  · rintro ⟨⟨source',hs',hcontent⟩,hlen⟩
    obtain rfl : source = source' := Except.ok.inj (hs.symm.trans hs')
    exact ⟨hcontent,hlen⟩
  · rintro ⟨hcontent,hlen⟩
    exact ⟨⟨source,hs,hcontent⟩,hlen⟩

theorem decompressZstd_short {bytes : Bytes} (hc : source.content = .finite bytes .clean)
    (hlen : bytes.length < expected) :
    decompressZstd env data expected = .error (.sizeMismatch expected bytes.length) := by
  apply decompressZstd_sizeMismatch hs hn _ (by omega)
  rw [hc, Stream.Content.upTo, List.take_of_length_le (by omega)]

theorem decompressZstd_long (hc : source.content.Exceeds expected) :
    decompressZstd env data expected = .error (.sizeMismatch expected (expected + 1)) := by
  obtain ⟨out,hout,hlen⟩ := hc.upTo_succ
  rw [decompressZstd_sizeMismatch hs hn hout (by omega), hlen]

/-- A failure before the bound is reported as such, also one right after the last
expected byte. -/
theorem decompressZstd_failed {bytes : Bytes} {err : IoError}
    (hc : source.content = .finite bytes (.failed err)) (hlen : bytes.length ≤ expected) :
    decompressZstd env data expected = .error (.io err) := by
  rw [decompressZstd_upTo hs hn, hc, Stream.Content.upTo, if_neg (by omega)]
  rfl

/-- Bounded decompression is exact. Its loop holds at most one byte more than expected,
ends after finitely many reads, and its result tells the streams of the expected size
from the shorter, the longer and the failing ones, however the stream is cut into pieces. -/
theorem decompression_exact :
    (∀ k p, source.Reaches (.initial (expected + 1)) k p →
      p.out.length ≤ expected + 1 ∧ k ≤ expected + 1) ∧
    (∃ k p result, source.Reaches (.initial (expected + 1)) k p ∧ source.step p = .inl result ∧
      decompressZstd env data expected = checkDecompressed expected result) ∧
    (∀ out, decompressZstd env data expected = .ok out ↔
      source.content = .finite out .clean ∧ out.length = expected) ∧
    (∀ bytes, source.content = .finite bytes .clean → bytes.length < expected →
      decompressZstd env data expected = .error (.sizeMismatch expected bytes.length)) ∧
    (source.content.Exceeds expected →
      decompressZstd env data expected = .error (.sizeMismatch expected (expected + 1))) ∧
    (∀ bytes err, source.content = .finite bytes (.failed err) → bytes.length ≤ expected →
      decompressZstd env data expected = .error (.io err)) := by
  obtain ⟨hbounded,k,p,hreach,hresult⟩ := source.takeReadToEnd_steps (expected + 1)
  refine ⟨hbounded,⟨k,p,_,hreach,hresult,decompressZstd_reads hs hn⟩,?_,?_,?_,?_⟩
  · intro out
    exact decompressZstd_exact hs hn
  · intro bytes hc hlen
    exact decompressZstd_short hs hn hc hlen
  · exact decompressZstd_long hs hn
  · exact fun bytes err hc hlen => decompressZstd_failed hs hn hc hlen

end Source

section Example
open Reference

/-- A frame with four bytes, where three, four and five are expected. -/
theorem decompression_exact_command :
    decompressZstd externals (frameHeader commandBlob ++ commandBlob) 3 = .error (.sizeMismatch 3 4) ∧
      decompressZstd externals (frameHeader commandBlob ++ commandBlob) 4 = .ok commandBlob ∧
      decompressZstd externals (frameHeader commandBlob ++ commandBlob) 5 = .error (.sizeMismatch 5 4) := by
  have hs : externals.decoder (frameHeader commandBlob ++ commandBlob) = .ok (rawBlock commandBlob) := by
    simp [externals, decoder, frameHeader, magic]
  have hlen : commandBlob.length = 4 := rfl
  obtain ⟨_,_,_,_,hlong,_⟩ := decompression_exact hs (show 3 < u64Max by decide)
  obtain ⟨_,_,hexact,_⟩ := decompression_exact hs (show 4 < u64Max by decide)
  obtain ⟨_,_,_,hshort,_⟩ := decompression_exact hs (show 5 < u64Max by decide)
  refine ⟨hlong ?_,(hexact commandBlob).mpr ⟨rfl,hlen⟩,hshort commandBlob rfl ?_⟩
  · show 3 < commandBlob.length
    omega
  · omega

end Example

end ReapiCache
