import ReapiCache.Wire.Messages
import ReapiCache.Stream.BoundedRead

/-! # Code outside the repository

Hashing, compression and the generated message codecs are parameters. What the
handlers rely on is stated here once, as named properties of the parameters; no
result assumes more of them than its hypotheses say.
-/
namespace ReapiCache

/-- The text of an I/O error. -/
structure IoError where
  message : String
deriving DecidableEq

structure DecodeError where
  message : String
deriving DecidableEq

/-- A generated enumeration: the numbers of its variants, and the partial inverse. -/
structure ProtoEnum (α : Type) where
  value : α → Int32
  tryFrom : Int32 → Option α
  tryFrom_eq_some : ∀ x a, tryFrom x = some a ↔ value a = x

structure Externals where
  sha256 : Bytes → Vector UInt8 32
  encodeAll : Bytes → Except IoError Bytes
  decoder : Bytes → Except IoError (Stream.Source UInt8 IoError)
  compressor : ProtoEnum Compressor
  digestFunction : Int32 → Option ProtoDigestFunction
  encodeActionResult : ActionResult → Bytes
  decodeActionResult : Bytes → Except DecodeError ActionResult
  decodeAction : Bytes → Except DecodeError Action
  decodeTree : Bytes → Except DecodeError Tree

namespace Externals
variable (env : Externals)

/-- Decompressing `c` delivers exactly `d` and then ends cleanly. -/
def Decompresses (c d : Bytes) : Prop :=
  ∃ source, env.decoder c = .ok source ∧ source.content = .finite d .clean

def ZstdRoundTrip : Prop := ∀ d c, env.encodeAll d = .ok c → env.Decompresses c d

def CompressionTotal : Prop := ∀ d, ∃ c, env.encodeAll d = .ok c

/-- The results are decoded from their encodings. prost does that for whatever it has
decoded once, and a handler is given decoded requests only. -/
def ProstRoundTrip (results : Set ActionResult) : Prop :=
  ∀ r ∈ results, env.decodeActionResult (env.encodeActionResult r) = .ok r

variable {env}

theorem ProstRoundTrip.mono {results results' : Set ActionResult} (h : env.ProstRoundTrip results')
    (hsub : results ⊆ results') : env.ProstRoundTrip results := fun r hr => h r (hsub hr)

/-- A compressed stream has at most one content. -/
theorem Decompresses.unique {c d d' : Bytes} (h : env.Decompresses c d) (h' : env.Decompresses c d') :
    d = d' := by
  obtain ⟨s,hs,hc⟩ := h
  obtain ⟨s',hs',hc'⟩ := h'
  obtain rfl : s = s' := Except.ok.inj (hs.symm.trans hs')
  cases hc.symm.trans hc'
  rfl

end Externals
end ReapiCache
