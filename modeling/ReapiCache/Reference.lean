import ReapiCache.Services.ResourceNameLaws
import ReapiCache.Services.Server
import Mathlib.Data.Countable.Basic
import Mathlib.Logic.Equiv.List

/-! # A concrete instance of the external code

Closed examples need concrete hashing, compression and message codecs. These agree
with the real ones on the four blobs and the two action results named here: the
hashes and the encodings are the true ones, and a short blob is compressed into a
frame of one raw block. Elsewhere they only have the properties the results assume.
-/
namespace ReapiCache.Reference
open ActionCacheService

def ascii (s : String) : Bytes := s.toList.map (fun c => UInt8.ofNat c.toNat)

def commandHash : String := "9f86d081884c7d659a2feaa0c55ad015a3bf4f1b2b0b822cd15d6c15b0f00a08"
def actionHash : String := "3b9233bb05eef14e8c13607bc11489de2bb1db3363d7ff78293103ec1f4ebe69"
def treeHash : String := "b71bd8614925a7d9f2b50dbc9f876b36c9b6bf69398d8b904b2ab7c259e84285"

def commandDigest : Digest := ⟨commandHash,4⟩
def actionDigest : Digest := ⟨actionHash,70⟩
def treeDigest : Digest := ⟨treeHash,77⟩

/-- The wire form of a digest whose size takes one byte. -/
def digestMessage (hash : String) (size : UInt8) : Bytes :=
  [0x0a,0x40] ++ ascii hash ++ [0x10,size]

def commandBlob : Bytes := ascii "test"
/-- An action whose command is `commandBlob`. -/
def actionBlob : Bytes := [0x0a,0x44] ++ digestMessage commandHash 4
/-- A tree whose root has the single file `a`, with the content of `commandBlob`. -/
def treeBlob : Bytes :=
  [0x0a,0x4b,0x0a,0x49,0x0a,0x01,0x61,0x12,0x44] ++ digestMessage commandHash 4

/-- One output file and one output directory. -/
def result : ActionResult where
  outputFiles := [⟨some commandDigest,[0x0a,0x01,0x61]⟩]
  outputDirectories := [⟨some treeDigest,[0x0a,0x01,0x64]⟩]
  stdoutDigest := none
  stderrDigest := none
  otherFields := []

def resultBlob : Bytes :=
  [0x12,0x49,0x0a,0x01,0x61,0x12,0x44] ++ digestMessage commandHash 4 ++
    [0x1a,0x49,0x0a,0x01,0x64,0x1a,0x44] ++ digestMessage treeHash 77

/-- A result whose file has the hash of `commandBlob` and another size. -/
def missized : ActionResult where
  outputFiles := [⟨some ⟨commandHash,5⟩,[0x0a,0x01,0x61]⟩]
  outputDirectories := []
  stdoutDigest := none
  stderrDigest := none
  otherFields := []

def missizedBlob : Bytes := [0x12,0x49,0x0a,0x01,0x61,0x12,0x44] ++ digestMessage commandHash 5

def sha256 (bytes : Bytes) : Vector UInt8 32 :=
  if bytes = [] then #v[227,176,196,66,152,252,28,20,154,251,244,200,153,111,185,36,39,174,65,228,
    100,155,147,76,164,149,153,27,120,82,184,85]
  else if bytes = commandBlob then #v[159,134,208,129,136,76,125,101,154,47,234,160,197,90,208,21,
    163,191,79,27,43,11,130,44,209,93,108,21,176,240,10,8]
  else if bytes = actionBlob then #v[59,146,51,187,5,238,241,78,140,19,96,123,193,20,137,222,43,177,
    219,51,99,215,255,120,41,49,3,236,31,78,190,105]
  else if bytes = treeBlob then #v[183,27,216,97,73,37,167,217,242,181,13,188,159,135,107,54,201,182,
    191,105,57,141,139,144,75,42,183,194,89,232,66,133]
  else Vector.replicate 32 0

def magic : Bytes := [0x28,0xb5,0x2f,0xfd]

/-- A frame header without a content size, and the header of one last raw block. -/
def frameHeader (d : Bytes) : Bytes :=
  let block := 8 * d.length + 1
  magic ++ [0x00,0x58] ++
    [UInt8.ofNat block,UInt8.ofNat (block / 256),UInt8.ofNat (block / 65536)]

def encodeAll (d : Bytes) : Except IoError Bytes := .ok (frameHeader d ++ d)

def rawBlock (d : Bytes) : Stream.Source UInt8 IoError where
  content := .finite d .clean
  piece := fun _ asked => asked
  piece_pos := fun _ _ h => h
  piece_le := fun _ _ => Nat.le_refl _

def decoder (c : Bytes) : Except IoError (Stream.Source UInt8 IoError) :=
  if c.take 4 = magic then .ok (rawBlock (c.drop 9)) else .error ⟨"unknown frame descriptor"⟩

def compressor : ProtoEnum Compressor where
  value
    | .identity => 0
    | .zstd => 1
    | .deflate => 2
    | .brotli => 3
  tryFrom x :=
    if x = 0 then some .identity else if x = 1 then some .zstd
    else if x = 2 then some .deflate else if x = 3 then some .brotli else none
  tryFrom_eq_some := by
    intro x a
    cases a <;> grind

def digestFunction (x : Int32) : Option ProtoDigestFunction :=
  if x = 0 then some .unknown else if x = 1 then some .sha256
  else if 2 ≤ x ∧ x ≤ 9 then some .other else none

instance countableChar : Countable Char :=
  Function.Injective.countable (f := Char.toNat) (fun _ _ h => Char.toNat_inj.mp h)
instance countableString : Countable String := Function.Injective.countable (fun _ _ h => String.toList_inj.mp h)
instance countableUInt8 : Countable UInt8 :=
  Function.Injective.countable (f := UInt8.toNat) (fun _ _ h => UInt8.toNat_inj.mp h)
instance countableInt64 : Countable Int64 :=
  Function.Injective.countable (f := Int64.toInt) (fun _ _ h => Int64.toInt_inj.mp h)

instance countableDigest : Countable Digest := by
  apply Function.Injective.countable (f := fun d : Digest => (d.hash,d.sizeBytes))
  rintro ⟨h,n⟩ ⟨h',n'⟩ he
  cases he
  rfl

instance countableOutputFile : Countable OutputFile := by
  apply Function.Injective.countable (f := fun o : OutputFile => (o.digest,o.otherFields))
  rintro ⟨d,b⟩ ⟨d',b'⟩ he
  cases he
  rfl

instance countableOutputDirectory : Countable OutputDirectory := by
  apply Function.Injective.countable (f := fun o : OutputDirectory => (o.treeDigest,o.otherFields))
  rintro ⟨d,b⟩ ⟨d',b'⟩ he
  cases he
  rfl

instance countableActionResult : Countable ActionResult := by
  apply Function.Injective.countable (f := fun r : ActionResult =>
    (r.outputFiles,r.outputDirectories,r.stdoutDigest,r.stderrDigest,r.otherFields))
  rintro ⟨f,d,o,e,b⟩ ⟨f',d',o',e',b'⟩ he
  cases he
  rfl

noncomputable def index : ActionResult → ℕ := (Countable.exists_injective_nat ActionResult).choose

theorem index_injective : Function.Injective index :=
  (Countable.exists_injective_nat ActionResult).choose_spec

/-- Any injective encoding that avoids the true encodings of the two results will do. -/
noncomputable def encodeActionResult (r : ActionResult) : Bytes :=
  if r = result then resultBlob else if r = missized then missizedBlob
  else List.replicate (index r) 0

open Classical in
noncomputable def decodeActionResult (bytes : Bytes) : Except DecodeError ActionResult :=
  if bytes = resultBlob then .ok result
  else if bytes = missizedBlob then .ok missized
  else if h : ∃ r, encodeActionResult r = bytes then .ok h.choose
  else .error ⟨"invalid wire type"⟩

theorem encode_result : encodeActionResult result = resultBlob := if_pos rfl

theorem encode_missized : encodeActionResult missized = missizedBlob := by
  have hne : missized ≠ result := by decide
  rw [encodeActionResult, if_neg hne, if_pos rfl]

/-- No other result has an encoding with a field tag in it. -/
theorem encode_other {r : ActionResult} (hr : r ≠ result) (hm : r ≠ missized) :
    encodeActionResult r = List.replicate (index r) 0 ∧ 0x12 ∉ encodeActionResult r := by
  have h : encodeActionResult r = List.replicate (index r) 0 := by
    rw [encodeActionResult, if_neg hr, if_neg hm]
  refine ⟨h,?_⟩
  rw [h]
  intro hmem
  exact absurd (List.eq_of_mem_replicate hmem) (by decide)

theorem tag_mem_resultBlob : (0x12 : UInt8) ∈ resultBlob := List.mem_cons_self
theorem tag_mem_missizedBlob : (0x12 : UInt8) ∈ missizedBlob := List.mem_cons_self

theorem eq_of_encode_eq_result {r : ActionResult} (h : encodeActionResult r = resultBlob) : r = result := by
  by_contra hr
  by_cases hm : r = missized
  · rw [hm, encode_missized] at h
    exact absurd h (by decide)
  · apply (encode_other hr hm).2
    rw [h]
    exact tag_mem_resultBlob

theorem eq_of_encode_eq_missized {r : ActionResult} (h : encodeActionResult r = missizedBlob) :
    r = missized := by
  by_contra hm
  by_cases hr : r = result
  · rw [hr, encode_result] at h
    exact absurd h (by decide)
  · apply (encode_other hr hm).2
    rw [h]
    exact tag_mem_missizedBlob

theorem encodeActionResult_injective : Function.Injective encodeActionResult := by
  intro r r' h
  by_cases hr : r = result
  · rw [hr, encode_result] at h
    rw [hr, eq_of_encode_eq_result h.symm]
  by_cases hm : r = missized
  · rw [hm, encode_missized] at h
    rw [hm, eq_of_encode_eq_missized h.symm]
  have hr' : r' ≠ result := by
    rintro rfl
    exact hr (eq_of_encode_eq_result (h.trans encode_result))
  have hm' : r' ≠ missized := by
    rintro rfl
    exact hm (eq_of_encode_eq_missized (h.trans encode_missized))
  rw [(encode_other hr hm).1, (encode_other hr' hm').1] at h
  exact index_injective (List.replicate_left_inj.mp h)

def decodeAction (bytes : Bytes) : Except DecodeError Action :=
  if bytes = actionBlob then .ok ⟨some commandDigest⟩ else .error ⟨"invalid wire type"⟩

def decodeTree (bytes : Bytes) : Except DecodeError Tree :=
  if bytes = treeBlob then .ok ⟨some ⟨[⟨some commandDigest⟩]⟩,[]⟩ else .error ⟨"invalid wire type"⟩

noncomputable def externals : Externals where
  sha256
  encodeAll
  decoder
  compressor
  digestFunction
  encodeActionResult
  decodeActionResult
  decodeAction
  decodeTree

theorem decompresses (d : Bytes) : externals.Decompresses (frameHeader d ++ d) d :=
  ⟨rawBlock d,by simp [externals, decoder, frameHeader, magic],rfl⟩

theorem zstdRoundTrip : externals.ZstdRoundTrip := by
  intro d c h
  obtain rfl := Except.ok.inj h
  exact decompresses d

theorem compressionTotal : externals.CompressionTotal := fun _ => ⟨_,rfl⟩

theorem prostRoundTrip (results : Set ActionResult) : externals.ProstRoundTrip results := by
  intro r _
  have he : externals.encodeActionResult r = encodeActionResult r := rfl
  have hd : externals.decodeActionResult = decodeActionResult := rfl
  rw [he, hd]
  unfold decodeActionResult
  by_cases hr : encodeActionResult r = resultBlob
  · rw [if_pos hr, eq_of_encode_eq_result hr]
  by_cases hm : encodeActionResult r = missizedBlob
  · rw [if_neg hr, if_pos hm, eq_of_encode_eq_missized hm]
  have h : ∃ r', encodeActionResult r' = encodeActionResult r := ⟨r,rfl⟩
  rw [if_neg hr, if_neg hm, dif_pos h]
  exact congrArg Except.ok (encodeActionResult_injective h.choose_spec)

theorem hashBytes_empty : DigestAlgorithm.sha256.hashBytes externals [] = EMPTY_SHA256 := by decide

theorem hashBytes_command : DigestAlgorithm.sha256.hashBytes externals commandBlob = commandHash := by
  decide

theorem hashBytes_action : DigestAlgorithm.sha256.hashBytes externals actionBlob = actionHash := by
  decide

theorem hashBytes_tree : DigestAlgorithm.sha256.hashBytes externals treeBlob = treeHash := by decide

/-- The instance name of the examples has no special segment. -/
theorem plain_main : ∀ s ∈ Text.split '/' "main", NotMarker s ∧ s ≠ "uploads" := by
  have hsplit : Text.split '/' "main" = ["main"] := by decide
  intro s hs
  rw [hsplit] at hs
  obtain rfl := List.mem_singleton.mp hs
  exact ⟨⟨by decide,by decide⟩,by decide⟩

def commandData : ByteVec := ⟨commandBlob,by decide⟩

def blobRequest (digest : Digest) (blob : ByteVec) : BlobRequest := ⟨some digest,blob,0⟩

/-- Uploads the command, the action and the tree. -/
def upload : Request := .batchUpdateBlobs {
  instanceName := "main"
  requests := [
    blobRequest commandDigest commandData,
    blobRequest actionDigest ⟨actionBlob,by decide⟩,
    blobRequest treeDigest ⟨treeBlob,by decide⟩]
  digestFunction := 1 }

def updateRequest : UpdateActionResultRequest := ⟨"main",some actionDigest,some result,1⟩
def update : Request := .updateActionResult updateRequest

def uploadRun : List (Interaction.Action Request) := .start upload :: List.replicate 3 (.advance 0)

/-- All blobs are uploaded, then the result is cached. -/
def cachingRun : List (Interaction.Action Request) :=
  uploadRun ++ .start update :: List.replicate 6 (.advance 1)

def getRequest : GetActionResultRequest := ⟨"main",some actionDigest,0⟩
def actionCacheKey : BlobKey := ⟨"main",.sha256,actionHash,.actionCache⟩

/-- The cached result and its tree are read back. -/
def readingRun : List (Interaction.Action Request) :=
  cachingRun ++ [.start (.getActionResult getRequest),.start (.read ⟨"main/blobs/" ++ treeHash ++ "/77",0,0⟩),
    .advance 2,.advance 3,.advance 2,.advance 2,.advance 2]

/-- A result with a wrong size is cached. -/
def missizedCachingRun : List (Interaction.Action Request) :=
  uploadRun ++ .start (.updateActionResult ⟨"main",some actionDigest,some missized,1⟩) ::
    List.replicate 4 (.advance 1)

/-- It is read back. -/
def missizedRun : List (Interaction.Action Request) :=
  missizedCachingRun ++ .start (.getActionResult getRequest) :: List.replicate 2 (.advance 2)

end ReapiCache.Reference
