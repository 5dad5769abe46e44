import ReapiCache.Services.ResourceName
import ReapiCache.Interaction.Fallible

/-! # Rendered resource names are read back

A name is rendered from its parts by joining segments. Reading it back finds the
marker behind the instance name, which may itself consist of several segments, and
takes off an upload id only where one was rendered.
-/
namespace ReapiCache
open Interaction

/-- Anything but the two markers. -/
def NotMarker (segment : String) : Prop := segment ≠ "blobs" ∧ segment ≠ "compressed-blobs"

structure ResourceName where
  instanceName : String
  uploadId : Option String
  compressor : Option String
  /-- Whether the name carries the `sha256` segment. -/
  algorithm : Bool
  hash : String
  size : Int64

namespace ResourceName

/-- The empty instance name is left out together with its separator. -/
def leading (name : ResourceName) : List String :=
  (if name.instanceName = "" then [] else [name.instanceName]) ++
    match name.uploadId with
    | none => []
    | some id => ["uploads",id]

def digestSegments (name : ResourceName) : List String :=
  (if name.algorithm then ["sha256"] else []) ++ [name.hash,name.size.toInt.repr]

def trailing (name : ResourceName) : List String :=
  match name.compressor with
  | none => "blobs" :: name.digestSegments
  | some compressor => "compressed-blobs" :: compressor :: name.digestSegments

def render (name : ResourceName) : String := Text.join '/' (name.leading ++ name.trailing)

/-- The name with further segments behind the size. -/
def renderWith (name : ResourceName) (metadata : List String) : String :=
  Text.join '/' (name.leading ++ name.trailing ++ metadata)

theorem renderWith_nil (name : ResourceName) : name.renderWith [] = name.render := by
  rw [renderWith, render, List.append_nil]

/-- What the parser should find. -/
def parsed (name : ResourceName) : ParsedReadResource where
  instanceName := name.instanceName
  uploadId := name.uploadId
  algorithm := if name.algorithm then some "sha256" else none
  hash := name.hash
  expectedSize := name.size
  compression :=
    match name.compressor with
    | none => .identity
    | some compressor => .named compressor

/-- The parts that make a name unambiguous. -/
structure Readable (name : ResourceName) : Prop where
  instanceName : ∀ s ∈ Text.split '/' name.instanceName, NotMarker s
  noUpload : name.uploadId = none → "uploads" ∉ Text.split '/' name.instanceName
  uploadId : ∀ id, name.uploadId = some id → id ≠ "" ∧ '/' ∉ id.toList ∧ NotMarker id
  compressor : ∀ c, name.compressor = some c → c ≠ "" ∧ '/' ∉ c.toList
  hash : '/' ∉ name.hash.toList

/-- What is appended are segments, and an omitted algorithm is not read into the hash. -/
structure Appendable (name : ResourceName) (metadata : List String) : Prop where
  segments : ∀ s ∈ metadata, '/' ∉ s.toList
  algorithm : metadata ≠ [] → name.algorithm = false → name.hash ≠ "sha256"

theorem appendable_nil (name : ResourceName) : name.Appendable [] where
  segments := fun _ hs => absurd hs List.not_mem_nil
  algorithm := fun hne => absurd rfl hne

example : render ⟨"main",none,none,true,"abc123",12⟩ = "main/blobs/sha256/abc123/12" := by decide

example : render ⟨"",some "id",some "zstd",false,"abc123",-5⟩ =
    "uploads/id/compressed-blobs/zstd/abc123/-5" := by decide

end ResourceName

/-- The segments of an instance name as it stands in a name. -/
def instanceSegments (instanceName : String) : List String :=
  if instanceName = "" then [] else Text.split '/' instanceName

theorem join_instanceSegments (instanceName : String) :
    Text.join '/' (instanceSegments instanceName) = instanceName := by
  unfold instanceSegments
  by_cases h : instanceName = ""
  · rw [if_pos h, h]
    exact Text.join_nil
  · rw [if_neg h]
    exact Text.join_split instanceName

theorem mem_instanceSegments {instanceName s : String} (h : s ∈ instanceSegments instanceName) :
    s ∈ Text.split '/' instanceName := by
  unfold instanceSegments at h
  by_cases he : instanceName = ""
  · rw [if_pos he] at h
    exact absurd h List.not_mem_nil
  · rwa [if_neg he] at h

theorem slash_not_mem_repr (x : ℤ) : '/' ∉ x.repr.toList := by
  have hdigits : ∀ n : ℕ, '/' ∉ n.repr.toList := by
    intro n h
    exact absurd (Text.isDigit_of_mem_repr _ h) (by decide)
  rw [Int.repr_eq_if]
  by_cases h : 0 ≤ x
  · rw [if_pos h]
    exact hdigits _
  · rw [if_neg h, String.toList_append, List.mem_append]
    rintro (hm | hm)
    · exact absurd hm (by decide)
    · exact hdigits _ hm

theorem flatMap_split_of_not_mem {l : List String} (h : ∀ s ∈ l, '/' ∉ s.toList) :
    l.flatMap (Text.split '/') = l := by
  induction l with
  | nil => rfl
  | cons s l ih =>
    rw [List.flatMap_cons, Text.split_eq_singleton (h s List.mem_cons_self),
      ih (fun t ht => h t (List.mem_cons_of_mem s ht))]
    rfl

namespace ResourceName
variable {name : ResourceName}

def uploadSegments (name : ResourceName) : List String :=
  match name.uploadId with
  | none => []
  | some id => ["uploads",id]

theorem trailing_ne_nil (name : ResourceName) : name.trailing ≠ [] := by
  unfold trailing
  cases name.compressor <;> simp

theorem slash_not_mem_trailing (h : name.Readable) : ∀ s ∈ name.trailing, '/' ∉ s.toList := by
  have hdigest : ∀ s ∈ name.digestSegments, '/' ∉ s.toList := by
    intro s hs
    unfold digestSegments at hs
    rcases List.mem_append.mp hs with hs | hs
    · cases ha : name.algorithm with
      | false => simp [ha] at hs
      | true =>
        obtain rfl : s = "sha256" := by simpa [ha] using hs
        decide
    · rcases List.mem_cons.mp hs with rfl | hs
      · exact h.hash
      · obtain rfl := List.mem_singleton.mp hs
        exact slash_not_mem_repr _
  intro s hs
  unfold trailing at hs
  cases hc : name.compressor with
  | none =>
    rw [hc] at hs
    rcases List.mem_cons.mp hs with rfl | hs
    · decide
    · exact hdigest s hs
  | some compressor =>
    rw [hc] at hs
    rcases List.mem_cons.mp hs with rfl | hs
    · decide
    rcases List.mem_cons.mp hs with rfl | hs
    · exact (h.compressor _ hc).2
    · exact hdigest s hs

theorem slash_not_mem_upload (h : name.Readable) : ∀ s ∈ name.uploadSegments, '/' ∉ s.toList := by
  intro s hs
  unfold uploadSegments at hs
  cases hu : name.uploadId with
  | none =>
    rw [hu] at hs
    exact absurd hs List.not_mem_nil
  | some id =>
    rw [hu] at hs
    rcases List.mem_cons.mp hs with rfl | hs
    · decide
    · obtain rfl := List.mem_singleton.mp hs
      exact (h.uploadId _ hu).2.1

/-- The segments of a rendered name. -/
theorem split_renderWith (h : name.Readable) {metadata : List String}
    (hm : ∀ s ∈ metadata, '/' ∉ s.toList) : Text.split '/' (name.renderWith metadata) =
      instanceSegments name.instanceName ++ name.uploadSegments ++ (name.trailing ++ metadata) := by
  have hne : name.leading ++ name.trailing ++ metadata ≠ [] := by
    intro hnil
    have htrail := (List.append_eq_nil_iff.mp hnil).1
    exact name.trailing_ne_nil (List.append_eq_nil_iff.mp htrail).2
  have hlead : name.leading = (if name.instanceName = "" then [] else [name.instanceName]) ++
      name.uploadSegments := rfl
  rw [renderWith, Text.split_join hne, List.flatMap_append, flatMap_split_of_not_mem hm,
    List.flatMap_append, flatMap_split_of_not_mem (slash_not_mem_trailing h), hlead, List.flatMap_append,
    flatMap_split_of_not_mem (slash_not_mem_upload h), List.append_assoc]
  by_cases he : name.instanceName = ""
  · simp [he, instanceSegments]
  · simp [he, instanceSegments]

end ResourceName

/-- The first segment with a property, behind segments without it. -/
theorem findIdx?_append_cons {α : Type} {p : α → Bool} {l s : List α} {m : α}
    (hl : ∀ x ∈ l, p x = false) (hm : p m = true) : (l ++ m :: s).findIdx? p = some l.length := by
  rw [List.findIdx?_append, List.findIdx?_eq_none_iff.mpr hl, Option.none_or, List.findIdx?_cons, hm]
  simp

theorem notMarker_iff {s : String} : NotMarker s ↔ (s == "blobs" || s == "compressed-blobs") = false := by
  simp [NotMarker]

/-- The marker the parser looks for. -/
theorem findIdx?_marker {leading suffix : List String} {marker : String}
    (hleading : ∀ s ∈ leading, NotMarker s) (hm : ¬ NotMarker marker) :
    (leading ++ marker :: suffix).findIdx? (fun part => part == "blobs" || part == "compressed-blobs") =
      some leading.length := by
  apply findIdx?_append_cons
  · intro s hs
    exact notMarker_iff.mp (hleading s hs)
  · exact Bool.eq_true_of_not_eq_false (fun hf => hm (notMarker_iff.mpr hf))

theorem findIdx?_notMarker {segments : List String} (h : ∀ s ∈ segments, NotMarker s) :
    segments.findIdx? (fun part => part == "blobs" || part == "compressed-blobs") = none :=
  List.findIdx?_eq_none_iff.mpr (fun s hs => notMarker_iff.mp (h s hs))

/-- An upload id is taken off only behind an `uploads` segment, and only when it is not empty. -/
theorem splitUpload_of_not {leading : List String}
    (h : ∀ rest id, leading = rest ++ ["uploads",id] → id = "") :
    splitUpload leading = (Text.join '/' leading,none) := by
  unfold splitUpload
  by_cases hlen : 2 ≤ leading.length
  · rw [dif_pos hlen, if_neg]
    rintro ⟨huploads,hid⟩
    apply hid
    apply h (leading.take (leading.length - 2))
    have hlast : leading.drop (leading.length - 2) =
        [leading[leading.length - 2],leading[leading.length - 1]] := by
      rw [List.drop_eq_getElem_cons (by omega), List.drop_eq_getElem_cons (by omega),
        List.drop_eq_nil_of_le (by omega)]
      congr 3
      omega
    rw [← huploads, ← hlast, List.take_append_drop]
  · rw [dif_neg hlen]

/-- Without an `uploads` segment everything before the marker is the instance name. -/
theorem splitUpload_none {leading : List String} (h : "uploads" ∉ leading) :
    splitUpload leading = (Text.join '/' leading,none) := by
  apply splitUpload_of_not
  intro rest id happ
  rw [happ] at h
  simp at h

theorem splitUpload_some {leading : List String} {id : String} (h : id ≠ "") :
    splitUpload (leading ++ ["uploads",id]) = (Text.join '/' leading,some id) := by
  unfold splitUpload
  simp [h]

theorem fromStr_isOk {name : String} : (DigestAlgorithm.fromStr name).isOk = true ↔ name = "sha256" := by
  unfold DigestAlgorithm.fromStr
  by_cases h : name = "sha256"
  · simp [h, Except.isOk, Except.toBool]
  · simp [h, Except.isOk, Except.toBool]

/-- `sha256` is the algorithm exactly when at least two more segments follow it. -/
theorem splitDigest_iff {parts : List String} {algorithm : Option String} {hash size : String} :
    splitDigest parts = .ok (algorithm,hash,size) ↔
      ∃ further, parts = algorithm.toList ++ hash :: size :: further ∧
        (∀ name, algorithm = some name → name = "sha256") ∧
        (algorithm = none → further ≠ [] → hash ≠ "sha256") := by
  unfold splitDigest
  constructor
  · intro h
    split at h
    · rename_i a b c rest
      by_cases ha : (DigestAlgorithm.fromStr a).isOk = true
      · rw [if_pos ha] at h
        cases h
        refine ⟨rest,rfl,?_,fun hnone => nomatch hnone⟩
        intro name hname
        exact Option.some.inj hname ▸ fromStr_isOk.mp ha
      · rw [if_neg ha] at h
        cases h
        refine ⟨c :: rest,rfl,fun _ hname => (nomatch hname),?_⟩
        intro _ _ hsha
        exact ha (fromStr_isOk.mpr hsha)
    · cases h
      exact ⟨[],rfl,fun _ hname => (nomatch hname),fun _ hne => absurd rfl hne⟩
    · cases h
  · rintro ⟨further,rfl,halgorithm,hprecedence⟩
    cases algorithm with
    | some name =>
      obtain rfl := halgorithm name rfl
      exact if_pos (fromStr_isOk.mpr rfl)
    | none =>
      cases further with
      | nil => rfl
      | cons c rest =>
        have hne := hprecedence rfl (List.cons_ne_nil c rest)
        exact if_neg (fun hok => hne (fromStr_isOk.mp hok))

theorem splitDigest_segments {name : ResourceName} {metadata : List String}
    (h : name.Appendable metadata) : splitDigest (name.digestSegments ++ metadata) =
      .ok (if name.algorithm then some "sha256" else none,name.hash,name.size.toInt.repr) := by
  rw [splitDigest_iff]
  unfold ResourceName.digestSegments
  cases ha : name.algorithm with
  | false => exact ⟨metadata,rfl,fun _ hn => (nomatch hn),fun _ hm => h.algorithm hm ha⟩
  | true => exact ⟨metadata,rfl,fun _ hn => (Option.some.inj hn).symm,fun hn => (nomatch hn)⟩

theorem parseI64_repr (x : Int64) : parseI64 x.toInt.repr = .ok x := by
  have hlo : i64Min ≤ x.toInt := x.le_toInt
  have hhi : x.toInt ≤ i64Max := by
    have := x.toInt_lt
    unfold i64Max
    omega
  rw [parseI64, Text.parseInt_repr (by decide) (by decide) hlo hhi]
  exact congrArg Except.ok (Int64.ofInt_toInt x)

section Render
variable {name : ResourceName} (h : name.Readable) {metadata : List String}
include h

theorem splitUpload_leading : splitUpload (instanceSegments name.instanceName ++ name.uploadSegments) =
    (name.instanceName,name.uploadId) := by
  unfold ResourceName.uploadSegments
  cases hu : name.uploadId with
  | none =>
    rw [List.append_nil, splitUpload_none (fun hm => h.noUpload hu (mem_instanceSegments hm)),
      join_instanceSegments]
  | some id => rw [splitUpload_some (h.uploadId id hu).1, join_instanceSegments]

theorem notMarker_leading {s : String}
    (hs : s ∈ instanceSegments name.instanceName ++ name.uploadSegments) : NotMarker s := by
  rcases List.mem_append.mp hs with hs | hs
  · exact h.instanceName s (mem_instanceSegments hs)
  · unfold ResourceName.uploadSegments at hs
    cases hu : name.uploadId with
    | none =>
      rw [hu] at hs
      exact absurd hs List.not_mem_nil
    | some id =>
      rw [hu] at hs
      rcases List.mem_cons.mp hs with rfl | hs
      · exact ⟨by decide,by decide⟩
      · obtain rfl := List.mem_singleton.mp hs
        exact (h.uploadId _ hu).2.2

/-- The marker is the first trailing segment, and what follows it is split as rendered. -/
theorem parse_renderWith_of (hm : name.Appendable metadata) {marker : String} {suffix : List String}
    (htrail : name.trailing = marker :: suffix)
    (hmarker : ¬ NotMarker marker)
    (hcomp : splitCompression marker (suffix ++ metadata) =
      .ok (name.parsed.compression,name.digestSegments ++ metadata)) :
    parseBytestreamResourceName (name.renderWith metadata) =
      if name.hash = "" then .error .invalidShape
      else if name.size.toInt < 0 then .error .negativeSize
      else .ok name.parsed := by
  have hleading : ∀ s ∈ instanceSegments name.instanceName ++ name.uploadSegments, NotMarker s :=
    fun _ hs => notMarker_leading h hs
  have hdrop : (instanceSegments name.instanceName ++ name.uploadSegments ++
      marker :: (suffix ++ metadata)).drop
        ((instanceSegments name.instanceName ++ name.uploadSegments).length + 1) = suffix ++ metadata := by
    rw [← List.drop_drop, List.drop_left]
    rfl
  have hget : (instanceSegments name.instanceName ++ name.uploadSegments ++
      marker :: (suffix ++ metadata)).getD
        (instanceSegments name.instanceName ++ name.uploadSegments).length "" = marker := by
    simp
  unfold parseBytestreamResourceName
  simp only [ResourceName.split_renderWith h hm.segments, htrail, List.cons_append,
    findIdx?_marker hleading hmarker, List.take_left, hdrop, hget, splitUpload_leading h, hcomp, ok_bind,
    splitDigest_segments hm, parseI64_repr, mapError_ok]
  rfl

/-- Reading back a rendered name finds its parts, unless the hash is empty or the size
is negative. What stands behind the size is ignored. -/
theorem parse_renderWith (hm : name.Appendable metadata) :
    parseBytestreamResourceName (name.renderWith metadata) =
      if name.hash = "" then .error .invalidShape
      else if name.size.toInt < 0 then .error .negativeSize
      else .ok name.parsed := by
  cases hc : name.compressor with
  | none =>
    have htrail : name.trailing = "blobs" :: name.digestSegments := by rw [ResourceName.trailing, hc]
    apply parse_renderWith_of h hm htrail (fun hmark => hmark.1 rfl)
    simp [splitCompression, ResourceName.parsed, hc]
  | some compressor =>
    have htrail : name.trailing = "compressed-blobs" :: compressor :: name.digestSegments := by
      rw [ResourceName.trailing, hc]
    apply parse_renderWith_of h hm htrail (fun hmark => hmark.2 rfl)
    have hne := (h.compressor compressor hc).1
    simp [splitCompression, ResourceName.parsed, hc, hne]

theorem parse_render : parseBytestreamResourceName name.render =
    if name.hash = "" then .error .invalidShape
    else if name.size.toInt < 0 then .error .negativeSize
    else .ok name.parsed := by
  rw [← name.renderWith_nil]
  exact parse_renderWith h name.appendable_nil

end Render

theorem resolveBlobKey_parsed (name : ResourceName) : resolveBlobKey name.parsed =
    .ok ⟨name.instanceName,.sha256,name.hash,.contentAddressableStorage⟩ := by
  unfold resolveBlobKey ResourceName.parsed
  cases name.algorithm with
  | false => rfl
  | true => rfl

/-- A name of well-formed parts is read back as these parts, whatever metadata follow,
and resolves to the key of its hash. -/
theorem resourceName_roundtrip {name : ResourceName} {metadata : List String}
    (hinst : name.instanceName = "" ∨
      ∀ s ∈ Text.split '/' name.instanceName, NotMarker s ∧ s ≠ "uploads")
    (hid : ∀ id, name.uploadId = some id → id ≠ "" ∧ '/' ∉ id.toList ∧ NotMarker id)
    (hcomp : ∀ c, name.compressor = some c → c ≠ "" ∧ '/' ∉ c.toList)
    (hhash : name.hash ≠ "" ∧ '/' ∉ name.hash.toList) (hsize : 0 ≤ name.size.toInt)
    (hm : name.Appendable metadata) :
    parseBytestreamResourceName (name.renderWith metadata) = .ok name.parsed ∧
      resolveBlobKey name.parsed =
        .ok ⟨name.instanceName,.sha256,name.hash,.contentAddressableStorage⟩ := by
  have hempty : Text.split '/' "" = [""] := by decide
  have hplain : ∀ s ∈ Text.split '/' name.instanceName, NotMarker s ∧ s ≠ "uploads" := by
    rcases hinst with hinst | hinst
    · intro s hs
      rw [hinst, hempty] at hs
      obtain rfl := List.mem_singleton.mp hs
      exact ⟨⟨by decide,by decide⟩,by decide⟩
    · exact hinst
  have hreadable : name.Readable := by
    refine ⟨fun s hs => (hplain s hs).1,?_,hid,hcomp,hhash.2⟩
    intro _ hu
    exact (hplain _ hu).2 rfl
  have hparse := parse_renderWith hreadable hm
  rw [if_neg hhash.1, if_neg (Int.not_lt.mpr hsize)] at hparse
  exact ⟨hparse,resolveBlobKey_parsed name⟩

/-- An upload of a compressed blob, with metadata that look like a marker. -/
theorem resourceName_roundtrip_metadata :
    parseBytestreamResourceName "a/b/uploads/7/compressed-blobs/blobs/abc123/12/blobs/" =
      .ok ⟨"a/b",some "7",none,"abc123",12,.named "blobs"⟩ := by
  let name : ResourceName := ⟨"a/b",some "7",some "blobs",false,"abc123",12⟩
  have hsplit : Text.split '/' "a/b" = ["a","b"] := by decide
  have hinst : ∀ s ∈ Text.split '/' "a/b", NotMarker s ∧ s ≠ "uploads" := by
    rw [hsplit]
    simp [NotMarker]
  have hid : ∀ id, name.uploadId = some id → id ≠ "" ∧ '/' ∉ id.toList ∧ NotMarker id := by
    rintro _ ⟨⟩
    exact ⟨by decide,by decide,by decide,by decide⟩
  have hcomp : ∀ c, name.compressor = some c → c ≠ "" ∧ '/' ∉ c.toList := by
    rintro _ ⟨⟩
    exact ⟨by decide,by decide⟩
  have hm : name.Appendable ["blobs",""] := ⟨by decide,fun _ _ => by decide⟩
  have hrender : name.renderWith ["blobs",""] =
      "a/b/uploads/7/compressed-blobs/blobs/abc123/12/blobs/" := by decide
  rw [← hrender]
  exact (resourceName_roundtrip (Or.inr hinst) hid hcomp ⟨by decide,by decide⟩ (by decide) hm).1

example : ((parseBytestreamResourceName "test/uploads/upload-123/blobs/abc123/12").toOption.bind
    (fun r => (resolveBlobKey r).toOption)) =
      some ⟨"test",.sha256,"abc123",.contentAddressableStorage⟩ := by decide

/-- The compressor segment that stands for an encoding. -/
def StorageEncoding.segment : StorageEncoding → Option String
  | .identity => none
  | .zstd => some "zstd"

theorem StorageEncoding.segment_readable {encoding : StorageEncoding} {c : String}
    (h : encoding.segment = some c) : c ≠ "" ∧ '/' ∉ c.toList := by
  cases encoding with
  | identity => cases h
  | zstd =>
    cases h
    exact ⟨by decide,by decide⟩

theorem storageEncoding_parsed {name : ResourceName} {encoding : StorageEncoding}
    (h : name.compressor = encoding.segment) : name.parsed.compression.storageEncoding = .ok encoding := by
  rw [ResourceName.parsed, h]
  cases encoding with
  | identity => rfl
  | zstd => rfl

end ReapiCache
