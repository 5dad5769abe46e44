import ReapiCache.Reference
import ReapiCache.Services.ResourceNameGrammar
import ReapiCache.Services.Uploads

/-! # Normal forms of resource names

A resource has many names: `sha256` may be left out, the size may carry a sign or leading
zeros, an empty instance name may leave its separator behind, and anything may follow the
size. Each accepted name has a normal form, and the server makes no difference between
the two.
-/
namespace ReapiCache
open Interaction

/-- The segments before the marker. -/
def leadingSegments (instanceName : String) (uploadId : Option String) : List String :=
  instanceSegments instanceName ++
    match uploadId with
    | none => []
    | some id => ["uploads",id]

namespace ParsedReadResource

/-- The same resource with the algorithm written out. -/
def explicit (r : ParsedReadResource) : ParsedReadResource := { r with algorithm := some "sha256" }

def normalSegments (r : ParsedReadResource) : List String :=
  leadingSegments r.instanceName r.uploadId ++ r.compression.segments ++
    ["sha256",r.hash,r.expectedSize.toInt.repr]

def normalName (r : ParsedReadResource) : String := Text.join '/' r.normalSegments

theorem normalName_explicit (r : ParsedReadResource) : r.explicit.normalName = r.normalName := rfl

end ParsedReadResource

theorem split_join_segments {l : List String} (hl : l ≠ []) (h : ∀ s ∈ l, '/' ∉ s.toList) :
    Text.split '/' (Text.join '/' l) = l := by
  rw [Text.split_join hl, flatMap_split_of_not_mem h]

/-- An instance name that was put together from segments has these, or is empty. -/
theorem instanceSegments_join {l : List String} (h : ∀ s ∈ l, '/' ∉ s.toList) :
    instanceSegments (Text.join '/' l) = [] ∨ instanceSegments (Text.join '/' l) = l := by
  unfold instanceSegments
  by_cases he : Text.join '/' l = ""
  · exact Or.inl (if_pos he)
  · have hl : l ≠ [] := by
      rintro rfl
      exact he Text.join_nil
    rw [if_neg he]
    exact Or.inr (split_join_segments hl h)

section Leading
variable {leading : List String} {instanceName : String} {uploadId : Option String}
  (h : LeadingReads leading instanceName uploadId) (hslash : ∀ s ∈ leading, '/' ∉ s.toList)
include h hslash

theorem mem_leadingSegments {s : String} (hs : s ∈ leadingSegments instanceName uploadId) : s ∈ leading := by
  unfold leadingSegments at hs
  cases uploadId with
  | none =>
    obtain ⟨rfl,_⟩ := h
    rw [List.append_nil] at hs
    rcases instanceSegments_join hslash with hsegments | hsegments
    · rw [hsegments] at hs
      cases hs
    · rwa [hsegments] at hs
  | some id =>
    obtain ⟨_,rest,rfl,rfl⟩ := h
    rcases List.mem_append.mp hs with hs | hs
    · rcases instanceSegments_join (fun s hs => hslash s (List.mem_append_left _ hs)) with hsegments | hsegments
      · rw [hsegments] at hs
        cases hs
      · rw [hsegments] at hs
        exact List.mem_append_left _ hs
    · exact List.mem_append_right _ hs

theorem leadingReads_normal : LeadingReads (leadingSegments instanceName uploadId) instanceName uploadId := by
  unfold leadingSegments
  cases uploadId with
  | none =>
    obtain ⟨rfl,hnone⟩ := h
    rw [List.append_nil]
    refine ⟨(join_instanceSegments _).symm,?_⟩
    rcases instanceSegments_join hslash with hsegments | hsegments
    · rw [hsegments]
      intro rest id happ
      simp at happ
    · rw [hsegments]
      exact hnone
  | some id => exact ⟨h.1,_,rfl,(join_instanceSegments _).symm⟩

end Leading

/-- The normal form of an accepted name is accepted, as the same resource. -/
theorem parse_normalName {name : String} {r : ParsedReadResource} (h : parseBytestreamResourceName name = .ok r) :
    parseBytestreamResourceName r.normalName = .ok r.explicit := by
  obtain ⟨leading,size,further,hd⟩ := readsAs_of_parse h
  have hsegment : ∀ s ∈ leading ++ r.compression.segments ++ r.algorithm.toList ++ r.hash :: size :: further,
      '/' ∉ s.toList := by
    intro s hs
    rw [← hd.segments] at hs
    exact Text.not_mem_of_mem_split hs
  have hleading : ∀ s ∈ leading, '/' ∉ s.toList := fun s hs => hsegment s (by simp [hs])
  have hslash : ∀ s ∈ r.normalSegments, '/' ∉ s.toList := by
    intro s hs
    simp only [ParsedReadResource.normalSegments, List.mem_append, List.mem_cons, List.not_mem_nil, or_false] at hs
    rcases hs with (hs | hs) | rfl | rfl | rfl
    · exact hleading s (mem_leadingSegments hd.leading hleading hs)
    · exact hsegment s (by simp [hs])
    · decide
    · exact hsegment r.hash (by simp)
    · exact slash_not_mem_repr _
  have hsplit : Text.split '/' r.normalName = r.normalSegments :=
    split_join_segments (by simp [ParsedReadResource.normalSegments]) hslash
  apply parse_of_readsAs
  refine ⟨leadingSegments r.instanceName r.uploadId,r.expectedSize.toInt.repr,[],?_⟩
  rw [hsplit]
  exact {
    segments := by simp [ParsedReadResource.normalSegments, ParsedReadResource.explicit]
    notMarker := fun s hs => hd.notMarker s (mem_leadingSegments hd.leading hleading hs)
    leading := leadingReads_normal hd.leading hleading
    compressor := hd.compressor
    algorithm := fun _ hname => (Option.some.inj hname).symm
    precedence := fun hnone => nomatch hnone
    hash := hd.hash
    size := parseI64_repr _
    nonneg := hd.nonneg }

theorem ne_empty_of_parse {name : String} {r : ParsedReadResource} (h : parseBytestreamResourceName name = .ok r) :
    name ≠ "" := by
  rintro rfl
  have hempty : (parseBytestreamResourceName "").toOption = none := by decide
  rw [h] at hempty
  cases hempty

theorem resolveBlobKey_explicit {name : String} {r : ParsedReadResource}
    (h : parseBytestreamResourceName name = .ok r) : resolveBlobKey r.explicit = resolveBlobKey r := by
  rw [resolveBlobKey_of_parse h]
  rfl

def WriteRequest.renamed (m : WriteRequest) (name : String) : WriteRequest :=
  { m with resourceName := if m.resourceName = "" then "" else name }

/-- Every name that is given is replaced. -/
def WriteStream.renamed (s : WriteStream) (name : String) : WriteStream :=
  { s with messages := s.messages.map (fun m => m.renamed name) }

namespace ByteStreamService
variable {env : Externals} {name : String} {r : ParsedReadResource} (h : parseBytestreamResourceName name = .ok r)

def ReadTarget.explicit (target : ReadTarget) : ReadTarget := { target with parsed := target.parsed.explicit }

def WriteState.normal (state : WriteState) : WriteState :=
  { state with resource := state.resource.map (fun named => (named.2.normalName,named.2.explicit)) }

/-- What has been received so far is of this name. -/
def WriteState.IsFor (state : WriteState) (name : String) (r : ParsedReadResource) : Prop :=
  state.resource = none ∨ state.resource = some (name,r)

include h

theorem readTarget_normalName (offset limit : Int64) :
    readTarget ⟨r.normalName,offset,limit⟩ = (readTarget ⟨name,offset,limit⟩).map ReadTarget.explicit := by
  simp only [readTarget, h, parse_normalName h, mapError_ok, ok_bind, resolveBlobKey_explicit h]
  change (if r.uploadId.isSome then _ else r.compression.storageEncoding >>= _) = _
  by_cases hid : r.uploadId.isSome
  · rw [if_pos hid, if_pos hid]
    rfl
  · rw [if_neg hid, if_neg hid]
    cases r.compression.storageEncoding with
    | error s => rfl
    | ok encoding =>
      simp only [ok_bind]
      by_cases hlimit : encoding ≠ .identity ∧ limit ≠ 0
      · rw [if_pos hlimit, if_pos hlimit]
        rfl
      · rw [if_neg hlimit, if_neg hlimit, resolveBlobKey_of_parse h]
        rfl

theorem read_normalName (offset limit : Int64) :
    read env ⟨r.normalName,offset,limit⟩ = read env ⟨name,offset,limit⟩ := by
  unfold read
  rw [readTarget_normalName h]
  cases readTarget ⟨name,offset,limit⟩ with
  | error s => rfl
  | ok target => rfl

theorem acceptMessage_renamed {state : WriteState} {m : WriteRequest} (hstate : state.IsFor name r)
    (hm : m.resourceName = "" ∨ m.resourceName = name) :
    acceptMessage state.normal (m.renamed r.normalName) = (acceptMessage state m).map WriteState.normal ∧
      ∀ next, acceptMessage state m = .ok next → next.IsFor name r := by
  have hname := ne_empty_of_parse h
  have hnormal := ne_empty_of_parse (parse_normalName h)
  rcases state with ⟨accumulator,resource⟩
  rcases m with ⟨resourceName,writeOffset,finishWrite,data⟩
  unfold acceptMessage
  by_cases hoffset : writeOffset ≠ Int64.ofNat accumulator.length
  · simp [WriteState.normal, WriteRequest.renamed, hoffset, Except.map]
  · rcases hstate with hnone | hsome
    · obtain rfl : resource = none := hnone
      rcases hm with hm | hm
      · obtain rfl : resourceName = "" := hm
        simp [WriteState.normal, WriteRequest.renamed, hoffset, Except.map]
      · obtain rfl : resourceName = name := hm
        cases hid : r.uploadId with
        | none =>
          simp [WriteState.normal, WriteRequest.renamed, hoffset, hname, hnormal, h, parse_normalName h, hid,
            Except.map, ParsedReadResource.explicit]
        | some id =>
          simp [WriteState.normal, WriteRequest.renamed, hoffset, hname, hnormal, h, parse_normalName h, hid,
            Except.map, ParsedReadResource.explicit, WriteState.IsFor]
    · obtain rfl : resource = some (name,r) := hsome
      rcases hm with hm | hm
      · obtain rfl : resourceName = "" := hm
        simp [WriteState.normal, WriteRequest.renamed, hoffset, Except.map, WriteState.IsFor]
      · obtain rfl : resourceName = name := hm
        simp [WriteState.normal, WriteRequest.renamed, hoffset, hname, Except.map, WriteState.IsFor]

theorem receive_renamed (transportError : Option Status) {messages : List WriteRequest}
    (hm : ∀ m ∈ messages, m.resourceName = "" ∨ m.resourceName = name) {state : WriteState}
    (hstate : state.IsFor name r) :
    receive transportError state.normal (messages.map (fun m => m.renamed r.normalName)) =
        (receive transportError state messages).map WriteState.normal ∧
      ∀ last, receive transportError state messages = .ok last → last.IsFor name r := by
  induction messages generalizing state with
  | nil =>
    cases transportError with
    | none => exact ⟨rfl,by rintro _ ⟨⟩⟩
    | some status => exact ⟨rfl,by rintro _ ⟨⟩⟩
  | cons m messages ih =>
    obtain ⟨haccept,hnext⟩ := acceptMessage_renamed h hstate (hm m List.mem_cons_self)
    rw [List.map_cons, receive, receive, haccept]
    cases hm' : acceptMessage state m with
    | error s => exact ⟨rfl,by rintro _ ⟨⟩⟩
    | ok next =>
      have hfor := hnext next hm'
      change (if m.finishWrite then (.ok next.normal : Except Status WriteState) else _) =
          Except.map _ (if m.finishWrite then _ else _) ∧ ∀ last, (if m.finishWrite then _ else _) = _ → _
      by_cases hfinish : m.finishWrite
      · rw [if_pos hfinish, if_pos hfinish]
        exact ⟨rfl,by rintro _ ⟨⟩; exact hfor⟩
      · rw [if_neg hfinish, if_neg hfinish]
        exact ih (fun m hmem => hm m (List.mem_cons_of_mem _ hmem)) hfor

theorem verifyUpload_normal {state : WriteState} (hstate : state.IsFor name r) :
    verifyUpload env state.normal = verifyUpload env state := by
  rcases state with ⟨accumulator,resource⟩
  rcases hstate with hnone | hsome
  · obtain rfl : resource = none := hnone
    rfl
  · obtain rfl : resource = some (name,r) := hsome
    simp only [verifyUpload, WriteState.normal, Option.map_some, okOr_some, ok_bind, resolveBlobKey_explicit h]
    rfl

theorem write_renamed {s : WriteStream} (hs : ∀ m ∈ s.messages, m.resourceName = "" ∨ m.resourceName = name) :
    write env (s.renamed r.normalName) = write env s := by
  have hstart : WriteState.IsFor ⟨[],none⟩ name r := Or.inl rfl
  obtain ⟨hreceive,hstate⟩ := receive_renamed h s.transportError hs hstart
  unfold write
  change (Failing.ofExcept (receive s.transportError (WriteState.normal ⟨[],none⟩)
    (s.messages.map (fun m => m.renamed r.normalName))) >>= _) = _
  rw [hreceive]
  cases hlast : receive s.transportError ⟨[],none⟩ s.messages with
  | error e => rfl
  | ok last =>
    change (Failing.ofExcept (verifyUpload env last.normal) >>= _) = (Failing.ofExcept (verifyUpload env last) >>= _)
    rw [verifyUpload_normal h (hstate last hlast)]

end ByteStreamService

/-- The name and the normal form of its resource cannot be told apart. -/
structure Normalizes (env : Externals) (name : String) (r : ParsedReadResource) : Prop where
  parses : parseBytestreamResourceName r.normalName = .ok r.explicit
  unique : ∀ name' r', parseBytestreamResourceName name' = .ok r' →
    (r'.normalName = r.normalName ↔ r'.explicit = r.explicit)
  reads : ∀ offset limit, serve env (.read ⟨r.normalName,offset,limit⟩) = serve env (.read ⟨name,offset,limit⟩)
  writes : ∀ s : WriteStream, (∀ m ∈ s.messages, m.resourceName = "" ∨ m.resourceName = name) →
    serve env (.write (s.renamed r.normalName)) = serve env (.write s)

/-- Every accepted name has a normal form. It is its own normal form, two names share it
when they differ in spelling only, and requests under the one are served as under the other. -/
theorem names_normalize (env : Externals) {name : String} {r : ParsedReadResource}
    (h : parseBytestreamResourceName name = .ok r) : Normalizes env name r where
  parses := parse_normalName h
  unique := by
    intro name' r' h'
    constructor
    · intro hnormal
      have hparse := parse_normalName h'
      rw [hnormal, parse_normalName h] at hparse
      exact (Except.ok.inj hparse).symm
    · intro hexplicit
      rw [← r'.normalName_explicit, hexplicit, r.normalName_explicit]
  reads := fun offset limit => congrArg (fun p => Response.read <$> ExceptT.run p)
    (ByteStreamService.read_normalName h offset limit)
  writes := fun _ hs => congrArg (fun p => Response.write <$> ExceptT.run p) (ByteStreamService.write_renamed h hs)

/-- A name without the algorithm, with a sign and with metadata, in an instance that ends in `uploads`. -/
theorem names_normalize_metadata :
    parseBytestreamResourceName "a/uploads//compressed-blobs/zstd/abc123/+07/x/blobs" =
        .ok ⟨"a/uploads/",none,none,"abc123",7,.named "zstd"⟩ ∧
      parseBytestreamResourceName "a/uploads//compressed-blobs/zstd/sha256/abc123/7" =
        .ok ⟨"a/uploads/",none,some "sha256","abc123",7,.named "zstd"⟩ := by
  have hname : parseBytestreamResourceName "a/uploads//compressed-blobs/zstd/abc123/+07/x/blobs" =
      .ok ⟨"a/uploads/",none,none,"abc123",7,.named "zstd"⟩ := by rfl
  exact ⟨hname,(names_normalize Reference.externals hname).parses⟩

end ReapiCache
