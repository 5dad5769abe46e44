import ReapiCache.Services.ResourceNameLaws

/-! # The grammar of resource names

What the parser accepts, stated on the segments of a name: which of them precede the
marker, which follow it, and which precedence makes the optional ones unambiguous.
The parser accepts these names and no others, and it never leaves its segments.
-/
namespace ReapiCache
open Interaction

/-- How the segments before the marker name an instance, and possibly an upload. -/
def LeadingReads (leading : List String) (instanceName : String) : Option String → Prop
  | none => instanceName = Text.join '/' leading ∧ ∀ rest id, leading = rest ++ ["uploads",id] → id = ""
  | some id => id ≠ "" ∧ ∃ rest, leading = rest ++ ["uploads",id] ∧ instanceName = Text.join '/' rest

/-- The marker, with the compressor name that belongs to it. -/
def Compression.segments : Compression → List String
  | .identity => ["blobs"]
  | .named compressor => ["compressed-blobs",compressor]

/-- The segments of a name, in order. -/
structure Decomposes (segments : List String) (resource : ParsedReadResource) (leading : List String)
    (size : String) (further : List String) : Prop where
  segments : segments = leading ++ resource.compression.segments ++ resource.algorithm.toList ++
    resource.hash :: size :: further
  notMarker : ∀ s ∈ leading, NotMarker s
  leading : LeadingReads leading resource.instanceName resource.uploadId
  compressor : resource.compression ≠ .named ""
  algorithm : ∀ name, resource.algorithm = some name → name = "sha256"
  /-- Before at least two more segments `sha256` is the algorithm. -/
  precedence : resource.algorithm = none → further ≠ [] → resource.hash ≠ "sha256"
  hash : resource.hash ≠ ""
  size : parseI64 size = .ok resource.expectedSize
  nonneg : 0 ≤ resource.expectedSize.toInt

/-- The grammar: a name with such a decomposition. -/
def ReadsAs (resourceName : String) (resource : ParsedReadResource) : Prop :=
  ∃ leading size further, Decomposes (Text.split '/' resourceName) resource leading size further

theorem splitUpload_iff {leading : List String} {instanceName : String} {uploadId : Option String} :
    splitUpload leading = (instanceName,uploadId) ↔ LeadingReads leading instanceName uploadId := by
  by_cases h : ∀ rest id, leading = rest ++ ["uploads",id] → id = ""
  · rw [splitUpload_of_not h, Prod.mk.injEq]
    cases uploadId with
    | none =>
      constructor
      · rintro ⟨rfl,_⟩
        exact ⟨rfl,h⟩
      · rintro ⟨rfl,_⟩
        exact ⟨rfl,rfl⟩
    | some id =>
      constructor
      · rintro ⟨_,⟨⟩⟩
      · rintro ⟨hid,rest,hrest,_⟩
        exact absurd (h rest id hrest) hid
  · push Not at h
    obtain ⟨rest,id,rfl,hid⟩ := h
    rw [splitUpload_some hid, Prod.mk.injEq]
    cases uploadId with
    | none =>
      constructor
      · rintro ⟨_,⟨⟩⟩
      · rintro ⟨_,hnone⟩
        exact absurd (hnone rest id rfl) hid
    | some id' =>
      constructor
      · rintro ⟨rfl,hsome⟩
        obtain rfl := Option.some.inj hsome
        exact ⟨hid,rest,rfl,rfl⟩
      · rintro ⟨_,rest',happ,rfl⟩
        obtain ⟨rfl,hpair⟩ := List.append_inj' happ rfl
        obtain ⟨_,hsingle⟩ := List.cons_eq_cons.mp hpair
        obtain ⟨rfl,_⟩ := List.cons_eq_cons.mp hsingle
        exact ⟨rfl,rfl⟩

theorem splitCompression_iff {marker : String} (hm : ¬ NotMarker marker) {suffix digestParts : List String}
    {compression : Compression} : splitCompression marker suffix = .ok (compression,digestParts) ↔
      marker :: suffix = compression.segments ++ digestParts ∧ compression ≠ .named "" := by
  unfold splitCompression
  by_cases hblobs : marker = "blobs"
  · subst hblobs
    rw [if_pos rfl]
    cases compression with
    | identity => simp [Compression.segments]
    | named compressor => simp [Compression.segments]
  · have hcompressed : marker = "compressed-blobs" := by
      by_contra hne
      exact hm ⟨hblobs,hne⟩
    subst hcompressed
    rw [if_neg hblobs]
    cases suffix with
    | nil => cases compression <;> simp [Compression.segments]
    | cons c suffix =>
      by_cases hc : c = ""
      · subst hc
        cases compression with
        | identity => simp [Compression.segments]
        | named compressor =>
          simp only [Compression.segments]
          grind
      · cases compression with
        | identity => simp [Compression.segments, hc]
        | named compressor =>
          simp only [Compression.segments]
          grind

/-- A name is accepted when the parts before and after its first marker are. -/
theorem parse_of_marker {resourceName marker : String} {leading suffix : List String}
    (hsplit : Text.split '/' resourceName = leading ++ marker :: suffix)
    (hleading : ∀ s ∈ leading, NotMarker s) (hm : ¬ NotMarker marker) {resource : ParsedReadResource} :
    parseBytestreamResourceName resourceName = .ok resource ↔
      splitUpload leading = (resource.instanceName,resource.uploadId) ∧
      ∃ digestParts size, splitCompression marker suffix = .ok (resource.compression,digestParts) ∧
        splitDigest digestParts = .ok (resource.algorithm,resource.hash,size) ∧ resource.hash ≠ "" ∧
        parseI64 size = .ok resource.expectedSize ∧ 0 ≤ resource.expectedSize.toInt := by
  have hdrop : (leading ++ marker :: suffix).drop (leading.length + 1) = suffix := by simp
  have hget : (leading ++ marker :: suffix).getD leading.length "" = marker := by simp
  unfold parseBytestreamResourceName
  simp only [hsplit, findIdx?_marker hleading hm, List.take_left, hdrop, hget, bind_eq_ok]
  constructor
  · rintro ⟨⟨compression,digestParts⟩,hcompression,⟨algorithm,hash,size⟩,hdigest,h⟩
    by_cases hhash : hash = ""
    · simp only [if_pos hhash] at h
      cases h
    · simp only [if_neg hhash] at h
      obtain ⟨expectedSize,hsize,h⟩ := bind_eq_ok.mp h
      rw [mapError_eq_ok] at hsize
      by_cases hneg : expectedSize.toInt < 0
      · rw [if_pos hneg] at h
        cases h
      · rw [if_neg hneg] at h
        obtain rfl := Except.ok.inj h
        exact ⟨rfl,digestParts,size,hcompression,hdigest,hhash,hsize,Int.not_lt.mp hneg⟩
  · rintro ⟨hupload,digestParts,size,hcompression,hdigest,hhash,hsize,hnonneg⟩
    refine ⟨_,hcompression,_,hdigest,?_⟩
    simp only [if_neg hhash, hsize, mapError_ok, ok_bind, if_neg (Int.not_lt.mpr hnonneg), hupload]

/-- Without a marker a name is refused. -/
theorem parse_of_notMarker {resourceName : String}
    (h : ∀ s ∈ Text.split '/' resourceName, NotMarker s) :
    parseBytestreamResourceName resourceName = .error .invalidShape := by
  unfold parseBytestreamResourceName
  simp only [findIdx?_notMarker h]

/-- The first marker of a name. -/
theorem exists_marker (segments : List String) : (∀ s ∈ segments, NotMarker s) ∨
    ∃ leading marker suffix, segments = leading ++ marker :: suffix ∧
      (∀ s ∈ leading, NotMarker s) ∧ ¬ NotMarker marker := by
  induction segments with
  | nil => exact Or.inl (fun _ hs => absurd hs List.not_mem_nil)
  | cons s segments ih =>
    by_cases hs : NotMarker s
    · rcases ih with hall | ⟨leading,marker,suffix,rfl,hleading,hm⟩
      · exact Or.inl (List.forall_mem_cons.mpr ⟨hs,hall⟩)
      · exact Or.inr ⟨s :: leading,marker,suffix,rfl,List.forall_mem_cons.mpr ⟨hs,hleading⟩,hm⟩
    · exact Or.inr ⟨[],s,segments,rfl,fun _ ht => absurd ht List.not_mem_nil,hs⟩

theorem Compression.segments_cons (compression : Compression) :
    ∃ marker rest, compression.segments = marker :: rest ∧ ¬ NotMarker marker := by
  cases compression with
  | identity => exact ⟨"blobs",[],rfl,fun h => h.1 rfl⟩
  | named compressor => exact ⟨"compressed-blobs",[compressor],rfl,fun h => h.2 rfl⟩

/-- Soundness: whatever is accepted has the decomposition that the result states. -/
theorem readsAs_of_parse {resourceName : String} {resource : ParsedReadResource}
    (h : parseBytestreamResourceName resourceName = .ok resource) : ReadsAs resourceName resource := by
  rcases exists_marker (Text.split '/' resourceName) with hall | ⟨leading,marker,suffix,hsplit,hleading,hm⟩
  · rw [parse_of_notMarker hall] at h
    cases h
  · obtain ⟨hupload,digestParts,size,hcompression,hdigest,hhash,hsize,hnonneg⟩ :=
      (parse_of_marker hsplit hleading hm).mp h
    obtain ⟨hsuffix,hcompressor⟩ := (splitCompression_iff hm).mp hcompression
    obtain ⟨further,rfl,halgorithm,hprecedence⟩ := splitDigest_iff.mp hdigest
    refine ⟨leading,size,further,?_,hleading,splitUpload_iff.mp hupload,hcompressor,halgorithm,
      hprecedence,hhash,hsize,hnonneg⟩
    rw [hsplit, hsuffix]
    simp only [List.append_assoc]

/-- Completeness: a name with a decomposition is accepted as what it states. -/
theorem parse_of_readsAs {resourceName : String} {resource : ParsedReadResource}
    (h : ReadsAs resourceName resource) : parseBytestreamResourceName resourceName = .ok resource := by
  obtain ⟨leading,size,further,hd⟩ := h
  obtain ⟨marker,rest,hsegments,hm⟩ := resource.compression.segments_cons
  have hsplit : Text.split '/' resourceName = leading ++ marker :: (rest ++
      (resource.algorithm.toList ++ resource.hash :: size :: further)) := by
    rw [hd.segments, hsegments]
    simp only [List.append_assoc, List.cons_append]
  rw [parse_of_marker hsplit hd.notMarker hm]
  refine ⟨splitUpload_iff.mpr hd.leading,_,size,?_,
    splitDigest_iff.mpr ⟨further,rfl,hd.algorithm,hd.precedence⟩,hd.hash,hd.size,hd.nonneg⟩
  apply (splitCompression_iff hm).mpr
  refine ⟨?_,hd.compressor⟩
  rw [hsegments, List.cons_append]

/-- A name that parses resolves to a key of the content addressable storage. -/
theorem resolveBlobKey_of_parse {name : String} {parsed : ParsedReadResource}
    (h : parseBytestreamResourceName name = .ok parsed) : resolveBlobKey parsed =
      .ok ⟨parsed.instanceName,.sha256,parsed.hash,.contentAddressableStorage⟩ := by
  obtain ⟨_,_,_,hd⟩ := readsAs_of_parse h
  unfold resolveBlobKey
  cases ha : parsed.algorithm with
  | none => rfl
  | some a =>
    obtain rfl := hd.algorithm a ha
    rfl

/-- The source takes elements and slices of its segments by position. Here whatever panics
there has no result: a position or a slice bound beyond the segments, a difference below
zero, and a marker other than the two. -/
def checkedSub (a b : ℕ) : Option ℕ := if b ≤ a then some (a - b) else none

def elementAt (parts : List String) (i : ℕ) : Option String := parts[i]?

def sliceTo (parts : List String) (n : ℕ) : Option (List String) :=
  if n ≤ parts.length then some (parts.take n) else none

def sliceFrom (parts : List String) (n : ℕ) : Option (List String) :=
  if n ≤ parts.length then some (parts.drop n) else none

/-- The conjunction stops at its first false part. -/
def endsInUpload (leading : List String) : Option Bool :=
  if 2 ≤ leading.length then do
    let word ← elementAt leading (← checkedSub leading.length 2)
    if word = "uploads" then do
      let id ← elementAt leading (← checkedSub leading.length 1)
      pure (decide (id ≠ ""))
    else pure false
  else pure false

def splitUploadIndexed (leading : List String) : Option (String × Option String) := do
  if ← endsInUpload leading then
    let rest ← sliceTo leading (← checkedSub leading.length 2)
    let id ← elementAt leading (← checkedSub leading.length 1)
    pure (Text.join '/' rest,some id)
  else pure (Text.join '/' leading,none)

def splitCompressionIndexed (marker : String) (suffix : List String) :
    ExceptT ParseResourceError Option (Compression × List String) :=
  if marker = "blobs" then pure (.identity,suffix)
  else if marker = "compressed-blobs" then
    match suffix with
    | [] => throw .invalidShape
    | compressor :: digestParts =>
      if compressor = "" then throw .invalidShape else pure (.named compressor,digestParts)
  else liftM (none : Option (Compression × List String))

def namesAlgorithm (digestParts : List String) : Option Bool :=
  if 3 ≤ digestParts.length then do
    let name ← elementAt digestParts 0
    pure (DigestAlgorithm.fromStr name).isOk
  else pure false

def splitDigestIndexed (digestParts : List String) :
    ExceptT ParseResourceError Option (Option String × String × String) := do
  if ← namesAlgorithm digestParts then
    let name ← elementAt digestParts 0
    let hash ← elementAt digestParts 1
    let size ← elementAt digestParts 2
    pure (some name,hash,size)
  else if 2 ≤ digestParts.length then
    let hash ← elementAt digestParts 0
    let size ← elementAt digestParts 1
    pure (none,hash,size)
  else throw .invalidShape

def parseBytestreamResourceNameIndexed (resourceName : String) :
    ExceptT ParseResourceError Option ParsedReadResource :=
  let parts := Text.split '/' resourceName
  match parts.findIdx? (fun part => part == "blobs" || part == "compressed-blobs") with
  | none => throw .invalidShape
  | some markerIndex => do
    let leading ← sliceTo parts markerIndex
    let (instanceName, uploadId) ← splitUploadIndexed leading
    let marker ← elementAt parts markerIndex
    let suffix ← sliceFrom parts (markerIndex + 1)
    let (compression, digestParts) ← splitCompressionIndexed marker suffix
    let (algorithm, hash, size) ← splitDigestIndexed digestParts
    if hash = "" then throw .invalidShape
    else
      let expectedSize ← liftExcept ((parseI64 size).mapError ParseResourceError.invalidSize)
      if expectedSize.toInt < 0 then throw .negativeSize
      else pure { instanceName, uploadId, algorithm, hash, expectedSize, compression }

/-- A result or an error, but no panic. -/
def settled {ε α : Type} (result : Except ε α) : ExceptT ε Option α := ExceptT.mk (some result)

section Settled
variable {ε α β : Type} {f : α → ExceptT ε Option β}

theorem lift_some_bind (a : α) : ((liftM (some a) : ExceptT ε Option α) >>= f) = f a := rfl
theorem settled_ok_bind (a : α) : (settled (.ok a) >>= f) = f a := rfl
theorem liftExcept_eq (x : Except ε α) : (liftExcept x : ExceptT ε Option α) = settled x := by
  cases x <;> rfl

end Settled

theorem splitUploadIndexed_eq (leading : List String) :
    splitUploadIndexed leading = some (splitUpload leading) := by
  unfold splitUploadIndexed endsInUpload splitUpload
  by_cases hlen : 2 ≤ leading.length
  · have hsub : checkedSub leading.length 2 = some (leading.length - 2) := if_pos hlen
    have hsub' : checkedSub leading.length 1 = some (leading.length - 1) := if_pos (by omega)
    have hslice : sliceTo leading (leading.length - 2) = some (leading.take (leading.length - 2)) :=
      if_pos (by omega)
    have hword : elementAt leading (leading.length - 2) = some leading[leading.length - 2] := by
      simp [elementAt]
    have hid : elementAt leading (leading.length - 1) = some leading[leading.length - 1] := by
      simp [elementAt]
    by_cases huploads : leading[leading.length - 2] = "uploads"
    · by_cases hempty : leading[leading.length - 1] = ""
      · simp [hlen, hsub, hsub', hword, hid, huploads, hempty]
      · simp [hlen, hsub, hsub', hword, hid, hslice, huploads, hempty]
    · simp [hlen, hsub, hword, huploads]
  · rw [if_neg hlen, dif_neg hlen]
    rfl

theorem splitCompressionIndexed_eq {marker : String} (hm : ¬ NotMarker marker) (suffix : List String) :
    splitCompressionIndexed marker suffix = settled (splitCompression marker suffix) := by
  unfold splitCompressionIndexed splitCompression
  by_cases hblobs : marker = "blobs"
  · rw [if_pos hblobs, if_pos hblobs]
    rfl
  · have hcompressed : marker = "compressed-blobs" := by
      by_contra hne
      exact hm ⟨hblobs,hne⟩
    rw [if_neg hblobs, if_neg hblobs, if_pos hcompressed]
    cases suffix with
    | nil => rfl
    | cons c suffix =>
      by_cases hc : c = ""
      · simp only [if_pos hc]
        rfl
      · simp only [if_neg hc]
        rfl

theorem splitDigestIndexed_eq (digestParts : List String) :
    splitDigestIndexed digestParts = settled (splitDigest digestParts) := by
  match digestParts with
  | [] => rfl
  | [_] => rfl
  | [_,_] => rfl
  | a :: b :: c :: rest =>
    have hnames : namesAlgorithm (a :: b :: c :: rest) = some (DigestAlgorithm.fromStr a).isOk := by
      simp [namesAlgorithm, elementAt]
    have hdigest : splitDigest (a :: b :: c :: rest) =
        if (DigestAlgorithm.fromStr a).isOk then .ok (some a,b,c) else .ok (none,a,b) := rfl
    unfold splitDigestIndexed
    rw [hnames, hdigest]
    cases (DigestAlgorithm.fromStr a).isOk with
    | true => rfl
    | false => rfl

/-- No position and no slice of the parser is out of range, and no difference is negative. -/
theorem parseIndexed_eq (resourceName : String) :
    parseBytestreamResourceNameIndexed resourceName = settled (parseBytestreamResourceName resourceName) := by
  rcases exists_marker (Text.split '/' resourceName) with hall | ⟨leading,marker,suffix,hsplit,hleading,hm⟩
  · rw [parse_of_notMarker hall]
    unfold parseBytestreamResourceNameIndexed
    simp only [findIdx?_notMarker hall]
    rfl
  · have hdrop : (leading ++ marker :: suffix).drop (leading.length + 1) = suffix := by simp
    have hget : (leading ++ marker :: suffix).getD leading.length "" = marker := by simp
    have hlen : (leading ++ marker :: suffix).length = leading.length + (suffix.length + 1) := by simp
    have hto : sliceTo (leading ++ marker :: suffix) leading.length = some leading := by
      rw [sliceTo, if_pos (by omega), List.take_left]
    have hfrom : sliceFrom (leading ++ marker :: suffix) (leading.length + 1) = some suffix := by
      rw [sliceFrom, if_pos (by omega), hdrop]
    have helement : elementAt (leading ++ marker :: suffix) leading.length = some marker := by
      simp [elementAt]
    unfold parseBytestreamResourceNameIndexed parseBytestreamResourceName
    simp only [hsplit, findIdx?_marker hleading hm, hto, hfrom, helement, lift_some_bind,
      splitUploadIndexed_eq, List.take_left, hdrop, hget, splitCompressionIndexed_eq hm,
      splitDigestIndexed_eq, liftExcept_eq]
    cases splitCompression marker suffix with
    | error err => rfl
    | ok compression =>
      simp only [settled_ok_bind, ok_bind]
      cases splitDigest compression.2 with
      | error err => rfl
      | ok digest =>
        simp only [settled_ok_bind, ok_bind]
        by_cases hhash : digest.2.1 = ""
        · simp only [if_pos hhash]
          rfl
        · simp only [if_neg hhash]
          cases (parseI64 digest.2.2).mapError ParseResourceError.invalidSize with
          | error err => rfl
          | ok expectedSize =>
            simp only [settled_ok_bind, ok_bind]
            by_cases hneg : expectedSize.toInt < 0
            · simp only [if_pos hneg]
              rfl
            · simp only [if_neg hneg]
              rfl

/-- The parser accepts exactly the names of the grammar, each as what its segments state.
Every other name is refused with an error, and no name makes the parser panic. -/
theorem resourceName_grammar (resourceName : String) :
    (∀ resource, parseBytestreamResourceName resourceName = .ok resource ↔
      ReadsAs resourceName resource) ∧
    ((∃ err, parseBytestreamResourceName resourceName = .error err) ↔
      ∀ resource, ¬ ReadsAs resourceName resource) ∧
    parseBytestreamResourceNameIndexed resourceName = settled (parseBytestreamResourceName resourceName) := by
  have hexact : ∀ resource, parseBytestreamResourceName resourceName = .ok resource ↔
      ReadsAs resourceName resource := fun _ => ⟨readsAs_of_parse,parse_of_readsAs⟩
  refine ⟨hexact,?_,parseIndexed_eq resourceName⟩
  cases hparse : parseBytestreamResourceName resourceName with
  | error err =>
    constructor
    · intro _ resource hreads
      rw [(hexact resource).mpr hreads] at hparse
      cases hparse
    · intro _
      exact ⟨err,rfl⟩
  | ok resource =>
    constructor
    · rintro ⟨err,herr⟩
      cases herr
    · intro hnone
      exact absurd ((hexact resource).mp hparse) (hnone resource)

example : (parseBytestreamResourceName "test/blobs/sha256/abc123/12").toOption =
    some ⟨"test",none,some "sha256","abc123",12,.identity⟩ := by decide

/-- Before one more segment only, `sha256` is the hash. -/
example : (parseBytestreamResourceName "blobs/sha256/12").toOption =
    some ⟨"",none,none,"sha256",12,.identity⟩ := by decide

example : (parseBytestreamResourceName "uploads/7/blobs/sha256/12/x").toOption = none := by decide

end ReapiCache
