import ReapiCache.Services.ResourceNameGrammar
import ReapiCache.Server.Lookups

/-! # The window a read delivers

Once the name is resolved and the entry decoded, a read is a slice of the content, cut
into chunks. A plain read may be limited, a compressed one may not; the offset has to be
inside the content for both.
-/
namespace ReapiCache
open Interaction ByteStreamService
variable {env : Externals}

namespace ByteStreamService
variable {name : String} {parsed : ParsedReadResource} {encoding : StorageEncoding}

/-- Only a compressed read looks at the limit while it resolves the name. -/
theorem readTarget_of_parse (hparse : parseBytestreamResourceName name = .ok parsed)
    (hupload : parsed.uploadId = none) (hencoding : parsed.compression = encoding.compression)
    (offset limit : Int64) : readTarget ⟨name,offset,limit⟩ =
      if encoding ≠ .identity ∧ limit ≠ 0 then
        .error (.invalidArgument "read_limit is not supported for compressed reads")
      else .ok ⟨parsed,encoding,CasService.casKey parsed.instanceName .sha256 parsed.hash⟩ := by
  have hstorage := storageEncoding_eq_ok.mpr hencoding
  unfold readTarget
  rw [hparse, mapError_ok, ok_bind, hupload, if_neg (by simp), hstorage, ok_bind,
    resolveBlobKey_of_parse hparse]
  rfl

end ByteStreamService

/-- A read of the name delivers these responses. -/
def Reads (env : Externals) (store : InMemoryStore) (name : String) (offset limit : Int64)
    (responses : List ReadResponse) : Prop :=
  (execute env (.read ⟨name,offset,limit⟩) store).1 = .read (.ok responses)

theorem execute_read_error {store : InMemoryStore} {request : ReadRequest} {s : Status}
    (h : readTarget request = .error s) :
    (execute env (.read request) store).1 = .read (.error s) := by
  simp only [execute, serve, Program.exec_map, read_eq, h, Failing.exec_bind, Failing.exec_ofExcept]

/-- What every read of the name delivers, when the name states the size of the content. -/
structure ReadsWindows (env : Externals) (store : InMemoryStore) (name : String) (parsed : ParsedReadResource)
    (d : Bytes) : Prop where
  plain : parsed.compression = .identity → ∀ offset limit : Int64,
    ((∃ responses, Reads env store name offset limit responses) ↔
      0 ≤ offset.toInt ∧ offset.toInt ≤ d.length ∧ 0 ≤ limit.toInt) ∧
    ∀ responses, Reads env store name offset limit responses →
      streamed responses = window offset.toInt.toNat limit.toInt.toNat d
  compressed : parsed.compression = .named "zstd" → ∀ offset limit : Int64,
    ((∃ responses, Reads env store name offset limit responses) ↔
      limit = 0 ∧ 0 ≤ offset.toInt ∧ offset.toInt ≤ d.length) ∧
    ∀ responses, Reads env store name offset limit responses →
      env.Decompresses (streamed responses) (d.drop offset.toInt.toNat)
  chunked : ∀ encoding : StorageEncoding, parsed.compression = encoding.compression →
    ∀ (offset limit : Int64) responses, Reads env store name offset limit responses →
      WellChunked READ_CHUNK_SIZE (responses.map ReadResponse.data)
  resumed : parsed.compression = .identity → ∀ a b : Int64, 0 ≤ a.toInt → a.toInt < b.toInt →
    b.toInt ≤ d.length → ∃ first second whole, Reads env store name a (b - a) first ∧
      Reads env store name b 0 second ∧ Reads env store name a 0 whole ∧
      streamed first ++ streamed second = streamed whole

section Store
variable {store : InMemoryStore} (hopen : store.poisoned = false) (hint : CasIntegrity env store)
  {name : String} {parsed : ParsedReadResource} {encoding : StorageEncoding} {d : Bytes}
  (hparse : parseBytestreamResourceName name = .ok parsed) (hupload : parsed.uploadId = none)
  (hencoding : parsed.compression = encoding.compression)
  (hheld : store.Held env (CasService.casKey parsed.instanceName .sha256 parsed.hash) d)
  (hsize : parsed.expectedSize.toInt = d.length)
include hopen hint hparse hupload hencoding hheld hsize

/-- A read with a permitted limit answers with the chunks of the window. -/
theorem execute_read_window {offset limit : Int64} (hlimit : ¬ (encoding ≠ .identity ∧ limit ≠ 0)) :
    (execute env (.read ⟨name,offset,limit⟩) store).1 =
      .read (readWindow env ⟨name,offset,limit⟩ encoding d >>= fun data =>
        .ok ((chunks READ_CHUNK_SIZE data).map ReadResponse.mk)) := by
  have htarget := readTarget_of_parse hparse hupload hencoding offset limit
  rw [if_neg hlimit] at htarget
  obtain ⟨b,hb,hd⟩ := hheld
  obtain ⟨d',hd',hhash⟩ := hint _ b rfl hb
  obtain rfl := hd.unique hd'
  have hidentity := (readIdentity_of_holds
    ⟨parsed,encoding,CasService.casKey parsed.instanceName .sha256 parsed.hash⟩ hd hhash).1 hsize
  rw [execute_read hopen htarget, hb, Option.map_some, answerRead, hidentity, ok_bind]

theorem reads_iff_window {offset limit : Int64} (hlimit : ¬ (encoding ≠ .identity ∧ limit ≠ 0))
    {responses : List ReadResponse} : Reads env store name offset limit responses ↔
      ∃ data, readWindow env ⟨name,offset,limit⟩ encoding d = .ok data ∧
        responses = (chunks READ_CHUNK_SIZE data).map ReadResponse.mk := by
  unfold Reads
  rw [execute_read_window hopen hint hparse hupload hencoding hheld hsize hlimit, Response.read.injEq,
    bind_eq_ok]
  simp only [Except.ok.injEq, eq_comm]

theorem reads_chunked {offset limit : Int64} {responses : List ReadResponse}
    (h : Reads env store name offset limit responses) :
    WellChunked READ_CHUNK_SIZE (responses.map ReadResponse.data) := by
  by_cases hlimit : encoding ≠ .identity ∧ limit ≠ 0
  · have htarget := readTarget_of_parse hparse hupload hencoding offset limit
    rw [if_pos hlimit] at htarget
    unfold Reads at h
    rw [execute_read_error htarget] at h
    cases h
  · obtain ⟨data,_,rfl⟩ := (reads_iff_window hopen hint hparse hupload hencoding hheld hsize hlimit).mp h
    have hid : ReadResponse.data ∘ ReadResponse.mk = id := rfl
    rw [List.map_map, hid, List.map_id]
    exact chunks_wellChunked (by decide) data

omit encoding hencoding in
/-- A plain read delivers its window. -/
theorem reads_plain (hplain : parsed.compression = .identity) (offset limit : Int64) :
    ((∃ responses, Reads env store name offset limit responses) ↔
      0 ≤ offset.toInt ∧ offset.toInt ≤ d.length ∧ 0 ≤ limit.toInt) ∧
    ∀ responses, Reads env store name offset limit responses →
      streamed responses = window offset.toInt.toNat limit.toInt.toNat d := by
  have hencoding : parsed.compression = StorageEncoding.identity.compression := hplain
  have hwindow : ∀ responses, Reads env store name offset limit responses ↔ _ := fun _ =>
    reads_iff_window hopen hint hparse hupload hencoding hheld hsize (by simp)
  simp only [hwindow, readWindow_plain]
  constructor
  · constructor
    · rintro ⟨_,_,⟨hrange,_⟩,_⟩
      exact hrange
    · exact fun hrange => ⟨_,_,⟨hrange,rfl⟩,rfl⟩
  · rintro _ ⟨_,⟨_,rfl⟩,rfl⟩
    exact streamed_chunks _

omit encoding hencoding in
/-- A compressed read delivers the rest of the content from its offset. -/
theorem reads_compressed (hz : env.ZstdRoundTrip) (hc : env.CompressionTotal)
    (hzstd : parsed.compression = .named "zstd") (offset limit : Int64) :
    ((∃ responses, Reads env store name offset limit responses) ↔
      limit = 0 ∧ 0 ≤ offset.toInt ∧ offset.toInt ≤ d.length) ∧
    ∀ responses, Reads env store name offset limit responses →
      env.Decompresses (streamed responses) (d.drop offset.toInt.toNat) := by
  have hencoding : parsed.compression = StorageEncoding.zstd.compression := hzstd
  by_cases hl : limit = 0
  · subst hl
    have hwindow : ∀ responses, Reads env store name offset 0 responses ↔ _ := fun _ =>
      reads_iff_window hopen hint hparse hupload hencoding hheld hsize (by simp)
    obtain ⟨b,hb,hd⟩ := hheld
    have hbound := hd.bounded
    rw [hd.uncompressedSize] at hbound
    obtain ⟨hrange,hdec⟩ := readWindow_compressed hc hz name offset 0 hbound
    simp only [hwindow, ← hrange, true_and]
    constructor
    · constructor
      · rintro ⟨_,data,hdata,_⟩
        exact ⟨data,hdata⟩
      · rintro ⟨data,hdata⟩
        exact ⟨_,data,hdata,rfl⟩
    · rintro _ ⟨data,hdata,rfl⟩
      rw [streamed_chunks]
      exact hdec data hdata
  · have hnone : ∀ responses, ¬ Reads env store name offset limit responses := by
      intro responses h
      have htarget := readTarget_of_parse hparse hupload hencoding offset limit
      rw [if_pos ⟨by decide,hl⟩] at htarget
      unfold Reads at h
      rw [execute_read_error htarget] at h
      cases h
    refine ⟨iff_of_false ?_ (fun h => hl h.1),fun responses h => absurd h (hnone responses)⟩
    rintro ⟨responses,h⟩
    exact hnone responses h

omit encoding hencoding in
/-- A download that was cut off is completed by a read from where it stopped. -/
theorem reads_resumed (hplain : parsed.compression = .identity) {a b : Int64} (ha : 0 ≤ a.toInt)
    (hab : a.toInt < b.toInt) (hb : b.toInt ≤ d.length) :
    ∃ first second whole, Reads env store name a (b - a) first ∧ Reads env store name b 0 second ∧
      Reads env store name a 0 whole ∧ streamed first ++ streamed second = streamed whole := by
  have hread := reads_plain hopen hint hparse hupload hheld hsize hplain
  have hlimit : (b - a).toInt = b.toInt - a.toInt :=
    Int64.toInt_sub_of_le b a (Int64.le_iff_toInt_le.mpr ha) (Int64.le_iff_toInt_le.mpr hab.le)
  obtain ⟨first,hfirst⟩ := (hread a (b - a)).1.mpr ⟨ha,by omega,by omega⟩
  obtain ⟨second,hsecond⟩ := (hread b 0).1.mpr ⟨by omega,hb,Int.le_refl _⟩
  obtain ⟨whole,hwhole⟩ := (hread a 0).1.mpr ⟨ha,by omega,Int.le_refl _⟩
  refine ⟨first,second,whole,hfirst,hsecond,hwhole,?_⟩
  have hwindow : (b - a).toInt.toNat = b.toInt.toNat - a.toInt.toNat := by omega
  have hlt : a.toInt.toNat < b.toInt.toNat := by omega
  rw [(hread a (b - a)).2 first hfirst, (hread b 0).2 second hsecond, (hread a 0).2 whole hwhole, hwindow]
  exact window_resumed hlt d

end Store

theorem read_windows (hz : env.ZstdRoundTrip) (he : env.HashesEmpty) (hc : env.CompressionTotal)
    (schedule : List (Interaction.Action Request)) {key : BlobKey} {b : StoredBlob} {d : Bytes}
    (hb : (serverFrom env schedule).world.state.blobs key = some b)
    (hd : Decodes env b.metadata.encoding b.data d) {name : String} {parsed : ParsedReadResource}
    (hparse : parseBytestreamResourceName name = .ok parsed) (hupload : parsed.uploadId = none)
    (hkey : resolveBlobKey parsed = .ok key) (hsize : parsed.expectedSize.toInt = d.length) :
    ReadsWindows env (serverFrom env schedule).world.state name parsed d := by
  obtain ⟨hopen,hint⟩ := serverFrom_sound hz he schedule
  obtain rfl := Except.ok.inj (hkey.symm.trans (resolveBlobKey_of_parse hparse))
  obtain ⟨d',hholds,_⟩ := hint _ b rfl hb
  obtain rfl := hd.unique hholds.decodes
  have hheld : (serverFrom env schedule).world.state.Held env
      (CasService.casKey parsed.instanceName .sha256 parsed.hash) d := ⟨b,hb,hholds⟩
  exact {
    plain := reads_plain hopen hint hparse hupload hheld hsize
    compressed := reads_compressed hopen hint hparse hupload hheld hsize hz hc
    chunked := fun _ hencoding _ _ _ => reads_chunked hopen hint hparse hupload hencoding hheld hsize
    resumed := fun hplain _ _ => reads_resumed hopen hint hparse hupload hheld hsize hplain }

namespace Reference

/-- The name of the command's blob. -/
def commandName : String := "main/blobs/sha256/" ++ commandHash ++ "/4"

theorem commandName_parse : parseBytestreamResourceName commandName =
    .ok (blobName "main" .identity true commandDigest).parsed := by decide

theorem uploadRun_blob : (serverFrom externals uploadRun).world.state.blobs
    (CasService.casKey "main" .sha256 commandHash) =
      some ⟨frameHeader commandBlob ++ commandBlob,⟨.zstd,4,13⟩⟩ := by decide +kernel

end Reference

open Reference in
theorem read_windows_uploadRun : ∃ responses,
    Reads externals (serverFrom externals uploadRun).world.state commandName 1 2 responses ∧
      streamed responses = ascii "es" := by
  have hread : ReadsWindows externals (serverFrom externals uploadRun).world.state commandName
      (blobName "main" .identity true commandDigest).parsed commandBlob :=
    read_windows zstdRoundTrip hashBytes_empty compressionTotal uploadRun uploadRun_blob
      (decompresses commandBlob) commandName_parse rfl rfl rfl
  obtain ⟨hsucceeds,hdelivers⟩ := hread.plain rfl 1 2
  obtain ⟨responses,h⟩ := hsucceeds.mpr (by decide)
  refine ⟨responses,h,?_⟩
  rw [hdelivers responses h]
  decide

end ReapiCache
