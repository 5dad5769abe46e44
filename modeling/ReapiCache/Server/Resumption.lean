import ReapiCache.Server.Provenance

/-! # Interrupted downloads

A client that has received a part of a blob asks for the rest from where it stopped, and
may be interrupted again. The parts are all of one content, so the last read completes
them to the content of the name, and it cannot fail.
-/
namespace ReapiCache
open Interaction ByteStreamService
variable {env : Externals}

/-- The read asks for the plain content of the key, of this size, from a position on. -/
structure ReadRequest.AsksFrom (r : ReadRequest) (key : BlobKey) (size position : ℕ) : Prop where
  target : ∃ target, readTarget r = .ok target ∧ target.key = key ∧ target.responseEncoding = .identity ∧
    target.parsed.expectedSize.toInt = size
  offset : r.readOffset.toInt = position

/-- A read has returned, and this is an initial part of what it streamed. -/
def Received (c : ServerConfig) (key : BlobKey) (size position : ℕ) (received : Bytes) : Prop :=
  ∃ i r responses, c.Returned i (.read r) (.read (.ok responses)) ∧ r.AsksFrom key size position ∧
    received <+: streamed responses

/-- What a client has put together, each part from where the ones before it end. -/
inductive Downloaded (c : ServerConfig) (key : BlobKey) (size : ℕ) : Bytes → Prop
  | first {received : Bytes} (h : Received c key size 0 received) : Downloaded c key size received
  | next {got received : Bytes} (h : Downloaded c key size got)
      (hr : Received c key size got.length received) : Downloaded c key size (got ++ received)

theorem Downloaded.run {c : ServerConfig} {key : BlobKey} {size : ℕ} {got : Bytes} (h : Downloaded c key size got)
    (schedule : List (Interaction.Action Request)) : Downloaded (serverRun env c schedule) key size got := by
  have hlater : ∀ {position : ℕ} {received : Bytes}, Received c key size position received →
      Received (serverRun env c schedule) key size position received := by
    rintro position received ⟨i,r,responses,hreturned,hasks,hinitial⟩
    exact ⟨i,r,responses,hreturned.run InMemoryStore.handle (serve env) schedule,hasks,hinitial⟩
  induction h with
  | first h => exact .first (hlater h)
  | next _ hr ih => exact .next ih (hlater hr)

/-- A window without a limit is the rest, and a limited one an initial part of it. -/
theorem window_initial (offset limit : ℕ) (d : Bytes) : window offset limit d <+: d.drop offset := by
  unfold window
  by_cases h : limit = 0
  · rw [if_pos h]
  · rw [if_neg h]
    exact List.take_prefix _ _

/-- When a plain read succeeds, and what it answers then. -/
theorem answerRead_plain {r : ReadRequest} {target : ReadTarget} {size : ℕ} {found : Option Bytes}
    {responses : List ReadResponse} (hplain : target.responseEncoding = .identity)
    (hsize : target.parsed.expectedSize.toInt = size) :
    Abstract.answerRead env r target found = .ok responses ↔ ∃ d, found = some d ∧ d.length = size ∧
      (0 ≤ r.readOffset.toInt ∧ r.readOffset.toInt ≤ d.length ∧ 0 ≤ r.readLimit.toInt) ∧
      responses = (chunks READ_CHUNK_SIZE (window r.readOffset.toInt.toNat r.readLimit.toInt.toNat d)).map
        ReadResponse.mk := by
  rcases r with ⟨name,offset,limit⟩
  unfold Abstract.answerRead
  simp only [bind_eq_ok, Abstract.namedContent_eq_ok, hplain, hsize, Abstract.requested_plain, Except.ok.injEq,
    Nat.cast_inj]
  constructor
  · rintro ⟨d,⟨hfound,hd⟩,_,⟨hrange,rfl⟩,hresponses⟩
    exact ⟨d,hfound,hd.symm,hrange,hresponses.symm⟩
  · rintro ⟨d,hfound,hd,hrange,hresponses⟩
    exact ⟨d,⟨hfound,hd.symm⟩,_,⟨hrange,rfl⟩,hresponses.symm⟩

section Run
variable {schedule : List (Interaction.Action Request)} (hz : env.ZstdRoundTrip) (hc : env.CompressionTotal)
  (he : env.HashesEmpty) (hp : env.ProstRoundTrip (submitted (startedBy schedule)))
  (hcollision : CollisionFree env (serverFrom env schedule).world.log)
  {key : BlobKey} {size : ℕ}
include hz hc he hp hcollision

open Abstract in
/-- A part is of the content the run ends with. -/
theorem Received.content {position : ℕ} {received : Bytes}
    (h : Received (serverFrom env schedule) key size position received) :
    ∃ d, (cacheRun env Cache.new schedule).world.state.contents (.ofKey key) = some d ∧ d.length = size ∧
      received <+: d.drop position := by
  obtain ⟨i,r,responses,⟨t,ht,hrequest,hdone⟩,⟨⟨target,htarget,rfl,hplain,hsize⟩,hoffset⟩,hinitial⟩ := h
  have hfrom := answeredFrom_run hz hc he hp hcollision ht hdone
  rw [hrequest] at hfrom
  obtain ⟨_,⟨rfl⟩,⟨s,_,hs⟩ | ⟨target',found,htarget',hseen,hanswer⟩⟩ := hfrom
  · cases hs
  obtain rfl := Except.ok.inj (htarget.symm.trans htarget')
  obtain ⟨d,rfl,hd,_,rfl⟩ := (answerRead_plain hplain hsize).mp hanswer.symm
  refine ⟨d,?_,hd,?_⟩
  · rcases hseen with hfound | ⟨hnone,_⟩
    · exact hfound.symm
    · cases hnone
  · rw [streamed_chunks, hoffset, Int.toNat_natCast] at hinitial
    exact hinitial.trans (window_initial _ _ d)

open Abstract in
/-- The parts are an initial part of one content. -/
theorem Downloaded.content {got : Bytes} (h : Downloaded (serverFrom env schedule) key size got) :
    ∃ d, (cacheRun env Cache.new schedule).world.state.contents (.ofKey key) = some d ∧ d.length = size ∧ got <+: d := by
  induction h with
  | first h => exact h.content hz hc he hp hcollision
  | @next got received _ hr ih =>
    obtain ⟨d,hd,hsize,rest,rfl⟩ := ih
    obtain ⟨d',hd',_,hinitial⟩ := hr.content hz hc he hp hcollision
    obtain rfl := Option.some.inj (hd.symm.trans hd')
    rw [List.drop_left] at hinitial
    exact ⟨_,hd,hsize,(List.prefix_append_right_inj got).mpr hinitial⟩

end Run

/-- The answer to a read that completes what has been downloaded. -/
def Completes (env : Externals) (key : BlobKey) (size : ℕ) (got : Bytes) (response : Response) : Prop :=
  ∃ responses, response = .read (.ok responses) ∧ (got ++ streamed responses).length = size ∧
    key.algorithm.hashBytes env (got ++ streamed responses) = key.hash

open Abstract in
/-- A download can be resumed at any time, and it is completed to the content of the name. -/
theorem download_resumed (hz : env.ZstdRoundTrip) (hc : env.CompressionTotal) (he : env.HashesEmpty)
    {before after : List (Interaction.Action Request)} {key : BlobKey} {size : ℕ} {got : Bytes} {r : ReadRequest}
    (hp : env.ProstRoundTrip (submitted (startedBy (before ++ .start (.read r) :: after))))
    (hcollision : CollisionFree env (serverAfter env (serverFrom env before) (.read r) after).world.log)
    (hgot : Downloaded (serverFrom env before) key size got) (hasks : r.AsksFrom key size got.length)
    (hlimit : r.readLimit = 0) : Answers env (serverFrom env before) (.read r) after
      (fun response _ => Completes env key size got response) := by
  have hlog : (serverFrom env before).world.log <+:
      (serverAfter env (serverFrom env before) (.read r) after).world.log :=
    log_serverAfter _ _ after
  obtain ⟨target,htarget,rfl,hplain,hsize⟩ := hasks.target
  -- what the download is a part of was there when the read started
  obtain ⟨d₀,hd₀,_⟩ := hgot.content hz hc he (roundTrip_before hp) (hcollision.mono (casContents_mono hlog))
  have hpresent : (stored (serverFrom env before).world.log).Present (Locator.contentKey (.ofKey target.key)) := by
    obtain ⟨b,hb,_⟩ := (server_inStep hz hc he (roundTrip_before hp) represents_new).state.entry hd₀
    rw [← serverFrom_state]
    exact ⟨b,hb⟩
  have hlater : Downloaded (serverAfter env (serverFrom env before) (.read r) after) target.key size got :=
    hgot.run (.start (.read r) :: after)
  apply answers_of_returned
  intro t response ht hrequest hstart hdone
  rw [serverAfter_serverFrom] at ht hcollision hlater
  obtain ⟨d,hd,hlength,rest,rfl⟩ := hlater.content hz hc he hp hcollision
  have hfrom := answeredFrom_run hz hc he hp hcollision ht hdone
  rw [hrequest, hstart] at hfrom
  obtain ⟨out,rfl,⟨s,herror,_⟩ | ⟨target',found,htarget',hseen,rfl⟩⟩ := hfrom
  · rw [htarget] at herror
    cases herror
  obtain rfl := Except.ok.inj (htarget.symm.trans htarget')
  have hfound : found = some (got ++ rest) := by
    rcases hseen with hfound | ⟨_,habsent⟩
    · rw [hfound, hd]
    · exact absurd hpresent habsent
  have hoffset := hasks.offset
  have hrange : 0 ≤ r.readOffset.toInt ∧ r.readOffset.toInt ≤ (got ++ rest).length ∧ 0 ≤ r.readLimit.toInt := by
    rw [hoffset, hlimit, List.length_append]
    exact ⟨by omega,by omega,by decide⟩
  have hanswer : Abstract.answerRead env r target found = .ok _ :=
    (answerRead_plain hplain hsize).mpr ⟨_,hfound,hlength,hrange,rfl⟩
  refine ⟨_,congrArg Response.read hanswer,?_⟩
  have hwindow : window r.readOffset.toInt.toNat r.readLimit.toInt.toNat (got ++ rest) = rest := by
    rw [hoffset, hlimit, Int.toNat_natCast]
    exact List.drop_left
  rw [streamed_chunks, hwindow]
  obtain ⟨_,_,hstands⟩ := (server_inStep hz hc he hp represents_new).state.entry hd
  exact ⟨hlength,hstands.hash⟩

namespace Reference

/-- The start of the tree is read. -/
def partialRun : List (Interaction.Action Request) :=
  uploadRun ++ [.start (.read ⟨"main/blobs/" ++ treeHash ++ "/77",0,40⟩),.advance 1]

def treeKey : BlobKey := CasService.casKey "main" .sha256 treeHash

theorem partialRun_downloaded : Downloaded (serverFrom externals partialRun) treeKey 77 (treeBlob.take 30) := by
  have hreturned : (serverFrom externals partialRun).Returned 1 (.read ⟨"main/blobs/" ++ treeHash ++ "/77",0,40⟩)
      (.read (.ok [⟨treeBlob.take 40⟩])) := returned_of_answer rfl (by decide +kernel)
  exact .first ⟨1,_,_,hreturned,⟨⟨_,rfl,by decide +kernel,by decide +kernel,by decide +kernel⟩,rfl⟩,
    ⟨(treeBlob.take 40).drop 30,by decide⟩⟩

end Reference

open Reference in
/-- Only 30 of the 40 bytes arrived. The client asks for the rest under another name of the tree. -/
theorem download_resumed_tree : Answers externals (serverFrom externals partialRun)
    (.read ⟨"main/blobs/sha256/" ++ treeHash ++ "/77",30,0⟩) [.advance 2]
    (fun response _ => Completes externals treeKey 77 (treeBlob.take 30) response) :=
  download_resumed zstdRoundTrip compressionTotal hashBytes_empty (prostRoundTrip _) (collisionFree (by decide +kernel))
    partialRun_downloaded ⟨⟨_,rfl,by decide +kernel,by decide +kernel,by decide +kernel⟩,by decide +kernel⟩ rfl

end ReapiCache
