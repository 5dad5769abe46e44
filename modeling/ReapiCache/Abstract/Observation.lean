import ReapiCache.Abstract.Parts
import ReapiCache.Abstract.Refinement
import ReapiCache.Server.Closure
import ReapiCache.Server.Complete
import Mathlib.Tactic.TFAE

/-! # What clients can observe

The contents and the results are all that clients can observe of a store, and they can
observe all of it. Two reachable stores that answer every request alike represent one
cache, and then no schedule of requests tells them apart.
-/
namespace ReapiCache.Abstract
open Interaction ActionCacheService
variable {env : Externals}

section Closed
variable {store : InMemoryStore} {instanceName : String} {algorithm : DigestAlgorithm} {r : ActionResult}

theorem storedTree_of_held {digest : Digest} {tree : Tree} (h : TreeHeld env store instanceName algorithm digest tree) :
    storedTree env store instanceName algorithm digest = some tree := by
  obtain ⟨bytes,⟨b,hb,hholds⟩,hdecode⟩ := h
  have hidentity : BlobCodec.intoIdentityData env ⟨b.metadata,⟨b.data⟩⟩ = .ok bytes := hholds.intoIdentityData
  simp [storedTree, hb, hidentity, hdecode, Except.toOption]

/-- A closed result passes the validation. -/
theorem complete_of_closed (h : ArtifactsClosed env store instanceName algorithm r) :
    ArtifactsComplete env store instanceName algorithm r where
  files := h.files
  directories := by
    intro dir hdir
    obtain ⟨d,tree,hd,htree,hwell⟩ := h.trees dir hdir
    exact ⟨d,tree,hd,storedTree_of_held htree,hwell⟩
  available := by
    intro before d after hlist
    have hd : d ∈ listedDigests env store instanceName algorithm r := by
      rw [hlist]
      simp
    apply Available.present
    apply h.present
    simp only [listedDigests, List.mem_append, List.mem_filterMap, List.mem_flatMap, Option.mem_toList] at hd
    rcases hd with ((⟨f,hf,hd⟩ | hd) | hd) | ⟨dir,hdir,hd⟩
    · exact .file f hf hd
    · exact .stdout hd
    · exact .stderr hd
    · obtain ⟨treeDigest,tree,htree,hheld,_⟩ := h.trees dir hdir
      simp only [directoryDigests, htree, Option.bind_some, storedTree_of_held hheld, Option.toList_some,
        List.flatMap_singleton, List.mem_filterMap] at hd
      obtain ⟨f,hf,hd⟩ := hd
      exact .treeFile dir treeDigest tree f hdir htree hheld hf hd

end Closed

/-- Ask for what is stored under the address. -/
def readOne (digestFunction : Int32) (a : Locator) : Request :=
  .batchReadBlobs ⟨a.instanceName,[⟨a.hash,0⟩],[],digestFunction⟩
def getOne (digestFunction : Int32) (a : Locator) : Request :=
  .getActionResult ⟨a.instanceName,some ⟨a.hash,0⟩,digestFunction⟩

theorem roundTrip_readOne (env : Externals) (digestFunction : Int32) (a : Locator) :
    env.ProstRoundTrip (submitted [readOne digestFunction a]) := by
  rintro _ ⟨_,hq,_⟩
  cases List.mem_singleton.mp hq

theorem roundTrip_getOne (env : Externals) (digestFunction : Int32) (a : Locator) :
    env.ProstRoundTrip (submitted [getOne digestFunction a]) := by
  rintro _ ⟨_,hq,_⟩
  cases List.mem_singleton.mp hq

section Requests
variable {store : InMemoryStore} {cache : BlobCache} (h : Represents env store cache) (hz : env.ZstdRoundTrip)
  {digestFunction : Int32} (hf : SupportsFunction env digestFunction)
include h hz

include hf in
theorem execute_readOne (hc : env.CompressionTotal) (he : env.HashesEmpty) (a : Locator) :
    (execute env (readOne digestFunction a) store).1 =
      .batchReadBlobs (.ok ⟨[blobReadResponse env [] ⟨a.hash,0⟩ (cache.contents a)]⟩) := by
  have hresolved : (DigestAlgorithm.resolveProtoValue env digestFunction).mapError Status.invalidArgument =
      .ok a.algorithm := by
    rw [resolveProtoValue_eq_ok hf]
    rfl
  have hsame := ((serve_simulates hz hc he (readOne digestFunction a) (roundTrip_readOne env _ a)).exec
    store_refines h).1
  rw [execute, hsame]
  simp only [serve, readOne, batchReadBlobs, batch_one hresolved, Functor.map_map]
  rfl

/-- What is cached is closed. -/
theorem closed_of_result (hclosed : AcClosed env store) {a : Locator} {r : ActionResult}
    (hr : cache.results a = some r) : ArtifactsClosed env store a.instanceName a.algorithm r := by
  obtain ⟨b,hb,hcaches⟩ := h.cachedEntry hr
  obtain ⟨bytes,r',hholds,hdecode,hartifacts,_⟩ := hclosed a.resultKey b rfl hb
  have hcached : Caches env (BlobRead.stored ⟨b.metadata,⟨b.data⟩⟩) r := hcaches
  have hbytes : bytes = env.encodeActionResult r :=
    Except.ok.inj (hholds.intoIdentityData.symm.trans (hcached.decoded hz))
  rw [hbytes, hcached.decodes] at hdecode
  obtain rfl : r = r' := Except.ok.inj hdecode
  exact hartifacts

include hf in
/-- A get returns what is cached: the validation cannot fail. -/
theorem execute_getOne (hclosed : AcClosed env store) (a : Locator) :
    (execute env (getOne digestFunction a) store).1 =
      .actionResult (okOr (.notFound "action result not cached") (cache.results a)) := by
  have hkey : actionKey a.instanceName .sha256 ⟨a.hash,0⟩ = a.resultKey := rfl
  simp only [execute, ReapiCache.serve, getOne, Program.exec_map, ActionCacheService.getActionResult,
    Failing.exec_bind, Failing.exec_ofExcept, okOr_some, resolveProtoValue_eq_ok hf, mapError_ok, storeGet,
    Failing.exec_attempt, InMemoryStore.handle_get, InMemoryStore.get_eq h.unlocked, hkey,
    decodeCachedResult_eq hz (rel_map_stored (h.results a))]
  cases hr : cache.results a with
  | none => rfl
  | some r =>
    have hcomplete := complete_of_closed (closed_of_result h hz hclosed hr)
    rcases exec_validate_cases env h.unlocked a.instanceName .sha256 .notFound r with ⟨_,hexec⟩ | ⟨hnot,_⟩
    · simp only [okOr_some, hexec]
      rfl
    · exact absurd hcomplete hnot

end Requests

/-- No request is answered differently from the two stores. -/
def AnswerAlike (env : Externals) (store store' : InMemoryStore) : Prop :=
  ∀ request, env.ProstRoundTrip (submitted [request]) →
    (execute env request store).1 = (execute env request store').1

/-- No schedule of requests is answered differently from the two stores. -/
def Indistinguishable (env : Externals) (store store' : InMemoryStore) : Prop :=
  ∀ schedule, env.ProstRoundTrip (submitted (startedBy schedule)) → ∀ i request response,
    (serverRun env (Config.initial store) schedule).Returned i request response ↔
      (serverRun env (Config.initial store') schedule).Returned i request response

/-- A request that is alone is executed. -/
theorem exists_executed (env : Externals) (request : Request) (store : InMemoryStore) :
    ∃ k, (serverRun env (Config.initial store) (.start request :: List.replicate k (.advance 0))).Returned 0 request
      (execute env request store).1 :=
  Config.exec_run InMemoryStore.handle (ReapiCache.serve env)
    ((Config.initial store).step InMemoryStore.handle (ReapiCache.serve env) (.start request)) (i := 0) rfl

theorem answerAlike_of_indistinguishable {store store' : InMemoryStore} (h : Indistinguishable env store store') :
    AnswerAlike env store store' := by
  intro request hp
  have hstarted : ∀ k, startedBy (.start request :: List.replicate k (.advance 0)) = [request] := fun k => by
    simp [startedBy]
  obtain ⟨k,hk⟩ := exists_executed env request store
  obtain ⟨k',hk'⟩ := exists_executed env request store'
  -- both have returned when the request has been advanced often enough for either store
  have hlong := ((h _ ((hstarted k).symm ▸ hp) _ _ _).mp hk).run InMemoryStore.handle (ReapiCache.serve env) (List.replicate k' (.advance 0))
  have hlong' := hk'.run InMemoryStore.handle (ReapiCache.serve env) (List.replicate k (.advance 0))
  rw [serverRun, ← Config.run_append, List.cons_append, List.replicate_append_replicate] at hlong hlong'
  rw [Nat.add_comm k' k] at hlong'
  exact hlong.unique hlong'

theorem blobReadResponse_injective (env : Externals) (digest : Digest) :
    Function.Injective (blobReadResponse env [] digest) := by
  intro found found' h
  cases found with
  | none =>
    cases found' with
    | none => rfl
    | some d' => simp [blobReadResponse] at h
  | some d =>
    cases found' with
    | none => simp [blobReadResponse] at h
    | some d' =>
      have hdata := congrArg BlobReadResponse.data h
      simp only [blobReadResponse, List.not_mem_nil, if_false] at hdata
      rw [hdata]

theorem okOr_injective {ε α : Type} (e : ε) : Function.Injective (okOr e : Option α → Except ε α) := by
  intro x y h
  cases x with
  | none =>
    cases y with
    | none => rfl
    | some b => cases h
  | some a =>
    cases y with
    | none => cases h
    | some b => rw [Except.ok.inj h]

section Reachable
variable (hz : env.ZstdRoundTrip) (hc : env.CompressionTotal) (he : env.HashesEmpty)
include hz he hc

/-- The requests for single entries tell the represented caches apart. -/
theorem sameContents_of_answerAlike {digestFunction : Int32} (hf : SupportsFunction env digestFunction)
    {store store' : InMemoryStore} {cache cache' : BlobCache} (h : Represents env store cache)
    (h' : Represents env store' cache') (hclosed : AcClosed env store) (hclosed' : AcClosed env store')
    (halike : AnswerAlike env store store') : SameContents env store store' := by
  have hcontents : cache.contents = cache'.contents := by
    funext a
    have hanswer := halike (readOne digestFunction a) (roundTrip_readOne env _ a)
    rw [execute_readOne h hz hf hc he, execute_readOne h' hz hf hc he] at hanswer
    simp only [Response.batchReadBlobs.injEq, Except.ok.injEq, BatchReadBlobsResponse.mk.injEq, List.cons.injEq,
      and_true] at hanswer
    exact blobReadResponse_injective env _ hanswer
  have hresults : cache.results = cache'.results := by
    funext a
    have hanswer := halike (getOne digestFunction a) (roundTrip_getOne env _ a)
    rw [execute_getOne h hz hf hclosed, execute_getOne h' hz hf hclosed'] at hanswer
    exact okOr_injective _ (Response.actionResult.inj hanswer)
  have hcache : cache = cache' := by
    rcases cache with ⟨contents,results⟩
    rcases cache' with ⟨contents',results'⟩
    obtain rfl : contents = contents' := hcontents
    obtain rfl : results = results' := hresults
    rfl
  exact ⟨cache,h,hcache ▸ h'⟩

/-- Two reachable stores represent one cache when they answer every single request alike,
and then they cannot be told apart by any schedule of requests. -/
theorem contents_observable {digestFunction : Int32} (hf : SupportsFunction env digestFunction)
    {schedule schedule' : List (Interaction.Action Request)}
    (hp : env.ProstRoundTrip (submitted (startedBy schedule)))
    (hp' : env.ProstRoundTrip (submitted (startedBy schedule')))
    (hcollision : CollisionFree env (serverFrom env schedule).world.log)
    (hcollision' : CollisionFree env (serverFrom env schedule').world.log) :
    List.TFAE [SameContents env (serverFrom env schedule).world.state (serverFrom env schedule').world.state,
      AnswerAlike env (serverFrom env schedule).world.state (serverFrom env schedule').world.state,
      Indistinguishable env (serverFrom env schedule).world.state (serverFrom env schedule').world.state] := by
  tfae_have 1 → 3 := fun h _ hp => h.returned_iff hz hc he hp
  tfae_have 3 → 2 := answerAlike_of_indistinguishable
  tfae_have 2 → 1 := sameContents_of_answerAlike hz hc he hf (server_inStep hz hc he hp represents_new).state
    (server_inStep hz hc he hp' represents_new).state (closing_run hp (server_lawful hz he hcollision)).2
    (closing_run hp' (server_lawful hz he hcollision')).2
  tfae_finish

end Reachable

open ReapiCache.Reference in
/-- After the upload and after the result is cached: the requests for it tell the stores apart. -/
theorem contents_observable_caching : ¬ SameContents externals (serverFrom externals uploadRun).world.state
    (serverFrom externals cachingRun).world.state := by
  have hf : SupportsFunction externals 1 := Or.inr rfl
  have hupload : CollisionFree externals (serverFrom externals uploadRun).world.log := collisionFree (by decide +kernel)
  have hcaching : CollisionFree externals (serverFrom externals cachingRun).world.log :=
    collisionFree (by decide +kernel)
  have hobservable := contents_observable zstdRoundTrip compressionTotal hashBytes_empty hf (prostRoundTrip _)
    (prostRoundTrip _) hupload hcaching
  intro hsame
  have halike : AnswerAlike externals (serverFrom externals uploadRun).world.state
      (serverFrom externals cachingRun).world.state := (hobservable.out 0 1).mp hsame
  exact absurd (halike (.getActionResult getRequest) (prostRoundTrip _)) (by decide +kernel)

end ReapiCache.Abstract
