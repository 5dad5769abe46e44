import ReapiCache.Server.Closure
import ReapiCache.Server.Complete

/-! # What action cache requests write

A request that ends before its validation writes nothing. The validation itself writes at
most the empty blob, and only an update that succeeds writes one more entry, of another
kind: its result.
-/
namespace ReapiCache
open Interaction ActionCacheService
variable {env : Externals}

/-- The key of the empty blob in an instance. -/
def emptyKey (instanceName : String) : BlobKey := casKey instanceName .sha256 emptyDigest

/-- The result a get finds in the cache, and validates. -/
def CachedResult (env : Externals) (store : InMemoryStore) (g : GetActionResultRequest)
    (r : ActionResult) : Prop :=
  ∃ digest, g.actionDigest = some digest ∧ decodeCachedResult env
    ((store.blobs (actionKey g.instanceName .sha256 digest)).map (fun b => ⟨b.metadata,⟨b.data⟩⟩)) = .ok r

/-- The later store differs from the earlier one by what the validation of the result
may have stored. -/
def Validating (env : Externals) (store : InMemoryStore) (instanceName : String) (r : ActionResult)
    (store' : InMemoryStore) : Prop :=
  ∃ n, store' = afterChecks store instanceName .sha256
    ((listedDigests env store instanceName .sha256 r).take n)

/-- Under one key nothing was written, or the empty blob for a result that refers to it. -/
def EmptyOnly (env : Externals) (store store' : InMemoryStore) (instanceName : String)
    (validates : ActionResult → Prop) : Prop :=
  store'.blobs (emptyKey instanceName) = store.blobs (emptyKey instanceName) ∨
    (∃ r, validates r ∧ emptyDigest ∈ listedDigests env store instanceName .sha256 r) ∧
      store'.blobs (emptyKey instanceName) = some emptyEntry

structure GetFootprint (env : Externals) (store : InMemoryStore) (g : GetActionResultRequest) : Prop where
  frame : ∀ key, key ≠ emptyKey g.instanceName →
    (execute env (.getActionResult g) store).2.blobs key = store.blobs key
  empty : EmptyOnly env store (execute env (.getActionResult g) store).2 g.instanceName
    (CachedResult env store g)

/-- The update was refused. -/
def Refused (response : Response) : Prop := ∃ s, response = .actionResult (.error s)

structure UpdateFootprint (env : Externals) (store : InMemoryStore) (u : UpdateActionResultRequest) : Prop where
  frame : ∀ key, key ≠ emptyKey u.instanceName →
    (∀ digest, u.actionDigest = some digest → key ≠ actionKey u.instanceName .sha256 digest) →
    (execute env (.updateActionResult u) store).2.blobs key = store.blobs key
  empty : EmptyOnly env store (execute env (.updateActionResult u) store).2 u.instanceName
    (fun r => u.actionResult = some r)
  result : ∀ r, (execute env (.updateActionResult u) store).1 = .actionResult (.ok r) →
    u.actionResult = some r ∧ ∃ digest b bytes, u.actionDigest = some digest ∧
      (execute env (.updateActionResult u) store).2.blobs (actionKey u.instanceName .sha256 digest) = some b ∧
      Holds env b.metadata b.data bytes ∧ env.decodeActionResult bytes = .ok r
  refused : Refused (execute env (.updateActionResult u) store).1 →
    ∀ key, key.kind = .actionCache →
      (execute env (.updateActionResult u) store).2.blobs key = store.blobs key
  untouched : Refused (execute env (.updateActionResult u) store).1 →
    (∀ r, u.actionResult = some r → emptyDigest ∉ listedDigests env store u.instanceName .sha256 r) →
      (execute env (.updateActionResult u) store).2 = store

section Validating
variable {store store' : InMemoryStore} {instanceName : String} {r : ActionResult}

theorem Validating.frame (h : Validating env store instanceName r store') {key : BlobKey}
    (hkey : key ≠ emptyKey instanceName) : store'.blobs key = store.blobs key := by
  obtain ⟨n,rfl⟩ := h
  rw [afterChecks_blobs, if_neg (fun hboth => hkey hboth.2)]

theorem Validating.empty (h : Validating env store instanceName r store') {validates : ActionResult → Prop}
    (hr : validates r) : EmptyOnly env store store' instanceName validates := by
  obtain ⟨n,rfl⟩ := h
  unfold EmptyOnly
  rw [afterChecks_blobs]
  by_cases hmem : emptyDigest ∈ (listedDigests env store instanceName .sha256 r).take n
  · exact Or.inr ⟨⟨r,hr,List.mem_of_mem_take hmem⟩,if_pos ⟨hmem,rfl⟩⟩
  · exact Or.inl (if_neg (fun hboth => hmem hboth.1))

theorem Validating.untouched (h : Validating env store instanceName r store')
    (hnot : emptyDigest ∉ listedDigests env store instanceName .sha256 r) : store' = store := by
  obtain ⟨n,rfl⟩ := h
  exact if_neg (fun hmem => hnot (List.mem_of_mem_take hmem))

end Validating

section Execution
variable {store : InMemoryStore} (hopen : store.poisoned = false)
include hopen

/-- The validation writes at most the empty blob, however it ends. -/
theorem exec_validate_store (env : Externals) (instanceName : String) (code : Code) (r : ActionResult) :
    Validating env store instanceName r ((validateActionResultArtifacts env instanceName .sha256 r code).run.exec
      InMemoryStore.handle store).2 := by
  rcases exec_validate_cases env hopen instanceName .sha256 code r with ⟨_,hexec⟩ | ⟨_,s,n,hexec,_⟩
  · refine ⟨(listedDigests env store instanceName .sha256 r).length,?_⟩
    rw [hexec, List.take_length]
  · exact ⟨n,by rw [hexec]⟩

theorem exec_validate_open (env : Externals) (instanceName : String) (code : Code) (r : ActionResult) :
    ((validateActionResultArtifacts env instanceName .sha256 r code).run.exec InMemoryStore.handle
      store).2.poisoned = false := by
  obtain ⟨n,hstore⟩ := exec_validate_store hopen env instanceName code r
  rw [hstore, afterChecks_poisoned, hopen]

/-- A get writes nothing, or what the validation of the cached result writes. -/
theorem execute_getActionResult_store (env : Externals) (g : GetActionResultRequest) :
    (execute env (.getActionResult g) store).2 = store ∨ ∃ r, CachedResult env store g r ∧
      Validating env store g.instanceName r (execute env (.getActionResult g) store).2 := by
  simp only [execute, serve, Program.exec_map, getActionResult, Failing.exec_bind, Failing.exec_ofExcept]
  cases hdigest : g.actionDigest with
  | none => exact Or.inl rfl
  | some digest =>
    simp only [okOr_some]
    cases DigestAlgorithm.resolveProtoValue env g.digestFunction with
    | error err => exact Or.inl rfl
    | ok algorithm =>
      cases algorithm
      simp only [mapError_ok, storeGet, Failing.exec_attempt, InMemoryStore.handle_get,
        InMemoryStore.get_eq hopen]
      cases hcached : decodeCachedResult env ((store.blobs (actionKey g.instanceName .sha256 digest)).map
          (fun b => ⟨b.metadata,⟨b.data⟩⟩)) with
      | error s => exact Or.inl rfl
      | ok r =>
        refine Or.inr ⟨r,⟨digest,hdigest,hcached⟩,?_⟩
        have hvalidating := exec_validate_store hopen env g.instanceName .notFound r
        cases hexec : (validateActionResultArtifacts env g.instanceName .sha256 r .notFound).run.exec
            InMemoryStore.handle store with
        | mk out store' =>
          rw [hexec] at hvalidating
          simp only [hexec]
          cases out with
          | error s => exact hvalidating
          | ok u => exact hvalidating

/-- How an update ends: before its validation, in it or after it with an error, or with
its result stored. -/
theorem execute_updateActionResult_cases (env : Externals) (u : UpdateActionResultRequest) :
    (∃ s, execute env (.updateActionResult u) store = (.actionResult (.error s),store)) ∨
    (∃ s r store', u.actionResult = some r ∧ Validating env store u.instanceName r store' ∧
      execute env (.updateActionResult u) store = (.actionResult (.error s),store')) ∨
    ∃ digest r blob store', u.actionDigest = some digest ∧ u.actionResult = some r ∧
      Validating env store u.instanceName r store' ∧ encodeResult env r = .ok blob ∧
      execute env (.updateActionResult u) store = (.actionResult (.ok r),
        store'.set (actionKey u.instanceName .sha256 digest) ⟨blob.body.cursor,blob.metadata⟩) := by
  simp only [execute, serve, Program.exec_map, updateActionResult, Failing.exec_bind, Failing.exec_ofExcept]
  cases hdigest : u.actionDigest with
  | none => exact Or.inl ⟨_,rfl⟩
  | some digest =>
    simp only [okOr_some]
    cases hresult : u.actionResult with
    | none => exact Or.inl ⟨_,rfl⟩
    | some r =>
      simp only [okOr_some]
      cases DigestAlgorithm.resolveProtoValue env u.digestFunction with
      | error err => exact Or.inl ⟨_,rfl⟩
      | ok algorithm =>
        cases algorithm
        simp only [mapError_ok, storeGet, Failing.exec_attempt, InMemoryStore.handle_get,
          InMemoryStore.get_eq hopen]
        cases decodeCommandDigest env ((store.blobs (casKey u.instanceName .sha256 digest)).map
            (fun b => ⟨b.metadata,⟨b.data⟩⟩)) with
        | error s => exact Or.inl ⟨_,rfl⟩
        | ok commandDigest =>
          simp only [storeContains, Failing.exec_attempt, InMemoryStore.handle_contains,
            InMemoryStore.contains_eq hopen, mapError_ok]
          cases (store.blobs (casKey u.instanceName .sha256 commandDigest)).isSome with
          | false => exact Or.inl ⟨_,rfl⟩
          | true =>
            refine Or.inr ?_
            have hvalidating := exec_validate_store hopen env u.instanceName .failedPrecondition r
            have hopen' := exec_validate_open hopen env u.instanceName .failedPrecondition r
            simp only [↓reduceIte, Failing.exec_bind, Failing.exec_ofExcept]
            cases hexec : (validateActionResultArtifacts env u.instanceName .sha256 r
                .failedPrecondition).run.exec InMemoryStore.handle store with
            | mk out store' =>
              rw [hexec] at hvalidating hopen'
              cases out with
              | error s => exact Or.inl ⟨s,r,store',rfl,hvalidating,rfl⟩
              | ok _ =>
                simp only
                cases hencode : encodeResult env r with
                | error s => exact Or.inl ⟨s,r,store',rfl,hvalidating,rfl⟩
                | ok blob =>
                  refine Or.inr ⟨digest,r,blob,store',rfl,rfl,hvalidating,hencode,?_⟩
                  simp only [storePut, Failing.exec_attempt, InMemoryStore.handle_put,
                    InMemoryStore.put_eq hopen', mapError_ok, Failing.exec_pure]

theorem getFootprint (env : Externals) (g : GetActionResultRequest) : GetFootprint env store g := by
  rcases execute_getActionResult_store hopen env g with hsame | ⟨r,hcached,hvalidating⟩
  · exact ⟨fun key _ => by rw [hsame],Or.inl (by rw [hsame])⟩
  · exact ⟨fun key hkey => hvalidating.frame hkey,hvalidating.empty hcached⟩

theorem updateFootprint (hz : env.ZstdRoundTrip) (u : UpdateActionResultRequest)
    (hp : env.ProstRoundTrip (submitted [.updateActionResult u])) :
    UpdateFootprint env store u := by
  rcases execute_updateActionResult_cases hopen env u with ⟨s,hexec⟩ | ⟨s,r,store',hresult,hvalidating,hexec⟩ |
    ⟨digest,r,blob,store',hdigest,hresult,hvalidating,hencode,hexec⟩
  · have hfst := congrArg Prod.fst hexec
    have hsnd := congrArg Prod.snd hexec
    dsimp only at hfst hsnd
    refine ⟨?_,Or.inl ?_,?_,?_,fun _ _ => hsnd⟩
    · intro key _ _
      rw [hsnd]
    · rw [hsnd]
    · intro r hr
      rw [hfst] at hr
      cases hr
    · intro _ key _
      rw [hsnd]
  · have hfst := congrArg Prod.fst hexec
    have hsnd := congrArg Prod.snd hexec
    dsimp only at hfst hsnd
    refine ⟨?_,?_,?_,?_,?_⟩
    · intro key hkey _
      rw [hsnd, hvalidating.frame hkey]
    · rw [hsnd]
      exact hvalidating.empty hresult
    · intro r hr
      rw [hfst] at hr
      cases hr
    · intro _ key hkind
      have hkey : key ≠ emptyKey u.instanceName := by
        rintro rfl
        cases hkind
      rw [hsnd, hvalidating.frame hkey]
    · intro _ hnot
      rw [hsnd]
      exact hvalidating.untouched (hnot r hresult)
  · have hfst := congrArg Prod.fst hexec
    have hsnd := congrArg Prod.snd hexec
    dsimp only at hfst hsnd
    have haccepted : ¬ Refused (execute env (.updateActionResult u) store).1 := by
      rintro ⟨s,hs⟩
      rw [hfst] at hs
      cases hs
    refine ⟨?_,?_,?_,fun h => absurd h haccepted,fun h => absurd h haccepted⟩
    · intro key hkey hother
      rw [hsnd, InMemoryStore.set_blobs_of_ne (hother digest hdigest), hvalidating.frame hkey]
    · have hne : emptyKey u.instanceName ≠ actionKey u.instanceName .sha256 digest := by
        intro h
        cases congrArg BlobKey.kind h
      have hempty : EmptyOnly env store store' u.instanceName (fun r => u.actionResult = some r) :=
        hvalidating.empty hresult
      unfold EmptyOnly at hempty ⊢
      rwa [hsnd, InMemoryStore.set_blobs_of_ne hne]
    · intro r' hr
      rw [hfst] at hr
      cases hr
      obtain ⟨bytes,hholds,hdecode⟩ := encodeResult_ok hz (hp r ⟨u,List.mem_cons_self,hresult⟩) hencode
      refine ⟨hresult,digest,⟨blob.body.cursor,blob.metadata⟩,bytes,hdigest,?_,hholds,hdecode⟩
      rw [hsnd, InMemoryStore.set_blobs_self]

end Execution

theorem actionCache_footprint (hz : env.ZstdRoundTrip) {store : InMemoryStore} (hopen : store.poisoned = false) :
    (∀ g, GetFootprint env store g) ∧
      ∀ u, env.ProstRoundTrip (submitted [.updateActionResult u]) → UpdateFootprint env store u :=
  ⟨getFootprint hopen env,updateFootprint hopen hz⟩

open Reference in
/-- Caching the result of the examples changes the entry of the action and no other. -/
theorem actionCache_footprint_update :
    (execute externals update (serverFrom externals uploadRun).world.state).1 =
        .actionResult (.ok result) ∧
      UpdateFootprint externals (serverFrom externals uploadRun).world.state updateRequest :=
  ⟨by decide +kernel,
    (actionCache_footprint zstdRoundTrip (serverFrom_open uploadRun)).2 updateRequest (prostRoundTrip _)⟩

end ReapiCache
