import ReapiCache.Abstract.Published
import ReapiCache.Abstract.Refinement
import ReapiCache.Interaction.Retries

/-! # Retries

A client that is left without an answer sends its request again. An attempt that was given
up has stored what the next one would store, and found what the next one will find, so
the next one answers and leaves what the first would have.
-/
namespace ReapiCache.Abstract
open Interaction ActionCacheService
variable {env : Externals}

/-- The content is one of `S`, with the hash of the address. -/
def Named (env : Externals) (S : Set Bytes) (a : Locator) (d : Bytes) : Prop :=
  d ∈ S ∧ a.algorithm.hashBytes env d = a.hash

/-- What a request stores has the hash it is stored under. -/
theorem Stores.hash (he : env.HashesEmpty) {req : Request} {a : Locator} {d : Bytes} (h : Stores env req a d) :
    a.algorithm.hashBytes env d = a.hash := by
  cases h with
  | item q item digest encoding algorithm _ sent named encoded accepted => exact (acceptBlob_ok accepted).2
  | stream s state upload received accepted => exact (acceptUpload_ok accepted).2
  | emptyOfGet q algorithm =>
    cases algorithm
    exact he
  | emptyOfUpdate q algorithm =>
    cases algorithm
    exact he

/-- A request that stores and publishes nothing. -/
theorem lookup_repeatable {req : Request} {I : BlobCache → Prop} (hstores : ∀ a d, ¬ Stores env req a d)
    (hreq : ∀ q, req ≠ .updateActionResult q) : (serve env req).Repeatable Cache.handle I := by
  apply Program.repeatable_of_unchanging
  apply (serve_makes req).mono
  intro op hop c
  cases op with
  | fetch address => rfl
  | holds address => rfl
  | store address x => exact absurd hop (hstores address x)
  | retrieve address => rfl
  | publish address r =>
    obtain ⟨q,rfl⟩ := hop
    exact absurd rfl (hreq q)

/-- What a lookup does with the result that it has found. -/
def validated (env : Externals) (q : GetActionResultRequest) (algorithm : DigestAlgorithm)
    (found : Option ActionResult) : CacheHandler Status ActionResult := do
  let result ← Failing.ofExcept (okOr (.notFound "action result not cached") found)
  validateArtifacts env q.instanceName algorithm result .notFound
  pure result

theorem validated_uses {q : GetActionResultRequest} {algorithm : DigestAlgorithm} {A : BlobCall → Prop}
    (hfetch : ∀ a, A (.fetch a)) (hholds : ∀ a, A (.holds a))
    (hempty : A (.store ⟨q.instanceName,algorithm,EMPTY_SHA256⟩ [])) (found : Option ActionResult) :
    Failing.Uses A (validated env q algorithm found) := by
  apply (Failing.uses_ofExcept _).bind
  intro r
  exact (uses_validateArtifacts hfetch hholds hempty r .notFound).bind (fun _ => Failing.uses_pure _)

theorem validated_patient (q : GetActionResultRequest) (algorithm : DigestAlgorithm) (found : Option ActionResult) :
    Failing.Patient Settles (validated env q algorithm found) := by
  apply (Failing.patient_ofExcept _).bind
  intro r
  exact (validateArtifacts_patient q.instanceName algorithm r .notFound).bind (fun _ => Failing.patient_pure _)

/-- An update stores nothing but the empty content. -/
theorem Stores.eq_nil {q : UpdateActionResultRequest} {a : Locator} {d : Bytes}
    (h : Stores env (.updateActionResult q) a d) : d = [] := by
  cases h
  rfl

section Requests
variable {S : Set Bytes} (hS : Set.InjOn (DigestAlgorithm.sha256.hashBytes env) S)

include hS in
theorem named_unique (a : Locator) (d d' : Bytes) (h : Named env S a d) (h' : Named env S a d') : d = d' := by
  rcases a with ⟨instanceName,algorithm,hash⟩
  cases algorithm
  exact hS h.1 h'.1 (h.2.trans h'.2.symm)

include hS in
theorem repeatable_of_patient {α : Type} {p : CacheM α} {final : α → Prop}
    (h : p.Patient (Cache.Confirmed (Named env S)) final) (huses : p.Uses (Cache.StoresWithin (Named env S))) :
    p.Repeatable Cache.handle (Cache.Within (Named env S)) :=
  h.repeatable (Cache.settling _) (Cache.handle_within (named_unique hS)) Cache.extends_trans huses Cache.handle_repeat

variable (he : env.HashesEmpty)
include he

/-- What settles a validation settles it here, where the empty content is one of `S`. -/
theorem patient_named {α : Type} {p : CacheM α} {final : α → Prop} (h : p.Patient Settles final) (hempty : [] ∈ S) :
    p.Patient (Cache.Confirmed (Named env S)) final := by
  apply h.settles_mono
  apply Cache.confirmed_mono
  rintro ⟨instanceName,algorithm,hash⟩ _ ⟨rfl,rfl⟩
  cases algorithm
  exact ⟨hempty,he⟩

include hS in
/-- A lookup finds the result again: it publishes none itself. -/
theorem getActionResult_repeatable (q : GetActionResultRequest) (hempty : [] ∈ S) :
    (getActionResult env q).run.Repeatable Cache.handle (Cache.Within (Named env S)) := by
  apply Failing.repeatable_ofExcept_bind
  intro digest _
  apply Failing.repeatable_ofExcept_bind
  intro algorithm _
  apply Failing.repeatable_attempt_bind (fun _ => rfl)
  · exact validated_uses (fun _ _ => rfl) (fun _ _ => rfl) (fun _ => rfl)
  · intro found
    apply repeatable_of_patient hS (patient_named he (validated_patient q algorithm found) hempty)
    apply validated_uses (by rintro _ _ _ ⟨⟩) (by rintro _ _ _ ⟨⟩)
    rintro _ _ ⟨⟩
    cases algorithm
    exact ⟨hempty,he⟩

variable {req : Request} (hstores : ∀ a d, Stores env req a d → d ∈ S)
include hstores

theorem serve_storesNamed : (serve env req).Uses (Cache.StoresWithin (Named env S)) := by
  apply (serve_makes req).mono
  rintro op hop a d rfl
  exact ⟨hstores a d hop,hop.hash he⟩

include hS in
/-- Every request makes good an attempt that was given up. -/
theorem serve_repeatable : (serve env req).Repeatable Cache.handle (Cache.Within (Named env S)) := by
  have huses : (serve env req).Uses (Cache.StoresWithin (Named env S)) := serve_storesNamed he hstores
  cases req with
  | findMissingBlobs q => exact lookup_repeatable (by rintro _ _ ⟨⟩) (by rintro _ ⟨⟩)
  | batchReadBlobs q => exact lookup_repeatable (by rintro _ _ ⟨⟩) (by rintro _ ⟨⟩)
  | read q => exact lookup_repeatable (by rintro _ _ ⟨⟩) (by rintro _ ⟨⟩)
  | getTree => exact Program.repeatable_done _
  | splitBlob => exact Program.repeatable_done _
  | spliceBlob => exact Program.repeatable_done _
  | queryWriteStatus => exact Program.repeatable_done _
  | batchUpdateBlobs q =>
    have hpatient : (serve env (.batchUpdateBlobs q)).Patient (Cache.Confirmed (Named env S)) (fun _ => True) := by
      apply Program.patient_of_uses
      apply Program.Uses.map
      exact batchUpdateBlobs_uses (fun a d h _ => ⟨hstores a d h,h.hash he⟩)
    exact repeatable_of_patient hS hpatient huses
  | write s =>
    have hpatient : (serve env (.write s)).Patient (Cache.Confirmed (Named env S)) (fun _ => True) :=
      (write_patient s).map (fun _ _ => trivial)
    exact repeatable_of_patient hS hpatient huses
  | getActionResult q =>
    have hempty := hstores _ _ (Stores.emptyOfGet q .sha256)
    exact (getActionResult_repeatable hS he q hempty).map _
  | updateActionResult q =>
    have hempty := hstores _ _ (Stores.emptyOfUpdate q .sha256)
    have hpatient : (serve env (.updateActionResult q)).Patient Settles (fun _ => True) :=
      (updateActionResult_patient q).map (fun _ _ => trivial)
    exact repeatable_of_patient hS (patient_named he hpatient hempty) huses

end Requests

/-- The contents of a reachable store are named. -/
theorem within_of_represents (hz : env.ZstdRoundTrip) {schedule : List (Interaction.Action Request)} {cache : BlobCache}
    (h : Represents env (serverFrom env schedule).world.state cache) {S : Set Bytes}
    (hS : casContents env (serverFrom env schedule).world.log ⊆ S) : Cache.Within (Named env S) cache := by
  intro a d hd
  obtain ⟨b,hb,hstands⟩ := h.entry hd
  rw [serverFrom_state] at hb
  exact ⟨hS (mem_casContents rfl ⟨b,hb,hstands.holds hz⟩),hstands.hash⟩

/-- The store after attempts at a request, each given up after some of its calls. -/
def attempted (env : Externals) (schedule : List (Interaction.Action Request)) (req : Request) (ns : List ℕ) :
    InMemoryStore :=
  (serverFrom env (schedule ++ Config.attempts req (startedBy schedule).length ns)).world.state

/-- However often a request has been given up before, and after however many of its calls,
it is answered as if it were sent for the first time, and leaves the same contents and
results: sending it again is safe. -/
theorem retries_unnoticed (hz : env.ZstdRoundTrip) (hc : env.CompressionTotal) (he : env.HashesEmpty)
    (schedule : List (Interaction.Action Request)) (req : Request) (ns : List ℕ)
    (hp : env.ProstRoundTrip (submitted (req :: startedBy schedule)))
    (hcollision : Set.InjOn (DigestAlgorithm.sha256.hashBytes env)
      (casContents env (serverFrom env schedule).world.log ∪ {d | ∃ a, Stores env req a d})) :
    (execute env req (attempted env schedule req ns)).1 = (execute env req (serverFrom env schedule).world.state).1 ∧
      SameContents env (execute env req (attempted env schedule req ns)).2
        (execute env req (serverFrom env schedule).world.state).2 := by
  have hbefore := (server_inStep hz hc he (hp.mono (submitted_mono (List.subset_cons_self _ _))) represents_new).state
  have hwithin := within_of_represents hz hbefore (S := _ ∪ {d | ∃ a, Stores env req a d}) Set.subset_union_left
  have hexec := (serve_repeatable hcollision he (fun a d h => Or.inr ⟨a,h⟩)).attempted hwithin ns
  have hsim := serve_simulates_of_mem hz hc he hp req List.mem_cons_self
  have hlength : (serverFrom env schedule).threads.length = (startedBy schedule).length := by
    have hrequests := congrArg List.length
      (Config.requests_initial_run InMemoryStore.handle (ReapiCache.serve env) InMemoryStore.new schedule)
    simpa [Config.requests, serverFrom, serverRun] using hrequests
  have hafter : attempted env schedule req ns =
      (ReapiCache.serve env req).attempted InMemoryStore.handle ns (serverFrom env schedule).world.state := by
    change ((Config.initial InMemoryStore.new).run InMemoryStore.handle (ReapiCache.serve env) _).world.state = _
    rw [Config.run_append, ← hlength]
    exact Config.attempts_state ns (serverFrom env schedule)
  obtain ⟨hfirst,hleft⟩ := hsim.exec store_refines hbefore
  obtain ⟨hagain,hleft'⟩ := hsim.exec store_refines (hsim.attempted store_refines hbefore ns)
  rw [hexec] at hagain hleft'
  rw [hafter]
  exact ⟨hagain.trans hfirst.symm,_,hleft',hleft⟩

open ReapiCache.Reference in
/-- An update that was given up twice, once after it had published. -/
theorem retries_unnoticed_update :
    (execute externals update (attempted externals uploadRun update [2,9])).1 = .actionResult (.ok result) := by
  have hknown : casContents externals (serverFrom externals uploadRun).world.log ∪ {d | ∃ a, Stores externals update a d} ⊆
      {d | d ∈ blobs} := by
    apply Set.union_subset (casContents_known (by decide +kernel))
    rintro d ⟨a,h⟩
    rw [h.eq_nil]
    exact List.mem_cons_self
  have hretried := retries_unnoticed zstdRoundTrip compressionTotal hashBytes_empty uploadRun update [2,9]
    (prostRoundTrip _) (hash_injOn.mono hknown)
  have hfirst : (execute externals update (serverFrom externals uploadRun).world.state).1 =
      .actionResult (.ok result) := by decide +kernel
  exact hretried.1.trans hfirst

end ReapiCache.Abstract
