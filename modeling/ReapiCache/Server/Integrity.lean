import ReapiCache.Server.Calls
import ReapiCache.Reference

/-! # Integrity of the content addressable storage

Three code paths write entries of this kind. Each of them leaves a blob that stands
for a content of exactly the hash in its key, so every entry of every reachable state
does.
-/
namespace ReapiCache
open Interaction ActionCacheService
variable {env : Externals}

/-- Every entry stands for a content with the hash of its key, and its metadata are right. -/
def CasIntegrity (env : Externals) (store : InMemoryStore) : Prop :=
  ∀ key b, key.kind = .contentAddressableStorage → store.blobs key = some b →
    ∃ d, Holds env b.metadata b.data d ∧ key.algorithm.hashBytes env d = key.hash

/-- The documented hash of the empty string. -/
def Externals.HashesEmpty (env : Externals) : Prop :=
  DigestAlgorithm.sha256.hashBytes env [] = EMPTY_SHA256

/-- Whatever a request puts under a content key is a content of that hash. -/
theorem Puts.holds (hz : env.ZstdRoundTrip) (he : env.HashesEmpty) {req : Request} {key : BlobKey}
    {blob : BlobRead} (hkind : key.kind = .contentAddressableStorage) (h : Puts env req key blob) :
    ∃ d, Holds env blob.metadata blob.body.cursor d ∧ key.algorithm.hashBytes env d = key.hash := by
  cases h with
  | upload d _ hash encoded => exact ⟨d,(fromIdentityData_holds hz encoded).1,hash⟩
  | empty _ hash encoded =>
    subst encoded
    cases ha : key.algorithm
    exact ⟨[],holds_identity (Nat.zero_le _),by rw [hash]; exact he⟩
  | result q r _ targets _ =>
    obtain ⟨_,digest,algorithm,_,_,rfl⟩ := targets
    cases hkind

theorem serverFrom_state (schedule : List (Interaction.Action Request)) :
    (serverFrom env schedule).world.state = stored (serverFrom env schedule).world.log :=
  Config.state_run InMemoryStore.handle (serve env) InMemoryStore.new schedule

theorem serverFrom_open (schedule : List (Interaction.Action Request)) :
    (serverFrom env schedule).world.state.poisoned = false := by
  rw [serverFrom_state]
  exact stored_poisoned _

/-- A log of permitted calls leaves integrity behind. -/
theorem stored_integrity (hz : env.ZstdRoundTrip) (he : env.HashesEmpty)
    {log : List (StoreEntry Request)} (hlog : ∀ e ∈ log, Permitted env e.request e.op) :
    CasIntegrity env (stored log) := by
  intro key b hkind hb
  obtain ⟨e,hmem,_,hop⟩ := mem_of_stored hb
  exact ((hlog e hmem).puts key b.metadata ⟨b.data⟩ hop).holds hz he hkind

/-- What a single request may rely on in a reachable state. -/
theorem serverFrom_sound (hz : env.ZstdRoundTrip) (he : env.HashesEmpty)
    (schedule : List (Interaction.Action Request)) :
    (serverFrom env schedule).world.state.poisoned = false ∧
      CasIntegrity env (serverFrom env schedule).world.state := by
  refine ⟨serverFrom_open schedule,?_⟩
  rw [serverFrom_state]
  exact stored_integrity hz he (server_log_permitted schedule)

theorem cas_integrity (hz : env.ZstdRoundTrip) (he : env.HashesEmpty)
    (schedule : List (Interaction.Action Request)) :
    CasIntegrity env (serverFrom env schedule).world.state := (serverFrom_sound hz he schedule).2

theorem cas_integrity_upload :
    (serverFrom Reference.externals [.start Reference.upload,.advance 0]).world.state.Present
        ⟨"main",.sha256,Reference.commandHash,.contentAddressableStorage⟩ ∧
      CasIntegrity Reference.externals
        (serverFrom Reference.externals [.start Reference.upload,.advance 0]).world.state :=
  ⟨⟨_,rfl⟩,cas_integrity Reference.zstdRoundTrip Reference.hashBytes_empty _⟩

end ReapiCache
