import ReapiCache.Interaction.Isolation
import ReapiCache.Server.Calls
import ReapiCache.Reference

/-! # Isolation of instances

Every key a handler builds carries the instance its request is addressed to. A client
of an instance therefore sees nothing of the requests to the others, nor of requests
that are addressed to no instance.
-/
namespace ReapiCache
open Interaction
variable {env : Externals}

/-- All keys of the instance read the same in both stores. -/
def InMemoryStore.AgreeOn (instanceName : String) (store store' : InMemoryStore) : Prop :=
  ∀ key : BlobKey, key.instanceName = instanceName → store.get key = store'.get key

namespace InMemoryStore

/-- With open locks this is about the entries. -/
theorem agreeOn_iff {instanceName : String} {store store' : InMemoryStore} (h : store.poisoned = false)
    (h' : store'.poisoned = false) : store.AgreeOn instanceName store' ↔
      ∀ key : BlobKey, key.instanceName = instanceName → store.blobs key = store'.blobs key := by
  have hinj : Function.Injective (fun b : StoredBlob => (⟨b.metadata,⟨b.data⟩⟩ : BlobRead)) := by
    rintro ⟨data,metadata⟩ ⟨data',metadata'⟩ heq
    cases heq
    rfl
  constructor
  · intro hagree key hkey
    have hget := hagree key hkey
    rw [get_eq h, get_eq h'] at hget
    exact Option.map_injective hinj (Except.ok.inj hget)
  · intro hagree key hkey
    rw [get_eq h, get_eq h', hagree key hkey]

theorem agreeOn_equivalence (instanceName : String) : Equivalence (AgreeOn instanceName) where
  refl := fun _ _ _ => rfl
  symm := fun h key hkey => (h key hkey).symm
  trans := fun h h' key hkey => (h key hkey).trans (h' key hkey)

/-- Whatever the lock's state, the replies of the other two operations and the effect of a
put are determined by what the keys read. -/
theorem contains_eq_map (store : InMemoryStore) (key : BlobKey) :
    store.contains key = (store.get key).map Option.isSome := by
  unfold contains get
  by_cases h : store.poisoned = true
  · rw [if_pos h, if_pos h]
    rfl
  · rw [if_neg h, if_neg h]
    simp [Except.map]

theorem put_reply (store : InMemoryStore) (key : BlobKey) (metadata : StoredBlobMetadata) (body : BlobReader) :
    (store.put key metadata body).1 = (store.get key).map (fun _ => ()) := by
  unfold put get
  by_cases h : store.poisoned = true
  · simp [h, BlobReader.readToEnd, Except.map]
  · simp [h, BlobReader.readToEnd, Except.map]

theorem get_put_self (store : InMemoryStore) (key : BlobKey) (metadata : StoredBlobMetadata) (body : BlobReader) :
    (store.put key metadata body).2.get key = (store.get key).map (fun _ => some ⟨metadata,⟨body.cursor⟩⟩) := by
  unfold put get
  by_cases h : store.poisoned = true
  · simp [h, BlobReader.readToEnd, Except.map]
  · simp [h, BlobReader.readToEnd, Except.map]

theorem get_put_of_ne (store : InMemoryStore) {key key' : BlobKey} (hne : key' ≠ key)
    (metadata : StoredBlobMetadata) (body : BlobReader) :
    (store.put key metadata body).2.get key' = store.get key' := by
  unfold put get
  by_cases h : store.poisoned = true
  · simp [h, BlobReader.readToEnd]
  · simp [h, BlobReader.readToEnd, Function.update_of_ne hne]

variable {instanceName : String} {op : StoreCall}

theorem consistent_of_eq (h : op.key.instanceName = instanceName) :
    Consistent handle (AgreeOn instanceName) op := by
  intro store store' hagree
  cases op with
  | get key => exact ⟨hagree key h,hagree⟩
  | contains key =>
    refine ⟨?_,hagree⟩
    rw [handle_contains, handle_contains, contains_eq_map, contains_eq_map, hagree key h]
  | put key metadata body =>
    rw [handle_put, handle_put, put_reply, put_reply, hagree key h]
    refine ⟨rfl,?_⟩
    intro key' hkey'
    by_cases he : key' = key
    · subst he
      rw [get_put_self, get_put_self, hagree key' h]
    · rw [get_put_of_ne _ he, get_put_of_ne _ he, hagree key' hkey']

theorem unseen_of_ne (h : op.key.instanceName ≠ instanceName) :
    Unseen handle (AgreeOn instanceName) op := by
  intro store store' hagree
  cases op with
  | get key => exact hagree
  | contains key => exact hagree
  | put key metadata body =>
    intro key' hkey'
    have hne : key' ≠ key := by
      rintro rfl
      exact h hkey'
    rw [handle_put, get_put_of_ne _ hne]
    exact hagree key' hkey'

end InMemoryStore

/-- The requests addressed to an instance. -/
def Request.To (instanceName : String) (req : Request) : Prop := req.addressee = some instanceName

instance (instanceName : String) : DecidablePred (Request.To instanceName) :=
  fun req => inferInstanceAs (Decidable (req.addressee = some instanceName))

/-- A run of requests, one executed after the other. -/
def serveAll (env : Externals) (requests : List Request) (store : InMemoryStore) :
    List (Request × Response) × InMemoryStore := runAll InMemoryStore.handle (serve env) requests store

theorem instance_isolation {instanceName : String} {store store' : InMemoryStore}
    (hstores : store.AgreeOn instanceName store') {requests requests' : List Request}
    (hsame : requests.filter (fun r => r.To instanceName) = requests'.filter (fun r => r.To instanceName)) :
    (serveAll env requests store).1.filter (fun p => p.1.To instanceName) =
        (serveAll env requests' store').1.filter (fun p => p.1.To instanceName) ∧
      (serveAll env requests store).2.AgreeOn instanceName (serveAll env requests' store').2 := by
  have hvisible : ∀ r : Request, r.To instanceName →
      (serve env r).Uses (Consistent InMemoryStore.handle (InMemoryStore.AgreeOn instanceName)) := by
    intro r hr
    apply (serve_uses r).mono
    intro op hop
    exact InMemoryStore.consistent_of_eq (Option.some.inj (hop.addressed.symm.trans hr))
  have hhidden : ∀ r : Request, ¬ r.To instanceName →
      (serve env r).Uses (Unseen InMemoryStore.handle (InMemoryStore.AgreeOn instanceName)) := by
    intro r hr
    apply (serve_uses r).mono
    intro op hop
    apply InMemoryStore.unseen_of_ne
    rintro rfl
    exact hr hop.addressed
  exact runAll_isolated hvisible hhidden (InMemoryStore.agreeOn_equivalence instanceName) hsame hstores

/-- What other instances upload and what is malformed changes nothing for `main`. -/
theorem instance_isolation_upload :
    let find : Request := .findMissingBlobs ⟨"main",[Reference.commandDigest],1⟩
    let missing : Response := .findMissingBlobs (.ok ⟨[Reference.commandDigest]⟩)
    let other : Request := .batchUpdateBlobs ⟨"other",
      [Reference.blobRequest Reference.commandDigest Reference.commandData],1⟩
    (serveAll Reference.externals [find] InMemoryStore.new).1.map Prod.snd = [missing] ∧
    (serveAll Reference.externals [find] InMemoryStore.new).1.filter (fun p => p.1.To "main") =
      (serveAll Reference.externals [other,.read ⟨"main/blobs",0,0⟩,find] InMemoryStore.new).1.filter
        (fun p => p.1.To "main") := by
  intro find missing other
  refine ⟨by decide +kernel,?_⟩
  have hread : ¬ (Request.read ⟨"main/blobs",0,0⟩).To "main" := by decide
  have hother : ¬ other.To "main" := by decide
  exact (instance_isolation (fun _ _ => rfl) (by simp [hread, hother])).1

end ReapiCache
