import ReapiCache.Abstract.Server
import ReapiCache.Interaction.Simulation
import ReapiCache.Storage.StoreLog
import ReapiCache.Services.Downloads

/-! # What a store represents

An entry stands for a content in one of two forms: the compressed one of an upload, or
the plain one in which validation stores the empty blob. A store represents a cache when
every entry stands for what the cache has at the same place. The calls of the services
keep that, and no reply tells the two forms apart once it is decoded.
-/
namespace ReapiCache.Abstract
open Interaction

namespace Locator

theorem key_inj {kind kind' : CacheKind} {a a' : Locator} :
    a.key kind = a'.key kind' ↔ kind = kind' ∧ a = a' := by
  rcases a with ⟨i,l,h⟩
  rcases a' with ⟨i',l',h'⟩
  simp only [key, BlobKey.mk.injEq, mk.injEq]
  tauto

/-- Where the content of the address is stored, and where the result of the action is. -/
abbrev contentKey (address : Locator) : BlobKey := address.key .contentAddressableStorage
abbrev resultKey (address : Locator) : BlobKey := address.key .actionCache

end Locator

variable (env : Externals)

/-- The entry stands for the content `d` of the address. -/
structure StandsFor (address : Locator) (b : StoredBlob) (d : Bytes) : Prop where
  bounded : d.length ≤ MAX_DECOMPRESSED_BLOB_SIZE
  form : StoredAs env d b.metadata b.data ∨ b = ⟨d,(BlobRead.identity d).metadata⟩
  hash : address.algorithm.hashBytes env d = address.hash

/-- The entry is the cached result, which can be read back. -/
structure Caches (b : StoredBlob) (r : ActionResult) : Prop where
  decodes : env.decodeActionResult (env.encodeActionResult r) = .ok r
  bounded : (env.encodeActionResult r).length ≤ MAX_DECOMPRESSED_BLOB_SIZE
  form : StoredAs env (env.encodeActionResult r) b.metadata b.data

structure Represents (store : InMemoryStore) (cache : BlobCache) : Prop where
  unlocked : store.poisoned = false
  contents : ∀ a : Locator, Option.Rel (StandsFor env a) (store.blobs a.contentKey) (cache.contents a)
  results : ∀ a : Locator, Option.Rel (Caches env) (store.blobs a.resultKey) (cache.results a)

/-- The calls on the store and the calls on the cache. -/
inductive Goes : StoreCall → BlobCall → Prop
  | get (a : Locator) : Goes (.get a.contentKey) (.fetch a)
  | contains (a : Locator) : Goes (.contains a.contentKey) (.holds a)
  | put (a : Locator) (b : StoredBlob) (d : Bytes) (h : StandsFor env a b d) :
      Goes (.put a.contentKey b.metadata ⟨b.data⟩) (.store a d)
  | lookup (a : Locator) : Goes (.get a.resultKey) (.retrieve a)
  | cache (a : Locator) (b : StoredBlob) (r : ActionResult) (h : Caches env b r) :
      Goes (.put a.resultKey b.metadata ⟨b.data⟩) (.publish a r)

/-- A blob from the store, as it was stored. -/
def BlobRead.stored (blob : BlobRead) : StoredBlob := ⟨blob.body.cursor,blob.metadata⟩

/-- What the replies say is the same. -/
def Tells : (op : StoreCall) → (op' : BlobCall) → op.Ret → op'.Ret → Prop
  | .get _, .fetch a, (reply : Except StorageError (Option BlobRead)), (found : Option Bytes) =>
    ∃ blob, reply = .ok blob ∧ Option.Rel (fun b d => StandsFor env a (BlobRead.stored b) d) blob found
  | .get _, .retrieve _, (reply : Except StorageError (Option BlobRead)), (found : Option ActionResult) =>
    ∃ blob, reply = .ok blob ∧ Option.Rel (fun b r => Caches env (BlobRead.stored b) r) blob found
  | .contains _, .holds _, (reply : Except StorageError Bool), (found : Bool) => reply = .ok found
  | .put _ _ _, .store _ _, (reply : Except StorageError Unit), _ => reply = .ok ()
  | .put _ _ _, .publish _ _, (reply : Except StorageError Unit), _ => reply = .ok ()
  | _, _, _, _ => False

def storeMatching : Matching StoreCall StoreCall.Ret BlobCall CacheCall.Ret := ⟨Goes env,Tells env⟩

variable {env} {store : InMemoryStore} {cache : BlobCache}

theorem represents_new : Represents env InMemoryStore.new Cache.new :=
  ⟨rfl,fun _ => .none,fun _ => .none⟩

theorem Represents.set_content (h : Represents env store cache) {a : Locator} {b : StoredBlob} {d : Bytes}
    (hb : StandsFor env a b d) :
    Represents env (store.set a.contentKey b) (Cache.handle (.store a d) cache).2 where
  unlocked := h.unlocked
  contents := by
    intro a'
    by_cases ha : a' = a
    · subst ha
      rw [InMemoryStore.set_blobs_self]
      simp only [Cache.handle, Function.update_self]
      exact .some hb
    · have hkey : a'.contentKey ≠ a.contentKey := fun hk => ha (Locator.key_inj.mp hk).2
      rw [InMemoryStore.set_blobs_of_ne hkey]
      simp only [Cache.handle, Function.update_of_ne ha]
      exact h.contents a'
  results := by
    intro a'
    have hkey : a'.resultKey ≠ a.contentKey := fun hk => absurd (Locator.key_inj.mp hk).1 (by decide)
    rw [InMemoryStore.set_blobs_of_ne hkey]
    exact h.results a'

theorem Represents.set_result (h : Represents env store cache) {a : Locator} {b : StoredBlob} {r : ActionResult}
    (hb : Caches env b r) :
    Represents env (store.set a.resultKey b) (Cache.handle (.publish a r) cache).2 where
  unlocked := h.unlocked
  contents := by
    intro a'
    have hkey : a'.contentKey ≠ a.resultKey := fun hk => absurd (Locator.key_inj.mp hk).1 (by decide)
    rw [InMemoryStore.set_blobs_of_ne hkey]
    exact h.contents a'
  results := by
    intro a'
    by_cases ha : a' = a
    · subst ha
      rw [InMemoryStore.set_blobs_self]
      simp only [Cache.handle, Function.update_self]
      exact .some hb
    · have hkey : a'.resultKey ≠ a.resultKey := fun hk => ha (Locator.key_inj.mp hk).2
      rw [InMemoryStore.set_blobs_of_ne hkey]
      simp only [Cache.handle, Function.update_of_ne ha]
      exact h.results a'

theorem exists_of_rel_some {α β : Type} {R : α → β → Prop} {x : Option α} {b : β} (h : Option.Rel R x (some b)) :
    ∃ a, x = some a ∧ R a b := by
  cases h with
  | some h => exact ⟨_,rfl,h⟩

theorem exists_of_some_rel {α β : Type} {R : α → β → Prop} {a : α} {y : Option β} (h : Option.Rel R (some a) y) :
    ∃ b, y = some b ∧ R a b := by
  cases h with
  | some h => exact ⟨_,rfl,h⟩

/-- An entry of the store stands for what the cache has. -/
theorem Represents.content (h : Represents env store cache) {a : Locator} {b : StoredBlob}
    (hb : store.blobs a.contentKey = some b) : ∃ d, cache.contents a = some d ∧ StandsFor env a b d :=
  exists_of_some_rel (hb ▸ h.contents a)

/-- What the cache has, the store has an entry for. -/
theorem Represents.entry (h : Represents env store cache) {a : Locator} {d : Bytes} (hd : cache.contents a = some d) :
    ∃ b, store.blobs a.contentKey = some b ∧ StandsFor env a b d := exists_of_rel_some (hd ▸ h.contents a)

theorem Represents.cachedEntry (h : Represents env store cache) {a : Locator} {r : ActionResult}
    (hr : cache.results a = some r) : ∃ b, store.blobs a.resultKey = some b ∧ Caches env b r :=
  exists_of_rel_some (hr ▸ h.results a)

theorem rel_map_stored {β : Type} {R : StoredBlob → β → Prop} {b : Option StoredBlob} {x : Option β}
    (h : Option.Rel R b x) :
    Option.Rel (fun b x => R (BlobRead.stored b) x) (b.map (fun b => (⟨b.metadata,⟨b.data⟩⟩ : BlobRead))) x := by
  cases h with
  | none => exact .none
  | some h => exact .some h

/-- The store answers as the cache does, and goes on representing it. -/
theorem store_refines : Refines InMemoryStore.handle Cache.handle (storeMatching env) (Represents env) := by
  intro op op' store cache hop h
  cases hop with
  | get a =>
    rw [InMemoryStore.handle_get, InMemoryStore.get_eq h.unlocked]
    exact ⟨⟨_,rfl,rel_map_stored (h.contents a)⟩,h⟩
  | contains a =>
    rw [InMemoryStore.handle_contains, InMemoryStore.contains_eq h.unlocked]
    refine ⟨congrArg Except.ok ?_,h⟩
    have hrel := h.contents a
    cases hb : store.blobs a.contentKey with
    | none =>
      cases hx : cache.contents a with
      | none => simp only [Cache.handle, hx, Option.isSome_none]
      | some d =>
        rw [hb, hx] at hrel
        cases hrel
    | some b =>
      cases hx : cache.contents a with
      | none =>
        rw [hb, hx] at hrel
        cases hrel
      | some d => simp only [Cache.handle, hx, Option.isSome_some]
  | put a b d hb =>
    rw [InMemoryStore.handle_put, InMemoryStore.put_eq h.unlocked]
    exact ⟨rfl,h.set_content hb⟩
  | lookup a =>
    rw [InMemoryStore.handle_get, InMemoryStore.get_eq h.unlocked]
    exact ⟨⟨_,rfl,rel_map_stored (h.results a)⟩,h⟩
  | cache a b r hb =>
    rw [InMemoryStore.handle_put, InMemoryStore.put_eq h.unlocked]
    exact ⟨rfl,h.set_result hb⟩

end ReapiCache.Abstract
