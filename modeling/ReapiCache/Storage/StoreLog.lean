import ReapiCache.Storage.InMemory
import ReapiCache.Interaction.LastWrite

/-! # The store as the replay of its log

From the empty store the lock is never poisoned, the entry under a key is the last
one put there, and no entry ever disappears.
-/
namespace ReapiCache
open Interaction

abbrev StoreEntry (Req : Type) := Entry StoreCall Req

/-- What a call leaves under a key, when it is a put to it. -/
def StoreCall.putTo (key : BlobKey) : StoreCall → Option StoredBlob
  | .put k metadata body => if k = key then some ⟨body.cursor,metadata⟩ else none
  | .get _ => none
  | .contains _ => none

theorem StoreCall.putTo_eq_some {key : BlobKey} {op : StoreCall} {b : StoredBlob} :
    op.putTo key = some b ↔ op = .put key b.metadata ⟨b.data⟩ := by
  cases op with
  | get k => simp [putTo]
  | contains k => simp [putTo]
  | put k metadata body =>
    rcases b with ⟨data,m⟩
    rcases body with ⟨cursor⟩
    by_cases hk : k = key
    · simp [putTo, hk, and_comm]
    · simp [putTo, hk]

namespace InMemoryStore

/-- The store holds an entry under the key. -/
def Present (store : InMemoryStore) (key : BlobKey) : Prop := ∃ b, store.blobs key = some b

@[simp] theorem new_blobs (key : BlobKey) : new.blobs key = none := rfl

@[simp] theorem handle_get (key : BlobKey) (store : InMemoryStore) :
    handle (.get key) store = (store.get key,store) := rfl
@[simp] theorem handle_contains (key : BlobKey) (store : InMemoryStore) :
    handle (.contains key) store = (store.contains key,store) := rfl
@[simp] theorem handle_put (key : BlobKey) (metadata : StoredBlobMetadata) (body : BlobReader)
    (store : InMemoryStore) : handle (.put key metadata body) store = store.put key metadata body := rfl

variable {store : InMemoryStore}

theorem get_eq (h : store.poisoned = false) (key : BlobKey) :
    store.get key = .ok ((store.blobs key).map (fun b => ⟨b.metadata,⟨b.data⟩⟩)) := by
  simp [get, h]

theorem contains_eq (h : store.poisoned = false) (key : BlobKey) :
    store.contains key = .ok (store.blobs key).isSome := by
  simp [contains, h]

/-- The store with one entry written. -/
def set (store : InMemoryStore) (key : BlobKey) (b : StoredBlob) : InMemoryStore :=
  { store with blobs := Function.update store.blobs key (some b) }

@[simp] theorem set_poisoned (key : BlobKey) (b : StoredBlob) :
    (store.set key b).poisoned = store.poisoned := rfl
@[simp] theorem set_blobs_self (key : BlobKey) (b : StoredBlob) : (store.set key b).blobs key = some b :=
  Function.update_self _ _ _
theorem set_blobs_of_ne {key key' : BlobKey} (h : key' ≠ key) (b : StoredBlob) :
    (store.set key b).blobs key' = store.blobs key' := Function.update_of_ne h _ _

theorem put_eq (h : store.poisoned = false) (key : BlobKey) (metadata : StoredBlobMetadata)
    (body : BlobReader) : store.put key metadata body = (.ok (),store.set key ⟨body.cursor,metadata⟩) := by
  simp [put, h, BlobReader.readToEnd, set]

/-- No call poisons the lock. -/
@[simp] theorem handle_poisoned (op : StoreCall) (store : InMemoryStore) :
    (handle op store).2.poisoned = store.poisoned := by
  cases op with
  | get key => rfl
  | contains key => rfl
  | put key metadata body =>
    by_cases h : store.poisoned = true
    · simp [put, h, BlobReader.readToEnd]
    · rw [handle_put, put_eq (by simpa using h), set_poisoned]

theorem handle_blobs (op : StoreCall) (h : store.poisoned = false) (key : BlobKey) :
    (handle op store).2.blobs key = (op.putTo key).or (store.blobs key) := by
  cases op with
  | get k => rfl
  | contains k => rfl
  | put k metadata body =>
    rw [handle_put, put_eq h]
    by_cases hk : k = key
    · subst k
      simp [StoreCall.putTo]
    · simp [StoreCall.putTo, hk, set_blobs_of_ne (Ne.symm hk)]

end InMemoryStore

section Replay
variable {Req : Type}

/-- The empty store after the calls of a log. -/
abbrev stored (log : List (StoreEntry Req)) : InMemoryStore :=
  replay InMemoryStore.handle InMemoryStore.new log

theorem stored_poisoned (log : List (StoreEntry Req)) : (stored log).poisoned = false :=
  replay_inv (fun s : InMemoryStore => s.poisoned = false) (fun op s h => by rw [InMemoryStore.handle_poisoned, h])
    rfl log

theorem stored_blobs (log : List (StoreEntry Req)) (key : BlobKey) : (stored log).blobs key =
    (lastWrite (StoreCall.putTo key) log).bind (fun e => e.op.putTo key) := by
  have h := lookup_replay (StoreCall.putTo key) (fun s : InMemoryStore => s.blobs key)
    (fun s : InMemoryStore => s.poisoned = false) (fun op s h => by rw [InMemoryStore.handle_poisoned, h])
    (fun op s h => InMemoryStore.handle_blobs op h key) (s := InMemoryStore.new) rfl log
  simpa using h

/-- Every entry was put there by a call of the log. -/
theorem mem_of_stored {log : List (StoreEntry Req)} {key : BlobKey} {b : StoredBlob}
    (h : (stored log).blobs key = some b) :
    ∃ e ∈ log, lastWrite (StoreCall.putTo key) log = some e ∧ e.op = .put key b.metadata ⟨b.data⟩ := by
  rw [stored_blobs] at h
  obtain ⟨e,he,hb⟩ := Option.bind_eq_some_iff.mp h
  exact ⟨e,(lastWrite_spec he).1,he,StoreCall.putTo_eq_some.mp hb⟩

/-- What was put under a key has an entry from then on. -/
theorem present_of_mem {log : List (StoreEntry Req)} {e : StoreEntry Req} {key : BlobKey}
    {metadata : StoredBlobMetadata} {body : BlobReader} (he : e ∈ log)
    (hop : e.op = .put key metadata body) : (stored log).Present key := by
  have hv : e.op.putTo key = some ⟨body.cursor,metadata⟩ := StoreCall.putTo_eq_some.mpr hop
  obtain ⟨e',he'⟩ := exists_lastWrite he hv
  obtain ⟨_,b,hb⟩ := lastWrite_spec he'
  exact ⟨b,by rw [stored_blobs, he']; exact hb⟩

theorem InMemoryStore.Present.later {log log' : List (StoreEntry Req)} {key : BlobKey}
    (h : (stored log).Present key) (hl : log <+: log') : (stored log').Present key := by
  obtain ⟨b,hb⟩ := h
  obtain ⟨e,he,_,hop⟩ := mem_of_stored hb
  exact present_of_mem (hl.subset he) hop

end Replay
end ReapiCache
