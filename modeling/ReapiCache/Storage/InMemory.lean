import ReapiCache.Storage.BlobCodec
import ReapiCache.Interaction.Pool

/-! # The in-memory store

A map behind a lock. A poisoned lock makes every operation fail; nothing that runs
under the lock panics, so no operation poisons it. `StoreCall` is the interface the
services share, one atomic call each.
-/
namespace ReapiCache
open Interaction

structure StoredBlob where
  data : Bytes
  metadata : StoredBlobMetadata
deriving DecidableEq

structure InMemoryStore where
  blobs : BlobKey → Option StoredBlob
  poisoned : Bool

namespace InMemoryStore

def new : InMemoryStore := ⟨fun _ => none,false⟩

def get (store : InMemoryStore) (key : BlobKey) : Except StorageError (Option BlobRead) :=
  if store.poisoned then .error (.unavailable "lock poisoned")
  else .ok ((store.blobs key).map (fun blob => ⟨blob.metadata,⟨blob.data⟩⟩))

/-- The body is read before the lock is taken. -/
def put (store : InMemoryStore) (key : BlobKey) (metadata : StoredBlobMetadata) (body : BlobReader) :
    Except StorageError Unit × InMemoryStore :=
  match body.readToEnd with
  | .error err => (.error (.io err),store)
  | .ok data =>
    if store.poisoned then (.error (.unavailable "lock poisoned"),store)
    else (.ok (),{ store with blobs := Function.update store.blobs key (some ⟨data,metadata⟩) })

def contains (store : InMemoryStore) (key : BlobKey) : Except StorageError Bool :=
  if store.poisoned then .error (.unavailable "lock poisoned")
  else .ok (store.blobs key).isSome

end InMemoryStore

inductive StoreCall
  | get (key : BlobKey)
  | put (key : BlobKey) (metadata : StoredBlobMetadata) (body : BlobReader)
  | contains (key : BlobKey)
deriving DecidableEq

namespace StoreCall

def Ret : StoreCall → Type
  | .get _ => Except StorageError (Option BlobRead)
  | .put _ _ _ => Except StorageError Unit
  | .contains _ => Except StorageError Bool

def key : StoreCall → BlobKey
  | .get key => key
  | .put key _ _ => key
  | .contains key => key

end StoreCall

/-- One atomic call on the store. -/
def InMemoryStore.handle : (op : StoreCall) → InMemoryStore → op.Ret × InMemoryStore
  | .get key, store => (store.get key,store)
  | .put key metadata body, store => store.put key metadata body
  | .contains key, store => (store.contains key,store)

abbrev StoreM := Program StoreCall StoreCall.Ret
abbrev Handler (ε α : Type) := Failing StoreCall StoreCall.Ret ε α

/-- The calls of the store trait, with the caller's translation of a storage error. -/
def storeGet {ε : Type} (onError : StorageError → ε) (key : BlobKey) : Handler ε (Option BlobRead) :=
  Failing.attempt (.get key) (fun r => Except.mapError onError r)

def storePut {ε : Type} (onError : StorageError → ε) (key : BlobKey) (metadata : StoredBlobMetadata)
    (body : BlobReader) : Handler ε Unit :=
  Failing.attempt (.put key metadata body) (fun r => Except.mapError onError r)

def storeContains {ε : Type} (onError : StorageError → ε) (key : BlobKey) : Handler ε Bool :=
  Failing.attempt (.contains key) (fun r => Except.mapError onError r)

end ReapiCache
