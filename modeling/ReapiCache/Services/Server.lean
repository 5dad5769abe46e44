import ReapiCache.Services.Cas
import ReapiCache.Services.ByteStream
import ReapiCache.Services.ActionCache

/-! # The server: all services over one store -/
namespace ReapiCache
open Interaction

inductive Request
  | findMissingBlobs (request : FindMissingBlobsRequest)
  | batchReadBlobs (request : BatchReadBlobsRequest)
  | batchUpdateBlobs (request : BatchUpdateBlobsRequest)
  | getTree
  | splitBlob
  | spliceBlob
  | read (request : ReadRequest)
  | write (stream : WriteStream)
  | queryWriteStatus
  | getActionResult (request : GetActionResultRequest)
  | updateActionResult (request : UpdateActionResultRequest)

inductive Response
  | findMissingBlobs (response : Except Status FindMissingBlobsResponse)
  | batchReadBlobs (response : Except Status BatchReadBlobsResponse)
  | batchUpdateBlobs (response : Except Status BatchUpdateBlobsResponse)
  | read (response : Except Status (List ReadResponse))
  | write (response : Except Status WriteResponse)
  | actionResult (response : Except Status ActionResult)
  | unimplemented (response : Except Status Unit)
deriving DecidableEq

/-- The results that are submitted with these requests. -/
def submitted (requests : List Request) : Set ActionResult :=
  {r | ∃ q, .updateActionResult q ∈ requests ∧ q.actionResult = some r}

theorem submitted_mono {requests requests' : List Request} (h : requests ⊆ requests') :
    submitted requests ⊆ submitted requests' := by
  rintro r ⟨q,hq,hr⟩
  exact ⟨q,h hq,hr⟩

variable (env : Externals)

def serve : Request → StoreM Response
  | .findMissingBlobs r => .findMissingBlobs <$> (CasService.findMissingBlobs env r).run
  | .batchReadBlobs r => .batchReadBlobs <$> (CasService.batchReadBlobs env r).run
  | .batchUpdateBlobs r => .batchUpdateBlobs <$> (CasService.batchUpdateBlobs env r).run
  | .getTree => .unimplemented <$> CasService.getTree.run
  | .splitBlob => .unimplemented <$> CasService.splitBlob.run
  | .spliceBlob => .unimplemented <$> CasService.spliceBlob.run
  | .read r => .read <$> (ByteStreamService.read env r).run
  | .write s => .write <$> (ByteStreamService.write env s).run
  | .queryWriteStatus => .unimplemented <$> ByteStreamService.queryWriteStatus.run
  | .getActionResult r => .actionResult <$> (ActionCacheService.getActionResult env r).run
  | .updateActionResult r => .actionResult <$> (ActionCacheService.updateActionResult env r).run

/-- A request executed on its own. -/
def execute (request : Request) (store : InMemoryStore) : Response × InMemoryStore :=
  (serve env request).exec InMemoryStore.handle store

abbrev ServerConfig := Config StoreCall StoreCall.Ret Request Response InMemoryStore
abbrev ServerWorld := World StoreCall Request InMemoryStore

/-- A run of the server from a configuration, under a schedule. -/
def serverRun (c : ServerConfig) (schedule : List (Interaction.Action Request)) : ServerConfig :=
  c.run InMemoryStore.handle (serve env) schedule

/-- A run from the empty store. -/
def serverFrom (schedule : List (Interaction.Action Request)) : ServerConfig :=
  serverRun env (Config.initial InMemoryStore.new) schedule

end ReapiCache
