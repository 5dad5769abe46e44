import ReapiCache.Abstract.Parts
import ReapiCache.Abstract.Refinement

/-! # Batches and single items

Requests are executed one after the other, from stores with the same contents: once as
they are, and once with every batch cut into batches of one.
-/
namespace ReapiCache.Abstract
open Interaction
variable {env : Externals}

/-- Cutting batches submits nothing else. -/
theorem submitted_parts (requests : List Request) : submitted (requests.flatMap parts) ⊆ submitted requests := by
  rintro r ⟨q,hq,hr⟩
  obtain ⟨req,hreq,hpart⟩ := List.mem_flatMap.mp hq
  cases req with
  | updateActionResult u =>
    obtain rfl := Request.updateActionResult.inj (List.mem_singleton.mp hpart)
    exact ⟨q,hreq,hr⟩
  | findMissingBlobs b => simp [parts] at hpart
  | batchReadBlobs b => simp [parts] at hpart
  | batchUpdateBlobs b => simp [parts] at hpart
  | getTree => cases List.mem_singleton.mp hpart
  | splitBlob => cases List.mem_singleton.mp hpart
  | spliceBlob => cases List.mem_singleton.mp hpart
  | read b => cases List.mem_singleton.mp hpart
  | write s => cases List.mem_singleton.mp hpart
  | queryWriteStatus => cases List.mem_singleton.mp hpart
  | getActionResult g => cases List.mem_singleton.mp hpart

/-- Cutting batches into their items changes no answer and nothing that is stored. The
response to a batch is made of those to its items. -/
theorem batches_cut (hz : env.ZstdRoundTrip) (hc : env.CompressionTotal) (he : env.HashesEmpty)
    {store store' : InMemoryStore} (h : SameContents env store store') (requests : List Request)
    (hp : env.ProstRoundTrip (submitted requests)) :
    ∃ answers : List (List (Request × Response)), answers.map (fun ys => ys.map Prod.fst) = requests.map parts ∧
      (runAll InMemoryStore.handle (ReapiCache.serve env) requests store).1 =
        List.zipWith (fun r ys => (r,assemble env r (ys.map Prod.snd))) requests answers ∧
      (runAll InMemoryStore.handle (ReapiCache.serve env) (requests.flatMap parts) store').1 = answers.flatten ∧
      SameContents env (runAll InMemoryStore.handle (ReapiCache.serve env) requests store).2
        (runAll InMemoryStore.handle (ReapiCache.serve env) (requests.flatMap parts) store').2 := by
  obtain ⟨cache,hcache,hcache'⟩ := h
  obtain ⟨hwhole,hstate⟩ := runAll_simulates store_refines requests
    (serve_simulates_of_mem hz hc he hp) hcache
  obtain ⟨hcut,hstate'⟩ := runAll_simulates store_refines (requests.flatMap parts)
    (serve_simulates_of_mem hz hc he (hp.mono (submitted_parts requests))) hcache'
  obtain ⟨answers,hrequests,hresponses,hparts⟩ := runAll_parts Cache.handle (@serve_parts env) requests cache
  rw [hparts] at hcut hstate'
  exact ⟨answers,hrequests,hwhole.trans hresponses,hcut,_,hstate,hstate'⟩

/-- An upload of three blobs, to a store that has the empty blob in either form. -/
theorem batches_cut_upload : ([ReapiCache.Reference.upload].flatMap parts).length = 3 ∧
    SameContents ReapiCache.Reference.externals
      (runAll InMemoryStore.handle (ReapiCache.serve ReapiCache.Reference.externals) [ReapiCache.Reference.upload]
        Reference.plainEmpty).2
      (runAll InMemoryStore.handle (ReapiCache.serve ReapiCache.Reference.externals)
        ([ReapiCache.Reference.upload].flatMap parts) Reference.compressedEmpty).2 := by
  obtain ⟨_,_,_,_,hsame⟩ := batches_cut ReapiCache.Reference.zstdRoundTrip ReapiCache.Reference.compressionTotal
    ReapiCache.Reference.hashBytes_empty Reference.sameContents_empty [ReapiCache.Reference.upload]
    (ReapiCache.Reference.prostRoundTrip _)
  exact ⟨rfl,hsame⟩

end ReapiCache.Abstract
