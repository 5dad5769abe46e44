import ReapiCache.Abstract.Server
import ReapiCache.Interaction.Linearization

/-! # A batch is the sequence of its items

The program of a batch is that of its items, each sent as a batch of its own, and the
response is put together from theirs. So how a client cuts its items into batches
changes neither what is stored nor what is answered.
-/
namespace ReapiCache.Abstract
open Interaction
variable (env : Externals)

/-- The items of a batch as batches of one. Any other request is its own only part. -/
def parts : Request → List Request
  | .findMissingBlobs r => r.blobDigests.map (fun digest => .findMissingBlobs { r with blobDigests := [digest] })
  | .batchReadBlobs r => r.digests.map (fun digest => .batchReadBlobs { r with digests := [digest] })
  | .batchUpdateBlobs r => r.requests.map (fun item => .batchUpdateBlobs { r with requests := [item] })
  | r => [r]

/-- Two responses to batches as one. An error stays an error. -/
def merge : Response → Response → Response
  | .findMissingBlobs (.ok a), .findMissingBlobs (.ok b) =>
    .findMissingBlobs (.ok ⟨a.missingBlobDigests ++ b.missingBlobDigests⟩)
  | .batchReadBlobs (.ok a), .batchReadBlobs (.ok b) => .batchReadBlobs (.ok ⟨a.responses ++ b.responses⟩)
  | .batchUpdateBlobs (.ok a), .batchUpdateBlobs (.ok b) => .batchUpdateBlobs (.ok ⟨a.responses ++ b.responses⟩)
  | a, _ => a

/-- The response to a batch of nothing. -/
def nothing {Answer Resp : Type} (digestFunction : Int32) (respond : List Answer → Resp) : Except Status Resp :=
  ((DigestAlgorithm.resolveProtoValue env digestFunction).mapError Status.invalidArgument).map
    (fun _ => respond [])

/-- The response to a request, from the responses to its parts. -/
def assemble : Request → List Response → Response
  | .findMissingBlobs r, responses =>
    responses.foldl merge (.findMissingBlobs (nothing env r.digestFunction .mk))
  | .batchReadBlobs r, responses => responses.foldl merge (.batchReadBlobs (nothing env r.digestFunction .mk))
  | .batchUpdateBlobs r, responses => responses.foldl merge (.batchUpdateBlobs (nothing env r.digestFunction .mk))
  | _, responses => responses.headD (.unimplemented (.ok ()))

variable {env} {Item Answer Resp : Type} {digestFunction : Int32}
  {round : DigestAlgorithm → Item → CacheM (List Answer)} {respond : List Answer → Resp}

/-- What a batch asks of the constructor of its responses. -/
structure Merges (respond : List Answer → Resp) (wrap : Except Status Resp → Response) : Prop where
  ok : ∀ a b, merge (wrap (.ok (respond a))) (wrap (.ok (respond b))) = wrap (.ok (respond (a ++ b)))
  error : ∀ s y, merge (wrap (.error s)) y = wrap (.error s)

theorem foldl_merge_error {wrap : Except Status Resp → Response} (h : Merges respond wrap) (s : Status)
    (responses : List Response) : responses.foldl merge (wrap (.error s)) = wrap (.error s) := by
  induction responses with
  | nil => rfl
  | cons y responses ih => rw [List.foldl_cons, h.error, ih]

section Batch
variable {algorithm : DigestAlgorithm} {s : Status}

theorem batch_error
    (h : (DigestAlgorithm.resolveProtoValue env digestFunction).mapError Status.invalidArgument = .error s)
    (items : List Item) : batch env digestFunction round respond items = .done (.error s) := by
  rw [batch, h]

theorem batch_ok
    (h : (DigestAlgorithm.resolveProtoValue env digestFunction).mapError Status.invalidArgument = .ok algorithm)
    (items : List Item) : batch env digestFunction round respond items =
      ((fun answers => .ok (respond answers.flatten)) <$> items.mapM (round algorithm)) := by
  rw [batch, h]

theorem batch_one
    (h : (DigestAlgorithm.resolveProtoValue env digestFunction).mapError Status.invalidArgument = .ok algorithm)
    (item : Item) : batch env digestFunction round respond [item] =
      ((fun answers => .ok (respond answers)) <$> round algorithm item) := by
  rw [batch_ok h, List.mapM_cons, List.mapM_nil]
  simp

end Batch

/-- A batch is the sequence of the batches of one. -/
theorem batch_parts (wrap : Except Status Resp → Response) (h : Merges respond wrap)
    (single : Item → Request) (hsingle : ∀ item, serve env (single item) =
      wrap <$> batch env digestFunction round respond [item]) (items : List Item) :
    (wrap <$> batch env digestFunction round respond items) =
      (fun responses => responses.foldl merge (wrap (nothing env digestFunction respond))) <$>
        (items.map single).mapM (serve env) := by
  unfold nothing
  cases hresolved : (DigestAlgorithm.resolveProtoValue env digestFunction).mapError Status.invalidArgument with
  | error s =>
    simp only [batch_error hresolved] at hsingle ⊢
    change (Program.done (wrap (.error s)) : CacheM Response) =
      (fun responses => List.foldl merge (wrap (.error s)) responses) <$> (items.map single).mapM (serve env)
    simp only [foldl_merge_error h]
    induction items with
    | nil => rfl
    | cons item items ih =>
      rw [List.map_cons, List.mapM_cons, map_bind, hsingle]
      change _ = ((fun _ => wrap (.error s)) <$> (List.mapM (serve env) (items.map single) >>= fun responses =>
        (pure (wrap (.error s) :: responses) : CacheM (List Response))))
      rw [bind_pure_comp, Functor.map_map]
      exact ih
  | ok algorithm =>
    simp only [batch_one hresolved, Functor.map_map] at hsingle
    -- with the answers so far as an accumulator on both sides
    have hacc : ∀ acc, (fun answers => wrap (.ok (respond (acc ++ answers.flatten)))) <$>
        items.mapM (round algorithm) = (fun responses => responses.foldl merge (wrap (.ok (respond acc)))) <$>
          (items.map single).mapM (serve env) := by
      induction items with
      | nil =>
        intro acc
        simp
      | cons item items ih =>
        intro acc
        rw [List.map_cons, List.mapM_cons, List.mapM_cons, map_bind, map_bind, hsingle, bind_map_left]
        congr 1
        funext answers
        rw [bind_pure_comp, bind_pure_comp, Functor.map_map, Functor.map_map]
        simp only [List.flatten_cons, List.foldl_cons, h.ok, ← List.append_assoc]
        exact ih (acc ++ answers)
    have hstart := hacc []
    simp only [List.nil_append] at hstart
    rw [batch_ok hresolved, Functor.map_map]
    exact hstart

/-- A request that is not a batch is its own only part. -/
theorem serve_whole {r : Request} (hparts : parts r = [r]) (hassemble : ∀ y, assemble env r [y] = y) :
    serve env r = remaining (serve env) (assemble env) r [] (parts r) := by
  rw [hparts, remaining_cons]
  simp only [remaining_nil, List.nil_append, hassemble]
  exact (Program.bind_done _).symm

/-- Every request is the sequence of its parts. -/
theorem serve_parts (r : Request) : serve env r = remaining (serve env) (assemble env) r [] (parts r) := by
  cases r with
  | findMissingBlobs r =>
    exact batch_parts .findMissingBlobs ⟨fun _ _ => rfl,fun _ _ => rfl⟩
      (fun digest => .findMissingBlobs { r with blobDigests := [digest] }) (fun _ => rfl) r.blobDigests
  | batchReadBlobs r =>
    exact batch_parts .batchReadBlobs ⟨fun _ _ => rfl,fun _ _ => rfl⟩
      (fun digest => .batchReadBlobs { r with digests := [digest] }) (fun _ => rfl) r.digests
  | batchUpdateBlobs r =>
    exact batch_parts .batchUpdateBlobs ⟨fun _ _ => rfl,fun _ _ => rfl⟩
      (fun item => .batchUpdateBlobs { r with requests := [item] }) (fun _ => rfl) r.requests
  | getTree => exact serve_whole rfl (fun _ => rfl)
  | splitBlob => exact serve_whole rfl (fun _ => rfl)
  | spliceBlob => exact serve_whole rfl (fun _ => rfl)
  | read r => exact serve_whole rfl (fun _ => rfl)
  | write s => exact serve_whole rfl (fun _ => rfl)
  | queryWriteStatus => exact serve_whole rfl (fun _ => rfl)
  | getActionResult q => exact serve_whole rfl (fun _ => rfl)
  | updateActionResult q => exact serve_whole rfl (fun _ => rfl)

end ReapiCache.Abstract
