import ReapiCache.Abstract.Linearization

/-! # All lookups of a run agree

Along a run there is one map of contents, and every lookup of the run is answered from
it: each digest with the content the map has, or as if it had none. The latter happens
only to a request that started before the content was there. So what any client has
once seen, under whatever name, window or encoding, every later request sees as well.
-/
namespace ReapiCache.Abstract
open Interaction
variable {env : Externals}

/-- What a lookup found at one moment after `absent` was still true of some addresses. -/
def Seen (contents : Locator → Option Bytes) (absent : Locator → Prop) (address : Locator)
    (found : Option Bytes) : Prop := found = contents address ∨ (found = none ∧ absent address)

/-- The answers to the items of a batch, each from what was seen of it. -/
def SeenBatch (env : Externals) (contents : Locator → Option Bytes) (absent : Locator → Prop)
    (digestFunction : Int32) (instanceName : String) {Answer : Type} (answer : Digest → Option Bytes → List Answer)
    (digests : List Digest) (out : Except Status (List Answer)) : Prop :=
  (∃ s, (DigestAlgorithm.resolveProtoValue env digestFunction).mapError Status.invalidArgument = .error s ∧
    out = .error s) ∨
  ∃ algorithm answers, DigestAlgorithm.resolveProtoValue env digestFunction = .ok algorithm ∧
    out = .ok (List.flatten answers) ∧ List.Forall₂ (fun digest a => ∃ found,
      Seen contents absent ⟨instanceName,algorithm,digest.hash⟩ found ∧ a = answer digest found) digests answers

/-- The lookups are answered from the map. -/
def AnsweredFrom (env : Externals) (contents : Locator → Option Bytes) (absent : Locator → Prop) :
    Request → Response → Prop
  | .findMissingBlobs r, response => ∃ out, response = .findMissingBlobs out ∧
      SeenBatch env contents absent r.digestFunction r.instanceName
        (fun digest found => if found.isSome then [] else [digest]) r.blobDigests
        (out.map FindMissingBlobsResponse.missingBlobDigests)
  | .batchReadBlobs r, response => ∃ out, response = .batchReadBlobs out ∧
      SeenBatch env contents absent r.digestFunction r.instanceName
        (fun digest found => [blobReadResponse env
          (r.acceptableCompressors.filterMap (StorageEncoding.fromProtoValue env)) digest found]) r.digests
        (out.map BatchReadBlobsResponse.responses)
  | .read r, response => ∃ out, response = .read out ∧
      ((∃ s, ByteStreamService.readTarget r = .error s ∧ out = .error s) ∨
        ∃ target found, ByteStreamService.readTarget r = .ok target ∧
          Seen contents absent (.ofKey target.key) found ∧ out = answerRead env r target found)
  | _, _ => True

section Cache
variable {L : List CacheEntry} (hL : Cache.Univocal L) {me : ℕ} {req : Request} {w : CacheWorld}

section Moment
variable {w' : CacheWorld} (hw : (Protocol.replays Cache.handle Cache.new L).inv w)
  (hw' : (Protocol.replays Cache.handle Cache.new L).inv w') (hl : w.log <+: w'.log)
include hL hw hw' hl

/-- What is fetched is seen of the contents at the end. -/
theorem seen_contents (address : Locator) :
    Seen (replay Cache.handle Cache.new L).contents (fun a => w.state.contents a = none) address
      (w'.state.contents address) := by
  have hfinal := Cache.replay_extends hL hw'.1 (List.prefix_refl L)
  rw [← hw'.2] at hfinal
  cases hfound : w'.state.contents address with
  | some x => exact Or.inl (hfinal address x hfound).symm
  | none =>
    refine Or.inr ⟨rfl,?_⟩
    cases hstart : w.state.contents address with
    | none => exact hstart
    | some x =>
      have hlater := replays_extends hL w w' hw hw' hl address x hstart
      rw [hfound] at hlater
      cases hlater

end Moment

/-- A batch is answered item by item. -/
theorem meets_batch {Item Answer Resp : Type}
    {digestFunction : Int32} {round : DigestAlgorithm → Item → CacheM (List Answer)} {respond : List Answer → Resp}
    {items : List Item} {V : DigestAlgorithm → Item → List Answer → Prop} {P : Protocol Cache.handle Request}
    (h : ∀ algorithm, ∀ item ∈ items, P.Meets me req (round algorithm item) w (fun a _ => V algorithm item a)) :
    P.Meets me req (batch env digestFunction round respond items) w
      (fun out _ => (∃ s, (DigestAlgorithm.resolveProtoValue env digestFunction).mapError Status.invalidArgument =
          .error s ∧ out = .error s) ∨
        ∃ algorithm answers, DigestAlgorithm.resolveProtoValue env digestFunction = .ok algorithm ∧
          out = .ok (respond (List.flatten answers)) ∧ List.Forall₂ (V algorithm) items answers) := by
  cases hresolved : (DigestAlgorithm.resolveProtoValue env digestFunction).mapError Status.invalidArgument with
  | error s =>
    rw [batch_error hresolved]
    exact fun _ _ _ => Or.inl ⟨s,rfl,rfl⟩
  | ok algorithm =>
    rw [batch_ok hresolved]
    apply Protocol.Meets.map
    apply (Protocol.meets_mapM (h algorithm)).imp
    intro answers _ _ _ hanswers
    exact Or.inr ⟨algorithm,answers,mapError_eq_ok.mp hresolved,rfl,hanswers⟩

variable (hw : (Protocol.replays Cache.handle Cache.new L).inv w)
include hL hw

theorem findMissingBlobs_answeredFrom (r : FindMissingBlobsRequest) :
    (Protocol.replays Cache.handle Cache.new L).Meets me req (serve env (.findMissingBlobs r)) w (fun response _ =>
      AnsweredFrom env (replay Cache.handle Cache.new L).contents (fun a => w.state.contents a = none)
        (.findMissingBlobs r) response) := by
  have hround : ∀ algorithm, ∀ digest ∈ r.blobDigests, (Protocol.replays Cache.handle Cache.new L).Meets me req
      (missingBlob r.instanceName algorithm digest) w (fun a _ => ∃ found,
        Seen (replay Cache.handle Cache.new L).contents (fun a => w.state.contents a = none)
          ⟨r.instanceName,algorithm,digest.hash⟩ found ∧ a = if found.isSome then [] else [digest]) := by
    intro algorithm digest _
    apply Protocol.meets_call (fun _ _ => trivial)
    intro w' hw' hl
    exact ⟨_,seen_contents hL hw hw' hl _,rfl⟩
  apply Protocol.Meets.map
  apply (meets_batch hround).imp
  rintro out _ _ _ (⟨s,hs,rfl⟩ | ⟨algorithm,answers,halgorithm,rfl,hanswers⟩)
  · exact ⟨_,rfl,Or.inl ⟨s,hs,rfl⟩⟩
  · exact ⟨_,rfl,Or.inr ⟨algorithm,answers,halgorithm,rfl,hanswers⟩⟩

theorem batchReadBlobs_answeredFrom (r : BatchReadBlobsRequest) :
    (Protocol.replays Cache.handle Cache.new L).Meets me req (serve env (.batchReadBlobs r)) w (fun response _ =>
      AnsweredFrom env (replay Cache.handle Cache.new L).contents (fun a => w.state.contents a = none)
        (.batchReadBlobs r) response) := by
  have hround : ∀ algorithm, ∀ digest ∈ r.digests, (Protocol.replays Cache.handle Cache.new L).Meets me req
      (readBlob env r.instanceName (r.acceptableCompressors.filterMap (StorageEncoding.fromProtoValue env)) algorithm
        digest) w (fun a _ => ∃ found, Seen (replay Cache.handle Cache.new L).contents
          (fun a => w.state.contents a = none) ⟨r.instanceName,algorithm,digest.hash⟩ found ∧
          a = [blobReadResponse env (r.acceptableCompressors.filterMap (StorageEncoding.fromProtoValue env)) digest
            found]) := by
    intro algorithm digest _
    apply Protocol.meets_call (fun _ _ => trivial)
    intro w' hw' hl
    exact ⟨_,seen_contents hL hw hw' hl _,rfl⟩
  apply Protocol.Meets.map
  apply (meets_batch hround).imp
  rintro out _ _ _ (⟨s,hs,rfl⟩ | ⟨algorithm,answers,halgorithm,rfl,hanswers⟩)
  · exact ⟨_,rfl,Or.inl ⟨s,hs,rfl⟩⟩
  · exact ⟨_,rfl,Or.inr ⟨algorithm,answers,halgorithm,rfl,hanswers⟩⟩

theorem read_answeredFrom (r : ReadRequest) :
    (Protocol.replays Cache.handle Cache.new L).Meets me req (serve env (.read r)) w (fun response _ =>
      AnsweredFrom env (replay Cache.handle Cache.new L).contents (fun a => w.state.contents a = none) (.read r)
        response) := by
  change (Protocol.replays Cache.handle Cache.new L).Meets me req (Response.read <$> (read env r).run : CacheM _) w _
  unfold read
  cases htarget : ByteStreamService.readTarget r with
  | error s => exact fun _ _ _ => ⟨_,rfl,Or.inl ⟨s,htarget,rfl⟩⟩
  | ok target =>
    exact fun w' hw' hl => ⟨trivial,fun _ _ _ _ =>
      ⟨_,rfl,Or.inr ⟨target,_,htarget,seen_contents hL hw hw' hl _,rfl⟩⟩⟩

theorem serve_answeredFrom (r : Request) :
    (Protocol.replays Cache.handle Cache.new L).Meets me req (serve env r) w (fun response _ =>
      AnsweredFrom env (replay Cache.handle Cache.new L).contents (fun a => w.state.contents a = none) r response) := by
  have hfree : ∀ {p : CacheM Response}, (Protocol.replays Cache.handle Cache.new L).Meets me req p w
      (fun _ _ => True) :=
    fun {p} => Protocol.meets_of_uses (Program.uses_of_forall (fun _ _ _ => trivial) p) w
  cases r with
  | findMissingBlobs r => exact findMissingBlobs_answeredFrom hL hw r
  | batchReadBlobs r => exact batchReadBlobs_answeredFrom hL hw r
  | read r => exact read_answeredFrom hL hw r
  | batchUpdateBlobs r => exact hfree
  | getTree => exact hfree
  | splitBlob => exact hfree
  | spliceBlob => exact hfree
  | write s => exact hfree
  | queryWriteStatus => exact hfree
  | getActionResult q => exact hfree
  | updateActionResult q => exact hfree

end Cache
theorem answeredFrom_mono {contents : Locator → Option Bytes} {absent absent' : Locator → Prop}
    (h : ∀ a, absent a → absent' a) {r : Request} {response : Response}
    (hr : AnsweredFrom env contents absent r response) : AnsweredFrom env contents absent' r response := by
  have hseen : ∀ a found, Seen contents absent a found → Seen contents absent' a found :=
    fun a found hfound => hfound.imp_right (fun hnone => ⟨hnone.1,h a hnone.2⟩)
  have hbatch : ∀ {digestFunction : Int32} {instanceName : String} {Answer : Type}
      {answer : Digest → Option Bytes → List Answer} {digests : List Digest} {out : Except Status (List Answer)},
      SeenBatch env contents absent digestFunction instanceName answer digests out →
        SeenBatch env contents absent' digestFunction instanceName answer digests out := by
    rintro _ _ _ _ _ _ (herror | ⟨algorithm,answers,halgorithm,hout,hall⟩)
    · exact Or.inl herror
    · refine Or.inr ⟨algorithm,answers,halgorithm,hout,hall.imp ?_⟩
      rintro digest a ⟨found,hfound,ha⟩
      exact ⟨found,hseen _ _ hfound,ha⟩
  cases r with
  | findMissingBlobs r =>
    obtain ⟨out,hresponse,hout⟩ := hr
    exact ⟨out,hresponse,hbatch hout⟩
  | batchReadBlobs r =>
    obtain ⟨out,hresponse,hout⟩ := hr
    exact ⟨out,hresponse,hbatch hout⟩
  | read r =>
    obtain ⟨out,hresponse,herror | ⟨target,found,htarget,hfound,hout⟩⟩ := hr
    · exact ⟨out,hresponse,Or.inl herror⟩
    · exact ⟨out,hresponse,Or.inr ⟨target,found,htarget,hseen _ _ hfound,hout⟩⟩
  | batchUpdateBlobs r => trivial
  | getTree => trivial
  | splitBlob => trivial
  | spliceBlob => trivial
  | write s => trivial
  | queryWriteStatus => trivial
  | getActionResult q => trivial
  | updateActionResult q => trivial

section Server
variable (hz : env.ZstdRoundTrip) (hc : env.CompressionTotal) (he : env.HashesEmpty)
  {schedule : List (Interaction.Action Request)} (hp : env.ProstRoundTrip (submitted (startedBy schedule)))
  (hcollision : CollisionFree env (serverFrom env schedule).world.log)
include hz hc he hp hcollision

/-- A lookup that has returned was answered from what the abstract run ends with. -/
theorem answeredFrom_run {i : ℕ} {t : Thread StoreCall StoreCall.Ret Request Response InMemoryStore}
    {response : Response} (ht : (serverFrom env schedule).threads[i]? = some t) (hdone : t.program = .done response) :
    AnsweredFrom env (cacheRun env Cache.new schedule).world.state.contents
      (fun a => ¬ (stored t.start.log).Present a.contentKey) t.request response := by
  have hstep := server_inStep hz hc he hp represents_new
  have hL : Cache.Univocal (cacheRun env Cache.new schedule).world.log :=
    univocal_of_collisionFree hz hstep.log hcollision
  have hrun := Config.run_meets (P := Protocol.replays Cache.handle Cache.new (cacheRun env Cache.new schedule).world.log)
    ⟨List.nil_prefix,rfl⟩ (fun i r w hw => (@serve_answeredFrom env _ hL i r w hw r).imp
      (fun _ _ _ _ _ => trivial)) schedule (List.prefix_refl _)
  obtain ⟨t',ht',hsame⟩ := hstep.thread ht
  obtain ⟨hstart,hmeets⟩ := hrun.2 i t' ht'
  have hreturned : (cacheRun env Cache.new schedule).Returned i t.request response :=
    (hstep.returned_iff i t.request response).mp ⟨t,ht,rfl,hdone⟩
  obtain ⟨u,hu,hrequest,hprogram⟩ := hreturned
  obtain rfl := Option.some.inj (ht'.symm.trans hu)
  have hanswered := hmeets _ (serve_answeredFrom hL hstart t'.request)
  rw [hprogram] at hanswered
  have hresponse := hanswered _ hrun.1 (List.prefix_refl _)
  have hfinal : (cacheRun env Cache.new schedule).world.state =
      replay Cache.handle Cache.new (cacheRun env Cache.new schedule).world.log := hrun.1.2
  rw [hrequest, ← hfinal] at hresponse
  apply answeredFrom_mono ?_ hresponse
  -- what the abstract run did not have at the start the store did not have either
  rintro a hnone ⟨b,hb⟩
  have hrepresents := SameLog.replay store_refines hsame.start represents_new
  have hrel := hrepresents.contents a
  rw [← hstart.2, hnone] at hrel
  change Option.Rel _ ((stored t.start.log).blobs a.contentKey) none at hrel
  rw [hb] at hrel
  cases hrel

/-- The lookups of a run are answered from one map, which the store represents in the end. A
content of the map is missed only by a request that started before it was stored. -/
theorem lookups_coherent : ∃ cache, Represents env (serverFrom env schedule).world.state cache ∧
    ∀ (i : ℕ) t response, (serverFrom env schedule).threads[i]? = some t → t.program = .done response →
      AnsweredFrom env cache.contents (fun a => ¬ (stored t.start.log).Present a.contentKey) t.request response :=
  ⟨_,(server_inStep hz hc he hp represents_new).state,
    fun _ _ _ ht hdone => answeredFrom_run hz hc he hp hcollision ht hdone⟩

end Server

open ReapiCache.Reference in
/-- The tree is read while the result that refers to it is looked up. -/
theorem lookups_coherent_reading : ∃ cache, Represents externals (serverFrom externals readingRun).world.state cache ∧
    ∃ absent, AnsweredFrom externals cache.contents absent (.read ⟨"main/blobs/" ++ treeHash ++ "/77",0,0⟩)
      (.read (.ok [⟨treeBlob⟩])) := by
  have hreturned : (serverFrom externals readingRun).Returned 3 (.read ⟨"main/blobs/" ++ treeHash ++ "/77",0,0⟩)
      (.read (.ok [⟨treeBlob⟩])) := returned_of_answer rfl (by decide +kernel)
  obtain ⟨t,ht,hrequest,hdone⟩ := hreturned
  have hcollision : CollisionFree externals (serverFrom externals readingRun).world.log :=
    collisionFree (by decide +kernel)
  obtain ⟨cache,hrepresents,hanswered⟩ := lookups_coherent zstdRoundTrip compressionTotal hashBytes_empty
    (prostRoundTrip _) hcollision
  have hread := hanswered 3 t _ ht hdone
  rw [hrequest] at hread
  exact ⟨cache,hrepresents,_,hread⟩

end ReapiCache.Abstract
