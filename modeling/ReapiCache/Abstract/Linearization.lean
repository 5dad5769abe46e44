import ReapiCache.Abstract.Parts
import ReapiCache.Abstract.Published
import ReapiCache.Abstract.Refinement
import ReapiCache.Server.Supplied

/-! # The server is linearizable

However the requests of a run are interleaved, their parts take effect one at a time:
each at one moment between the start and the return of its request, on a cache that the
store represents then. Batches are not atomic, but their items are, and an action result
is looked up or published at once with all the checks of its artifacts. The one thing an
update does besides is to leave the empty blob behind while it validates a result that
refers to it.
-/
namespace ReapiCache.Abstract
open Interaction ActionCacheService
variable {env : Externals}

/-- The result names the digest, or a tree of it that the cache has does. -/
inductive Refers (env : Externals) (c : BlobCache) (instanceName : String) (r : ActionResult) (digest : Digest) : Prop
  | own (named : digest ∈ r.outputFiles.filterMap OutputFile.digest ++ r.stdoutDigest.toList ++ r.stderrDigest.toList)
  | tree (dir : OutputDirectory) (treeDigest : Digest) (content : Bytes) (tree : Tree)
      (mem : dir ∈ r.outputDirectories) (named : dir.treeDigest = some treeDigest)
      (held : c.contents ⟨instanceName,.sha256,treeDigest.hash⟩ = some content)
      (decodes : env.decodeTree content = .ok tree) (listed : digest ∈ tree.fileNodes.filterMap FileNode.digest)

/-- What requests do besides their parts: an update whose result refers to the empty blob
leaves the blob in its instance. -/
inductive Leaves (env : Externals) : Request → BlobCache → BlobCache → Prop
  | empty (q : UpdateActionResultRequest) (r : ActionResult) (c : BlobCache) (submits : q.actionResult = some r)
      (refers : Refers env c q.instanceName r emptyDigest) :
      Leaves env (.updateActionResult q) c (Cache.handle (.store ⟨q.instanceName,.sha256,EMPTY_SHA256⟩ []) c).2

/-- The parts of the requests of a run, one after the other on a cache. -/
structure Linearizes (env : Externals) (c : ServerConfig) (h : List (Event Request Response)) (cache : BlobCache) :
    Prop where
  sequential : Sequential Cache.handle (serve env) (Leaves env) Cache.new h cache
  represents : Represents env c.world.state cache
  callers : ∀ e ∈ h, ∃ t, c.threads[e.caller]? = some t ∧ e.Of e.caller t.request
  pending : ∀ i t, c.threads[i]? = some t → (partsOf i h).map Prod.fst <+: parts t.request
  returned : ∀ i r response, c.Returned i r response → (partsOf i h).map Prod.fst = parts r ∧
    response = assemble env r ((partsOf i h).map Prod.snd)

theorem exists_of_mem {L : List (StoreEntry Request)} {L' : List CacheEntry} (h : SameLog (storeMatching env) L L')
    {e' : CacheEntry} (he' : e' ∈ L') : ∃ e ∈ L, SameEntry (storeMatching env) e e' := by
  induction h with
  | nil => cases he'
  | cons hhead _ ih =>
    rcases List.mem_cons.mp he' with rfl | he'
    · exact ⟨_,List.mem_cons_self,hhead⟩
    · obtain ⟨e,he,hsame⟩ := ih he'
      exact ⟨e,List.mem_cons_of_mem _ he,hsame⟩

/-- What is stored in the abstract run is stored in the run of the server. -/
theorem stored_content (hz : env.ZstdRoundTrip) {L : List (StoreEntry Request)} {L' : List CacheEntry}
    (h : SameLog (storeMatching env) L L') {e' : CacheEntry} (he' : e' ∈ L') {a : Locator} {d : Bytes}
    (hop : e'.op = .store a d) : d ∈ casContents env L ∧ a.algorithm.hashBytes env d = a.hash := by
  obtain ⟨e,he,hsame⟩ := exists_of_mem h he'
  have hgoes : Goes env e.op (.store a d) := hop ▸ hsame.op
  generalize hput : e.op = op at hgoes
  cases hgoes with
  | put _ b _ hb => exact ⟨⟨e,he,_,_,_,hput,rfl,hb.holds hz⟩,hb.hash⟩

theorem univocal_of_collisionFree (hz : env.ZstdRoundTrip) {L : List (StoreEntry Request)} {L' : List CacheEntry}
    (h : SameLog (storeMatching env) L L') (hL : CollisionFree env L) : Cache.Univocal L' := by
  intro e he e' he' a x y hx hy
  obtain ⟨hmem,hhash⟩ := stored_content hz h he hx
  obtain ⟨hmem',hhash'⟩ := stored_content hz h he' hy
  cases ha : a.algorithm
  rw [ha] at hhash hhash'
  exact hL hmem hmem' (hhash.trans hhash'.symm)

section Atomicity
variable {L : List CacheEntry} (hL : Cache.Univocal L) {me : ℕ} {w : CacheWorld}
include hL

theorem replays_extends (w w' : CacheWorld) (hw : (Protocol.replays Cache.handle Cache.new L).inv w)
    (hw' : (Protocol.replays Cache.handle Cache.new L).inv w') (hl : w.log <+: w'.log) :
    Cache.Extends w.state w'.state := by
  rw [hw.2, hw'.2]
  exact Cache.replay_extends hL hl hw'.1

/-- A lookup is decided by the result it finds, which is valid. -/
theorem getActionResult_atomic {silent : BlobCache → BlobCache → Prop}
    (hpublished : ∀ l, l <+: L → Published env (replay Cache.handle Cache.new l)) (g : GetActionResultRequest) :
    (Protocol.replays Cache.handle Cache.new L).Atomic silent me (.getActionResult g)
      (serve env (.getActionResult g)) w := by
  change (Protocol.replays Cache.handle Cache.new L).Atomic _ me _
    ((Response.actionResult <$> (getActionResult env g).run : CacheM Response)) w
  unfold getActionResult
  cases okOr (Status.invalidArgument "missing action_digest") g.actionDigest with
  | error s => trivial
  | ok digest =>
    cases (DigestAlgorithm.resolveProtoValue env g.digestFunction).mapError Status.invalidArgument with
    | error s => trivial
    | ok algorithm =>
      apply Protocol.atomic_of_stays (Cache.settling EmptyBlob) (replays_extends hL) (fun _ _ _ => trivial)
      intro w' hw' _
      cases hr : w'.state.results ⟨g.instanceName,algorithm,digest.hash⟩ with
      | none =>
        simp only [Cache.handle, hr]
        exact ⟨_,rfl⟩
      | some r =>
        simp only [Cache.handle, hr]
        have hpub : Published env w'.state := by
          rw [hw'.2]
          exact hpublished w'.log hw'.1
        have hvalid : (validateArtifacts env g.instanceName algorithm r .notFound).run.Stays Cache.handle Settles
            (.ok ()) w'.state := hpub _ r hr
        have hstays : (validateArtifacts env g.instanceName algorithm r .notFound >>= fun _ =>
            (pure r : CacheHandler Status ActionResult)).run.Stays Cache.handle Settles (.ok r) w'.state :=
          (Failing.stays_bind Cache.handle).mpr ⟨(),hvalid,rfl⟩
        exact ⟨_,hstays.map Cache.handle Response.actionResult⟩

/-- A request that makes one call a part takes no silent steps. -/
theorem single_atomic {silent : BlobCache → BlobCache → Prop} {r q : Request} (hq : q ∈ parts r)
    (hget : ∀ g, r ≠ .getActionResult g) (hupdate : ∀ u, r ≠ .updateActionResult u) :
    (Protocol.replays Cache.handle Cache.new L).Atomic silent me r (serve env q) w := by
  have hnever : Settling (Cache.handle : (op : BlobCall) → _) Cache.Extends (fun _ _ => False) :=
    ⟨(Cache.settling EmptyBlob).refl,fun hr => hr.elim⟩
  exact Protocol.atomic_of_patient hnever (replays_extends hL) (fun _ _ _ => trivial) (parts_patient hq hget hupdate)
    (fun _ _ _ _ hr => hr.elim)

end Atomicity

/-- A tree that the store has, the cache has. -/
theorem Represents.tree (hz : env.ZstdRoundTrip) {store : InMemoryStore} {cache : BlobCache}
    (h : Represents env store cache) {instanceName : String} {digest : Digest} {tree : Tree}
    (htree : storedTree env store instanceName .sha256 digest = some tree) :
    ∃ content, cache.contents ⟨instanceName,.sha256,digest.hash⟩ = some content ∧
      env.decodeTree content = .ok tree := by
  simp only [storedTree, Option.bind_eq_bind, Option.bind_eq_some_iff] at htree
  obtain ⟨b,hb,bytes,hbytes,hdecode⟩ := htree
  obtain ⟨d,hd,hstands⟩ := h.content (a := ⟨instanceName,.sha256,digest.hash⟩) hb
  have hidentity : BlobCodec.intoIdentityData env ⟨b.metadata,⟨b.data⟩⟩ = .ok d := (hstands.holds hz).intoIdentityData
  obtain rfl : d = bytes := by simpa [hidentity, Except.toOption] using hbytes
  refine ⟨d,hd,?_⟩
  cases hr : env.decodeTree d with
  | error err => simp [hr, Except.toOption] at hdecode
  | ok t => simpa [hr, Except.toOption] using hdecode

section Leaving
variable {schedule : List (Interaction.Action Request)} {L' : List CacheEntry}
  (hlog : SameLog (storeMatching env) (serverFrom env schedule).world.log L') (hL : Cache.Univocal L')
  (hz : env.ZstdRoundTrip) {me : ℕ} {w : CacheWorld} (hw : (Protocol.replays Cache.handle Cache.new L').inv w)
include hL hz hw

/-- What a result has listed at some moment it refers to from then on. -/
theorem refers_of_lists {log : List (StoreEntry Request)} (hsame : SameLog (storeMatching env) log w.log)
    {instanceName : String} {r : ActionResult} {digest : Digest} (h : Lists env log instanceName r digest) :
    Refers env w.state instanceName r digest := by
  obtain ⟨l,hl,hd⟩ := h
  obtain ⟨l',hl',hsame'⟩ := hsame.earlier hl
  have hrepresents : Represents env (stored l) (replay Cache.handle Cache.new l') :=
    hsame'.replay store_refines represents_new
  have hextends := Cache.replay_extends hL hl' hw.1
  rw [← hw.2] at hextends
  rcases List.mem_append.mp hd with hd | hd
  · exact .own hd
  obtain ⟨dir,hdir,hd⟩ := List.mem_flatMap.mp hd
  cases htreeDigest : dir.treeDigest with
  | none => simp [directoryDigests, htreeDigest] at hd
  | some treeDigest =>
    cases htree : storedTree env (stored l) instanceName .sha256 treeDigest with
    | none => simp [directoryDigests, htreeDigest, htree] at hd
    | some tree =>
      obtain ⟨content,hheld,hdecodes⟩ := hrepresents.tree hz htree
      refine .tree dir treeDigest content tree hdir htreeDigest (hextends _ _ hheld) hdecodes ?_
      simpa [directoryDigests, htreeDigest, htree] using hd

include hlog

/-- A settled call of an update that changes the cache leaves the empty blob. -/
theorem leaves_of_confirmed {q : UpdateActionResultRequest} {op : BlobCall}
    (hcall : w.log ++ [⟨me,.updateActionResult q,op⟩] <+: L') (hsettled : Settles op (Cache.handle op w.state).1) :
    Relation.ReflGen (Leaves env (.updateActionResult q)) w.state (Cache.handle op w.state).2 := by
  rcases Cache.confirmed_cases hsettled with hunchanged | ⟨a,x,rfl⟩
  · rw [hunchanged]
  apply Relation.ReflGen.single
  obtain ⟨l,e,hle,hsame,hentry⟩ := hlog.entry hcall
  have hsupplied := log_supplied hz schedule hle
  have hgoes : Goes env e.op (.store a x) := hentry.op
  generalize hput : e.op = op at hgoes
  cases hgoes with
  | put _ b _ hb =>
    obtain ⟨d,hbrings,hd⟩ := hsupplied _ _ _ hput rfl
    obtain rfl := (hb.holds hz).unique hd
    rw [hentry.request] at hbrings
    generalize hkey : a.contentKey = key at hbrings
    cases hbrings with
    | empty _ instanceName r addressed validates listed =>
      obtain rfl : q.instanceName = instanceName := Option.some.inj addressed
      obtain rfl : a = ⟨q.instanceName,.sha256,EMPTY_SHA256⟩ := (Locator.key_inj.mp hkey).2
      cases validates with
      | submitted _ _ digest command l₁ supported named submits action read present =>
        exact .empty q r w.state submits (refers_of_lists hL hz hw hsame listed)

end Leaving

variable (hz : env.ZstdRoundTrip) (hc : env.CompressionTotal) (he : env.HashesEmpty)
  {schedule : List (Interaction.Action Request)} (hp : env.ProstRoundTrip (submitted (startedBy schedule)))
include hz hc he hp

/-- What the history says of the abstract run it says of the run of the server. -/
theorem linearizes_of_tracks {P : Protocol Cache.handle Request}
    {h : List (Event Request Response)} (htracks : Tracks P (serve env) (Leaves env) parts (assemble env) Cache.new
      (cacheRun env Cache.new schedule) h) :
    Linearizes env (serverFrom env schedule) h (cacheRun env Cache.new schedule).world.state := by
  have hstep := server_inStep hz hc he hp represents_new
  refine ⟨htracks.sequential,hstep.state,?_,?_,?_⟩
  · intro e hmem
    obtain ⟨t',ht',hof⟩ := htracks.callers e hmem
    obtain ⟨t,ht,hsame⟩ := hstep.thread_right ht'
    exact ⟨t,ht,hsame.request ▸ hof⟩
  · intro i t ht
    obtain ⟨t',ht',hsame⟩ := hstep.thread ht
    rw [hsame.request]
    exact htracks.pending ht'
  · intro i r response hr
    exact htracks.returned ((hstep.returned_iff i r response).mp hr)

/-- Every run is linearizable, and so is every initial part of it, by an initial part of
its history: what happens later belongs to requests that have not returned by then. -/
theorem server_linearizable
    (hcollision : CollisionFree env (serverFrom env schedule).world.log) :
    ∃ h cache, Linearizes env (serverFrom env schedule) h cache ∧
      ∀ before, before <+: schedule → ∃ h₁ late cache₁, h = h₁ ++ late ∧
        Linearizes env (serverFrom env before) h₁ cache₁ ∧ Unreturned (serverFrom env before) late := by
  have hlog := (server_inStep hz hc he hp represents_new).log
  have hL : Cache.Univocal (cacheRun env Cache.new schedule).world.log := univocal_of_collisionFree hz hlog hcollision
  let P : Protocol Cache.handle Request :=
    Protocol.replays Cache.handle Cache.new (cacheRun env Cache.new schedule).world.log
  have hatomic : ∀ (i : ℕ) r, ∀ q ∈ parts r, ∀ w, P.inv w → P.Atomic (Leaves env r) i r (serve env q) w := by
    intro i r q hq w _
    by_cases hget : ∃ g, r = .getActionResult g
    · obtain ⟨g,rfl⟩ := hget
      obtain rfl := List.mem_singleton.mp hq
      exact getActionResult_atomic hL (fun l hl => run_published schedule hL hl) g
    by_cases hupdate : ∃ u, r = .updateActionResult u
    · obtain ⟨u,rfl⟩ := hupdate
      obtain rfl := List.mem_singleton.mp hq
      have hpatient : (serve env (.updateActionResult u)).Patient Settles (fun _ => True) :=
        (updateActionResult_patient u).map (fun _ _ => trivial)
      exact Protocol.atomic_of_patient (Cache.settling EmptyBlob) (replays_extends hL) (fun _ _ _ => trivial) hpatient
        (fun _ _ hw hcall hsettled => leaves_of_confirmed hlog hL hz hw hcall hsettled)
    · exact single_atomic hL hq (fun g hg => hget ⟨g,hg⟩) (fun u hu => hupdate ⟨u,hu⟩)
  obtain ⟨_,h,htracks,hearlier⟩ := exists_history (P := P) ⟨List.nil_prefix,rfl⟩ (fun _ _ _ => trivial)
    (@serve_parts env) hatomic schedule (List.prefix_refl _)
  refine ⟨h,_,linearizes_of_tracks hz hc he hp htracks,?_⟩
  intro before hbefore
  obtain ⟨h₁,late,rfl,hlate,htracks₁⟩ := hearlier before hbefore
  obtain ⟨after,rfl⟩ := hbefore
  have hp₁ : env.ProstRoundTrip (submitted (startedBy before)) := roundTrip_before hp
  refine ⟨h₁,late,_,rfl,linearizes_of_tracks hz hc he hp₁ htracks₁,?_⟩
  intro e he' r response hreturned
  exact hlate e he' r response (((server_inStep hz hc he hp₁ represents_new).returned_iff _ _ _).mp hreturned)

omit hz hc he hp

/-- The publication of a result, as one event. -/
theorem server_linearizable_caching : ∃ h cache,
    Linearizes ReapiCache.Reference.externals
      (serverFrom ReapiCache.Reference.externals ReapiCache.Reference.cachingRun) h cache ∧
    partsOf 1 h = [(ReapiCache.Reference.update,.actionResult (.ok ReapiCache.Reference.result))] := by
  obtain ⟨h,cache,hlinearizes,_⟩ := server_linearizable ReapiCache.Reference.zstdRoundTrip
    ReapiCache.Reference.compressionTotal ReapiCache.Reference.hashBytes_empty
    (ReapiCache.Reference.prostRoundTrip _) ReapiCache.Reference.cachingRun_collisionFree
  refine ⟨h,cache,hlinearizes,?_⟩
  obtain ⟨hparts,hresponse⟩ := hlinearizes.returned 1 ReapiCache.Reference.update
    (.actionResult (.ok ReapiCache.Reference.result)) (returned_of_answer rfl (by decide +kernel))
  cases hevents : partsOf 1 h with
  | nil =>
    rw [hevents] at hparts
    cases hparts
  | cons e events =>
    rw [hevents] at hparts hresponse
    obtain ⟨hfst,hnil⟩ := List.cons.inj hparts
    obtain rfl := List.map_eq_nil_iff.mp hnil
    exact congrArg (fun e => [e]) (Prod.ext hfst hresponse.symm)

end ReapiCache.Abstract
