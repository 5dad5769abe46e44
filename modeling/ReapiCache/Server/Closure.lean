import ReapiCache.Server.Validation

/-! # Closure of the action cache

Every cached result is closed, and so is its action. The update handler checks this
call by call and puts at the end; the put is right because nothing it has checked can
be undone in between, and every entry stays right for the same reason.
-/
namespace ReapiCache
open Interaction ActionCacheService
variable {env : Externals}

section Closed
variable (env) (store : InMemoryStore)

/-- The action of this hash is held, and so is its command. -/
def ActionClosed (instanceName : String) (algorithm : DigestAlgorithm) (hash : String) : Prop :=
  ∃ bytes action command,
    store.Held env ⟨instanceName,algorithm,hash,.contentAddressableStorage⟩ bytes ∧
    env.decodeAction bytes = .ok action ∧ action.commandDigest = some command ∧
    store.Present (casKey instanceName algorithm command)

/-- A cached blob decodes to a result that is closed, for an action that is closed. -/
def ResultClosed (key : BlobKey) (b : StoredBlob) : Prop :=
  ∃ bytes r, Holds env b.metadata b.data bytes ∧ env.decodeActionResult bytes = .ok r ∧
    ArtifactsClosed env store key.instanceName key.algorithm r ∧
    ActionClosed env store key.instanceName key.algorithm key.hash

def AcClosed : Prop :=
  ∀ key b, key.kind = .actionCache → store.blobs key = some b → ResultClosed env store key b

end Closed

variable {store store' : InMemoryStore}

theorem ActionClosed.grows {instanceName : String} {algorithm : DigestAlgorithm} {hash : String}
    (h : ActionClosed env store instanceName algorithm hash) (hg : Grows env store store') :
    ActionClosed env store' instanceName algorithm hash := by
  obtain ⟨bytes,action,command,hheld,ha,hc,hp⟩ := h
  exact ⟨bytes,action,command,hg.held _ _ rfl hheld,ha,hc,hg.present _ hp⟩

theorem ResultClosed.grows {key : BlobKey} {b : StoredBlob} (h : ResultClosed env store key b)
    (hg : Grows env store store') : ResultClosed env store' key b := by
  obtain ⟨bytes,r,hholds,hr,hclosed,haction⟩ := h
  exact ⟨bytes,r,hholds,hr,hclosed.grows hg,haction.grows hg⟩

/-- A put keeps closure if what it puts into the action cache is closed. -/
theorem acClosed_concat {L log : List (StoreEntry Request)} {e : StoreEntry Request}
    (hL : Lawful env L) (hl : log ++ [e] <+: L) (h : AcClosed env (stored log))
    (he : ∀ key metadata body, e.op = .put key metadata body → key.kind = .actionCache →
      ResultClosed env (stored log) key ⟨body.cursor,metadata⟩) :
    AcClosed env (stored (log ++ [e])) := by
  intro key b hkind hb
  have hg : Grows env (stored log) (stored (log ++ [e])) := hL.grows (List.prefix_append _ _) hl
  have hb' : (e.op.putTo key).or ((stored log).blobs key) = some b := by
    rw [← InMemoryStore.handle_blobs e.op (stored_poisoned log) key, ← hb, stored, stored, replay_concat]
  cases hput : e.op.putTo key with
  | none =>
    rw [hput, Option.none_or] at hb'
    exact (h key b hkind hb').grows hg
  | some b' =>
    rw [hput, Option.some_or] at hb'
    obtain rfl := Option.some.inj hb'
    exact (he key b'.metadata ⟨b'.data⟩ (StoreCall.putTo_eq_some.mp hput) hkind).grows hg

/-- The action cache is closed, and every put to it has to put a closed result. -/
def closing {L : List (StoreEntry Request)} (hL : Lawful env L) :
    Protocol InMemoryStore.handle Request where
  history := L
  inv w := (w.log <+: L ∧ w.state = stored w.log) ∧ AcClosed env w.state
  guar e w := ∀ key metadata body, e.op = .put key metadata body → key.kind = .actionCache →
    ResultClosed env w.state key ⟨body.cursor,metadata⟩
  keeps := by
    rintro w e ⟨⟨_,hs⟩,hc⟩ hg hl
    have hs' : (w.record InMemoryStore.handle e).state = stored (w.log ++ [e]) := by
      rw [World.record_state, stored, replay_concat, hs]
    rw [hs] at hc
    rw [hs] at hg
    refine ⟨⟨hl,hs'⟩,?_⟩
    rw [hs']
    exact acClosed_concat hL hl hc hg

section Protocol
variable {L : List (StoreEntry Request)} (hL : Lawful env L) {me : ℕ} {req : Request} {w : ServerWorld}

theorem closing_orderly : Orderly (closing hL) where
  history := fun _ hw => hw.1.1
  state := fun _ hw => hw.1.2
  looks := fun _ _ _ _ _ hop key metadata body hput => absurd hput (hop key metadata body)
  free := by
    intro me req op w _ hop key metadata body hput hkind
    have h := hop key metadata body hput
    rw [hkind] at h
    cases h

/-- The reply to an action lookup decodes to an action that is held there. -/
theorem decodeCommandDigest_ok {P : Protocol InMemoryStore.handle Request} (hP : Orderly P)
    (hL : Lawful env P.history) {wr : ServerWorld} (hr : P.inv wr) {key : BlobKey}
    (hkind : key.kind = .contentAddressableStorage) {command : Digest}
    (h : decodeCommandDigest env ((wr.state.blobs key).map (fun b => ⟨b.metadata,⟨b.data⟩⟩)) =
      .ok command) :
    ∃ bytes action, wr.state.Held env key bytes ∧ env.decodeAction bytes = .ok action ∧
      action.commandDigest = some command := by
  obtain ⟨blob,hblob,h₁⟩ := bind_eq_ok.mp h
  obtain ⟨bytes,hbytes,h₂⟩ := bind_eq_ok.mp h₁
  obtain ⟨action,haction,hcommand⟩ := bind_eq_ok.mp h₂
  rw [okOr_eq_ok] at hblob hcommand
  rw [mapError_eq_ok] at hbytes haction
  obtain ⟨b,hb,rfl⟩ := Option.map_eq_some_iff.mp hblob
  obtain ⟨d,hd,_⟩ := hP.holds_of_entry hL hkind hr hb
  obtain rfl := Except.ok.inj (hd.intoIdentityData.symm.trans hbytes)
  exact ⟨d,action,⟨b,hb,hd⟩,haction,hcommand⟩

/-- What an update puts is the encoding of its result. -/
theorem encodeResult_ok (hz : env.ZstdRoundTrip) {r : ActionResult}
    (hp : env.decodeActionResult (env.encodeActionResult r) = .ok r) {blob : BlobRead}
    (h : encodeResult env r = .ok blob) :
    ∃ bytes, Holds env blob.metadata blob.body.cursor bytes ∧ env.decodeActionResult bytes = .ok r := by
  rw [encodeResult, mapError_eq_ok] at h
  exact ⟨_,(fromIdentityData_holds hz h).1,hp⟩

/-- An update that succeeds has put its own result under its own key. -/
theorem ensures_updateActionResult (hp : env.ProstRoundTrip (submitted (L.map Entry.request)))
    {q : UpdateActionResultRequest} :
    (closing hL).Ensures me (.updateActionResult q) (updateActionResult env q) w
      (fun r w' => ∃ key blob, q.Targets env key r ∧ encodeResult env r = .ok blob ∧
        (⟨me,.updateActionResult q,.put key blob.metadata blob.body⟩ : StoreEntry Request) ∈ w'.log)
      (fun _ => True) := by
  have hP := closing_orderly hL
  apply Protocol.ensures_ofExcept_bind (fun _ _ => trivial)
  intro digest hdigest
  apply Protocol.ensures_ofExcept_bind (fun _ _ => trivial)
  intro r hr
  apply Protocol.ensures_ofExcept_bind (fun _ _ => trivial)
  intro algorithm halg
  have htargets : q.Targets env (actionKey q.instanceName algorithm digest) r :=
    ⟨okOr_eq_ok.mp hr,digest,algorithm,okOr_eq_ok.mp hdigest,mapError_eq_ok.mp halg,rfl⟩
  apply (ensures_storeGet hP.toReplaying).bind
  rintro blob w₁ hw₁ _ ⟨wr,hwr,_,hread,rfl⟩
  have hl₁ := (List.prefix_append _ _).trans hread
  have hsubmitted : r ∈ submitted (L.map Entry.request) :=
    ⟨q,List.mem_map.mpr ⟨_,(hread.trans hw₁.1.1).subset List.mem_concat_self,rfl⟩,okOr_eq_ok.mp hr⟩
  apply Protocol.ensures_ofExcept_bind (fun _ _ => trivial)
  intro command hcommand
  obtain ⟨bytes,action,hheld,haction,hcmd⟩ := decodeCommandDigest_ok hP hL hwr rfl hcommand
  have hheld₁ := hP.held_stable hL rfl bytes wr w₁ hwr hw₁ hl₁ hheld
  apply (ensures_storeContains hP.toReplaying hw₁).bind
  intro present w₂ hw₂ hl₂ hpresent
  cases present with
  | false => exact Protocol.ensures_throw trivial
  | true =>
    have hactionClosed : ActionClosed env w₂.state q.instanceName algorithm digest.hash :=
      ⟨bytes,action,command,hP.held_stable hL rfl bytes w₁ w₂ hw₁ hw₂ hl₂ hheld₁,haction,hcmd,
        hpresent.1 rfl⟩
    apply (ensures_validate hP hL hw₂ (fun _ _ => trivial)).bind
    intro _ w₃ hw₃ hl₃ hclosed
    apply Protocol.ensures_ofExcept_bind (fun _ _ => trivial)
    intro blob hblob
    obtain ⟨bytes',hholds,hdecode⟩ := encodeResult_ok hL.zstd (hp r hsubmitted) hblob
    apply (ensures_storePut hP.toReplaying ?_).bind
    · intro _ w₄ hw₄ _ hput
      apply Protocol.ensures_pure hw₄
      · rintro a b _ _ hab ⟨key,blob,ht,he,hmem⟩
        exact ⟨key,blob,ht,he,hab.subset hmem⟩
      · exact ⟨_,blob,htargets,hblob,hput⟩
    · -- between the validation and the put the result and its action stay closed
      rintro w' hw' hl' _ _ _ ⟨⟩ _
      exact ⟨bytes',r,hholds,hdecode,closed_stable hP hL r w₃ w' hw₃ hw' hl' hclosed,
        hactionClosed.grows (hP.grows hL hw₂ hw' (hl₃.trans hl'))⟩

/-- Every request keeps the protocol: only updates put to the action cache. -/
theorem closing_serve (hp : env.ProstRoundTrip (submitted (L.map Entry.request))) (i : ℕ) (r : Request) (w : ServerWorld) :
    (closing hL).Meets i r (serve env r) w (fun _ _ => True) := by
  by_cases hr : ∃ q, r = .updateActionResult q
  · obtain ⟨q,rfl⟩ := hr
    apply Protocol.Meets.map
    apply Protocol.Meets.imp (ensures_updateActionResult hL hp)
    exact fun _ _ _ _ _ => trivial
  · apply Protocol.meets_of_uses
    apply (serve_uses r).mono
    intro op hop w' _ key metadata body hput hkind
    cases hop.puts key metadata body hput with
    | upload _ kind => exact absurd (hkind.symm.trans kind) (by decide)
    | empty kind => exact absurd (hkind.symm.trans kind) (by decide)
    | result q _ request => exact absurd ⟨q,request⟩ hr

end Protocol

theorem acClosed_new : AcClosed env InMemoryStore.new := by
  intro key b _ hb
  cases hb

/-- The assumptions hold of the log of every run without collisions. -/
theorem server_lawful (hz : env.ZstdRoundTrip) (he : env.HashesEmpty)
    {schedule : List (Interaction.Action Request)}
    (hc : CollisionFree env (serverFrom env schedule).world.log) :
    Lawful env (serverFrom env schedule).world.log :=
  ⟨hz,he,server_log_permitted schedule,hc⟩

/-- They hold of the log of a run that starts a request in some state. -/
theorem serverAfter_lawful (hz : env.ZstdRoundTrip) (he : env.HashesEmpty)
    {before after : List (Interaction.Action Request)} {req : Request}
    (hc : CollisionFree env (serverAfter env (serverFrom env before) req after).world.log) :
    Lawful env (serverAfter env (serverFrom env before) req after).world.log := by
  rw [serverAfter_serverFrom] at hc ⊢
  exact server_lawful hz he hc

section Runs
variable {α : Type} {p : Handler Status α} {f : Except Status α → Response} {req : Request}
  (hreq : serve env req = f <$> p.run) {Q : α → ServerWorld → Prop} {E : Status → Prop}
include hreq

theorem answers_of_closing {before after : List (Interaction.Action Request)}
    (hp : env.ProstRoundTrip (submitted (startedBy (before ++ .start req :: after))))
    (hL : Lawful env (serverAfter env (serverFrom env before) req after).world.log)
    (hQ : (closing hL).inv (serverFrom env before).world → (closing hL).Ensures
      (serverFrom env before).threads.length req p (serverFrom env before).world Q (fun _ => False)) :
    Answers env (serverFrom env before) req after (fun resp w => ∃ a, resp = f (.ok a) ∧ Q a w) :=
  answers_of_ensures (P := closing hL) ⟨⟨List.nil_prefix,rfl⟩,acClosed_new⟩
    (fun i r w _ => closing_serve hL (roundTrip_logged hp) i r w) hreq rfl hQ

theorem outcome_of_closing (hf : Function.Injective f) {schedule : List (Interaction.Action Request)}
    (hp : env.ProstRoundTrip (submitted (startedBy schedule)))
    (hL : Lawful env (serverFrom env schedule).world.log) {i : ℕ} {out : Except Status α}
    (h : (serverFrom env schedule).Returned i req (f out))
    (hQ : ∀ w, (closing hL).inv w → (closing hL).Ensures i req p w Q E) :
    Protocol.Outcome Q E out (serverFrom env schedule).world :=
  outcome_of_ensures (P := closing hL) ⟨⟨List.nil_prefix,rfl⟩,acClosed_new⟩
    (fun i r w _ => closing_serve hL (hp.mono (submitted_of_log schedule)) i r w) hreq hf h rfl hQ

end Runs

/-- The protocol is kept from the empty store on. -/
theorem closing_run {schedule : List (Interaction.Action Request)}
    (hp : env.ProstRoundTrip (submitted (startedBy schedule)))
    (hL : Lawful env (serverFrom env schedule).world.log) : (closing hL).inv (serverFrom env schedule).world :=
  (Config.run_meets (P := closing hL) (s := InMemoryStore.new) ⟨⟨List.nil_prefix,rfl⟩,acClosed_new⟩
    (fun i r w _ => closing_serve hL (hp.mono (submitted_of_log schedule)) i r w) schedule (List.prefix_refl _)).1

theorem actionCache_closed (hz : env.ZstdRoundTrip) (he : env.HashesEmpty)
    {schedule : List (Interaction.Action Request)} (hp : env.ProstRoundTrip (submitted (startedBy schedule)))
    (hc : CollisionFree env (serverFrom env schedule).world.log) :
    AcClosed env (serverFrom env schedule).world.state :=
  (closing_run hp (server_lawful hz he hc)).2

namespace Reference

theorem cachingRun_collisionFree : CollisionFree externals (serverFrom externals cachingRun).world.log :=
  collisionFree (by decide +kernel)

end Reference

theorem actionCache_closed_update :
    (serverFrom Reference.externals Reference.cachingRun).world.state.Present
        Reference.actionCacheKey ∧
      AcClosed Reference.externals (serverFrom Reference.externals Reference.cachingRun).world.state :=
  ⟨Option.isSome_iff_exists.mp (by decide +kernel),
    actionCache_closed Reference.zstdRoundTrip Reference.hashBytes_empty (Reference.prostRoundTrip _)
      Reference.cachingRun_collisionFree⟩

end ReapiCache
