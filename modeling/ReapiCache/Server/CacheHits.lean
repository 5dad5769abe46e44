import ReapiCache.Server.Closure

/-! # Reading the action cache

A get reads the entry once and then validates what it read. The entry was closed when
it was read, so the validation succeeds, and the answer is the result of the update
that put last before the read.
-/
namespace ReapiCache
open Interaction ActionCacheService
variable {env : Externals}

/-- The key a get looks up, when its digest and function are in order. -/
def GetActionResultRequest.Asks (env : Externals) (g : GetActionResultRequest) (key : BlobKey) : Prop :=
  ∃ digest algorithm, g.actionDigest = some digest ∧
    DigestAlgorithm.resolveProtoValue env g.digestFunction = .ok algorithm ∧
      key = actionKey g.instanceName algorithm digest

theorem GetActionResultRequest.Asks.unique {g : GetActionResultRequest} {key key' : BlobKey}
    (h : g.Asks env key) (h' : g.Asks env key') : key = key' := by
  obtain ⟨digest,algorithm,hdigest,halgorithm,rfl⟩ := h
  obtain ⟨digest',algorithm',hdigest',halgorithm',rfl⟩ := h'
  obtain rfl := Option.some.inj (hdigest.symm.trans hdigest')
  obtain rfl := Except.ok.inj (halgorithm.symm.trans halgorithm')
  rfl

theorem GetActionResultRequest.Asks.kind {g : GetActionResultRequest} {key : BlobKey} (h : g.Asks env key) :
    key.kind = .actionCache := by
  obtain ⟨_,_,_,_,rfl⟩ := h
  rfl

theorem UpdateActionResultRequest.Targets.key_unique {q : UpdateActionResultRequest} {key key' : BlobKey}
    {r r' : ActionResult} (h : q.Targets env key r) (h' : q.Targets env key' r') : key = key' := by
  obtain ⟨_,digest,algorithm,hdigest,halgorithm,rfl⟩ := h
  obtain ⟨_,digest',algorithm',hdigest',halgorithm',rfl⟩ := h'
  obtain rfl := Option.some.inj (hdigest.symm.trans hdigest')
  obtain rfl := Except.ok.inj (halgorithm.symm.trans halgorithm')
  rfl

/-- Between two worlds the caller has read `r` under the key, right after the log `l`. -/
structure ReadFrom (env : Externals) (me : ℕ) (req : Request) (key : BlobKey) (w w' : ServerWorld)
    (l : List (StoreEntry Request)) (r : ActionResult) : Prop where
  after : w.log <+: l
  read : l ++ [⟨me,req,.get key⟩] <+: w'.log
  entry : ∃ b bytes, (stored l).blobs key = some b ∧ Holds env b.metadata b.data bytes ∧
    env.decodeActionResult bytes = .ok r

section Handler
variable {L : List (StoreEntry Request)} (hL : Lawful env L) {me : ℕ} {req : Request} {w : ServerWorld}
  {E : Status → Prop}

/-- A get never fails internally, and it only fails when nothing is cached at its start. -/
theorem ensures_getActionResult {g : GetActionResultRequest} (hw : (closing hL).inv w)
    (hE : ∀ s : Status, s.code ≠ .internal → (∀ key, g.Asks env key → ¬ w.state.Present key) → E s) :
    (closing hL).Ensures me req (getActionResult env g) w
      (fun r w' => ∃ key l, g.Asks env key ∧ ReadFrom env me req key w w' l r ∧
        ArtifactsClosed env w'.state key.instanceName key.algorithm r) E := by
  have hP := closing_orderly hL
  apply Protocol.ensures_ofExcept_bind
  · intro e he
    obtain ⟨hnone,rfl⟩ := okOr_eq_error.mp he
    apply hE _ (show Code.invalidArgument ≠ Code.internal by decide)
    rintro key ⟨digest,_,hdigest,_⟩
    rw [hnone] at hdigest
    cases hdigest
  intro digest hdigest
  rw [okOr_eq_ok] at hdigest
  apply Protocol.ensures_ofExcept_bind
  · intro e he
    obtain ⟨message,hmessage,rfl⟩ := mapError_eq_error.mp he
    apply hE _ (show Code.invalidArgument ≠ Code.internal by decide)
    rintro key ⟨_,algorithm,_,halg,_⟩
    rw [hmessage] at halg
    cases halg
  intro algorithm halg
  rw [mapError_eq_ok] at halg
  have hasks : g.Asks env (actionKey g.instanceName algorithm digest) := ⟨digest,algorithm,hdigest,halg,rfl⟩
  apply (ensures_storeGet hP.toReplaying).bind
  rintro blob w₁ hw₁ _ ⟨wr,hwr,hl,hread,rfl⟩
  have hl₁ := (List.prefix_append _ _).trans hread
  cases hb : wr.state.blobs (actionKey g.instanceName algorithm digest) with
  | none =>
    apply Protocol.ensures_error_bind rfl
    apply hE _ (show Code.notFound ≠ Code.internal by decide)
    intro key hkey hpresent
    obtain rfl := hkey.unique hasks
    obtain ⟨b,hb'⟩ := hP.present_stable _ w wr hw hwr hl hpresent
    rw [hb] at hb'
    cases hb'
  | some b =>
    obtain ⟨bytes,r,hholds,hdecode,hclosed,_⟩ := hwr.2 _ b rfl hb
    have hcached : decodeCachedResult env (some ⟨b.metadata,⟨b.data⟩⟩) = .ok r := by
      simp only [decodeCachedResult, okOr_some, ok_bind, hholds.intoIdentityData, mapError_ok, hdecode]
    rw [Option.map_some]
    apply Protocol.ensures_ok_bind hcached
    have hclosed₁ := closed_stable hP hL r wr w₁ hwr hw₁ hl₁ hclosed
    apply (ensures_validate hP hL hw₁ (fun hready => absurd hclosed₁.ready hready)).bind
    intro _ w₂ hw₂ hl₂ hclosed₂
    have hentry : (stored wr.log).blobs (actionKey g.instanceName algorithm digest) = some b := by
      rw [← hP.state wr hwr]
      exact hb
    apply Protocol.ensures_pure hw₂
    · rintro a b' ha hb' hab ⟨key,l,hk,hr,hc⟩
      exact ⟨key,l,hk,⟨hr.after,hr.read.trans hab,hr.entry⟩,closed_stable hP hL r a b' ha hb' hab hc⟩
    · exact ⟨_,wr.log,hasks,⟨hl,hread.trans hl₂,b,bytes,hentry,hholds,hdecode⟩,hclosed₂⟩

include hL in
/-- What was read under a key of the action cache is the result of the last put there. -/
theorem ReadFrom.lastWrite (hp : env.ProstRoundTrip (submitted (L.map Entry.request))) {key : BlobKey} {w' : ServerWorld}
    {l : List (StoreEntry Request)} {r : ActionResult} (hkind : key.kind = .actionCache)
    (h : ReadFrom env me req key w w' l r) (hl : l <+: L) :
    ∃ e q, lastWrite (StoreCall.putTo key) l = some e ∧ e.request = .updateActionResult q ∧
      q.Targets env key r := by
  obtain ⟨b,bytes,hb,hholds,hdecode⟩ := h.entry
  obtain ⟨e,he,hlast,hop⟩ := mem_of_stored hb
  cases (hL.permitted e (hl.subset he)).puts key b.metadata ⟨b.data⟩ hop with
  | upload _ kind => exact absurd (hkind.symm.trans kind) (by decide)
  | empty kind => exact absurd (hkind.symm.trans kind) (by decide)
  | result q r' request targets encoded =>
    have hsubmitted : r' ∈ submitted (L.map Entry.request) :=
      ⟨q,List.mem_map.mpr ⟨e,hl.subset he,request⟩,targets.1⟩
    obtain ⟨bytes',hholds',hdecode'⟩ := encodeResult_ok hL.zstd (hp r' hsubmitted) encoded
    obtain rfl := hholds.unique hholds'
    obtain rfl := Except.ok.inj (hdecode.symm.trans hdecode')
    exact ⟨e,q,hlast,request,targets⟩

end Handler

/-- How a get sees the updates of its key: right after the log `l` it reads, and `e` is
the last put of `l` to the key, of the result `r`. -/
structure LatestPut (env : Externals) (me : ℕ) (req : Request) (key : BlobKey) (w w' : ServerWorld)
    (l : List (StoreEntry Request)) (e : StoreEntry Request) (r : ActionResult) : Prop where
  after : w.log <+: l
  read : l ++ [⟨me,req,.get key⟩] <+: w'.log
  last : lastWrite (StoreCall.putTo key) l = some e
  request : ∃ q, e.request = .updateActionResult q ∧ q.Targets env key r

/-- The latest put is an update's own, or a later one of another update. -/
def OwnOrLater (u : ℕ) (key : BlobKey) (l : List (StoreEntry Request)) (e : StoreEntry Request)
    (r R : ActionResult) : Prop :=
  ∃ l₁ own l₂, l = l₁ ++ own :: l₂ ∧ own.caller = u ∧ (∃ b, own.op.putTo key = some b) ∧
    (r = R ∨ e ∈ l₂ ∧ e.caller ≠ u)

/-- The answer to a get of `key` after update `u` of the result `R` has returned. -/
def AnswersLatest (env : Externals) (c : ServerConfig) (g : GetActionResultRequest) (key : BlobKey)
    (u : ℕ) (R : ActionResult) (resp : Response) (w : ServerWorld) : Prop :=
  ∃ l e r, resp = .actionResult (.ok r) ∧
    LatestPut env c.threads.length (.getActionResult g) key c.world w l e r ∧ OwnOrLater u key l e r R

/-- An update that returned `Ok` has put its result before it returned. -/
theorem put_of_returned (hz : env.ZstdRoundTrip) (he : env.HashesEmpty)
    {schedule : List (Interaction.Action Request)} (hp : env.ProstRoundTrip (submitted (startedBy schedule)))
    (hc : CollisionFree env (serverFrom env schedule).world.log) {u : ℕ}
    {q : UpdateActionResultRequest} {r : ActionResult} {key : BlobKey} {R : ActionResult}
    (hu : (serverFrom env schedule).Returned u (.updateActionResult q) (.actionResult (.ok r)))
    (hq : q.Targets env key R) :
    ∃ own ∈ (serverFrom env schedule).world.log, own.caller = u ∧
      own.request = .updateActionResult q ∧ ∃ b, own.op.putTo key = some b := by
  have hL := server_lawful hz he hc
  obtain ⟨key',blob,htargets,_,hmem⟩ := outcome_of_closing rfl
    (fun _ _ => Response.actionResult.inj) hp hL hu
    (fun _ _ => ensures_updateActionResult hL (hp.mono (submitted_of_log schedule)))
  obtain rfl := hq.key_unique htargets
  exact ⟨_,hmem,rfl,rfl,⟨blob.body.cursor,blob.metadata⟩,StoreCall.putTo_eq_some.mpr rfl⟩

/-- Read your writes: after an update returned `Ok`, every get of its key returns `Ok`
with the latest put, its own unless another update put later. -/
theorem getActionResult_after_update (hz : env.ZstdRoundTrip) (he : env.HashesEmpty)
    {before after : List (Interaction.Action Request)} {u : ℕ}
    {q : UpdateActionResultRequest} {g : GetActionResultRequest} {key : BlobKey} {r₀ R : ActionResult}
    (hp : env.ProstRoundTrip (submitted (startedBy (before ++ .start (.getActionResult g) :: after))))
    (hc : CollisionFree env (serverAfter env (serverFrom env before) (.getActionResult g) after).world.log)
    (hu : (serverFrom env before).Returned u (.updateActionResult q) (.actionResult (.ok r₀)))
    (hq : q.Targets env key R) (hg : g.Asks env key) :
    Answers env (serverFrom env before) (.getActionResult g) after
      (AnswersLatest env (serverFrom env before) g key u R) := by
  have hlog : (serverFrom env before).world.log <+:
      (serverAfter env (serverFrom env before) (.getActionResult g) after).world.log :=
    log_serverAfter _ _ after
  have hc₀ : CollisionFree env (serverFrom env before).world.log := hc.mono (casContents_mono hlog)
  obtain ⟨own,hown,hcaller,hrequest,b,hb⟩ := put_of_returned hz he (roundTrip_before hp) hc₀ hu hq
  have hpresent : (serverFrom env before).world.state.Present key := by
    rw [serverFrom_state]
    exact present_of_mem hown (StoreCall.putTo_eq_some.mp hb)
  have hL := serverAfter_lawful hz he hc
  have hanswers := answers_of_closing rfl hp hL (fun hw => (ensures_getActionResult hL hw
    (fun _ _ habsent => habsent key hg hpresent)).imp (fun r w' hw' _ h => And.intro hw' h))
  apply hanswers.imp
  rintro resp w' ⟨r,rfl,hw',key',l,hasks,hread,_⟩
  obtain rfl := hg.unique hasks
  have hl : l <+: w'.log := (List.prefix_append _ _).trans hread.read
  have hlL := hl.trans hw'.1.1
  obtain ⟨e,p,hlast,hereq,htargets⟩ := hread.lastWrite hL (roundTrip_logged hp) hg.kind hlL
  refine ⟨l,e,r,rfl,⟨hread.after,hread.read,hlast,p,hereq,htargets⟩,?_⟩
  obtain ⟨l₁,l₂,rfl⟩ := List.append_of_mem (hread.after.subset hown)
  refine ⟨l₁,own,l₂,rfl,hcaller,⟨b,hb⟩,?_⟩
  -- a put of the same caller is on behalf of the same request
  by_cases heu : e.caller = u
  · left
    have hsame : e.request = own.request := by
      have he := hlL.subset (lastWrite_spec hlast).1
      have hown' := hlL.subset (List.mem_append_right l₁ (List.mem_cons_self : own ∈ own :: l₂))
      rw [serverAfter_serverFrom] at he hown'
      exact request_of_caller he hown' (heu.trans hcaller.symm)
    obtain rfl := Request.updateActionResult.inj (hereq.symm.trans (hsame.trans hrequest))
    exact Option.some.inj (htargets.1.symm.trans hq.1)
  · rcases lastWrite_after hb hlast with rfl | hmem
    · exact absurd hcaller heu
    · exact Or.inr ⟨hmem,heu⟩

theorem getActionResult_after_update_cached :
    Answers Reference.externals (serverFrom Reference.externals Reference.cachingRun)
      (.getActionResult Reference.getRequest) (List.replicate 4 (.advance 2))
      (AnswersLatest Reference.externals (serverFrom Reference.externals Reference.cachingRun)
        Reference.getRequest Reference.actionCacheKey 1 Reference.result) := by
  have hcached : (serverFrom Reference.externals Reference.cachingRun).Returned 1
      (.updateActionResult Reference.updateRequest) (.actionResult (.ok Reference.result)) :=
    returned_of_answer rfl (by decide +kernel)
  exact getActionResult_after_update Reference.zstdRoundTrip Reference.hashBytes_empty
    (Reference.prostRoundTrip _) (Reference.collisionFree (by decide +kernel)) hcached
    ⟨rfl,_,_,rfl,rfl,rfl⟩ ⟨_,_,rfl,rfl,rfl⟩

end ReapiCache
