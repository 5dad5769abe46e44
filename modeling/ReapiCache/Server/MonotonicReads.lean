import ReapiCache.Server.CacheHits

/-! # Hits stay hits

A get that finds a result settles that every later get of its key finds one, and one that
is not older: the later get reads a longer log, and what it returns is the same result or
that of an update which put in between.
-/
namespace ReapiCache
open Interaction ActionCacheService
variable {env : Externals}

/-- The caller reads the key right after the log `l`, where `e` is the last put, of the result `r`. -/
structure ReadsLatest (env : Externals) (me : ℕ) (g : GetActionResultRequest) (key : BlobKey)
    (log l : List (StoreEntry Request)) (e : StoreEntry Request) (r : ActionResult) : Prop where
  asks : g.Asks env key
  read : l ++ [⟨me,.getActionResult g,.get key⟩] <+: log
  last : lastWrite (StoreCall.putTo key) l = some e
  request : ∃ q, e.request = .updateActionResult q ∧ q.Targets env key r

namespace ReadsLatest
variable {me : ℕ} {g : GetActionResultRequest} {key : BlobKey} {log log' l : List (StoreEntry Request)}
  {e : StoreEntry Request} {r : ActionResult}

theorem later (h : ReadsLatest env me g key log l e r) (hl : log <+: log') : ReadsLatest env me g key log' l e r :=
  ⟨h.asks,h.read.trans hl,h.last,h.request⟩

theorem prefix_log (h : ReadsLatest env me g key log l e r) : l <+: log := (List.prefix_append _ _).trans h.read

theorem mem_log (h : ReadsLatest env me g key log l e r) : e ∈ log :=
  h.prefix_log.subset (lastWrite_spec h.last).1

/-- A later read is of the same put or of one that was made in between. -/
theorem eq_or_mem (h : ReadsLatest env me g key log l e r) {me' : ℕ} {g' : GetActionResultRequest}
    {log' between : List (StoreEntry Request)} {e' : StoreEntry Request} {r' : ActionResult}
    (h' : ReadsLatest env me' g' key log' (l ++ between) e' r') : e' = e ∧ r' = r ∨ e' ∈ between := by
  have hlast := h'.last
  rw [lastWrite_append, h.last] at hlast
  cases hbetween : lastWrite (StoreCall.putTo key) between with
  | none =>
    rw [hbetween] at hlast
    obtain rfl := Option.some.inj hlast
    obtain ⟨q,hq,htargets⟩ := h.request
    obtain ⟨q',hq',htargets'⟩ := h'.request
    obtain rfl := Request.updateActionResult.inj (hq.symm.trans hq')
    exact Or.inl ⟨rfl,Option.some.inj (htargets'.1.symm.trans htargets.1)⟩
  | some x =>
    rw [hbetween] at hlast
    obtain rfl := Option.some.inj hlast
    exact Or.inr (lastWrite_spec hbetween).1

end ReadsLatest

/-- What a successful get has read. -/
theorem ensures_getActionResult_latest {L : List (StoreEntry Request)} (hL : Lawful env L)
    (hp : env.ProstRoundTrip (submitted (L.map Entry.request)))
    {me : ℕ} {w : ServerWorld} {g : GetActionResultRequest} {E : Status → Prop} (hw : (closing hL).inv w)
    (hE : ∀ s : Status, s.code ≠ .internal → (∀ key, g.Asks env key → ¬ w.state.Present key) → E s) :
    (closing hL).Ensures me (.getActionResult g) (getActionResult env g) w
      (fun r w' => ∃ key l e, w.log <+: l ∧ ReadsLatest env me g key w'.log l e r) E := by
  apply (ensures_getActionResult hL hw hE).imp
  rintro r w' hw' _ ⟨key,l,hasks,hread,_⟩
  have hl : l <+: w'.log := (List.prefix_append _ _).trans hread.read
  obtain ⟨e,q,hlast,hrequest⟩ := hread.lastWrite hL hp hasks.kind (hl.trans hw'.1.1)
  exact ⟨key,l,e,hread.after,hasks,hread.read,hlast,q,hrequest⟩

/-- What a get that has returned a result has read. -/
theorem hit_latest (hz : env.ZstdRoundTrip) (he : env.HashesEmpty)
    {schedule : List (Interaction.Action Request)} (hp : env.ProstRoundTrip (submitted (startedBy schedule)))
    (hc : CollisionFree env (serverFrom env schedule).world.log) {i : ℕ}
    {g : GetActionResultRequest} {r : ActionResult}
    (hhit : (serverFrom env schedule).Returned i (.getActionResult g) (.actionResult (.ok r))) :
    ∃ key l e, ReadsLatest env i g key (serverFrom env schedule).world.log l e r := by
  have hL := server_lawful hz he hc
  have hensures : ∀ w, (closing hL).inv w → (closing hL).Ensures i (.getActionResult g) (getActionResult env g) w
      (fun r w' => ∃ key l e, ReadsLatest env i g key w'.log l e r) (fun _ => True) := by
    intro w hw
    apply (ensures_getActionResult_latest hL (hp.mono (submitted_of_log schedule)) hw (fun _ _ _ => trivial)).imp
    rintro _ _ _ _ ⟨key,l,e,_,h⟩
    exact ⟨key,l,e,h⟩
  exact outcome_of_closing rfl (fun _ _ => Response.actionResult.inj) hp hL hhit hensures

/-- The answer to a get of the key after get `i` has returned `r`: what the two have read. -/
def NotOlder (env : Externals) (me : ℕ) (g : GetActionResultRequest) (i : ℕ) (g₀ : GetActionResultRequest)
    (key : BlobKey) (r : ActionResult) (response : Response) (w : ServerWorld) : Prop :=
  ∃ l e between e' r', response = .actionResult (.ok r') ∧ ReadsLatest env i g₀ key w.log l e r ∧
    ReadsLatest env me g key w.log (l ++ between) e' r' ∧ (e' = e ∧ r' = r ∨ e' ∈ between)

/-- After a hit every get of the key that starts later is a hit, and not an older one. -/
theorem hits_stay (hz : env.ZstdRoundTrip) (he : env.HashesEmpty)
    {before after : List (Interaction.Action Request)} {i : ℕ} {g₀ g : GetActionResultRequest} {key : BlobKey}
    {r : ActionResult}
    (hp : env.ProstRoundTrip (submitted (startedBy (before ++ .start (.getActionResult g) :: after))))
    (hc : CollisionFree env (serverAfter env (serverFrom env before) (.getActionResult g) after).world.log)
    (hhit : (serverFrom env before).Returned i (.getActionResult g₀) (.actionResult (.ok r)))
    (hg₀ : g₀.Asks env key) (hg : g.Asks env key) :
    Answers env (serverFrom env before) (.getActionResult g) after
      (NotOlder env (serverFrom env before).threads.length g i g₀ key r) := by
  have hlog : (serverFrom env before).world.log <+:
      (serverAfter env (serverFrom env before) (.getActionResult g) after).world.log :=
    log_serverAfter _ _ after
  have hL₀ := server_lawful hz he (hc.mono (casContents_mono hlog))
  obtain ⟨key₀,l,e,hfirst⟩ := hit_latest hz he (roundTrip_before hp) (hc.mono (casContents_mono hlog)) hhit
  obtain rfl := hfirst.asks.unique hg₀
  have hpresent : (serverFrom env before).world.state.Present key₀ := by
    rw [serverFrom_state]
    obtain ⟨_,b,hb⟩ := lastWrite_spec hfirst.last
    exact present_of_mem hfirst.mem_log (StoreCall.putTo_eq_some.mp hb)
  have hL := serverAfter_lawful hz he hc
  have hanswers := answers_of_closing rfl hp hL (fun hw => (ensures_getActionResult_latest hL (roundTrip_logged hp) hw
    (fun _ _ habsent => habsent key₀ hg hpresent)).imp (fun _ _ _ hl h => And.intro hl h))
  apply hanswers.imp
  rintro response w ⟨r',rfl,hw,key',l',e',hl',hsecond⟩
  obtain rfl := hg.unique hsecond.asks
  obtain ⟨between,rfl⟩ := hfirst.prefix_log.trans hl'
  exact ⟨l,e,between,e',r',rfl,hfirst.later hw,hsecond,hfirst.eq_or_mem hsecond⟩

open Reference in
/-- The result is looked up again. -/
theorem hits_stay_reading : Answers externals (serverFrom externals readingRun) (.getActionResult getRequest)
    (List.replicate 5 (.advance 4)) (NotOlder externals (serverFrom externals readingRun).threads.length getRequest 2
      getRequest actionCacheKey result) := by
  have hhit : (serverFrom externals readingRun).Returned 2 (.getActionResult getRequest)
      (.actionResult (.ok result)) := returned_of_answer rfl (by decide +kernel)
  have hasks : getRequest.Asks externals actionCacheKey := ⟨_,_,rfl,rfl,rfl⟩
  exact hits_stay zstdRoundTrip hashBytes_empty (prostRoundTrip _) (collisionFree (by decide +kernel)) hhit hasks hasks

end ReapiCache
