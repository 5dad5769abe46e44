import ReapiCache.Abstract.Atomicity
import ReapiCache.Abstract.Calls
import ReapiCache.Interaction.Fallible
import ReapiCache.Services.Uploads

/-! # What has been published can be looked up

An update publishes a result after it has found everything the result refers to. Contents
are only added, so from then on the validation of a lookup finds it all again, and
changes nothing.
-/
namespace ReapiCache.Abstract
open Interaction ActionCacheService
variable {env : Externals}

/-- The code of a missing artifact is all in which the validation of a lookup differs from
that of an update. -/
theorem collectFileDigests_code {code : Code} (code' : Code) {files : List FileNode} {ds : List Digest}
    (h : collectFileDigests code files = .ok ds) : collectFileDigests code' files = .ok ds :=
  mapM_of_related ((mapM_eq_ok h).imp (fun _ _ hd => okOr_eq_ok.mpr (okOr_eq_ok.mp hd)))

theorem collectTreeFileDigests_code {code : Code} (code' : Code) {tree : Tree} {digests out : List Digest}
    (h : collectTreeFileDigests tree digests code = .ok out) : collectTreeFileDigests tree digests code' = .ok out := by
  obtain ⟨root,hroot,h⟩ := bind_eq_ok.mp h
  obtain ⟨rootDigests,hrootDigests,h⟩ := bind_eq_ok.mp h
  obtain ⟨childDigests,hchildDigests,h⟩ := bind_eq_ok.mp h
  have hchildren := mapM_of_related
    ((mapM_eq_ok hchildDigests).imp (fun _ _ hd => collectFileDigests_code code' hd))
  rw [collectTreeFileDigests, okOr_eq_ok.mpr (okOr_eq_ok.mp hroot), ok_bind,
    collectFileDigests_code code' hrootDigests, ok_bind, hchildren, ok_bind]
  exact h

theorem validateArtifacts_code (instanceName : String) (algorithm : DigestAlgorithm) (r : ActionResult)
    (code code' : Code) : Failing.Implies Settles Cache.handle
      (validateArtifacts env instanceName algorithm r code) (validateArtifacts env instanceName algorithm r code') := by
  apply Failing.Implies.bind
  · apply Failing.implies_ofExcept
    intro ds hds
    exact mapM_of_related ((mapM_eq_ok hds).imp (fun _ _ hd => okOr_eq_ok.mpr (okOr_eq_ok.mp hd)))
  intro fileDigests
  apply Failing.Implies.bind
  · apply Failing.implies_foldlM
    intro digests dir _
    apply Failing.Implies.bind
    · exact Failing.implies_ofExcept _ (fun _ hd => okOr_eq_ok.mpr (okOr_eq_ok.mp hd))
    intro treeDigest
    apply Failing.Implies.bind _ (Failing.implies_refl _ _)
    intro found
    apply Failing.Implies.bind
    · apply Failing.implies_ofExcept
      intro tree htree
      obtain ⟨content,hcontent,htree⟩ := bind_eq_ok.mp htree
      exact bind_eq_ok.mpr ⟨content,okOr_eq_ok.mpr (okOr_eq_ok.mp hcontent),htree⟩
    intro tree
    exact Failing.implies_ofExcept _ (fun _ h => collectTreeFileDigests_code code' h)
  intro digests
  apply Failing.implies_foldlM
  intro _ digest _
  unfold checkArtifact
  by_cases hempty : digest.sizeBytes = 0 ∧ digest.hash = EMPTY_SHA256
  · rw [if_pos hempty, if_pos hempty]
    exact Failing.implies_refl _ _
  · rw [if_neg hempty, if_neg hempty]
    apply Failing.Implies.bind _ (Failing.implies_refl _ _)
    rintro (present : Bool)
    cases present with
    | true => exact Failing.implies_refl _ _
    | false =>
      intro _ _ hs
      cases hs

/-- A lookup of the result succeeds here and changes nothing. -/
def Valid (env : Externals) (address : Locator) (r : ActionResult) (c : BlobCache) : Prop :=
  (validateArtifacts env address.instanceName address.algorithm r .notFound).run.Stays Cache.handle Settles (.ok ()) c

def Published (env : Externals) (c : BlobCache) : Prop :=
  ∀ address r, c.results address = some r → Valid env address r c

abbrev CacheEntry := Entry BlobCall Request
abbrev CacheProtocol := Protocol (Cache.handle : (op : BlobCall) → BlobCache → op.Ret × BlobCache) Request

theorem Valid.later {address : Locator} {r : ActionResult} {c c' : BlobCache} (h : Valid env address r c)
    (hc : Cache.Extends c c') : Valid env address r c' :=
  Program.Stays.later Cache.handle (Cache.settling EmptyBlob) h hc

theorem Published.called {c : BlobCache} (h : Published env c) {op : BlobCall}
    (hextends : Cache.Extends c (Cache.handle op c).2)
    (hop : ∀ address r, op = .publish address r → Valid env address r c) :
    Published env (Cache.handle op c).2 := by
  intro address r hr
  cases op with
  | publish a r' =>
    by_cases ha : address = a
    · subst ha
      simp only [Cache.handle, Function.update_self, Option.some.injEq] at hr
      subst hr
      exact (hop address r' rfl).later hextends
    · simp only [Cache.handle, Function.update_of_ne ha] at hr
      exact (h address r hr).later hextends
  | fetch _ => exact (h address r hr).later hextends
  | holds _ => exact (h address r hr).later hextends
  | store _ _ => exact (h address r hr).later hextends
  | retrieve _ => exact (h address r hr).later hextends

/-- Every state so far had valid results only, and every result is valid when it is published. -/
def publishing (env : Externals) {L : List CacheEntry} (hL : Cache.Univocal L) : CacheProtocol where
  history := L
  inv w := (w.log <+: L ∧ w.state = replay Cache.handle Cache.new w.log) ∧
    ∀ l, l <+: w.log → Published env (replay Cache.handle Cache.new l)
  guar e w := ∀ address r, e.op = .publish address r → Valid env address r w.state
  keeps := by
    rintro w e ⟨⟨_,hs⟩,hpublished⟩ hg hl
    refine ⟨⟨hl,by rw [World.record_state, World.record_log, replay_concat, hs]⟩,?_⟩
    intro l hle
    rcases List.prefix_concat_iff.mp hle with rfl | hle
    · rw [hs] at hg
      have hextends := Cache.replay_extends hL (List.prefix_append w.log [e]) hl
      rw [replay_concat] at hextends ⊢
      exact (hpublished w.log (List.prefix_refl _)).called hextends hg
    · exact hpublished l hle

section Publishing
variable {L : List CacheEntry} (hL : Cache.Univocal L) {me : ℕ} {req : Request} {w : CacheWorld}

theorem publishing_extends (w w' : CacheWorld) (hw : (publishing env hL).inv w) (hw' : (publishing env hL).inv w')
    (hl : w.log <+: w'.log) : Cache.Extends w.state w'.state := by
  rw [hw.1.2, hw'.1.2]
  exact Cache.replay_extends hL hl hw'.1.1

/-- A call that publishes nothing. -/
def Unpublishing (op : BlobCall) : Prop := ∀ address r, op ≠ .publish address r

theorem Unpublishing.guar {op : BlobCall} (h : Unpublishing op) (w : CacheWorld) (_ : (publishing env hL).inv w) :
    (publishing env hL).guar ⟨me,req,op⟩ w := fun address r hop => absurd hop (h address r)

end Publishing

theorem validateArtifacts_unpublishing (instanceName : String) (algorithm : DigestAlgorithm) (r : ActionResult)
    (code : Code) : Failing.Uses Unpublishing (validateArtifacts env instanceName algorithm r code) :=
  uses_validateArtifacts (by rintro _ _ _ ⟨⟩) (by rintro _ _ _ ⟨⟩) (by rintro _ _ ⟨⟩) r code

/-- Only updates publish. -/
theorem serve_unpublishing {r : Request} (hr : ∀ u, r ≠ .updateActionResult u) :
    (serve env r).Uses Unpublishing := by
  apply (serve_makes r).mono
  rintro op hop address result rfl
  obtain ⟨u,rfl⟩ := hop
  exact hr u rfl

section Serving
variable {L : List CacheEntry} (hL : Cache.Univocal L) {me : ℕ} {req : Request} {w : CacheWorld}

/-- Where a validation has succeeded its result is valid from then on. -/
theorem ensures_validateArtifacts (instanceName : String) (algorithm : DigestAlgorithm) (hash : String)
    (r : ActionResult) (code : Code) :
    (publishing env hL).Ensures me req (validateArtifacts env instanceName algorithm r code) w
      (fun _ w' => Valid env ⟨instanceName,algorithm,hash⟩ r w'.state) (fun _ => True) := by
  have hmeets : (publishing env hL).Meets me req (validateArtifacts env instanceName algorithm r code).run w
      (fun out w' => Failing.IsError out ∨
        (validateArtifacts env instanceName algorithm r code).run.Stays Cache.handle Settles out w'.state) :=
    Protocol.meets_stays (Cache.settling EmptyBlob) (publishing_extends hL)
      (validateArtifacts_patient instanceName algorithm r code)
      ((validateArtifacts_unpublishing instanceName algorithm r code).mono (fun _ hop => hop.guar hL))
  apply hmeets.imp
  rintro out w' _ _ (⟨e,rfl⟩ | hstays)
  · trivial
  · cases out with
    | error e => trivial
    | ok u => exact validateArtifacts_code instanceName algorithm r code .notFound u _ hstays

theorem ensures_of_uses {ε α : Type} {p : CacheHandler ε α} (h : Failing.Uses Unpublishing p) :
    (publishing env hL).Ensures me req p w (fun _ _ => True) (fun _ => True) := by
  apply (Protocol.meets_of_uses (h.mono (fun _ hop => hop.guar hL)) w).imp
  rintro (e | a) _ _ _ _
  · trivial
  · trivial

/-- An update publishes a result that it has validated. -/
theorem ensures_updateActionResult (q : UpdateActionResultRequest) :
    (publishing env hL).Ensures me req (updateActionResult env q) w (fun _ _ => True) (fun _ => True) := by
  apply Protocol.ensures_ofExcept_bind (fun _ _ => trivial)
  intro digest _
  apply Protocol.ensures_ofExcept_bind (fun _ _ => trivial)
  intro r _
  apply Protocol.ensures_ofExcept_bind (fun _ _ => trivial)
  intro algorithm _
  apply (ensures_of_uses hL (Failing.uses_attempt _ (by rintro _ _ ⟨⟩))).bind
  intro found _ _ _ _
  apply Protocol.ensures_ofExcept_bind (fun _ _ => trivial)
  intro command _
  apply (ensures_of_uses hL (Failing.uses_attempt _ (by rintro _ _ ⟨⟩))).bind
  intro present w₁ _ _ _
  cases present with
  | false => exact Protocol.ensures_throw trivial
  | true =>
    apply (ensures_validateArtifacts hL q.instanceName algorithm digest.hash r .failedPrecondition).bind
    intro _ w₂ hw₂ _ hvalid
    apply Protocol.ensures_ofExcept_bind (fun _ _ => trivial)
    intro _ _
    apply Protocol.Ensures.bind (Q := fun _ _ => True)
    · apply Protocol.ensures_attempt
      · -- what was validated is still valid when it is published
        rintro w₃ hw₃ hl₃ _ _ ⟨⟩
        exact hvalid.later (publishing_extends hL w₂ w₃ hw₂ hw₃ hl₃)
      · exact fun _ _ _ _ _ _ _ => trivial
      · exact fun _ _ _ _ => trivial
    · intro _ _ hw _ _
      exact Protocol.ensures_pure hw (fun _ _ _ _ _ _ => trivial) trivial

theorem publishing_serve (i : ℕ) (r : Request) (w : CacheWorld) :
    (publishing env hL).Meets i r (serve env r) w (fun _ _ => True) := by
  by_cases hr : ∃ q, r = .updateActionResult q
  · obtain ⟨q,rfl⟩ := hr
    apply Protocol.Meets.map
    apply Protocol.Meets.imp (ensures_updateActionResult hL q)
    exact fun _ _ _ _ _ => trivial
  · apply Protocol.meets_of_uses
    exact (serve_unpublishing (fun u hu => hr ⟨u,hu⟩)).mono (fun _ hop => hop.guar hL)

end Serving

theorem published_new : Published env Cache.new := by
  intro address r hr
  cases hr

/-- At every moment of a run everything published is valid. -/
theorem run_published (schedule : List (Interaction.Action Request))
    (hL : Cache.Univocal (cacheRun env Cache.new schedule).world.log) {l : List CacheEntry}
    (hl : l <+: (cacheRun env Cache.new schedule).world.log) : Published env (replay Cache.handle Cache.new l) := by
  have hstart : (publishing env hL).inv ⟨Cache.new,[]⟩ := by
    refine ⟨⟨List.nil_prefix,rfl⟩,?_⟩
    intro l hl
    rw [List.prefix_nil.mp hl]
    exact published_new
  have h := Config.run_meets (P := publishing env hL) hstart (fun i r w _ => publishing_serve hL i r w) schedule
    (List.prefix_refl _)
  exact h.1.2 l hl

end ReapiCache.Abstract
