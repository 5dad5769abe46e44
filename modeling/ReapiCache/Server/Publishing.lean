import ReapiCache.Server.RoundTrip

/-! # Upload, then publish

A client uploads an action, its command and everything a result refers to, and then
publishes the result. What was accepted stays, whatever the others do, so no check of
the update can fail.
-/
namespace ReapiCache
open Interaction ActionCacheService
variable {env : Externals}

/-- An upload of a blob of this hash has been accepted in the instance. -/
def AcceptedHash (env : Externals) (c : ServerConfig) (instanceName hash : String) : Prop :=
  ∃ digest payload encoding, Accepted env c instanceName digest payload encoding ∧ digest.hash = hash

/-- An upload of `d` has been accepted in the instance, and `d` has this hash. -/
def AcceptedContent (env : Externals) (c : ServerConfig) (instanceName hash : String) (d : Bytes) : Prop :=
  ∃ digest payload encoding, Accepted env c instanceName digest payload encoding ∧ digest.hash = hash ∧
    Decodes env encoding payload d

/-- The blob of the digest was uploaded, or is the empty blob. -/
def Provided (env : Externals) (c : ServerConfig) (instanceName : String) (digest : Digest) : Prop :=
  digest = emptyDigest ∨ AcceptedHash env c instanceName digest.hash

/-- Everything the result of the action needs has been uploaded. -/
structure Prepared (env : Externals) (c : ServerConfig) (instanceName actionHash : String)
    (r : ActionResult) : Prop where
  action : ∃ bytes action command, AcceptedContent env c instanceName actionHash bytes ∧
    env.decodeAction bytes = .ok action ∧ action.commandDigest = some command ∧
    AcceptedHash env c instanceName command.hash
  files : ∀ f ∈ r.outputFiles, ∃ d, f.digest = some d ∧ Provided env c instanceName d
  stdout : ∀ d, r.stdoutDigest = some d → Provided env c instanceName d
  stderr : ∀ d, r.stderrDigest = some d → Provided env c instanceName d
  trees : ∀ dir ∈ r.outputDirectories, ∃ d bytes tree, dir.treeDigest = some d ∧
    AcceptedContent env c instanceName d.hash bytes ∧ env.decodeTree bytes = .ok tree ∧
    (∃ root, tree.root = some root) ∧
    ∀ f ∈ tree.fileNodes, ∃ d, f.digest = some d ∧ Provided env c instanceName d
  encoded : (env.encodeActionResult r).length ≤ MAX_DECOMPRESSED_BLOB_SIZE

section Uploads
variable {schedule : List (Interaction.Action Request)} {instanceName : String}

theorem AcceptedHash.present {hash : String} (h : AcceptedHash env (serverFrom env schedule) instanceName hash) :
    (serverFrom env schedule).world.state.Present ⟨instanceName,.sha256,hash,.contentAddressableStorage⟩ := by
  obtain ⟨digest,payload,encoding,haccepted,rfl⟩ := h
  exact haccepted.present

theorem Provided.present {digest : Digest} (h : Provided env (serverFrom env schedule) instanceName digest) :
    digest = emptyDigest ∨
      (serverFrom env schedule).world.state.Present (casKey instanceName .sha256 digest) :=
  h.imp_right AcceptedHash.present

variable {L : List (StoreEntry Request)} (hL : Lawful env L) (hl : (serverFrom env schedule).world.log <+: L)
include hL hl

theorem AcceptedContent.held {hash : String} {d : Bytes}
    (h : AcceptedContent env (serverFrom env schedule) instanceName hash d) :
    (serverFrom env schedule).world.state.Held env ⟨instanceName,.sha256,hash,.contentAddressableStorage⟩ d := by
  obtain ⟨digest,payload,encoding,haccepted,rfl,hdecodes⟩ := h
  rw [serverFrom_state]
  exact haccepted.uploaded.held hL (List.prefix_refl _) hl hdecodes

variable {actionHash : String} {r : ActionResult}
  (h : Prepared env (serverFrom env schedule) instanceName actionHash r)
include h

theorem Prepared.actionClosed :
    ActionClosed env (serverFrom env schedule).world.state instanceName .sha256 actionHash := by
  obtain ⟨bytes,action,command,hcontent,hdecode,hcommand,haccepted⟩ := h.action
  exact ⟨bytes,action,command,hcontent.held hL hl,hdecode,hcommand,haccepted.present⟩

theorem Prepared.ready : ArtifactsReady env (serverFrom env schedule).world.state instanceName .sha256 r where
  files := by
    intro f hf
    obtain ⟨d,hd,_⟩ := h.files f hf
    exact ⟨d,hd⟩
  trees := by
    intro dir hdir
    obtain ⟨d,bytes,tree,hd,hcontent,hdecode,hroot,hfiles⟩ := h.trees dir hdir
    refine ⟨d,tree,hd,⟨bytes,hcontent.held hL hl,hdecode⟩,hroot,?_⟩
    intro f hf
    obtain ⟨d',hd',_⟩ := hfiles f hf
    exact ⟨d',hd'⟩
  present := by
    intro d hd
    cases hd with
    | file f mem named =>
      obtain ⟨d',hd',hprovided⟩ := h.files f mem
      obtain rfl := Option.some.inj (hd'.symm.trans named)
      exact hprovided.present
    | stdout named => exact (h.stdout d named).present
    | stderr named => exact (h.stderr d named).present
    | tree dir mem named =>
      obtain ⟨d',bytes,_,hd',hcontent,_⟩ := h.trees dir mem
      obtain rfl := Option.some.inj (hd'.symm.trans named)
      exact Or.inr (hcontent.held hL hl).present
    | treeFile dir treeDigest tree f mem named held file fileNamed =>
      obtain ⟨d',bytes,tree',hd',hcontent,hdecode,_,hfiles⟩ := h.trees dir mem
      obtain rfl := Option.some.inj (hd'.symm.trans named)
      -- the tree found under the digest is the one that was uploaded
      have hheld : TreeHeld env (serverFrom env schedule).world.state instanceName .sha256 d' tree' :=
        ⟨bytes,hcontent.held hL hl,hdecode⟩
      obtain rfl := hheld.unique held
      obtain ⟨d₂,hd₂,hprovided⟩ := hfiles f file
      obtain rfl := Option.some.inj (hd₂.symm.trans fileNamed)
      exact hprovided.present

end Uploads

/-- A held action is decoded from the reply to its lookup. -/
theorem decodeCommandDigest_of_held {store : InMemoryStore} {key : BlobKey} {bytes : Bytes} {action : Action}
    {command : Digest} (h : store.Held env key bytes) (haction : env.decodeAction bytes = .ok action)
    (hcommand : action.commandDigest = some command) :
    decodeCommandDigest env ((store.blobs key).map (fun b => ⟨b.metadata,⟨b.data⟩⟩)) = .ok command := by
  obtain ⟨b,hb,hd⟩ := h
  simp only [decodeCommandDigest, hb, Option.map_some, okOr_some, ok_bind, hd.intoIdentityData, mapError_ok,
    haction, hcommand]

theorem encodeResult_total (hcomp : env.CompressionTotal) {r : ActionResult}
    (h : (env.encodeActionResult r).length ≤ MAX_DECOMPRESSED_BLOB_SIZE) :
    ∃ blob, encodeResult env r = .ok blob := by
  obtain ⟨metadata,bytes,hstored⟩ := exists_storedAs hcomp (env.encodeActionResult r)
  exact ⟨⟨metadata,⟨bytes⟩⟩,mapError_eq_ok.mpr (fromIdentityData_zstd.mpr ⟨h,hstored⟩)⟩

section Update
variable {L : List (StoreEntry Request)} (hL : Lawful env L) (hcomp : env.CompressionTotal) {me : ℕ}
  {req : Request} {w : ServerWorld} {u : UpdateActionResultRequest} {digest : Digest} {r : ActionResult}
include hL hcomp

/-- With its action closed and its result ready an update succeeds. -/
theorem ensures_updateActionResult_ready (hw : (plain L).inv w) (hdigest : u.actionDigest = some digest)
    (hresult : u.actionResult = some r) (hf : SupportsFunction env u.digestFunction)
    (haction : ActionClosed env w.state u.instanceName .sha256 digest.hash)
    (hready : ArtifactsReady env w.state u.instanceName .sha256 r)
    (hencoded : (env.encodeActionResult r).length ≤ MAX_DECOMPRESSED_BLOB_SIZE) :
    (plain L).Ensures me req (updateActionResult env u) w (fun out _ => out = r) (fun _ => False) := by
  have hP := plain_orderly L
  obtain ⟨bytes,action,command,hheld,hdecode,hcommand,hpresent⟩ := haction
  obtain ⟨blob,hblob⟩ := encodeResult_total hcomp hencoded
  apply Protocol.ensures_ok_bind (okOr_eq_ok.mpr hdigest)
  apply Protocol.ensures_ok_bind (okOr_eq_ok.mpr hresult)
  apply Protocol.ensures_ok_bind (mapError_eq_ok.mpr (resolveProtoValue_eq_ok hf))
  apply (ensures_storeGet hP.toReplaying).bind
  rintro _ w₁ hw₁ hl₁ ⟨wr,hwr,hlr,_,rfl⟩
  -- the action is still there when it is read
  have hheldr := hP.held_stable hL rfl bytes w wr hw hwr hlr hheld
  apply Protocol.ensures_ok_bind (decodeCommandDigest_of_held hheldr hdecode hcommand)
  have hpresent₁ := hP.present_stable _ w w₁ hw hw₁ hl₁ hpresent
  apply (ensures_storeContains hP.toReplaying hw₁).bind
  intro present w₂ hw₂ hl₂ hreply
  cases present with
  | false => exact absurd hpresent₁ (hreply.2 rfl)
  | true =>
    have hready₂ := hready.grows (hP.grows hL hw hw₂ (hl₁.trans hl₂))
    apply (ensures_validate hP hL hw₂ (fun hnot => absurd hready₂ hnot)).bind
    intro _ w₃ _ _ _
    apply Protocol.ensures_ok_bind hblob
    apply (ensures_storePut hP.toReplaying (fun _ _ _ => trivial)).bind
    intro _ w₄ hw₄ _ _
    exact Protocol.ensures_pure hw₄ (fun _ _ _ _ _ h => h) rfl

end Update

/-- Once everything it needs has been accepted, a result is published. -/
theorem publish_accepted (hz : env.ZstdRoundTrip) (he : env.HashesEmpty) (hcomp : env.CompressionTotal)
    {before after : List (Interaction.Action Request)} {u : UpdateActionResultRequest} {digest : Digest}
    {r : ActionResult} (hdigest : u.actionDigest = some digest) (hresult : u.actionResult = some r)
    (hf : SupportsFunction env u.digestFunction)
    (hprepared : Prepared env (serverFrom env before) u.instanceName digest.hash r)
    (hc : CollisionFree env (serverAfter env (serverFrom env before) (.updateActionResult u) after).world.log) :
    Answers env (serverFrom env before) (.updateActionResult u) after
      (fun resp _ => resp = .actionResult (.ok r)) := by
  have hL := serverAfter_lawful hz he hc
  have hl : (serverFrom env before).world.log <+:
      (serverAfter env (serverFrom env before) (.updateActionResult u) after).world.log :=
    log_serverAfter _ _ after
  have hanswers := answers_of_plain rfl (fun hw => ensures_updateActionResult_ready hL hcomp hw hdigest hresult hf
    (hprepared.actionClosed hL hl) (hprepared.ready hL hl) hprepared.encoded)
  apply hanswers.imp
  rintro resp _ ⟨_,rfl,rfl⟩
  rfl

namespace Reference

theorem decodeAction_blob : externals.decodeAction actionBlob = .ok ⟨some commandDigest⟩ := by
  change decodeAction actionBlob = _
  rw [decodeAction, if_pos rfl]

theorem decodeTree_blob : externals.decodeTree treeBlob = .ok ⟨some ⟨[⟨some commandDigest⟩]⟩,[]⟩ := by
  change decodeTree treeBlob = _
  rw [decodeTree, if_pos rfl]

/-- The upload has all that the result needs. -/
theorem uploadRun_prepared : Prepared externals (serverFrom externals uploadRun) "main" actionHash result := by
  have hcommand : AcceptedHash externals (serverFrom externals uploadRun) "main" commandHash :=
    ⟨_,_,_,uploadRun_accepted,rfl⟩
  have haction : Accepted externals (serverFrom externals uploadRun) "main" actionDigest actionBlob .identity :=
    .item 0 _ _ 1 _ _ _ uploadRun_returned rfl rfl rfl rfl rfl rfl rfl rfl
  have htree : Accepted externals (serverFrom externals uploadRun) "main" treeDigest treeBlob .identity :=
    .item 0 _ _ 2 _ _ _ uploadRun_returned rfl rfl rfl rfl rfl rfl rfl rfl
  refine ⟨⟨_,_,_,⟨_,_,_,haction,rfl,rfl⟩,decodeAction_blob,rfl,hcommand⟩,?_,?_,?_,?_,?_⟩
  · intro f hf
    obtain rfl := List.mem_singleton.mp hf
    exact ⟨commandDigest,rfl,Or.inr hcommand⟩
  · intro d hd
    cases hd
  · intro d hd
    cases hd
  · intro dir hdir
    obtain rfl := List.mem_singleton.mp hdir
    refine ⟨treeDigest,treeBlob,_,rfl,⟨_,_,_,htree,rfl,rfl⟩,decodeTree_blob,⟨_,rfl⟩,?_⟩
    intro f hf
    obtain rfl := List.mem_singleton.mp hf
    exact ⟨commandDigest,rfl,Or.inr hcommand⟩
  · have hencode : externals.encodeActionResult result = resultBlob := encode_result
    rw [hencode]
    decide +kernel

end Reference

open Reference in
/-- Another client uploads the same blobs once more while the update is served. -/
theorem publish_accepted_uploadRun :
    Answers externals (serverFrom externals uploadRun) update
      [.start upload,.advance 1,.advance 2,.advance 1,.advance 2] (fun resp _ => resp = .actionResult (.ok result)) :=
  publish_accepted zstdRoundTrip hashBytes_empty compressionTotal rfl rfl (Or.inr rfl)
    uploadRun_prepared (collisionFree (by decide +kernel))

end ReapiCache
