import ReapiCache.Server.Publishing

/-! # Look for what is missing, upload that, publish

A client has the blobs a result needs. It asks which of them the instance lacks, uploads
those and publishes the result. It never learns what the blobs it did not upload hold, but
they have the hashes of its own.
-/
namespace ReapiCache
open Interaction ActionCacheService
variable {env : Externals}

/-- The client has been told that the instance has a blob of this hash: an upload of one was
accepted, or it was asked for and not reported missing. -/
inductive Secured (env : Externals) (c : ServerConfig) (instanceName hash : String) : Prop
  | uploaded (accepted : AcceptedHash env c instanceName hash)
  | found (i : ℕ) (q : FindMissingBlobsRequest) (missing : List Digest) (digest : Digest)
      (returned : c.Returned i (.findMissingBlobs q) (.findMissingBlobs (.ok ⟨missing⟩)))
      (addressed : q.instanceName = instanceName) (asked : digest ∈ q.blobDigests) (omitted : digest ∉ missing)
      (named : digest.hash = hash)

/-- The client has the blob of this hash, and has secured it. -/
def SecuredContent (env : Externals) (c : ServerConfig) (own : Set Bytes) (instanceName hash : String) (d : Bytes) :
    Prop :=
  d ∈ own ∧ DigestAlgorithm.sha256.hashBytes env d = hash ∧ Secured env c instanceName hash

/-- Nothing need be uploaded for the digest: its blob is secured, or is the empty one. -/
def Needless (env : Externals) (c : ServerConfig) (instanceName : String) (digest : Digest) : Prop :=
  digest = emptyDigest ∨ Secured env c instanceName digest.hash

/-- Everything the result of the action needs is secured, out of the blobs of the client. -/
structure Staged (env : Externals) (c : ServerConfig) (own : Set Bytes) (instanceName actionHash : String)
    (r : ActionResult) : Prop where
  action : ∃ bytes action command, SecuredContent env c own instanceName actionHash bytes ∧
    env.decodeAction bytes = .ok action ∧ action.commandDigest = some command ∧
    Secured env c instanceName command.hash
  files : ∀ f ∈ r.outputFiles, ∃ d, f.digest = some d ∧ Needless env c instanceName d
  stdout : ∀ d, r.stdoutDigest = some d → Needless env c instanceName d
  stderr : ∀ d, r.stderrDigest = some d → Needless env c instanceName d
  trees : ∀ dir ∈ r.outputDirectories, ∃ d bytes tree, dir.treeDigest = some d ∧
    SecuredContent env c own instanceName d.hash bytes ∧ env.decodeTree bytes = .ok tree ∧
    (∃ root, tree.root = some root) ∧
    ∀ f ∈ tree.fileNodes, ∃ d, f.digest = some d ∧ Needless env c instanceName d
  encoded : (env.encodeActionResult r).length ≤ MAX_DECOMPRESSED_BLOB_SIZE

/-- What an answer does not list is present. -/
theorem ensures_findMissingBlobs_omitted {P : Protocol InMemoryStore.handle Request} (hP : Orderly P) {me : ℕ}
    {req : Request} {w : ServerWorld} {q : FindMissingBlobsRequest} (hw : P.inv w) :
    P.Ensures me req (CasService.findMissingBlobs env q) w
      (fun out w' => ∀ digest ∈ q.blobDigests, digest ∉ out.missingBlobDigests →
        w'.state.Present (CasService.casKey q.instanceName .sha256 digest.hash)) (fun _ => True) := by
  cases hresolve : DigestAlgorithm.resolveProtoValue env q.digestFunction with
  | error message =>
    exact Protocol.ensures_error_bind (mapError_eq_error.mpr ⟨message,hresolve,rfl⟩) trivial
  | ok algorithm =>
    apply (ensures_findMissingBlobs hP (supportsFunction_of_ok hresolve) hw).imp
    rintro ⟨missing⟩ w' _ _ ⟨marks,hpicked⟩ digest hasked homitted
    rw [← hpicked.requested] at hasked
    obtain ⟨p,hp,rfl⟩ := List.mem_map.mp hasked
    cases hmark : p.2 with
    | false => exact hpicked.present p hp hmark
    | true =>
      have hlisted : p.1 ∈ missing := by
        rw [show missing = _ from hpicked.listed]
        exact List.mem_map_of_mem (List.mem_filter.mpr ⟨hp,hmark⟩)
      exact absurd hlisted homitted

section Client
variable {schedule : List (Interaction.Action Request)} {instanceName hash : String}

theorem Secured.present (h : Secured env (serverFrom env schedule) instanceName hash) :
    (serverFrom env schedule).world.state.Present ⟨instanceName,.sha256,hash,.contentAddressableStorage⟩ := by
  cases h with
  | uploaded accepted => exact accepted.present
  | found i q missing digest returned addressed asked omitted named =>
    subst addressed named
    exact outcome_of_plain rfl (fun _ _ => Response.findMissingBlobs.inj) returned
      (fun _ hw => ensures_findMissingBlobs_omitted (plain_orderly _) hw) digest asked omitted

theorem Needless.present {digest : Digest} (h : Needless env (serverFrom env schedule) instanceName digest) :
    digest = emptyDigest ∨
      (serverFrom env schedule).world.state.Present (casKey instanceName .sha256 digest) :=
  h.imp_right Secured.present

variable {own : Set Bytes} {L : List (StoreEntry Request)} (hL : Lawful env L)
  (hl : (serverFrom env schedule).world.log <+: L)
  (hown : Set.InjOn (DigestAlgorithm.sha256.hashBytes env) (casContents env L ∪ own))
include hL hl hown

/-- A secured blob of the client is the one the store has. -/
theorem SecuredContent.held {d : Bytes} (h : SecuredContent env (serverFrom env schedule) own instanceName hash d) :
    (serverFrom env schedule).world.state.Held env ⟨instanceName,.sha256,hash,.contentAddressableStorage⟩ d := by
  obtain ⟨hd,hhash,hsecured⟩ := h
  have hpresent := hsecured.present
  rw [serverFrom_state] at hpresent ⊢
  exact hL.held_own hl hown hd hhash hpresent

variable {actionHash : String} {r : ActionResult}
  (h : Staged env (serverFrom env schedule) own instanceName actionHash r)
include h

theorem Staged.actionClosed :
    ActionClosed env (serverFrom env schedule).world.state instanceName .sha256 actionHash := by
  obtain ⟨bytes,action,command,hcontent,hdecode,hcommand,hsecured⟩ := h.action
  exact ⟨bytes,action,command,hcontent.held hL hl hown,hdecode,hcommand,hsecured.present⟩

/-- A tree found under the digest of an output directory is the client's own, so its files
are needless or secured too. -/
theorem Staged.treeFile {dir : OutputDirectory} (hdir : dir ∈ r.outputDirectories) {treeDigest digest : Digest}
    {tree : Tree} (hnamed : dir.treeDigest = some treeDigest)
    (hheld : TreeHeld env (serverFrom env schedule).world.state instanceName .sha256 treeDigest tree) {f : FileNode}
    (hf : f ∈ tree.fileNodes) (hfile : f.digest = some digest) :
    Needless env (serverFrom env schedule) instanceName digest := by
  obtain ⟨d,bytes,own,hd,hcontent,hdecode,_,hfiles⟩ := h.trees dir hdir
  obtain rfl := Option.some.inj (hd.symm.trans hnamed)
  have hown' : TreeHeld env (serverFrom env schedule).world.state instanceName .sha256 d own :=
    ⟨bytes,hcontent.held hL hl hown,hdecode⟩
  obtain rfl := hown'.unique hheld
  obtain ⟨d',hd',hneedless⟩ := hfiles f hf
  obtain rfl := Option.some.inj (hd'.symm.trans hfile)
  exact hneedless

theorem Staged.ready : ArtifactsReady env (serverFrom env schedule).world.state instanceName .sha256 r where
  files := by
    intro f hf
    obtain ⟨d,hd,_⟩ := h.files f hf
    exact ⟨d,hd⟩
  trees := by
    intro dir hdir
    obtain ⟨d,bytes,tree,hd,hcontent,hdecode,hroot,hfiles⟩ := h.trees dir hdir
    refine ⟨d,tree,hd,⟨bytes,hcontent.held hL hl hown,hdecode⟩,hroot,?_⟩
    intro f hf
    obtain ⟨d',hd',_⟩ := hfiles f hf
    exact ⟨d',hd'⟩
  present := by
    intro d hd
    cases hd with
    | file f mem named =>
      obtain ⟨d',hd',hneedless⟩ := h.files f mem
      obtain rfl := Option.some.inj (hd'.symm.trans named)
      exact hneedless.present
    | stdout named => exact (h.stdout d named).present
    | stderr named => exact (h.stderr d named).present
    | tree dir mem named =>
      obtain ⟨d',bytes,_,hd',hcontent,_⟩ := h.trees dir mem
      obtain rfl := Option.some.inj (hd'.symm.trans named)
      exact Or.inr (hcontent.held hL hl hown).present
    | treeFile dir treeDigest tree f mem named held file fileNamed =>
      exact (h.treeFile hL hl hown mem named held file fileNamed).present

end Client

/-- Once the client has secured everything the result needs, it is published, although much
of it was only ever uploaded by others. -/
theorem publish_staged (hz : env.ZstdRoundTrip) (he : env.HashesEmpty) (hcomp : env.CompressionTotal)
    {before after : List (Interaction.Action Request)} {u : UpdateActionResultRequest} {digest : Digest}
    {r : ActionResult} {own : Set Bytes} (hdigest : u.actionDigest = some digest) (hresult : u.actionResult = some r)
    (hf : SupportsFunction env u.digestFunction)
    (hstaged : Staged env (serverFrom env before) own u.instanceName digest.hash r)
    (hc : Set.InjOn (DigestAlgorithm.sha256.hashBytes env)
      (casContents env (serverAfter env (serverFrom env before) (.updateActionResult u) after).world.log ∪ own)) :
    Answers env (serverFrom env before) (.updateActionResult u) after
      (fun response _ => response = .actionResult (.ok r)) := by
  have hL : Lawful env (serverAfter env (serverFrom env before) (.updateActionResult u) after).world.log :=
    serverAfter_lawful hz he (hc.mono Set.subset_union_left)
  have hl : (serverFrom env before).world.log <+:
      (serverAfter env (serverFrom env before) (.updateActionResult u) after).world.log :=
    log_serverAfter _ _ after
  have hanswers := answers_of_plain rfl (fun hw => ensures_updateActionResult_ready hL hcomp hw hdigest hresult hf
    (hstaged.actionClosed hL hl hc) (hstaged.ready hL hl hc) hstaged.encoded)
  apply hanswers.imp
  rintro response _ ⟨_,rfl,rfl⟩
  rfl

namespace Reference

def find : FindMissingBlobsRequest := ⟨"main",[commandDigest,actionDigest,treeDigest],1⟩

theorem actionBlob_fits : actionBlob.length ≤ isizeMax := by decide
theorem treeBlob_fits : treeBlob.length ≤ isizeMax := by decide

def supplement : BatchUpdateBlobsRequest := {
  instanceName := "main"
  requests := [blobRequest actionDigest ⟨actionBlob,actionBlob_fits⟩,blobRequest treeDigest ⟨treeBlob,treeBlob_fits⟩]
  digestFunction := 1 }

/-- Somebody has uploaded the command. The client finds the other blobs missing, and uploads them. -/
def stagingRun : List (Interaction.Action Request) :=
  [.start upload,.advance 0,.start (.findMissingBlobs find),.advance 1,.advance 1,.advance 1,
    .start (.batchUpdateBlobs supplement),.advance 2,.advance 2]

def own : Set Bytes := {d | d ∈ [actionBlob,treeBlob]}

theorem own_known : own ⊆ {d | d ∈ blobs} := by
  intro d hd
  have hmem : d ∈ [actionBlob,treeBlob] := hd
  change d ∈ [[],commandBlob,actionBlob,treeBlob]
  simp only [List.mem_cons, List.not_mem_nil, or_false] at hmem ⊢
  tauto

theorem stagingRun_staged : Staged externals (serverFrom externals stagingRun) own "main" actionHash result := by
  have hfound : (serverFrom externals stagingRun).Returned 1 (.findMissingBlobs find)
      (.findMissingBlobs (.ok ⟨[actionDigest,treeDigest]⟩)) := returned_of_answer rfl (by decide +kernel)
  have hsupplied : (serverFrom externals stagingRun).Returned 2 (.batchUpdateBlobs supplement) (.batchUpdateBlobs
      (.ok ⟨[accepted actionDigest,accepted treeDigest]⟩)) := returned_of_answer rfl (by decide +kernel)
  have hcommand : Secured externals (serverFrom externals stagingRun) "main" commandHash :=
    .found 1 find _ commandDigest hfound rfl List.mem_cons_self (by decide) rfl
  have haction : Secured externals (serverFrom externals stagingRun) "main" actionHash :=
    .uploaded ⟨_,_,_,.item 2 _ _ 0 _ _ _ hsupplied rfl rfl rfl rfl rfl rfl rfl rfl,rfl⟩
  have htree : Secured externals (serverFrom externals stagingRun) "main" treeHash :=
    .uploaded ⟨_,_,_,.item 2 _ _ 1 _ _ _ hsupplied rfl rfl rfl rfl rfl rfl rfl rfl,rfl⟩
  refine ⟨⟨_,_,_,⟨List.mem_cons_self,hashBytes_action,haction⟩,decodeAction_blob,rfl,hcommand⟩,?_,?_,?_,?_,?_⟩
  · intro f hf
    obtain rfl := List.mem_singleton.mp hf
    exact ⟨commandDigest,rfl,Or.inr hcommand⟩
  · intro d hd
    cases hd
  · intro d hd
    cases hd
  · intro dir hdir
    obtain rfl := List.mem_singleton.mp hdir
    refine ⟨treeDigest,treeBlob,_,rfl,⟨List.mem_cons_of_mem _ List.mem_cons_self,hashBytes_tree,htree⟩,
      decodeTree_blob,⟨_,rfl⟩,?_⟩
    intro f hf
    obtain rfl := List.mem_singleton.mp hf
    exact ⟨commandDigest,rfl,Or.inr hcommand⟩
  · have hencode : externals.encodeActionResult result = resultBlob := encode_result
    rw [hencode]
    decide +kernel

end Reference

open Reference in
/-- The upload of the command goes on while the update is served. -/
theorem publish_staged_stagingRun :
    Answers externals (serverFrom externals stagingRun) update [.advance 3,.advance 0,.advance 3,.advance 0,.advance 3]
      (fun response _ => response = .actionResult (.ok result)) := by
  apply publish_staged zstdRoundTrip hashBytes_empty compressionTotal rfl rfl (Or.inr rfl) stagingRun_staged
  exact hash_injOn.mono (Set.union_subset (casContents_known (by decide +kernel)) own_known)

end ReapiCache
