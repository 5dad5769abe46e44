import ReapiCache.Server.HitDownloads
import ReapiCache.Server.Resumption

/-! # Shared builds

One client has run an action and cached its result. Another finds the result and downloads
what it names: it receives the very blobs the first client had, whichever of the lookups it
uses, whatever the others do meanwhile, and although it never computed them.
-/
namespace ReapiCache
open Interaction ByteStreamService
variable {env : Externals}

/-- The client has the blob of the digest. -/
structure Owns (env : Externals) (own : Set Bytes) (digest : Digest) (d : Bytes) : Prop where
  mem : d ∈ own
  hash : DigestAlgorithm.sha256.hashBytes env d = digest.hash
  size : digest.sizeBytes.toInt = d.length

/-- What the client has for the digests its result names, directly and in its trees. -/
inductive Output (env : Externals) (own : Set Bytes) (r : ActionResult) (digest : Digest) (d : Bytes) : Prop
  | file (f : OutputFile) (mem : f ∈ r.outputFiles) (named : f.digest = some digest) (owns : Owns env own digest d)
  | stdout (named : r.stdoutDigest = some digest) (owns : Owns env own digest d)
  | stderr (named : r.stderrDigest = some digest) (owns : Owns env own digest d)
  | tree (dir : OutputDirectory) (mem : dir ∈ r.outputDirectories) (named : dir.treeDigest = some digest)
      (owns : Owns env own digest d)
  | treeFile (dir : OutputDirectory) (treeDigest : Digest) (blob : Bytes) (tree : Tree) (f : FileNode)
      (mem : dir ∈ r.outputDirectories) (named : dir.treeDigest = some treeDigest)
      (ownsTree : Owns env own treeDigest blob) (decodes : env.decodeTree blob = .ok tree) (file : f ∈ tree.fileNodes)
      (fileNamed : f.digest = some digest) (owns : Owns env own digest d)

theorem Output.owns {own : Set Bytes} {r : ActionResult} {digest : Digest} {d : Bytes}
    (h : Output env own r digest d) : Owns env own digest d := by
  cases h with
  | file _ _ _ owns => exact owns
  | stdout _ owns => exact owns
  | stderr _ owns => exact owns
  | tree _ _ _ owns => exact owns
  | treeFile _ _ _ _ _ _ _ _ _ _ _ owns => exact owns

section Closed
variable {L log : List (StoreEntry Request)} (hL : Lawful env L) (hl : log <+: L) {own : Set Bytes}
  (hown : Set.InjOn (DigestAlgorithm.sha256.hashBytes env) (casContents env L ∪ own)) {instanceName : String}
  {r : ActionResult} (hclosed : ArtifactsClosed env (stored log) instanceName .sha256 r) {digest : Digest} {d : Bytes}
include hL hl hown hclosed

/-- A closed result refers to the blobs of the client. -/
theorem Output.referenced (h : Output env own r digest d) : Referenced env (stored log) instanceName .sha256 r digest := by
  cases h with
  | file f mem named => exact .file f mem named
  | stdout named => exact .stdout named
  | stderr named => exact .stderr named
  | tree dir mem named => exact .tree dir mem named
  | treeFile dir treeDigest blob tree f mem named ownsTree decodes file fileNamed =>
    have hpresent := hclosed.present treeDigest (.tree dir mem named)
    have hheld := hL.held_own hl hown ownsTree.mem ownsTree.hash hpresent
    exact .treeFile dir treeDigest tree f mem named ⟨blob,hheld,decodes⟩ file fileNamed

theorem Output.held (h : Output env own r digest d) :
    (stored log).Held env (CasService.casKey instanceName .sha256 digest.hash) d :=
  hL.held_own hl hown h.owns.mem h.owns.hash (hclosed.present digest (h.referenced hL hl hown hclosed))

end Closed

/-- The lookups of these blobs, in the instance, deliver them. -/
def Fetches (env : Externals) (outputs : Digest → Bytes → Prop) (instanceName : String) : Request → Response → Prop
  | .findMissingBlobs q, response => q.instanceName = instanceName → SupportsFunction env q.digestFunction →
      ∃ missing, response = .findMissingBlobs (.ok ⟨missing⟩) ∧ ∀ digest d, outputs digest d → digest ∉ missing
  | .batchReadBlobs q, response => q.instanceName = instanceName → SupportsFunction env q.digestFunction →
      ∃ answers, response = .batchReadBlobs (.ok ⟨answers⟩) ∧ List.Forall₂ (fun digest answer =>
        ∀ d, outputs digest d → answer.digest = some digest ∧ answer.status = some ⟨0,"",[]⟩ ∧
          ∃ encoding, answer.compressor = encoding.asProtoValue env ∧ Decodes env encoding answer.data d) q.digests answers
  | .read q, response => ∀ digest d target, outputs digest d → readTarget q = .ok target →
      target.key = CasService.casKey instanceName .sha256 digest.hash →
      target.parsed.expectedSize = digest.sizeBytes → q.readOffset = 0 → q.readLimit = 0 →
      ∃ responses, response = .read (.ok responses) ∧ Decodes env target.responseEncoding (streamed responses) d
  | _, _ => True

section Lookups
open Abstract
variable {contents : Locator → Option Bytes} {absent : Locator → Prop} {outputs : Digest → Bytes → Prop}
  {instanceName : String}

/-- What is there and was there when the lookup started is found. -/
theorem found_of_seen {address : Locator} {found : Option Bytes} {d : Bytes} (h : Seen contents absent address found)
    (hd : contents address = some d) (hpresent : ¬ absent address) : found = some d := by
  rcases h with hfound | ⟨_,habsent⟩
  · rw [hfound, hd]
  · exact absurd habsent hpresent

theorem blobReadResponse_found (hz : env.ZstdRoundTrip) (hc : env.CompressionTotal) (acceptable : List StorageEncoding)
    (digest : Digest) (d : Bytes) : (Abstract.blobReadResponse env acceptable digest (some d)).digest = some digest ∧
      (Abstract.blobReadResponse env acceptable digest (some d)).status = some ⟨0,"",[]⟩ ∧ ∃ encoding,
        (Abstract.blobReadResponse env acceptable digest (some d)).compressor = encoding.asProtoValue env ∧
        Decodes env encoding (Abstract.blobReadResponse env acceptable digest (some d)).data d := by
  obtain ⟨c,hcompress⟩ := hc d
  by_cases hzstd : StorageEncoding.zstd ∈ acceptable
  · simp only [Abstract.blobReadResponse, hzstd, if_true, compressZstd, hcompress, mapError_ok]
    exact ⟨trivial,trivial,.zstd,rfl,hz d c hcompress⟩
  · simp only [Abstract.blobReadResponse, hzstd, if_false]
    exact ⟨trivial,trivial,.identity,rfl,rfl⟩

/-- The map has all the blobs, and had them when the lookup started. -/
def Provides (contents : Locator → Option Bytes) (absent : Locator → Prop) (outputs : Digest → Bytes → Prop)
    (instanceName : String) : Prop :=
  ∀ digest d, outputs digest d → contents ⟨instanceName,.sha256,digest.hash⟩ = some d ∧
    ¬ absent ⟨instanceName,.sha256,digest.hash⟩ ∧ d.length ≤ MAX_DECOMPRESSED_BLOB_SIZE ∧
    digest.sizeBytes.toInt = d.length

section Provided
variable (h : Provides contents absent outputs instanceName) {response : Response}
include h

theorem Provides.found {digest : Digest} {d : Bytes} {found : Option Bytes} (hd : outputs digest d)
    (hseen : Seen contents absent ⟨instanceName,.sha256,digest.hash⟩ found) : found = some d := by
  obtain ⟨hcontents,hpresent,_⟩ := h digest d hd
  exact found_of_seen hseen hcontents hpresent

theorem fetches_findMissingBlobs {q : FindMissingBlobsRequest}
    (hfrom : AnsweredFrom env contents absent (.findMissingBlobs q) response) :
    Fetches env outputs instanceName (.findMissingBlobs q) response := by
  rintro rfl hf
  obtain ⟨out,rfl,⟨s,herror,_⟩ | ⟨algorithm,answers,_,hout,hitems⟩⟩ := hfrom
  · rw [resolveProtoValue_eq_ok hf] at herror
    cases herror
  cases algorithm
  cases out with
  | error s => cases hout
  | ok out =>
    obtain ⟨missing⟩ := out
    obtain rfl : missing = answers.flatten := Except.ok.inj hout
    refine ⟨_,rfl,?_⟩
    intro digest d hd hmissing
    obtain ⟨answer,hanswer,hlisted⟩ := List.mem_flatten.mp hmissing
    obtain ⟨asked,_,found,hseen,rfl⟩ := mem_of_related hitems hanswer
    change digest ∈ if found.isSome then [] else [asked] at hlisted
    by_cases hsome : found.isSome
    · rw [if_pos hsome] at hlisted
      cases hlisted
    · rw [if_neg hsome] at hlisted
      obtain rfl := List.mem_singleton.mp hlisted
      rw [h.found hd hseen] at hsome
      exact hsome rfl

theorem fetches_batchReadBlobs (hz : env.ZstdRoundTrip) (hc : env.CompressionTotal) {q : BatchReadBlobsRequest}
    (hfrom : AnsweredFrom env contents absent (.batchReadBlobs q) response) :
    Fetches env outputs instanceName (.batchReadBlobs q) response := by
  rintro rfl hf
  obtain ⟨out,rfl,⟨s,herror,_⟩ | ⟨algorithm,answers,_,hout,hitems⟩⟩ := hfrom
  · rw [resolveProtoValue_eq_ok hf] at herror
    cases herror
  cases algorithm
  cases out with
  | error s => cases hout
  | ok out =>
    obtain ⟨responses⟩ := out
    obtain rfl : responses = answers.flatten := Except.ok.inj hout
    refine ⟨_,rfl,forall₂_flatten (hitems.imp ?_)⟩
    rintro digest _ ⟨found,hseen,rfl⟩
    refine ⟨_,?_,rfl⟩
    intro d hd
    rw [h.found hd hseen]
    exact blobReadResponse_found hz hc _ digest d

theorem fetches_read (hz : env.ZstdRoundTrip) (hc : env.CompressionTotal) {q : ReadRequest}
    (hfrom : AnsweredFrom env contents absent (.read q) response) :
    Fetches env outputs instanceName (.read q) response := by
  rintro digest d target hd htarget hkey hsize hoffset hlimit
  obtain ⟨out,rfl,⟨s,herror,_⟩ | ⟨target',found,htarget',hseen,rfl⟩⟩ := hfrom
  · rw [htarget] at herror
    cases herror
  obtain rfl := Except.ok.inj (htarget.symm.trans htarget')
  obtain ⟨_,_,hbound,hlength⟩ := h digest d hd
  rw [hkey] at hseen
  rw [h.found hd hseen]
  have hcontent : namedContent target.parsed (some d) = .ok d :=
    namedContent_eq_ok.mpr ⟨rfl,by rw [hsize]; exact hlength⟩
  obtain ⟨name,offset,limit⟩ := q
  obtain rfl : offset = 0 := hoffset
  obtain rfl : limit = 0 := hlimit
  obtain ⟨c,hwindow,hdecodes⟩ := readWindow_whole hc hz name target.responseEncoding hbound
  rw [readWindow_eq _ _ hbound] at hwindow
  refine ⟨(chunks READ_CHUNK_SIZE c).map ReadResponse.mk,?_,by rwa [streamed_chunks]⟩
  simp only [Abstract.answerRead, hcontent, ok_bind, hwindow]

/-- Lookups deliver what the map provides. -/
theorem fetches_of_answeredFrom (hz : env.ZstdRoundTrip) (hc : env.CompressionTotal) {req : Request}
    (hfrom : AnsweredFrom env contents absent req response) : Fetches env outputs instanceName req response := by
  cases req with
  | findMissingBlobs q => exact fetches_findMissingBlobs h hfrom
  | batchReadBlobs q => exact fetches_batchReadBlobs h hz hc hfrom
  | read q => exact fetches_read h hz hc hfrom
  | batchUpdateBlobs q => trivial
  | getTree => trivial
  | splitBlob => trivial
  | spliceBlob => trivial
  | write s => trivial
  | queryWriteStatus => trivial
  | getActionResult q => trivial
  | updateActionResult q => trivial

end Provided
end Lookups

open Abstract in
/-- After a hit every lookup of what the result names delivers the blobs of the client that
built them, whatever is started and stored meanwhile. -/
theorem build_shared (hz : env.ZstdRoundTrip) (hc : env.CompressionTotal) (he : env.HashesEmpty)
    {before after : List (Interaction.Action Request)} {i : ℕ} {g : GetActionResultRequest} {r : ActionResult}
    {own : Set Bytes} {req : Request} (hp : env.ProstRoundTrip (submitted (startedBy (before ++ .start req :: after))))
    (hown : Set.InjOn (DigestAlgorithm.sha256.hashBytes env)
      (casContents env (serverAfter env (serverFrom env before) req after).world.log ∪ own))
    (hhit : (serverFrom env before).Returned i (.getActionResult g) (.actionResult (.ok r))) :
    Answers env (serverFrom env before) req after
      (fun response _ => Fetches env (Output env own r) g.instanceName req response) := by
  have hcollision : CollisionFree env (serverAfter env (serverFrom env before) req after).world.log :=
    hown.mono Set.subset_union_left
  have hL := serverAfter_lawful hz he hcollision
  have hl : (serverFrom env before).world.log <+: (serverAfter env (serverFrom env before) req after).world.log :=
    log_serverAfter _ _ after
  have hclosed := closed_of_hit hz he (hcollision.mono (casContents_mono hl)) hhit
  rw [serverFrom_state] at hclosed
  apply answers_of_returned
  intro t response ht hrequest hstart hdone
  rw [serverAfter_serverFrom] at ht hcollision hL hl hown
  have hfrom := answeredFrom_run hz hc he hp hcollision ht hdone
  rw [hrequest, hstart] at hfrom
  apply fetches_of_answeredFrom ?_ hz hc hfrom
  intro digest d hd
  have hheld := hd.held hL hl hown hclosed
  have hlater : (serverFrom env (before ++ .start req :: after)).world.state.Held env
      (Locator.contentKey ⟨g.instanceName,.sha256,digest.hash⟩) d := by
    rw [serverFrom_state]
    exact hL.held_later hl (List.prefix_refl _) rfl hheld
  have hrepresents := (server_inStep hz hc he hp represents_new).state
  have hcontents := hrepresents.content_of_held hz hlater
  obtain ⟨_,_,hstands⟩ := hrepresents.entry hcontents
  exact ⟨hcontents,not_not.mpr hheld.present,hstands.bounded,hd.owns.size⟩

open Reference in
/-- The tree is downloaded, compressed, by the client that has looked up the result. -/
theorem build_shared_reading : Answers externals (serverFrom externals readingRun)
    (.read ⟨"main/compressed-blobs/zstd/" ++ treeHash ++ "/77",0,0⟩) [.advance 4] (fun response _ =>
      ∃ responses, response = .read (.ok responses) ∧ Decodes externals .zstd (streamed responses) treeBlob) := by
  have hhit : (serverFrom externals readingRun).Returned 2 (.getActionResult getRequest)
      (.actionResult (.ok result)) := returned_of_answer rfl (by decide +kernel)
  have hknown : casContents externals (serverAfter externals (serverFrom externals readingRun)
      (.read ⟨"main/compressed-blobs/zstd/" ++ treeHash ++ "/77",0,0⟩) [.advance 4]).world.log ⊆ {d | d ∈ blobs} :=
    casContents_known (by decide +kernel)
  have hanswers := build_shared zstdRoundTrip compressionTotal hashBytes_empty (prostRoundTrip _)
    (hash_injOn.mono (Set.union_subset hknown (Set.Subset.refl _))) hhit
  have hmem : treeBlob ∈ blobs := by decide
  have houtput : Output externals {d | d ∈ blobs} result treeDigest treeBlob :=
    .tree _ List.mem_cons_self rfl ⟨hmem,hashBytes_tree,by decide⟩
  apply hanswers.imp
  intro response _ hfetches
  exact hfetches treeDigest treeBlob _ houtput rfl rfl (by decide) rfl rfl

end ReapiCache
