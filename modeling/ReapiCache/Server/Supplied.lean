import ReapiCache.Server.Footprint
import ReapiCache.Server.Noninterference

/-! # Who supplies what is put

A put of a content is made by a request that brings the content: as an item of a batch, in
a stream, or, when it is empty, by validating a result that lists the empty blob. Trees
are read at different moments of the validation, so what a result lists is a matter of
the log so far.
-/
namespace ReapiCache
open Interaction ActionCacheService
variable {env : Externals}

/-- The result lists the digest, as the store was at some moment of the log. -/
def Lists (env : Externals) (log : List (StoreEntry Request)) (instanceName : String) (r : ActionResult)
    (digest : Digest) : Prop :=
  ∃ l, l <+: log ∧ digest ∈ listedDigests env (stored l) instanceName .sha256 r

theorem Lists.later {log log' : List (StoreEntry Request)} {instanceName : String} {r : ActionResult} {digest : Digest}
    (h : Lists env log instanceName r digest) (hl : log <+: log') : Lists env log' instanceName r digest := by
  obtain ⟨l,hle,hd⟩ := h
  exact ⟨l,hle.trans hl,hd⟩

/-- In the course of the log the request has come to validate the result: a get has read it
under its key, an update submits it and has found its action and command. -/
inductive Validates (env : Externals) (log : List (StoreEntry Request)) (me : ℕ) : Request → ActionResult → Prop
  | cached (q : GetActionResultRequest) (r : ActionResult) (digest : Digest) (l : List (StoreEntry Request))
      (supported : DigestAlgorithm.resolveProtoValue env q.digestFunction = .ok .sha256)
      (named : q.actionDigest = some digest) (found : CachedResult env (stored l) q r)
      (read : l ++ [⟨me,.getActionResult q,.get (actionKey q.instanceName .sha256 digest)⟩] <+: log) :
      Validates env log me (.getActionResult q) r
  | submitted (q : UpdateActionResultRequest) (r : ActionResult) (digest command : Digest)
      (l : List (StoreEntry Request))
      (supported : DigestAlgorithm.resolveProtoValue env q.digestFunction = .ok .sha256)
      (named : q.actionDigest = some digest) (submits : q.actionResult = some r)
      (action : decodeCommandDigest env (((stored l).blobs (casKey q.instanceName .sha256 digest)).map
        (fun b => ⟨b.metadata,⟨b.data⟩⟩)) = .ok command)
      (read : l ++ [⟨me,.updateActionResult q,.get (casKey q.instanceName .sha256 digest)⟩] <+: log)
      (present : (stored log).Present (casKey q.instanceName .sha256 command)) :
      Validates env log me (.updateActionResult q) r

theorem Validates.later {log log' : List (StoreEntry Request)} {me : ℕ} {req : Request} {r : ActionResult}
    (h : Validates env log me req r) (hl : log <+: log') : Validates env log' me req r := by
  cases h with
  | cached q _ digest l supported named found read => exact .cached q r digest l supported named found (read.trans hl)
  | submitted q _ digest command l supported named submits action read present =>
    exact .submitted q r digest command l supported named submits action (read.trans hl) (present.later hl)

/-- After the log the request brings the content for the key: as an item of a batch, in a
stream, or, when it is empty, by validating a result that lists the empty blob. -/
inductive Brings (env : Externals) (log : List (StoreEntry Request)) (me : ℕ) : Request → BlobKey → Bytes → Prop
  | item (q : BatchUpdateBlobsRequest) (item : BlobRequest) (digest : Digest) (encoding : StorageEncoding)
      (d : Bytes) (sent : item ∈ q.requests) (named : item.digest = some digest)
      (encoded : StorageEncoding.fromProtoValue env item.compressor = some encoding)
      (decodes : Decodes env encoding item.data.toList d) (size : digest.sizeBytes.toInt = d.length) :
      Brings env log me (.batchUpdateBlobs q) (CasService.casKey q.instanceName .sha256 digest.hash) d
  | stream (s : WriteStream) (parsed : ParsedReadResource) (encoding : StorageEncoding) (d : Bytes)
      (target : s.target = some parsed) (encoded : parsed.compression.storageEncoding = .ok encoding)
      (decodes : Decodes env encoding s.payload d) (size : parsed.expectedSize.toInt = d.length) :
      Brings env log me (.write s) (CasService.casKey parsed.instanceName .sha256 parsed.hash) d
  | empty (req : Request) (instanceName : String) (r : ActionResult) (addressed : req.addressee = some instanceName)
      (validates : Validates env log me req r) (listed : Lists env log instanceName r emptyDigest) :
      Brings env log me req (emptyKey instanceName) []

/-- The entry, if it puts a content, puts one that its request brings. -/
def Supplied (env : Externals) (log : List (StoreEntry Request)) (e : StoreEntry Request) : Prop :=
  ∀ key metadata body, e.op = .put key metadata body → key.kind = .contentAddressableStorage →
    ∃ d, Brings env log e.caller e.request key d ∧ Holds env metadata body.cursor d

theorem supplied_of_looks {log : List (StoreEntry Request)} {me : ℕ} {req : Request} {op : StoreCall}
    (h : ∀ key metadata body, op ≠ .put key metadata body) : Supplied env log ⟨me,req,op⟩ :=
  fun key metadata body hput => absurd hput (h key metadata body)

theorem supplied_put {log : List (StoreEntry Request)} {me : ℕ} {req : Request} {key : BlobKey} {blob : BlobRead}
    {d : Bytes} (h : Brings env log me req key d) (hb : Holds env blob.metadata blob.body.cursor d) :
    Supplied env log ⟨me,req,.put key blob.metadata blob.body⟩ := by
  rintro _ _ _ ⟨⟩ _
  exact ⟨d,h,hb⟩

/-- Every content put so far was brought by its request, and so is every other. -/
def supplying (env : Externals) (L : List (StoreEntry Request)) : Protocol InMemoryStore.handle Request where
  history := L
  inv w := (w.log <+: L ∧ w.state = stored w.log) ∧ ∀ l e, l ++ [e] <+: w.log → Supplied env l e
  guar e w := Supplied env w.log e
  keeps := by
    rintro w e ⟨⟨_,hs⟩,hsupplied⟩ hg hl
    refine ⟨⟨hl,by rw [World.record_state, World.record_log, stored, replay_concat, hs]⟩,?_⟩
    intro l e' hle
    rcases List.prefix_concat_iff.mp hle with hlast | hearlier
    · obtain ⟨rfl,hentry⟩ := List.append_inj' hlast rfl
      obtain rfl := List.singleton_inj.mp hentry
      exact hg
    · exact hsupplied l e' hearlier

section Requests
variable {L : List (StoreEntry Request)} {me : ℕ} {req : Request} {w : ServerWorld}

theorem supplying_replaying : Replaying (supplying env L) where
  history := fun _ hw => hw.1.1
  state := fun _ hw => hw.1.2
  looks := fun _ _ _ _ _ hop => supplied_of_looks hop

/-- What the calls bring after any log they bring here. -/
theorem supplying_of_uses {α : Type} {p : StoreM α} (h : p.Uses (fun op => ∀ log, Supplied env log ⟨me,req,op⟩)) :
    (supplying env L).Meets me req p w (fun _ _ => True) :=
  Protocol.meets_of_uses (h.mono (fun _ hop w _ => hop w.log)) w

section Uploads
variable (hz : env.ZstdRoundTrip)
include hz

theorem batchUpdateBlobs_supplied (q : BatchUpdateBlobsRequest) :
    Failing.Uses (fun op => ∀ log, Supplied env log ⟨me,.batchUpdateBlobs q,op⟩) (CasService.batchUpdateBlobs env q) := by
  apply (Failing.uses_ofExcept _).bind
  intro algorithm
  cases algorithm
  apply Failing.Uses.bind ?_ (fun _ => Failing.uses_pure _)
  apply Failing.uses_foldlM
  intro responses item hitem
  unfold CasService.batchUpdateBlob
  cases hdigest : item.digest with
  | none => exact Failing.uses_pure _
  | some digest =>
    cases hencoding : StorageEncoding.fromProtoValue env item.compressor with
    | none => exact Failing.uses_pure _
    | some encoding =>
      apply Failing.Uses.bind ?_ (fun _ => Failing.uses_pure _)
      apply Failing.uses_outcome
      apply Failing.uses_ofExcept_bind
      intro blob hblob
      obtain ⟨d,hd⟩ := CasService.verifyBlob_eq_ok.mp hblob
      exact Failing.uses_attempt _ (fun _ => supplied_put (.item q item digest encoding d hitem hdigest hencoding
        hd.decodes hd.size) (fromIdentityData_holds hz hd.stored).1)

open ByteStreamService in
theorem write_supplied (s : WriteStream) :
    Failing.Uses (fun op => ∀ log, Supplied env log ⟨me,.write s,op⟩) (ByteStreamService.write env s) := by
  apply Failing.uses_ofExcept_bind
  intro state hstate
  apply Failing.uses_ofExcept_bind
  intro commit hcommit
  obtain ⟨hpayload,name,parsed,hres,htarget⟩ := receive_start hstate
  rcases state with ⟨accumulator,resource⟩
  obtain rfl : resource = some (name,parsed) := hres
  obtain rfl : accumulator = s.payload := hpayload
  obtain ⟨hkey,_,_,encoding,d,hencoding,hd⟩ := verifyUpload_eq_ok.mp hcommit
  apply Failing.Uses.bind ?_ (fun _ => Failing.uses_pure _)
  apply Failing.uses_attempt
  intro log
  rw [resolveBlobKey_eq_ok hkey]
  exact supplied_put (.stream s parsed encoding d htarget hencoding hd.decodes hd.size)
    (fromIdentityData_holds hz hd.stored).1

end Uploads

section Validation
variable {instanceName : String} {code : Code} {r : ActionResult}

theorem lists_stable (digests : List Digest) :
    (supplying env L).Stable (fun w => ∀ d ∈ digests, Lists env w.log instanceName r d) :=
  fun _ _ _ _ hl h d hd => (h d hd).later hl

/-- What is collected from a directory is listed there and then. -/
theorem ensures_collectOutputDirectory_lists {dir : OutputDirectory} (hdir : dir ∈ r.outputDirectories)
    {digests : List Digest} (hdigests : ∀ d ∈ digests, Lists env w.log instanceName r d) :
    (supplying env L).Ensures me req (collectOutputDirectory env instanceName .sha256 code digests dir) w
      (fun out w' => ∀ d ∈ out, Lists env w'.log instanceName r d) (fun _ => True) := by
  apply Protocol.ensures_ofExcept_bind (fun _ _ => trivial)
  intro treeDigest htreeDigest
  apply (ensures_storeGet supplying_replaying).bind
  rintro blob w' hw' hl ⟨wr,hwr,_,hread,rfl⟩
  apply Protocol.ensures_ofExcept_bind (fun _ _ => trivial)
  intro tree htree
  apply Protocol.ensures_ofExcept hw' (fun out => lists_stable out) (fun _ _ => trivial)
  intro out hout
  rw [collectTreeFileDigests_append] at hout
  cases hds : collectTreeFileDigests tree [] code with
  | error s =>
    rw [hds] at hout
    cases hout
  | ok ds =>
    rw [hds] at hout
    obtain rfl := Except.ok.inj hout
    have hcollected : collectDirectory env wr.state instanceName .sha256 code dir = .ok ds := by
      rw [collectDirectory, htreeDigest, ok_bind, htree, ok_bind, hds]
    obtain ⟨_,rfl⟩ := collectDirectory_eq_ok.mp hcollected
    intro d hd
    rcases List.mem_append.mp hd with hd | hd
    · exact (hdigests d hd).later hl
    · refine ⟨wr.log,(List.prefix_append _ _).trans hread,?_⟩
      rw [← hwr.1.2]
      exact List.mem_append_right _ (List.mem_flatMap.mpr ⟨dir,hdir,hd⟩)

/-- Whoever validates a result puts the empty blob only when the result lists it. -/
theorem ensures_validate_supplied (hw : (supplying env L).inv w) (haddressed : req.addressee = some instanceName)
    (hvalidates : Validates env w.log me req r) :
    (supplying env L).Ensures me req (validateActionResultArtifacts env instanceName .sha256 r code) w
      (fun _ _ => True) (fun _ => True) := by
  apply Protocol.ensures_ofExcept_bind (fun _ _ => trivial)
  intro fileDigests hfiles
  have hfileDigests : r.outputFiles.filterMap OutputFile.digest = fileDigests :=
    filterMap_of_related ((mapM_eq_ok hfiles).imp (fun _ _ h => okOr_eq_ok.mp h))
  have hown : ∀ d ∈ fileDigests ++ r.stdoutDigest.toList ++ r.stderrDigest.toList, Lists env w.log instanceName r d := by
    intro d hd
    refine ⟨w.log,List.prefix_refl _,List.mem_append_left _ ?_⟩
    rwa [hfileDigests]
  apply Protocol.Ensures.bind (Protocol.ensures_foldlM (fun _ acc w' => ∀ d ∈ acc, Lists env w'.log instanceName r d)
    (fun _ acc => lists_stable acc) r.outputDirectories ?_ [] _ w hw hown)
  · intro digests w₁ hw₁ hl₁ hlisted
    apply Protocol.Ensures.imp (Protocol.ensures_foldlM (fun _ _ w' => w₁.log <+: w'.log)
      (fun _ _ _ _ _ _ hl h => h.trans hl) digests ?_ [] () w₁ hw₁ (List.prefix_refl _))
    · exact fun _ _ _ _ _ => trivial
    intro _ digest _ w₂ hdigest hw₂ hl₂
    unfold checkArtifact
    by_cases hempty : digest.sizeBytes = 0 ∧ digest.hash = EMPTY_SHA256
    · rw [if_pos hempty]
      obtain rfl := (isEmpty_iff digest).mp hempty
      apply Protocol.Ensures.imp (ensures_storePut supplying_replaying ?_)
      · exact fun _ _ _ hl _ => hl₂.trans hl
      · intro w₃ _ hl₃
        have hbrings : Brings env w₃.log me req (emptyKey instanceName) [] :=
          .empty req instanceName r haddressed (hvalidates.later (hl₁.trans (hl₂.trans hl₃)))
            ((hlisted _ hdigest).later (hl₂.trans hl₃))
        have hholds : Holds env (BlobRead.identity []).metadata [] [] := holds_identity (Nat.zero_le _)
        exact supplied_put hbrings hholds
    · rw [if_neg hempty]
      apply (ensures_storeContains supplying_replaying hw₂).bind
      intro present w₃ hw₃ hl₃ _
      cases present with
      | false => exact Protocol.ensures_throw trivial
      | true => exact Protocol.ensures_pure hw₃ (fun _ _ _ _ hl h => h.trans hl) (hl₂.trans hl₃)
  · intro _ dir acc w' hdir _ hacc
    exact ensures_collectOutputDirectory_lists hdir hacc

end Validation

theorem ensures_getActionResult_supplied (q : GetActionResultRequest) :
    (supplying env L).Ensures me (.getActionResult q) (getActionResult env q) w (fun _ _ => True) (fun _ => True) := by
  apply Protocol.ensures_ofExcept_bind (fun _ _ => trivial)
  intro digest hdigest
  apply Protocol.ensures_ofExcept_bind (fun _ _ => trivial)
  intro algorithm halgorithm
  cases algorithm
  rw [okOr_eq_ok] at hdigest
  rw [mapError_eq_ok] at halgorithm
  apply (ensures_storeGet supplying_replaying).bind
  rintro blob w₁ hw₁ _ ⟨wr,hwr,_,hread,rfl⟩
  apply Protocol.ensures_ofExcept_bind (fun _ _ => trivial)
  intro r hr
  rw [hwr.1.2] at hr
  have hvalidates : Validates env w₁.log me (.getActionResult q) r :=
    .cached q r digest wr.log halgorithm hdigest ⟨digest,hdigest,hr⟩ hread
  apply (ensures_validate_supplied hw₁ rfl hvalidates).bind
  intro _ w₂ hw₂ _ _
  exact Protocol.ensures_pure hw₂ (fun _ _ _ _ _ _ => trivial) trivial

theorem ensures_updateActionResult_supplied (q : UpdateActionResultRequest) :
    (supplying env L).Ensures me (.updateActionResult q) (updateActionResult env q) w (fun _ _ => True)
      (fun _ => True) := by
  apply Protocol.ensures_ofExcept_bind (fun _ _ => trivial)
  intro digest hdigest
  apply Protocol.ensures_ofExcept_bind (fun _ _ => trivial)
  intro r hr
  apply Protocol.ensures_ofExcept_bind (fun _ _ => trivial)
  intro algorithm halgorithm
  cases algorithm
  rw [okOr_eq_ok] at hdigest hr
  rw [mapError_eq_ok] at halgorithm
  apply (ensures_storeGet supplying_replaying).bind
  rintro blob w₁ hw₁ _ ⟨wr,hwr,_,hread,rfl⟩
  apply Protocol.ensures_ofExcept_bind (fun _ _ => trivial)
  intro command hcommand
  rw [hwr.1.2] at hcommand
  apply (ensures_storeContains supplying_replaying hw₁).bind
  intro present w₂ hw₂ hl₂ hpresent
  cases present with
  | false => exact Protocol.ensures_throw trivial
  | true =>
    have hcommandPresent := hpresent.1 rfl
    rw [hw₂.1.2] at hcommandPresent
    have hvalidates : Validates env w₂.log me (.updateActionResult q) r :=
      .submitted q r digest command wr.log halgorithm hdigest hr hcommand (hread.trans hl₂) hcommandPresent
    apply (ensures_validate_supplied hw₂ rfl hvalidates).bind
    intro _ w₃ _ _ _
    apply Protocol.ensures_ofExcept_bind (fun _ _ => trivial)
    intro blob _
    apply (ensures_storePut supplying_replaying ?_).bind
    · intro _ w₄ hw₄ _ _
      exact Protocol.ensures_pure hw₄ (fun _ _ _ _ _ _ => trivial) trivial
    · -- the result goes to the action cache
      rintro _ _ _ _ _ _ ⟨⟩ ⟨⟩

theorem serve_supplied (hz : env.ZstdRoundTrip) (i : ℕ) (r : Request) (w : ServerWorld) :
    (supplying env L).Meets i r (serve env r) w (fun _ _ => True) := by
  by_cases hr : r.Writes = true
  · cases r with
    | batchUpdateBlobs q => exact supplying_of_uses (Program.Uses.map _ (batchUpdateBlobs_supplied hz q))
    | write s => exact supplying_of_uses (Program.Uses.map _ (write_supplied hz s))
    | getActionResult q =>
      apply Protocol.Meets.map
      exact Protocol.Meets.imp (ensures_getActionResult_supplied q) (fun _ _ _ _ _ => trivial)
    | updateActionResult q =>
      apply Protocol.Meets.map
      exact Protocol.Meets.imp (ensures_updateActionResult_supplied q) (fun _ _ _ _ _ => trivial)
    | findMissingBlobs r => cases hr
    | batchReadBlobs r => cases hr
    | read r => cases hr
    | getTree => cases hr
    | splitBlob => cases hr
    | spliceBlob => cases hr
    | queryWriteStatus => cases hr
  · apply supplying_of_uses
    apply (serve_looks hr).mono
    rintro op hop log
    apply supplied_of_looks
    rintro _ _ _ rfl
    exact hop

end Requests

/-- Every content that a run puts is brought by the request that puts it. -/
theorem log_supplied (hz : env.ZstdRoundTrip) (schedule : List (Interaction.Action Request))
    {l : List (StoreEntry Request)} {e : StoreEntry Request}
    (h : l ++ [e] <+: (serverFrom env schedule).world.log) : Supplied env l e := by
  have hstart : (supplying env (serverFrom env schedule).world.log).inv ⟨InMemoryStore.new,[]⟩ := by
    refine ⟨⟨List.nil_prefix,rfl⟩,?_⟩
    intro l e hle
    simp at hle
  have hrun := Config.run_meets hstart (fun i r w _ => serve_supplied hz i r w) schedule (List.prefix_refl _)
  exact hrun.1.2 l e h

end ReapiCache
