import ReapiCache.Server.Accepted

/-! # Missing blobs under concurrency

The handler looks at one digest at a time while others put. Its answer is bounded from
both sides: what it lists was absent at the start, what it omits is present at the
return and stays so.
-/
namespace ReapiCache
open Interaction
variable {env : Externals}

/-- `missing` is what the marks pick from the requested digests: a marked occurrence
was absent at the start, an unmarked one is present now. -/
structure Picked (instanceName : String) (start w : ServerWorld) (marks : List (Digest × Bool))
    (digests missing : List Digest) : Prop where
  requested : marks.map Prod.fst = digests
  listed : missing = (marks.filter Prod.snd).map Prod.fst
  absent : ∀ p ∈ marks, p.2 = true →
    ¬ start.state.Present (CasService.casKey instanceName .sha256 p.1.hash)
  present : ∀ p ∈ marks, p.2 = false →
    w.state.Present (CasService.casKey instanceName .sha256 p.1.hash)

theorem Picked.sublist {instanceName : String} {start w : ServerWorld} {marks : List (Digest × Bool)}
    {digests missing : List Digest} (h : Picked instanceName start w marks digests missing) :
    missing.Sublist digests := by
  rw [h.listed, ← h.requested]
  exact List.filter_sublist.map _

/-- A digest whose key is present at the start is not listed. -/
theorem Picked.not_mem {instanceName : String} {start w : ServerWorld} {marks : List (Digest × Bool)}
    {digests missing : List Digest} (h : Picked instanceName start w marks digests missing) {d : Digest}
    (hp : start.state.Present (CasService.casKey instanceName .sha256 d.hash)) : d ∉ missing := by
  intro hd
  rw [h.listed] at hd
  obtain ⟨p,hm,rfl⟩ := List.mem_map.mp hd
  obtain ⟨hm,hmark⟩ := List.mem_filter.mp hm
  exact h.absent p hm hmark hp

/-- With every key present at the start nothing is listed. -/
theorem Picked.eq_nil {instanceName : String} {start w : ServerWorld} {marks : List (Digest × Bool)}
    {digests missing : List Digest} (h : Picked instanceName start w marks digests missing)
    (hp : ∀ d ∈ digests, start.state.Present (CasService.casKey instanceName .sha256 d.hash)) :
    missing = [] := by
  apply List.eq_nil_iff_forall_not_mem.mpr
  intro d hd
  have hrequested : d ∈ digests := h.sublist.subset hd
  exact h.not_mem (hp d hrequested) hd

section Handler
variable {P : Protocol InMemoryStore.handle Request} (hP : Orderly P) {me : ℕ} {req : Request}
  {w : ServerWorld}
include hP

theorem picked_stable {instanceName : String} {marks : List (Digest × Bool)}
    {digests missing : List Digest} (start : ServerWorld) :
    P.Stable (fun w' => Picked instanceName start w' marks digests missing) := by
  intro a b ha hb hab h
  exact ⟨h.requested,h.listed,h.absent,
    fun p hm hf => hP.present_stable _ a b ha hb hab (h.present p hm hf)⟩

/-- One round: the digest is marked and listed, or neither. -/
theorem ensures_findMissingBlob {instanceName : String} {start : ServerWorld} (hstart : P.inv start)
    {marks : List (Digest × Bool)} {pre missing : List Digest} {digest : Digest} {E : Status → Prop}
    (hw : P.inv w) (hl : start.log <+: w.log) (h : Picked instanceName start w marks pre missing) :
    P.Ensures me req (CasService.findMissingBlob instanceName .sha256 missing digest) w
      (fun out w' => ∃ marks', Picked instanceName start w' marks' (pre ++ [digest]) out) E := by
  unfold CasService.findMissingBlob
  apply (ensures_storeContains hP.toReplaying hw).bind
  intro found w' hw' hl' hfound
  apply Protocol.ensures_pure hw'
  · rintro a b ha hb hab ⟨marks',h'⟩
    exact ⟨marks',picked_stable hP start a b ha hb hab h'⟩
  · have h' := picked_stable hP start w w' hw hw' hl' h
    refine ⟨marks ++ [(digest,!found)],by simp [h'.requested],?_,?_,?_⟩
    · cases found <;> simp [h'.listed]
    · intro p hm hmark
      rcases List.mem_append.mp hm with hm | hm
      · exact h'.absent p hm hmark
      · obtain rfl := List.mem_singleton.mp hm
        intro hp
        exact hfound.2 (by simpa using hmark) (hP.present_stable _ start w hstart hw hl hp)
    · intro p hm hmark
      rcases List.mem_append.mp hm with hm | hm
      · exact h'.present p hm hmark
      · obtain rfl := List.mem_singleton.mp hm
        exact hfound.1 (by simpa using hmark)

theorem ensures_findMissingBlobs {r : FindMissingBlobsRequest} {E : Status → Prop}
    (hf : SupportsFunction env r.digestFunction) (hw : P.inv w) :
    P.Ensures me req (CasService.findMissingBlobs env r) w
      (fun resp w' => ∃ marks, Picked r.instanceName w w' marks r.blobDigests resp.missingBlobDigests)
      E := by
  apply Protocol.ensures_ok_bind (mapError_eq_ok.mpr (resolveProtoValue_eq_ok hf))
  apply Protocol.Ensures.bind (Protocol.ensures_foldlM
    (fun pre missing w' => w.log <+: w'.log ∧ ∃ marks, Picked r.instanceName w w' marks pre missing)
    ?_ r.blobDigests ?_ [] [] w hw ⟨List.prefix_refl _,[],rfl,rfl,by simp,by simp⟩)
  · rintro missing w' hw' _ ⟨_,marks,h⟩
    apply Protocol.ensures_pure hw' ?_ ⟨marks,h⟩
    rintro a b ha hb hab ⟨marks',h'⟩
    exact ⟨marks',picked_stable hP w a b ha hb hab h'⟩
  · rintro pre missing a b ha hb hab ⟨hl,marks',h'⟩
    exact ⟨hl.trans hab,marks',picked_stable hP w a b ha hb hab h'⟩
  · rintro pre digest missing w' _ hw' ⟨hl,marks,h⟩
    apply (ensures_findMissingBlob hP hw hw' hl h).imp
    intro out w'' _ hl' h'
    exact ⟨hl.trans hl',h'⟩

end Handler

/-- Every answer to the request is an `Ok` that is picked between its start and its return. -/
theorem findMissingBlobs_answers (before after : List (Interaction.Action Request))
    {r : FindMissingBlobsRequest} (hf : SupportsFunction env r.digestFunction) :
    Answers env (serverFrom env before) (.findMissingBlobs r) after (fun resp w =>
      ∃ missing marks, resp = .findMissingBlobs (.ok ⟨missing⟩) ∧
        Picked r.instanceName (serverFrom env before).world w marks r.blobDigests missing) := by
  have hanswers : Answers env (serverFrom env before) (.findMissingBlobs r) after _ :=
    answers_of_plain rfl (fun hw => ensures_findMissingBlobs (plain_orderly _) hf hw)
  apply hanswers.imp
  rintro resp w ⟨⟨missing⟩,rfl,marks,hpicked⟩
  exact ⟨missing,marks,rfl,hpicked⟩

theorem serverRun_serverFrom (before after : List (Interaction.Action Request)) :
    serverRun env (serverFrom env before) after = serverFrom env (before ++ after) :=
  (Config.run_append InMemoryStore.handle (serve env) _ before after).symm

/-- No entry ever disappears. -/
theorem present_serverRun {before : List (Interaction.Action Request)} {key : BlobKey}
    (h : (serverFrom env before).world.state.Present key) (after : List (Interaction.Action Request)) :
    (serverRun env (serverFrom env before) after).world.state.Present key := by
  rw [serverRun_serverFrom, serverFrom_state, ← serverRun_serverFrom]
  rw [serverFrom_state] at h
  exact h.later (Config.log_run InMemoryStore.handle (serve env) (serverFrom env before) after)

theorem Accepted.present {schedule : List (Interaction.Action Request)} {instanceName : String}
    {digest : Digest} {payload : Bytes} {encoding : StorageEncoding}
    (h : Accepted env (serverFrom env schedule) instanceName digest payload encoding) :
    (serverFrom env schedule).world.state.Present
      (CasService.casKey instanceName .sha256 digest.hash) := by
  obtain ⟨_,_,_,e,he,hop⟩ := h.uploaded
  rw [serverFrom_state]
  exact present_of_mem he hop

/-- What a client may conclude from an answer `missing` to a request that started in
`c₁` and has returned in `c₂`. -/
structure MissingBounds (env : Externals) (c₁ c₂ : ServerConfig) (r : FindMissingBlobsRequest)
    (missing : List Digest) : Prop where
  sublist : missing.Sublist r.blobDigests
  picked : ∃ marks, ∀ later, Picked r.instanceName c₁.world (serverRun env c₂ later).world marks
    r.blobDigests missing
  complete : ∀ meanwhile,
    (∀ d ∈ missing, ∃ payload encoding,
      Accepted env (serverRun env c₂ meanwhile) r.instanceName d payload encoding) →
    ∀ r' : FindMissingBlobsRequest, r'.instanceName = r.instanceName →
      r'.blobDigests = r.blobDigests → SupportsFunction env r'.digestFunction →
      ∀ after, Answers env (serverRun env c₂ meanwhile) (.findMissingBlobs r') after
        (fun resp _ => resp = .findMissingBlobs (.ok ⟨[]⟩))

theorem findMissingBlobs_sound {before after : List (Interaction.Action Request)}
    {r : FindMissingBlobsRequest} {resp : Response} (hf : SupportsFunction env r.digestFunction)
    (h : (serverAfter env (serverFrom env before) (.findMissingBlobs r) after).Returned
      (serverFrom env before).threads.length (.findMissingBlobs r) resp) :
    ∃ missing, resp = .findMissingBlobs (.ok ⟨missing⟩) ∧
      MissingBounds env (serverFrom env before)
        (serverAfter env (serverFrom env before) (.findMissingBlobs r) after) r missing := by
  obtain ⟨missing,marks,hresp,hpicked⟩ := (findMissingBlobs_answers before after hf).1 resp h
  have hlater : ∀ later, Picked r.instanceName (serverFrom env before).world (serverRun env
      (serverAfter env (serverFrom env before) (.findMissingBlobs r) after) later).world marks
      r.blobDigests missing := by
    intro later
    refine ⟨hpicked.requested,hpicked.listed,hpicked.absent,fun p hm hf => ?_⟩
    have hp := hpicked.present p hm hf
    rw [serverAfter_serverFrom] at hp ⊢
    exact present_serverRun hp later
  refine ⟨missing,hresp,hpicked.sublist,⟨marks,hlater⟩,?_⟩
  intro meanwhile huploads r' hinst hdigests hf' after'
  -- every requested key is present when the second request starts
  have hall : ∀ d ∈ r.blobDigests, (serverRun env (serverAfter env (serverFrom env before)
      (.findMissingBlobs r) after) meanwhile).world.state.Present
        (CasService.casKey r.instanceName .sha256 d.hash) := by
    intro d hd
    rw [← hpicked.requested] at hd
    obtain ⟨p,hm,rfl⟩ := List.mem_map.mp hd
    cases hmark : p.2 with
    | false => exact (hlater meanwhile).present p hm hmark
    | true =>
      have hmem : p.1 ∈ missing := by
        rw [hpicked.listed]
        exact List.mem_map_of_mem (List.mem_filter.mpr ⟨hm,hmark⟩)
      obtain ⟨payload,encoding,hacc⟩ := huploads p.1 hmem
      rw [serverAfter_serverFrom, serverRun_serverFrom] at hacc ⊢
      exact hacc.present
  rw [serverAfter_serverFrom, serverRun_serverFrom] at hall ⊢
  obtain ⟨hret,hend⟩ :=
    findMissingBlobs_answers (before ++ .start (.findMissingBlobs r) :: after ++ meanwhile) after' hf'
  refine ⟨fun resp' hresp' => ?_,hend⟩
  obtain ⟨missing',marks',rfl,hpicked'⟩ := hret resp' hresp'
  rw [hinst, hdigests] at hpicked'
  rw [hpicked'.eq_nil hall]

theorem findMissingBlobs_sound_partial_upload :
    MissingBounds Reference.externals
      (serverFrom Reference.externals [.start Reference.upload,.advance 0])
      (serverAfter Reference.externals
        (serverFrom Reference.externals [.start Reference.upload,.advance 0])
        (.findMissingBlobs ⟨"main",[Reference.treeDigest,Reference.commandDigest],1⟩)
        [.advance 1,.advance 0,.advance 0,.advance 1])
      ⟨"main",[Reference.treeDigest,Reference.commandDigest],1⟩ [Reference.treeDigest] := by
  obtain ⟨missing,hresp,h⟩ := findMissingBlobs_sound (Or.inr rfl)
    (⟨_,rfl,rfl,rfl⟩ : (serverAfter Reference.externals
        (serverFrom Reference.externals [.start Reference.upload,.advance 0])
        (.findMissingBlobs ⟨"main",[Reference.treeDigest,Reference.commandDigest],1⟩)
        [.advance 1,.advance 0,.advance 0,.advance 1]).Returned 1 _
          (.findMissingBlobs (.ok ⟨[Reference.treeDigest]⟩)))
  cases hresp
  exact h

end ReapiCache
