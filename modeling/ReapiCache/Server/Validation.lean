import ReapiCache.Server.Artifacts

/-! # Validation under interference

The trees are read one after the other and the digests looked up one after the other,
with calls of others in between. What has been seen of a tree stays true, so at the
return the whole result is closed. Every failure exhibits a defect of the result that
was there when the validation started.
-/
namespace ReapiCache
open Interaction ActionCacheService
variable {env : Externals} {P : Protocol InMemoryStore.handle Request} (hP : Orderly P)
  (hL : Lawful env P.history) {me : ℕ} {req : Request} {w : ServerWorld}
  {instanceName : String} {algorithm : DigestAlgorithm} {code : Code}
include hP hL

theorem Orderly.grows {w w' : ServerWorld} (hw : P.inv w) (hw' : P.inv w') (hl : w.log <+: w'.log) :
    Grows env w.state w'.state := by
  rw [hP.state w hw, hP.state w' hw']
  exact hL.grows hl (hP.history w' hw')

theorem closed_stable (r : ActionResult) :
    P.Stable (fun w => ArtifactsClosed env w.state instanceName algorithm r) :=
  fun _ _ hw hw' hl h => h.grows (hP.grows hL hw hw' hl)

/-- What the collection has seen of one output directory. -/
def DirectorySeen (env : Externals) (instanceName : String) (algorithm : DigestAlgorithm)
    (w : ServerWorld) (dir : OutputDirectory) (ds : List Digest) : Prop :=
  ∃ d tree, dir.treeDigest = some d ∧ TreeHeld env w.state instanceName algorithm d tree ∧
    (∃ root, tree.root = some root) ∧ List.Forall₂ (fun f d => f.digest = some d) tree.fileNodes ds

theorem DirectorySeen.later {w w' : ServerWorld} (hw : P.inv w) (hw' : P.inv w')
    (hl : w.log <+: w'.log) {dir : OutputDirectory} {ds : List Digest}
    (h : DirectorySeen env instanceName algorithm w dir ds) :
    DirectorySeen env instanceName algorithm w' dir ds := by
  obtain ⟨d,tree,hd,ht,hroot,hfiles⟩ := h
  exact ⟨d,tree,hd,(hP.grows hL hw hw' hl).treeHeld ht,hroot,hfiles⟩

/-- The reply to a tree lookup decodes to the tree that is held there. -/
theorem decodeOutputTree_ok {wr : ServerWorld} (hr : P.inv wr) {digest : Digest} {tree : Tree}
    (h : decodeOutputTree env code ((wr.state.blobs (casKey instanceName algorithm digest)).map
      (fun b => ⟨b.metadata,⟨b.data⟩⟩)) = .ok tree) :
    TreeHeld env wr.state instanceName algorithm digest tree := by
  obtain ⟨blob,hblob,h⟩ := bind_eq_ok.mp h
  obtain ⟨bytes,hbytes,h⟩ := bind_eq_ok.mp h
  rw [okOr_eq_ok] at hblob
  rw [mapError_eq_ok] at hbytes h
  obtain ⟨b,hb,rfl⟩ := Option.map_eq_some_iff.mp hblob
  obtain ⟨d,hd,_⟩ := hP.holds_of_entry hL rfl hr hb
  obtain rfl := Except.ok.inj (hd.intoIdentityData.symm.trans hbytes)
  exact ⟨d,⟨b,hb,hd⟩,h⟩

omit hP hL in
/-- A held tree is decoded from the reply to its lookup. -/
theorem decodeOutputTree_of_held {wr : ServerWorld} {digest : Digest} {tree : Tree}
    (h : TreeHeld env wr.state instanceName algorithm digest tree) :
    decodeOutputTree env code ((wr.state.blobs (casKey instanceName algorithm digest)).map
      (fun b => ⟨b.metadata,⟨b.data⟩⟩)) = .ok tree := by
  obtain ⟨bytes,⟨b,hb,hd⟩,ht⟩ := h
  simp only [decodeOutputTree, hb, Option.map_some, okOr_some, ok_bind, hd.intoIdentityData, mapError_ok, ht]

variable {E : Status → Prop}

theorem ensures_collectOutputDirectory {r : ActionResult} {dir : OutputDirectory}
    (hdir : dir ∈ r.outputDirectories) (hw : P.inv w)
    (hE : ¬ ArtifactsReady env w.state instanceName algorithm r → ∀ e, E e) (digests : List Digest) :
    P.Ensures me req (collectOutputDirectory env instanceName algorithm code digests dir) w
      (fun out w' => ∃ ds, out = digests ++ ds ∧ DirectorySeen env instanceName algorithm w' dir ds) E := by
  apply Protocol.ensures_ofExcept_bind
  · intro e he
    apply hE
    intro hc
    obtain ⟨d,_,hd,_⟩ := hc.trees dir hdir
    rw [hd] at he
    cases he
  intro treeDigest htd
  rw [okOr_eq_ok] at htd
  apply (ensures_storeGet hP.toReplaying).bind
  rintro blob w' hw' _ ⟨wr,hr,hl,hread,rfl⟩
  have hl' := (List.prefix_append _ _).trans hread
  -- a ready result has this tree, and the lookup finds it
  have hready : ArtifactsReady env w.state instanceName algorithm r →
      ∃ tree, TreeHeld env wr.state instanceName algorithm treeDigest tree ∧ tree.WellFormed := by
    intro hc
    obtain ⟨d,tree,hd,ht,hwf⟩ := hc.trees dir hdir
    obtain rfl := Option.some.inj (hd.symm.trans htd)
    exact ⟨tree,(hP.grows hL hw hr hl).treeHeld ht,hwf⟩
  apply Protocol.ensures_ofExcept_bind
  · intro e he
    apply hE
    intro hc
    obtain ⟨tree,ht,_⟩ := hready hc
    rw [decodeOutputTree_of_held ht] at he
    cases he
  intro tree htree
  have ht := decodeOutputTree_ok hP hL hr htree
  have ht' := (hP.grows hL hr hw' hl').treeHeld ht
  apply Protocol.ensures_ofExcept hw'
  · rintro out a b ha hb hab ⟨ds,ho,hs⟩
    exact ⟨ds,ho,hs.later hP hL ha hb hab⟩
  · intro e he
    apply hE
    intro hc
    obtain ⟨tree',ht'',hwf⟩ := hready hc
    obtain rfl := ht.unique ht''
    obtain ⟨out,hout⟩ := collectTreeFileDigests_total digests code hwf
    rw [hout] at he
    cases he
  · intro out hout
    obtain ⟨ds,ho,hroot,hfiles⟩ := collectTreeFileDigests_ok hout
    exact ⟨ds,ho,treeDigest,tree,htd,ht',hroot,hfiles⟩

/-- First loop: the directories seen so far, and what each contributed. -/
theorem ensures_collectOutputDirectories {r : ActionResult} (hw : P.inv w)
    (hE : ¬ ArtifactsReady env w.state instanceName algorithm r → ∀ e, E e) (base : List Digest) :
    P.Ensures me req
      (r.outputDirectories.foldlM (collectOutputDirectory env instanceName algorithm code) base) w
      (fun out w' => ∃ dss : List (List Digest), out = base ++ dss.flatten ∧
        List.Forall₂ (DirectorySeen env instanceName algorithm w') r.outputDirectories dss) E := by
  apply (Protocol.ensures_foldlM (fun pre acc w' => w.log <+: w'.log ∧ ∃ dss : List (List Digest),
    acc = base ++ dss.flatten ∧ List.Forall₂ (DirectorySeen env instanceName algorithm w') pre dss)
    ?_ r.outputDirectories ?_ [] base w hw ⟨List.prefix_refl _,[],by simp,.nil⟩).imp
  · intro out w' _ _ h
    exact h.2
  · rintro pre acc a b ha hb hab ⟨hl,dss,hacc,hseen⟩
    exact ⟨hl.trans hab,dss,hacc,hseen.imp (fun _ _ h => h.later hP hL ha hb hab)⟩
  · rintro pre dir acc w' hdir hw' ⟨hl,dss,rfl,hseen⟩
    have hE' : ¬ ArtifactsReady env w'.state instanceName algorithm r → ∀ e, E e :=
      fun hc => hE (fun h => hc (h.grows (hP.grows hL hw hw' hl)))
    apply (ensures_collectOutputDirectory hP hL hdir hw' hE' _).imp
    rintro out w'' hw'' hl' ⟨ds,rfl,hd⟩
    refine ⟨hl.trans hl',dss ++ [ds],by simp,?_⟩
    exact List.rel_append (hseen.imp (fun _ _ h => h.later hP hL hw' hw'' hl')) (.cons hd .nil)

omit hL in
/-- The empty blob is stored on the way, any other digest has to be there. -/
theorem ensures_checkArtifact (hw : P.inv w) {digest : Digest}
    (hE : digest ≠ emptyDigest → ¬ w.state.Present (casKey instanceName algorithm digest) → ∀ e, E e) :
    P.Ensures me req (checkArtifact instanceName algorithm code digest) w
      (fun _ w' => w'.state.Present (casKey instanceName algorithm digest)) E := by
  unfold checkArtifact
  by_cases he : digest.sizeBytes = 0 ∧ digest.hash = EMPTY_SHA256
  · rw [if_pos he]
    apply (ensures_storePut_cas hP rfl).imp
    intro _ w' hw' _ hput
    rw [hP.state w' hw']
    exact present_of_mem hput rfl
  · rw [if_neg he]
    apply (ensures_storeContains hP.toReplaying hw).bind
    intro present w' hw' _ hpresent
    cases present with
    | true => exact Protocol.ensures_pure hw' (hP.present_stable _) (hpresent.1 rfl)
    | false => exact Protocol.ensures_throw (hE (mt (isEmpty_iff digest).mpr he) (hpresent.2 rfl) _)

omit hL in
/-- Second loop: the digests checked so far are present. -/
theorem ensures_checkArtifacts (hw : P.inv w) {digests : List Digest}
    (hE : ∀ d ∈ digests, d ≠ emptyDigest → ¬ w.state.Present (casKey instanceName algorithm d) → ∀ e, E e) :
    P.Ensures me req
      (digests.foldlM (fun _ digest => checkArtifact instanceName algorithm code digest) ()) w
      (fun _ w' => ∀ d ∈ digests, w'.state.Present (casKey instanceName algorithm d)) E := by
  apply (Protocol.ensures_foldlM (fun pre _ w' => w.log <+: w'.log ∧
    ∀ d ∈ pre, w'.state.Present (casKey instanceName algorithm d)) ?_ digests ?_ [] () w hw
      ⟨List.prefix_refl _,by simp⟩).imp
  · intro _ w' _ _ h
    exact h.2
  · rintro pre _ a b ha hb hab ⟨hl,hp⟩
    exact ⟨hl.trans hab,fun d hd => hP.present_stable _ a b ha hb hab (hp d hd)⟩
  · rintro pre d _ w' hd hw' ⟨hl,hp⟩
    have hE' : d ≠ emptyDigest → ¬ w'.state.Present (casKey instanceName algorithm d) → ∀ e, E e :=
      fun hne habsent => hE d hd hne (fun h => habsent (hP.present_stable _ w w' hw hw' hl h))
    apply (ensures_checkArtifact hP hw' hE').imp
    intro _ w'' hw'' hl' hd'
    refine ⟨hl.trans hl',?_⟩
    intro d₂ hd₂
    rcases List.mem_append.mp hd₂ with hd₂ | hd₂
    · exact hP.present_stable _ w' w'' hw' hw'' hl' (hp d₂ hd₂)
    · obtain rfl := List.mem_singleton.mp hd₂
      exact hd'

section Collected
variable {r : ActionResult} {fileDigests : List Digest} {dss : List (List Digest)}
omit hP hL

/-- Everything the validation looks up, from what the two collections returned. -/
def collected (r : ActionResult) (fileDigests : List Digest) (dss : List (List Digest)) : List Digest :=
  fileDigests ++ r.stdoutDigest.toList ++ r.stderrDigest.toList ++ dss.flatten

theorem referenced_of_collected
    (hfiles : List.Forall₂ (fun f d => f.digest = some d) r.outputFiles fileDigests)
    (hseen : List.Forall₂ (DirectorySeen env instanceName algorithm w) r.outputDirectories dss)
    {d : Digest} (hd : d ∈ collected r fileDigests dss) :
    Referenced env w.state instanceName algorithm r d := by
  simp only [collected, List.mem_append, Option.mem_toList, List.mem_flatten] at hd
  rcases hd with ((hd | hd) | hd) | ⟨ds,hds,hd⟩
  · obtain ⟨f,hf,hfd⟩ := mem_of_related hfiles hd
    exact .file f hf hfd
  · exact .stdout hd
  · exact .stderr hd
  · obtain ⟨dir,hdir,t,tree,ht,hheld,_,hfs⟩ := mem_of_related hseen hds
    obtain ⟨f,hf,hfd⟩ := mem_of_related hfs hd
    exact .treeFile dir t tree f hdir ht hheld hf hfd

/-- A tree digest is not among the collected digests; its entry was read instead. -/
theorem closed_of_collected
    (hfiles : List.Forall₂ (fun f d => f.digest = some d) r.outputFiles fileDigests)
    (hseen : List.Forall₂ (DirectorySeen env instanceName algorithm w) r.outputDirectories dss)
    (hpresent : ∀ d ∈ collected r fileDigests dss, w.state.Present (casKey instanceName algorithm d)) :
    ArtifactsClosed env w.state instanceName algorithm r where
  files := by
    intro f hf
    obtain ⟨d,_,hd⟩ := related_of_mem hfiles hf
    exact ⟨d,hd⟩
  trees := by
    intro dir hdir
    obtain ⟨ds,_,t,tree,ht,hheld,hroot,hfs⟩ := related_of_mem hseen hdir
    refine ⟨t,tree,ht,hheld,hroot,?_⟩
    intro f hf
    obtain ⟨d,_,hd⟩ := related_of_mem hfs hf
    exact ⟨d,hd⟩
  present := by
    intro d hd
    cases hd with
    | file f mem named =>
      obtain ⟨d',hm,hd'⟩ := related_of_mem hfiles mem
      obtain rfl := Option.some.inj (hd'.symm.trans named)
      exact hpresent d' (by simp [collected, hm])
    | stdout named => exact hpresent d (by simp [collected, named])
    | stderr named => exact hpresent d (by simp [collected, named])
    | tree dir mem named =>
      obtain ⟨ds,_,t,tree,ht,⟨bytes,hheld,_⟩,_⟩ := related_of_mem hseen mem
      obtain rfl := Option.some.inj (ht.symm.trans named)
      exact hheld.present
    | treeFile dir treeDigest tree f mem named held file fileNamed =>
      obtain ⟨ds,hds,t,tree',ht,hheld,_,hfs⟩ := related_of_mem hseen mem
      obtain rfl := Option.some.inj (ht.symm.trans named)
      obtain rfl := hheld.unique held
      obtain ⟨d',hm,hd'⟩ := related_of_mem hfs file
      obtain rfl := Option.some.inj (hd'.symm.trans fileNamed)
      exact hpresent d' (List.mem_append_right _ (List.mem_flatten.mpr ⟨ds,hds,hm⟩))

end Collected

/-- Once validated, a result is closed from then on; a result that was ready when the
validation started is validated. -/
theorem ensures_validate {r : ActionResult} (hw : P.inv w)
    (hE : ¬ ArtifactsReady env w.state instanceName algorithm r → ∀ e, E e) :
    P.Ensures me req (validateActionResultArtifacts env instanceName algorithm r code) w
      (fun _ w' => ArtifactsClosed env w'.state instanceName algorithm r) E := by
  apply Protocol.ensures_ofExcept_bind
  · intro e he
    apply hE
    intro hc
    have htotal : ∃ ds, collectOutputFileDigests code r.outputFiles = .ok ds := by
      apply mapM_total
      intro f hf
      obtain ⟨d,hd⟩ := hc.files f hf
      exact ⟨d,okOr_eq_ok.mpr hd⟩
    obtain ⟨ds,hds⟩ := htotal
    rw [hds] at he
    cases he
  intro fileDigests hfd
  have hfiles : List.Forall₂ (fun f d => f.digest = some d) r.outputFiles fileDigests :=
    (mapM_eq_ok hfd).imp (fun _ _ h => okOr_eq_ok.mp h)
  apply (ensures_collectOutputDirectories hP hL hw hE _).bind
  rintro digests w₁ hw₁ hl₁ ⟨dss,rfl,hseen⟩
  have hE₁ : ∀ d ∈ collected r fileDigests dss, d ≠ emptyDigest →
      ¬ w₁.state.Present (casKey instanceName algorithm d) → ∀ e, E e := by
    intro d hd hne habsent
    apply hE
    intro hready
    have hready₁ := hready.grows (hP.grows hL hw hw₁ hl₁)
    rcases hready₁.present d (referenced_of_collected hfiles hseen hd) with he | hpresent
    · exact hne he
    · exact habsent hpresent
  apply (ensures_checkArtifacts hP hw₁ hE₁).imp
  intro _ w₂ hw₂ hl₂ hpresent
  have hseen₂ : List.Forall₂ (DirectorySeen env instanceName algorithm w₂) r.outputDirectories dss :=
    hseen.imp (fun _ _ h => h.later hP hL hw₁ hw₂ hl₂)
  exact closed_of_collected hfiles hseen₂ hpresent

end ReapiCache
