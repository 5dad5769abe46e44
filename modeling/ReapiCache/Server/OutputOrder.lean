import ReapiCache.Server.Complete

/-! # The order of the output files

A digest with the hash of the empty blob and another size is found once the empty blob
has been stored, and the validation itself stores it. So a list in which such a digest
comes first is refused where a reordering of it is accepted.
-/
namespace ReapiCache
open Interaction ActionCacheService
variable {env : Externals}

/-- A digest with the hash and not the size of the empty blob comes before the empty blob. -/
def Misplaced (digests : List Digest) : Prop :=
  ∃ before d after, digests = before ++ d :: after ∧ d.hash = EMPTY_SHA256 ∧ d ≠ emptyDigest ∧
    emptyDigest ∉ before

/-- The results have the same output files, in any order, and the same other fields. -/
structure Reordered (r r' : ActionResult) : Prop where
  files : r.outputFiles.Perm r'.outputFiles
  others : r' = { r with outputFiles := r'.outputFiles }

/-- Apart from the hash of the empty blob, nothing the result needs is missing. -/
structure Sound (env : Externals) (store : InMemoryStore) (instanceName : String)
    (algorithm : DigestAlgorithm) (r : ActionResult) : Prop where
  files : ∀ f ∈ r.outputFiles, ∃ d, f.digest = some d
  directories : ∀ dir ∈ r.outputDirectories, DirectoryPasses env store instanceName algorithm dir
  present : ∀ d ∈ listedDigests env store instanceName algorithm r, d.hash ≠ EMPTY_SHA256 →
    store.Present (casKey instanceName algorithm d)

theorem misplaced_append {l l' : List Digest} :
    Misplaced (l ++ l') ↔ Misplaced l ∨ emptyDigest ∉ l ∧ Misplaced l' := by
  constructor
  · rintro ⟨before,d,after,hsplit,hhash,hne,hnot⟩
    rcases List.append_eq_append_iff.mp hsplit with ⟨mid,rfl,hl'⟩ | ⟨mid,hl,hafter⟩
    · -- the digest is in the second list
      rw [List.mem_append, not_or] at hnot
      exact Or.inr ⟨hnot.1,mid,d,after,hl',hhash,hne,hnot.2⟩
    · cases mid with
      | nil =>
        rw [List.append_nil] at hl
        subst hl
        exact Or.inr ⟨hnot,[],d,after,hafter.symm,hhash,hne,List.not_mem_nil⟩
      | cons x mid =>
        obtain ⟨rfl,_⟩ := List.cons_eq_cons.mp hafter
        exact Or.inl ⟨before,d,mid,hl,hhash,hne,hnot⟩
  · rintro (⟨before,d,after,rfl,hhash,hne,hnot⟩ | ⟨hnot,before,d,after,rfl,hhash,hne,hnot'⟩)
    · exact ⟨before,d,after ++ l',by simp,hhash,hne,hnot⟩
    · refine ⟨l ++ before,d,after,by simp,hhash,hne,?_⟩
      rw [List.mem_append, not_or]
      exact ⟨hnot,hnot'⟩

/-- Where the empty blob does not occur, any digest of its hash is misplaced. -/
theorem misplaced_of_not_mem {l : List Digest} (h : emptyDigest ∉ l) :
    Misplaced l ↔ ∃ d ∈ l, d.hash = EMPTY_SHA256 := by
  constructor
  · rintro ⟨before,d,after,rfl,hhash,_⟩
    exact ⟨d,by simp,hhash⟩
  · rintro ⟨d,hd,hhash⟩
    obtain ⟨before,after,rfl⟩ := List.append_of_mem hd
    refine ⟨before,d,after,rfl,hhash,?_,fun hmem => h (List.mem_append_left _ hmem)⟩
    rintro rfl
    exact h hd

theorem misplaced_perm {l l' : List Digest} (hperm : l.Perm l') (h : emptyDigest ∉ l) :
    Misplaced l ↔ Misplaced l' := by
  have h' : emptyDigest ∉ l' := fun hmem => h (hperm.mem_iff.mpr hmem)
  rw [misplaced_of_not_mem h, misplaced_of_not_mem h']
  simp only [hperm.mem_iff]

section Store
variable {store : InMemoryStore} {instanceName : String} {algorithm : DigestAlgorithm}

theorem casKey_of_hash {digest : Digest} (h : digest.hash = EMPTY_SHA256) :
    casKey instanceName algorithm digest = casKey instanceName algorithm emptyDigest := by
  simp only [casKey, h, emptyDigest]

theorem allAvailable_iff {digests : List Digest} :
    AllAvailable store instanceName algorithm [] digests ↔
      (∀ d ∈ digests, d.hash ≠ EMPTY_SHA256 → store.Present (casKey instanceName algorithm d)) ∧
      (store.Present (casKey instanceName algorithm emptyDigest) ∨ ¬ Misplaced digests) := by
  unfold AllAvailable
  simp only [List.nil_append]
  constructor
  · intro h
    refine ⟨?_,?_⟩
    · intro d hd hne
      obtain ⟨before,after,hsplit⟩ := List.append_of_mem hd
      rcases h before d after hsplit with hpresent | rfl | ⟨hhash,_⟩
      · exact hpresent
      · exact absurd rfl hne
      · exact absurd hhash hne
    · rw [or_iff_not_imp_left]
      rintro habsent ⟨before,d,after,hsplit,hhash,hne,hnot⟩
      rcases h before d after hsplit with hpresent | hempty | ⟨_,hmem⟩
      · rw [casKey_of_hash hhash] at hpresent
        exact habsent hpresent
      · exact hne hempty
      · exact hnot hmem
  · rintro ⟨hpresent,hempty⟩ before d after hsplit
    by_cases hhash : d.hash = EMPTY_SHA256
    · by_cases he : d = emptyDigest
      · exact .empty he
      by_cases hmem : emptyDigest ∈ before
      · exact .stored hhash hmem
      rcases hempty with hstored | hnot
      · refine .present ?_
        rw [casKey_of_hash hhash]
        exact hstored
      · exact absurd ⟨before,d,after,hsplit,hhash,he,hmem⟩ hnot
    · refine .present (hpresent d ?_ hhash)
      rw [hsplit]
      exact List.mem_append_right _ List.mem_cons_self

/-- What the order can change is whether a digest is misplaced. -/
theorem artifactsComplete_iff {r : ActionResult} :
    ArtifactsComplete env store instanceName algorithm r ↔ Sound env store instanceName algorithm r ∧
      (store.Present (casKey instanceName algorithm emptyDigest) ∨
        ¬ Misplaced (listedDigests env store instanceName algorithm r)) := by
  constructor
  · rintro ⟨hfiles,hdirs,havailable⟩
    obtain ⟨hpresent,hempty⟩ := allAvailable_iff.mp havailable
    exact ⟨⟨hfiles,hdirs,hpresent⟩,hempty⟩
  · rintro ⟨⟨hfiles,hdirs,hpresent⟩,hempty⟩
    exact ⟨hfiles,hdirs,allAvailable_iff.mpr ⟨hpresent,hempty⟩⟩

/-- The digests of the output files, in order. -/
def fileDigests (r : ActionResult) : List Digest := r.outputFiles.filterMap OutputFile.digest

/-- The digests collected after those of the output files. -/
def otherDigests (env : Externals) (store : InMemoryStore) (instanceName : String)
    (algorithm : DigestAlgorithm) (r : ActionResult) : List Digest :=
  r.stdoutDigest.toList ++ r.stderrDigest.toList ++
    r.outputDirectories.flatMap (directoryDigests env store instanceName algorithm)

theorem listedDigests_eq (r : ActionResult) : listedDigests env store instanceName algorithm r =
    fileDigests r ++ otherDigests env store instanceName algorithm r := by
  simp [listedDigests, fileDigests, otherDigests]

theorem Reordered.symm {r r' : ActionResult} (h : Reordered r r') : Reordered r' r where
  files := h.files.symm
  others := by rw [h.others]

theorem Reordered.perm_fileDigests {r r' : ActionResult} (h : Reordered r r') :
    (fileDigests r).Perm (fileDigests r') := h.files.filterMap _

theorem Reordered.otherDigests_eq {r r' : ActionResult} (h : Reordered r r') :
    otherDigests env store instanceName algorithm r' = otherDigests env store instanceName algorithm r := by
  rw [h.others]
  rfl

theorem Reordered.sound {r r' : ActionResult} (h : Reordered r r')
    (hs : Sound env store instanceName algorithm r) : Sound env store instanceName algorithm r' where
  files := fun f hf => hs.files f (h.files.mem_iff.mpr hf)
  directories := by
    rw [h.others]
    exact hs.directories
  present := by
    intro d hd
    apply hs.present d
    rw [listedDigests_eq, List.mem_append] at hd ⊢
    rwa [h.perm_fileDigests.mem_iff, ← h.otherDigests_eq]

end Store

/-- The empty blob is stored, the result is refused for other reasons, or the output files
have a misplaced digest in both orders or in none. -/
def OrderIrrelevant (env : Externals) (store : InMemoryStore) (instanceName : String)
    (algorithm : DigestAlgorithm) (r r' : ActionResult) : Prop :=
  store.Present (casKey instanceName algorithm emptyDigest) ∨ ¬ Sound env store instanceName algorithm r ∨
    (Misplaced (fileDigests r) ↔ Misplaced (fileDigests r'))

theorem complete_iff_of_reordered {store : InMemoryStore} {instanceName : String} {algorithm : DigestAlgorithm}
    {r r' : ActionResult} (h : Reordered r r') :
    (ArtifactsComplete env store instanceName algorithm r ↔ ArtifactsComplete env store instanceName algorithm r') ↔
      OrderIrrelevant env store instanceName algorithm r r' := by
  unfold OrderIrrelevant
  rw [artifactsComplete_iff, artifactsComplete_iff, listedDigests_eq, listedDigests_eq, misplaced_append,
    misplaced_append, h.otherDigests_eq]
  by_cases hs : Sound env store instanceName algorithm r
  · have hs' := h.sound hs
    by_cases hstored : store.Present (casKey instanceName algorithm emptyDigest)
    · simp [hs, hs', hstored]
    · have hmem : emptyDigest ∈ fileDigests r ↔ emptyDigest ∈ fileDigests r' := h.perm_fileDigests.mem_iff
      by_cases hempty : emptyDigest ∈ fileDigests r
      · have hempty' := hmem.mp hempty
        simp only [hs, hs', hstored, hempty, hempty', true_and, not_true, false_and, or_false, false_or]
        exact not_iff_not
      · -- without the empty blob among the files the order of the files is irrelevant
        have hempty' := mt hmem.mpr hempty
        have hsame := misplaced_perm h.perm_fileDigests hempty
        simp only [hs, hs', hstored, hempty, hempty', hsame]
        simp
  · have hs' : ¬ Sound env store instanceName algorithm r' := fun hs' => hs (h.symm.sound hs')
    simp [hs, hs']

theorem validation_order (schedule : List (Interaction.Action Request)) (instanceName : String)
    (algorithm : DigestAlgorithm) (code : Code) {r r' : ActionResult} (h : Reordered r r') :
    (validated env (serverFrom env schedule).world.state instanceName algorithm r code = .ok () ↔
        validated env (serverFrom env schedule).world.state instanceName algorithm r' code = .ok ()) ↔
      OrderIrrelevant env (serverFrom env schedule).world.state instanceName algorithm r r' := by
  rw [validated_eq_ok (serverFrom_open schedule), validated_eq_ok (serverFrom_open schedule)]
  exact complete_iff_of_reordered h

namespace Reference

def outputFile (digest : Digest) : OutputFile := ⟨some digest,[]⟩

/-- A result with these output files and nothing else. -/
def filesResult (digests : List Digest) : ActionResult := ⟨digests.map outputFile,[],none,none,[]⟩

theorem filesResult_reordered {digests digests' : List Digest} (h : digests.Perm digests') :
    Reordered (filesResult digests) (filesResult digests') := ⟨h.map _,rfl⟩

end Reference

open Reference in
/-- The two blobs of the upload may be listed in either order. -/
theorem validation_order_uploadRun :
    validated externals (serverFrom externals uploadRun).world.state "main" .sha256
        (filesResult [commandDigest,treeDigest]) .notFound = .ok () ↔
      validated externals (serverFrom externals uploadRun).world.state "main" .sha256
        (filesResult [treeDigest,commandDigest]) .notFound = .ok () := by
  apply (validation_order uploadRun "main" .sha256 .notFound (filesResult_reordered (.swap _ _ []))).mpr
  have hempty : emptyDigest ∉ fileDigests (filesResult [commandDigest,treeDigest]) := by decide
  exact Or.inr (Or.inr (misplaced_perm (.swap _ _ []) hempty))

open Reference in
/-- On the empty store the empty blob may follow, but not precede, itself with a wrong size. -/
theorem validation_order_empty :
    Reordered (filesResult [⟨EMPTY_SHA256,5⟩,emptyDigest]) (filesResult [emptyDigest,⟨EMPTY_SHA256,5⟩]) ∧
    ¬ (validated externals (serverFrom externals []).world.state "main" .sha256
        (filesResult [⟨EMPTY_SHA256,5⟩,emptyDigest]) .notFound = .ok () ↔
      validated externals (serverFrom externals []).world.state "main" .sha256
        (filesResult [emptyDigest,⟨EMPTY_SHA256,5⟩]) .notFound = .ok ()) := by
  refine ⟨filesResult_reordered (.swap _ _ []),?_⟩
  decide +kernel

end ReapiCache
