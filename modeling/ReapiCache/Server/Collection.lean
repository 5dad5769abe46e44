import ReapiCache.Server.Artifacts

/-! # The digests of a result

Run on its own, the validation first collects the digests of a result. It reads the trees
of the output directories and changes nothing, so the collection is a computation on one
store, and so is the reason why it fails.
-/
namespace ReapiCache
open Interaction ActionCacheService
variable {env : Externals}

section Listing
variable (env) (store : InMemoryStore) (instanceName : String) (algorithm : DigestAlgorithm)

/-- The tree stored under a digest, when the blob there decodes to one. -/
def storedTree (digest : Digest) : Option Tree := do
  let b ← store.blobs (casKey instanceName algorithm digest)
  let bytes ← (BlobCodec.intoIdentityData env ⟨b.metadata,⟨b.data⟩⟩).toOption
  (env.decodeTree bytes).toOption

/-- The digests of the files in the tree of an output directory. -/
def directoryDigests (dir : OutputDirectory) : List Digest :=
  ((dir.treeDigest.bind (storedTree env store instanceName algorithm)).toList.flatMap
    Tree.fileNodes).filterMap FileNode.digest

/-- The digests of a result in the order of their collection. -/
def listedDigests (r : ActionResult) : List Digest :=
  r.outputFiles.filterMap OutputFile.digest ++ r.stdoutDigest.toList ++ r.stderrDigest.toList ++
    r.outputDirectories.flatMap (directoryDigests env store instanceName algorithm)

/-- The directory has a stored tree, with a root, in which every file has a digest. -/
def DirectoryPasses (dir : OutputDirectory) : Prop :=
  ∃ d tree, dir.treeDigest = some d ∧ storedTree env store instanceName algorithm d = some tree ∧
    tree.WellFormed

/-- The blob of the directory's tree is there and is not a tree. -/
def TreeUndecodable (dir : OutputDirectory) : Prop :=
  ∃ d, dir.treeDigest = some d ∧ store.Present (casKey instanceName algorithm d) ∧
    storedTree env store instanceName algorithm d = none

/-- The first directory that does not pass has a blob that is not a tree. -/
def InternalFailure (r : ActionResult) : Prop :=
  (∀ f ∈ r.outputFiles, ∃ d, f.digest = some d) ∧ ∃ before dir after,
    r.outputDirectories = before ++ dir :: after ∧
    (∀ e ∈ before, DirectoryPasses env store instanceName algorithm e) ∧
    TreeUndecodable env store instanceName algorithm dir

end Listing

section Collection
variable (env) (store : InMemoryStore) (instanceName : String) (algorithm : DigestAlgorithm) (code : Code)

/-- What one directory contributes, read from one store. -/
def collectDirectory (dir : OutputDirectory) : Except Status (List Digest) := do
  let treeDigest ← okOr ⟨code,"output directory is missing its tree digest"⟩ dir.treeDigest
  let tree ← decodeOutputTree env code ((store.blobs (casKey instanceName algorithm treeDigest)).map
    (fun b => ⟨b.metadata,⟨b.data⟩⟩))
  collectTreeFileDigests tree [] code

def collectResult (r : ActionResult) : Except Status (List Digest) := do
  let fileDigests ← collectOutputFileDigests code r.outputFiles
  let dss ← r.outputDirectories.mapM (collectDirectory env store instanceName algorithm code)
  .ok (fileDigests ++ r.stdoutDigest.toList ++ r.stderrDigest.toList ++ dss.flatten)

end Collection

section Pure
variable {store : InMemoryStore} {instanceName : String} {algorithm : DigestAlgorithm} {code : Code}

theorem collectTreeFileDigests_append (tree : Tree) (digests : List Digest) :
    collectTreeFileDigests tree digests code =
      (collectTreeFileDigests tree [] code).map (digests ++ ·) := by
  unfold collectTreeFileDigests
  cases okOr (⟨code,"output tree has no root"⟩ : Status) tree.root with
  | error s => rfl
  | ok root =>
    simp only [ok_bind]
    cases collectFileDigests code root.files with
    | error s => rfl
    | ok ds =>
      simp only [ok_bind]
      cases tree.children.mapM (fun child => collectFileDigests code child.files) with
      | error s => rfl
      | ok dss => simp [Except.map]

theorem exec_collectOutputDirectory (hopen : store.poisoned = false) (digests : List Digest)
    (dir : OutputDirectory) :
    (collectOutputDirectory env instanceName algorithm code digests dir).run.exec InMemoryStore.handle store =
      ((collectDirectory env store instanceName algorithm code dir).map (digests ++ ·),store) := by
  unfold collectOutputDirectory collectDirectory
  simp only [Failing.exec_bind, Failing.exec_ofExcept]
  cases okOr (⟨code,"output directory is missing its tree digest"⟩ : Status) dir.treeDigest with
  | error s => rfl
  | ok d =>
    simp only [ok_bind, storeGet, Failing.exec_attempt, InMemoryStore.handle_get,
      InMemoryStore.get_eq hopen, mapError_ok]
    cases decodeOutputTree env code ((store.blobs (casKey instanceName algorithm d)).map
        (fun b => ⟨b.metadata,⟨b.data⟩⟩)) with
    | error s => rfl
    | ok tree =>
      simp only [ok_bind]
      rw [collectTreeFileDigests_append]

theorem exec_collectOutputDirectories (hopen : store.poisoned = false) (dirs : List OutputDirectory)
    (digests : List Digest) :
    (dirs.foldlM (collectOutputDirectory env instanceName algorithm code) digests).run.exec
        InMemoryStore.handle store =
      ((dirs.mapM (collectDirectory env store instanceName algorithm code)).map
        (fun dss => digests ++ dss.flatten),store) := by
  rw [Failing.exec_foldlM_pure InMemoryStore.handle (exec_collectOutputDirectory hopen), foldlM_append]

/-- The validation on its own: the pure collection, then the checks. -/
theorem exec_validate (hopen : store.poisoned = false) (r : ActionResult) :
    (validateActionResultArtifacts env instanceName algorithm r code).run.exec InMemoryStore.handle store =
      (Failing.ofExcept (collectResult env store instanceName algorithm code r) >>= fun digests =>
        digests.foldlM (fun _ digest => checkArtifact instanceName algorithm code digest) ()).run.exec
          InMemoryStore.handle store := by
  unfold validateActionResultArtifacts collectResult
  simp only [Failing.exec_bind, Failing.exec_ofExcept]
  cases collectOutputFileDigests code r.outputFiles with
  | error s => rfl
  | ok fileDigests =>
    simp only [ok_bind, exec_collectOutputDirectories hopen]
    cases r.outputDirectories.mapM (collectDirectory env store instanceName algorithm code) <;> rfl

theorem collectFileDigests_error {files : List FileNode} {s : Status}
    (h : collectFileDigests code files = .error s) : s.code = code := by
  obtain ⟨_,f,_,_,_,hf⟩ := mapM_eq_error.mp h
  cases hd : f.digest with
  | none =>
    rw [hd] at hf
    cases hf
    rfl
  | some d =>
    rw [hd] at hf
    cases hf

theorem filterMap_of_related {α : Type} {f : α → Option Digest} {l : List α} {ds : List Digest}
    (h : List.Forall₂ (fun a d => f a = some d) l ds) : l.filterMap f = ds := by
  induction h with
  | nil => rfl
  | cons hd _ ih => rw [List.filterMap_cons_some hd, ih]

theorem related_filterMap {α : Type} {f : α → Option Digest} {l : List α}
    (h : ∀ a ∈ l, ∃ d, f a = some d) : List.Forall₂ (fun a d => f a = some d) l (l.filterMap f) := by
  induction l with
  | nil => exact .nil
  | cons a l ih =>
    obtain ⟨d,hd⟩ := h a List.mem_cons_self
    rw [List.filterMap_cons_some hd]
    exact .cons hd (ih (fun a ha => h a (List.mem_cons_of_mem _ ha)))

theorem collectTreeFileDigests_eq_ok {tree : Tree} {ds : List Digest} :
    collectTreeFileDigests tree [] code = .ok ds ↔
      tree.WellFormed ∧ ds = tree.fileNodes.filterMap FileNode.digest := by
  constructor
  · intro h
    obtain ⟨ds',rfl,hroot,hfiles⟩ := collectTreeFileDigests_ok h
    refine ⟨⟨hroot,?_⟩,(filterMap_of_related hfiles).symm⟩
    intro f hf
    obtain ⟨d,_,hd⟩ := related_of_mem hfiles hf
    exact ⟨d,hd⟩
  · rintro ⟨hwf,rfl⟩
    obtain ⟨out,hout⟩ := collectTreeFileDigests_total [] code hwf
    obtain ⟨ds,rfl,_,hfiles⟩ := collectTreeFileDigests_ok hout
    rw [filterMap_of_related hfiles]
    exact hout

theorem collectTreeFileDigests_error {tree : Tree} {s : Status}
    (h : collectTreeFileDigests tree [] code = .error s) : s.code = code := by
  unfold collectTreeFileDigests at h
  cases hroot : tree.root with
  | none =>
    rw [hroot] at h
    cases h
    rfl
  | some root =>
    rw [hroot, okOr_some, ok_bind] at h
    cases hfiles : collectFileDigests code root.files with
    | error s' =>
      rw [hfiles] at h
      obtain rfl : s' = s := Except.error.inj h
      exact collectFileDigests_error hfiles
    | ok ds =>
      rw [hfiles, ok_bind] at h
      cases hchildren : tree.children.mapM (fun child => collectFileDigests code child.files) with
      | error s' =>
        rw [hchildren] at h
        obtain rfl : s' = s := Except.error.inj h
        obtain ⟨_,child,_,_,_,hchild⟩ := mapM_eq_error.mp hchildren
        exact collectFileDigests_error hchild
      | ok dss =>
        rw [hchildren] at h
        cases h

/-- The reply to a tree lookup decodes to the stored tree, if it decodes. -/
theorem decodeOutputTree_stored (env : Externals) (store : InMemoryStore) (instanceName : String)
    (algorithm : DigestAlgorithm) (code : Code) (digest : Digest) :
    (∃ tree, storedTree env store instanceName algorithm digest = some tree ∧
      decodeOutputTree env code ((store.blobs (casKey instanceName algorithm digest)).map
        (fun b => ⟨b.metadata,⟨b.data⟩⟩)) = .ok tree) ∨
    (storedTree env store instanceName algorithm digest = none ∧
      ∃ s, decodeOutputTree env code ((store.blobs (casKey instanceName algorithm digest)).map
        (fun b => ⟨b.metadata,⟨b.data⟩⟩)) = .error s ∧
        (store.Present (casKey instanceName algorithm digest) ∧ s.code = .internal ∨
          ¬ store.Present (casKey instanceName algorithm digest) ∧ s.code = code)) := by
  unfold storedTree decodeOutputTree InMemoryStore.Present
  cases hb : store.blobs (casKey instanceName algorithm digest) with
  | none => exact Or.inr ⟨rfl,_,rfl,Or.inr ⟨by simp,rfl⟩⟩
  | some b =>
    simp only [Option.map_some, okOr_some, ok_bind, Option.bind_eq_bind, Option.bind_some]
    cases hbytes : BlobCodec.intoIdentityData env ⟨b.metadata,⟨b.data⟩⟩ with
    | error err => exact Or.inr ⟨rfl,_,rfl,Or.inl ⟨⟨b,rfl⟩,rfl⟩⟩
    | ok bytes =>
      simp only [Except.toOption, Option.bind_some, mapError_ok, ok_bind]
      cases env.decodeTree bytes with
      | error err => exact Or.inr ⟨rfl,_,rfl,Or.inl ⟨⟨b,rfl⟩,rfl⟩⟩
      | ok tree => exact Or.inl ⟨tree,rfl,rfl⟩

theorem collectDirectory_eq_ok {dir : OutputDirectory} {ds : List Digest} :
    collectDirectory env store instanceName algorithm code dir = .ok ds ↔
      DirectoryPasses env store instanceName algorithm dir ∧
        ds = directoryDigests env store instanceName algorithm dir := by
  unfold collectDirectory DirectoryPasses directoryDigests
  cases hd : dir.treeDigest with
  | none => simp
  | some d =>
    rw [okOr_some, ok_bind, Option.bind_some]
    rcases decodeOutputTree_stored env store instanceName algorithm code d with ⟨tree,htree,hreply⟩ | ⟨htree,s,hreply,_⟩
    · rw [hreply, ok_bind, collectTreeFileDigests_eq_ok, htree]
      simp [htree]
    · rw [hreply]
      simp [htree]

/-- Why a directory is refused: with `internal` when its blob is no tree. -/
theorem collectDirectory_error {dir : OutputDirectory} {s : Status}
    (h : collectDirectory env store instanceName algorithm code dir = .error s) :
    TreeUndecodable env store instanceName algorithm dir ∧ s.code = .internal ∨
      ¬ TreeUndecodable env store instanceName algorithm dir ∧ s.code = code := by
  unfold collectDirectory at h
  unfold TreeUndecodable
  cases hd : dir.treeDigest with
  | none =>
    rw [hd] at h
    cases h
    exact Or.inr ⟨by simp,rfl⟩
  | some d =>
    rw [hd, okOr_some, ok_bind] at h
    rcases decodeOutputTree_stored env store instanceName algorithm code d with ⟨tree,htree,hreply⟩ | ⟨htree,s',hreply,hs⟩
    · rw [hreply, ok_bind] at h
      refine Or.inr ⟨?_,collectTreeFileDigests_error h⟩
      rintro ⟨d',hd',_,hnone⟩
      obtain rfl := Option.some.inj hd'
      rw [htree] at hnone
      cases hnone
    · rw [hreply] at h
      obtain rfl : s' = s := Except.error.inj h
      rcases hs with ⟨hpresent,hcode⟩ | ⟨habsent,hcode⟩
      · exact Or.inl ⟨⟨d,rfl,hpresent,htree⟩,hcode⟩
      · refine Or.inr ⟨?_,hcode⟩
        rintro ⟨d',hd',hpresent,_⟩
        obtain rfl := Option.some.inj hd'
        exact habsent hpresent

theorem TreeUndecodable.not_passes {dir : OutputDirectory}
    (h : TreeUndecodable env store instanceName algorithm dir) :
    ¬ DirectoryPasses env store instanceName algorithm dir := by
  obtain ⟨d,hd,_,hnone⟩ := h
  rintro ⟨d',tree,hd',htree,_⟩
  obtain rfl := Option.some.inj (hd.symm.trans hd')
  rw [hnone] at htree
  cases htree

theorem collectOutputFileDigests_error {files : List OutputFile} {s : Status}
    (h : collectOutputFileDigests code files = .error s) :
    s.code = code ∧ ¬ ∀ f ∈ files, ∃ d, f.digest = some d := by
  obtain ⟨_,f,_,rfl,_,hf⟩ := mapM_eq_error.mp h
  cases hd : f.digest with
  | none =>
    rw [hd] at hf
    cases hf
    refine ⟨rfl,fun hall => ?_⟩
    obtain ⟨d,hd'⟩ := hall f (List.mem_append_right _ List.mem_cons_self)
    rw [hd] at hd'
    cases hd'
  | some d =>
    rw [hd] at hf
    cases hf

theorem collectOutputFileDigests_eq_ok {files : List OutputFile} {ds : List Digest} :
    collectOutputFileDigests code files = .ok ds ↔
      (∀ f ∈ files, ∃ d, f.digest = some d) ∧ ds = files.filterMap OutputFile.digest := by
  constructor
  · intro h
    have hfiles : List.Forall₂ (fun f d => OutputFile.digest f = some d) files ds :=
      (mapM_eq_ok h).imp (fun _ _ h => okOr_eq_ok.mp h)
    refine ⟨?_,(filterMap_of_related hfiles).symm⟩
    intro f hf
    obtain ⟨d,_,hd⟩ := related_of_mem hfiles hf
    exact ⟨d,hd⟩
  · rintro ⟨hall,rfl⟩
    exact mapM_of_related ((related_filterMap hall).imp (fun _ _ h => okOr_eq_ok.mpr h))

/-- The directories are collected when all of them pass. -/
theorem collectDirectories_eq_ok {dirs : List OutputDirectory} {dss : List (List Digest)} :
    dirs.mapM (collectDirectory env store instanceName algorithm code) = .ok dss ↔
      (∀ dir ∈ dirs, DirectoryPasses env store instanceName algorithm dir) ∧
        dss = dirs.map (directoryDigests env store instanceName algorithm) := by
  constructor
  · intro h
    have hdirs := (mapM_eq_ok h).imp (fun _ _ h => collectDirectory_eq_ok.mp h)
    refine ⟨?_,?_⟩
    · intro dir hdir
      obtain ⟨_,_,hpasses,_⟩ := related_of_mem hdirs hdir
      exact hpasses
    · have hmap := hdirs.imp (fun _ _ h => h.2)
      clear h hdirs
      induction hmap with
      | nil => rfl
      | cons hd _ ih => rw [List.map_cons, hd, ih]
  · rintro ⟨hall,rfl⟩
    apply mapM_of_related
    rw [List.forall₂_map_right_iff, List.forall₂_same]
    exact fun dir hdir => collectDirectory_eq_ok.mpr ⟨hall dir hdir,rfl⟩

theorem collectResult_eq_ok {r : ActionResult} {ds : List Digest} :
    collectResult env store instanceName algorithm code r = .ok ds ↔
      (∀ f ∈ r.outputFiles, ∃ d, f.digest = some d) ∧
      (∀ dir ∈ r.outputDirectories, DirectoryPasses env store instanceName algorithm dir) ∧
      ds = listedDigests env store instanceName algorithm r := by
  unfold collectResult listedDigests
  simp only [bind_eq_ok, collectOutputFileDigests_eq_ok, collectDirectories_eq_ok, List.flatMap_def]
  constructor
  · rintro ⟨_,⟨hfiles,rfl⟩,_,⟨hdirs,rfl⟩,h⟩
    exact ⟨hfiles,hdirs,(Except.ok.inj h).symm⟩
  · rintro ⟨hfiles,hdirs,rfl⟩
    exact ⟨_,⟨hfiles,rfl⟩,_,⟨hdirs,rfl⟩,rfl⟩

/-- The collection fails with `internal` when the first directory that does not pass has
a blob that is no tree, and with the caller's code otherwise. -/
theorem collectResult_error {r : ActionResult} {s : Status}
    (h : collectResult env store instanceName algorithm code r = .error s) :
    InternalFailure env store instanceName algorithm r ∧ s.code = .internal ∨
      ¬ InternalFailure env store instanceName algorithm r ∧ s.code = code := by
  unfold collectResult at h
  cases hfiles : collectOutputFileDigests code r.outputFiles with
  | error s' =>
    rw [hfiles] at h
    obtain rfl : s' = s := Except.error.inj h
    obtain ⟨hcode,hnot⟩ := collectOutputFileDigests_error hfiles
    exact Or.inr ⟨fun hfailure => hnot hfailure.1,hcode⟩
  | ok fileDigests =>
    rw [hfiles, ok_bind] at h
    cases hdirs : r.outputDirectories.mapM (collectDirectory env store instanceName algorithm code) with
    | ok dss =>
      rw [hdirs] at h
      cases h
    | error s' =>
      rw [hdirs] at h
      obtain rfl : s' = s := Except.error.inj h
      obtain ⟨before,dir,after,hsplit,hbefore,hdir⟩ := mapM_eq_error.mp hdirs
      have hpasses : ∀ e ∈ before, DirectoryPasses env store instanceName algorithm e := by
        intro e he
        obtain ⟨ds,hds⟩ := hbefore e he
        exact (collectDirectory_eq_ok.mp hds).1
      rcases collectDirectory_error hdir with ⟨hbroken,hcode⟩ | ⟨hnot,hcode⟩
      · exact Or.inl ⟨⟨(collectOutputFileDigests_eq_ok.mp hfiles).1,before,dir,after,hsplit,hpasses,hbroken⟩,hcode⟩
      · refine Or.inr ⟨?_,hcode⟩
        -- the first directory that fails is the same one on both sides
        rintro ⟨_,before',dir',after',hsplit',hbefore',hbroken'⟩
        have hdir' : ¬ DirectoryPasses env store instanceName algorithm dir := by
          intro h
          rw [collectDirectory_eq_ok.mpr ⟨h,rfl⟩] at hdir
          cases hdir
        obtain rfl := first_unique (hsplit.symm.trans hsplit') hpasses hdir' hbefore' hbroken'.not_passes
        exact hnot hbroken'

end Pure

end ReapiCache
