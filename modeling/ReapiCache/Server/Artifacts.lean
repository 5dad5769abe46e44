import ReapiCache.Server.Accepted

/-! # The artifacts of an action result

A result is closed in a store when every digest it refers to, directly or through a
tree, has an entry. Validation establishes closedness in every later world, whatever
the others do meanwhile, and it cannot fail on a result that only lacks the empty blob
when it starts.
-/
namespace ReapiCache
open Interaction ActionCacheService
variable {env : Externals}

/-- The files of a tree: those of the root, then those of every child. -/
def Tree.fileNodes (tree : Tree) : List FileNode :=
  tree.root.toList.flatMap Directory.files ++ tree.children.flatMap Directory.files

def emptyDigest : Digest := ⟨EMPTY_SHA256,0⟩

theorem isEmpty_iff (digest : Digest) :
    (digest.sizeBytes = 0 ∧ digest.hash = EMPTY_SHA256) ↔ digest = emptyDigest := by
  rcases digest with ⟨hash,size⟩
  simp [emptyDigest, and_comm]

section Closed
variable (env) (store : InMemoryStore) (instanceName : String) (algorithm : DigestAlgorithm)

def TreeHeld (digest : Digest) (tree : Tree) : Prop :=
  ∃ bytes, store.Held env (casKey instanceName algorithm digest) bytes ∧ env.decodeTree bytes = .ok tree

inductive Referenced (r : ActionResult) (digest : Digest) : Prop
  | file (f : OutputFile) (mem : f ∈ r.outputFiles) (named : f.digest = some digest)
  | stdout (named : r.stdoutDigest = some digest)
  | stderr (named : r.stderrDigest = some digest)
  | tree (dir : OutputDirectory) (mem : dir ∈ r.outputDirectories) (named : dir.treeDigest = some digest)
  | treeFile (dir : OutputDirectory) (treeDigest : Digest) (tree : Tree) (f : FileNode)
      (mem : dir ∈ r.outputDirectories) (named : dir.treeDigest = some treeDigest)
      (held : TreeHeld env store instanceName algorithm treeDigest tree)
      (file : f ∈ tree.fileNodes) (fileNamed : f.digest = some digest)

/-- A tree with a root in which every file has a digest. -/
def Tree.WellFormed (tree : Tree) : Prop :=
  (∃ root, tree.root = some root) ∧ ∀ f ∈ tree.fileNodes, ∃ d, f.digest = some d

structure ArtifactsClosed (r : ActionResult) : Prop where
  files : ∀ f ∈ r.outputFiles, ∃ d, f.digest = some d
  trees : ∀ dir ∈ r.outputDirectories, ∃ d tree, dir.treeDigest = some d ∧
    TreeHeld env store instanceName algorithm d tree ∧ tree.WellFormed
  present : ∀ d, Referenced env store instanceName algorithm r d →
    store.Present (casKey instanceName algorithm d)

/-- Closed but for the empty blob, which the validation stores itself. -/
structure ArtifactsReady (r : ActionResult) : Prop where
  files : ∀ f ∈ r.outputFiles, ∃ d, f.digest = some d
  trees : ∀ dir ∈ r.outputDirectories, ∃ d tree, dir.treeDigest = some d ∧
    TreeHeld env store instanceName algorithm d tree ∧ tree.WellFormed
  present : ∀ d, Referenced env store instanceName algorithm r d →
    d = emptyDigest ∨ store.Present (casKey instanceName algorithm d)

end Closed

variable {store store' : InMemoryStore} {instanceName : String} {algorithm : DigestAlgorithm}
  {r : ActionResult}

theorem TreeHeld.unique {digest : Digest} {tree tree' : Tree}
    (h : TreeHeld env store instanceName algorithm digest tree)
    (h' : TreeHeld env store instanceName algorithm digest tree') : tree = tree' := by
  obtain ⟨bytes,hb,ht⟩ := h
  obtain ⟨bytes',hb',ht'⟩ := h'
  obtain rfl := hb.unique hb'
  exact Except.ok.inj (ht.symm.trans ht')

/-- Content keys keep their presence and their contents. -/
structure Grows (env : Externals) (store store' : InMemoryStore) : Prop where
  present : ∀ key, store.Present key → store'.Present key
  held : ∀ key d, key.kind = .contentAddressableStorage → store.Held env key d → store'.Held env key d

theorem Grows.treeHeld (hg : Grows env store store') {digest : Digest} {tree : Tree}
    (h : TreeHeld env store instanceName algorithm digest tree) :
    TreeHeld env store' instanceName algorithm digest tree := by
  obtain ⟨bytes,hb,ht⟩ := h
  exact ⟨bytes,hg.held _ bytes rfl hb,ht⟩

/-- A result whose trees are held refers to nothing new in a grown store. -/
theorem Referenced.earlier (hg : Grows env store store')
    (htrees : ∀ dir ∈ r.outputDirectories, ∃ d tree, dir.treeDigest = some d ∧
      TreeHeld env store instanceName algorithm d tree ∧ tree.WellFormed)
    {d : Digest} (hd : Referenced env store' instanceName algorithm r d) :
    Referenced env store instanceName algorithm r d := by
  cases hd with
  | file f mem named => exact .file f mem named
  | stdout named => exact .stdout named
  | stderr named => exact .stderr named
  | tree dir mem named => exact .tree dir mem named
  | treeFile dir treeDigest tree f mem named held file fileNamed =>
    obtain ⟨t,tree',ht,hheld,_⟩ := htrees dir mem
    obtain rfl := Option.some.inj (ht.symm.trans named)
    obtain rfl := (hg.treeHeld hheld).unique held
    exact .treeFile dir t tree' f mem named hheld file fileNamed

theorem ArtifactsClosed.ready (h : ArtifactsClosed env store instanceName algorithm r) :
    ArtifactsReady env store instanceName algorithm r :=
  ⟨h.files,h.trees,fun d hd => Or.inr (h.present d hd)⟩

theorem ArtifactsReady.grows (h : ArtifactsReady env store instanceName algorithm r)
    (hg : Grows env store store') : ArtifactsReady env store' instanceName algorithm r where
  files := h.files
  trees := by
    intro dir hdir
    obtain ⟨d,tree,hd,ht,hw⟩ := h.trees dir hdir
    exact ⟨d,tree,hd,hg.treeHeld ht,hw⟩
  present := fun d hd => (h.present d (hd.earlier hg h.trees)).imp_right (hg.present _)

theorem ArtifactsClosed.grows (h : ArtifactsClosed env store instanceName algorithm r)
    (hg : Grows env store store') : ArtifactsClosed env store' instanceName algorithm r where
  files := h.files
  trees := (h.ready.grows hg).trees
  present := fun d hd => hg.present _ (h.present d (hd.earlier hg h.trees))

theorem Lawful.grows {L log log' : List (StoreEntry Request)} (hL : Lawful env L) (hl : log <+: log')
    (hl' : log' <+: L) : Grows env (stored log) (stored log') where
  present := fun _ h => h.later hl
  held := fun _ _ hkind h => hL.held_later hl hl' hkind h

theorem collectFileDigests_ok {code : Code} {files : List FileNode} {ds : List Digest}
    (h : collectFileDigests code files = .ok ds) :
    List.Forall₂ (fun f d => f.digest = some d) files ds :=
  (mapM_eq_ok h).imp (fun _ _ h => okOr_eq_ok.mp h)

theorem collectFileDigests_total {files : List FileNode} (code : Code)
    (h : ∀ f ∈ files, ∃ d, f.digest = some d) : ∃ ds, collectFileDigests code files = .ok ds := by
  apply mapM_total
  intro f hf
  obtain ⟨d,hd⟩ := h f hf
  exact ⟨d,okOr_eq_ok.mpr hd⟩

theorem related_flatten {α β γ : Type} {R : β → γ → Prop} {g : α → List β} {l : List α}
    {outs : List (List γ)} (h : List.Forall₂ (fun a out => List.Forall₂ R (g a) out) l outs) :
    List.Forall₂ R (l.flatMap g) outs.flatten := by
  induction h with
  | nil => exact .nil
  | cons h _ ih =>
    rw [List.flatMap_cons, List.flatten_cons]
    exact List.rel_append h ih

/-- What is collected from a tree: the digests of all its files, in order. -/
theorem collectTreeFileDigests_ok {code : Code} {tree : Tree} {digests out : List Digest}
    (h : collectTreeFileDigests tree digests code = .ok out) :
    ∃ ds, out = digests ++ ds ∧ (∃ root, tree.root = some root) ∧
      List.Forall₂ (fun f d => f.digest = some d) tree.fileNodes ds := by
  obtain ⟨root,hroot,h⟩ := bind_eq_ok.mp h
  obtain ⟨rootDigests,hrd,h⟩ := bind_eq_ok.mp h
  obtain ⟨childDigests,hcd,h⟩ := bind_eq_ok.mp h
  obtain rfl := Except.ok.inj h
  rw [okOr_eq_ok] at hroot
  refine ⟨rootDigests ++ childDigests.flatten,List.append_assoc _ _ _,⟨root,hroot⟩,?_⟩
  have hchildren := related_flatten ((mapM_eq_ok hcd).imp (fun _ _ h => collectFileDigests_ok h))
  have hrootFiles : tree.root.toList.flatMap Directory.files = root.files := by simp [hroot]
  rw [Tree.fileNodes, hrootFiles]
  exact List.rel_append (collectFileDigests_ok hrd) hchildren

theorem collectTreeFileDigests_total {tree : Tree} (digests : List Digest) (code : Code)
    (h : tree.WellFormed) : ∃ out, collectTreeFileDigests tree digests code = .ok out := by
  obtain ⟨⟨root,hroot⟩,hfiles⟩ := h
  have hmem : ∀ f, f ∈ root.files ∨ (∃ child ∈ tree.children, f ∈ child.files) → f ∈ tree.fileNodes := by
    intro f hf
    simpa [Tree.fileNodes, hroot] using hf
  obtain ⟨rootDigests,hrd⟩ := collectFileDigests_total code
    (fun f hf => hfiles f (hmem f (Or.inl hf)))
  have hchildren : ∃ out, tree.children.mapM (fun child => collectFileDigests code child.files) = .ok out := by
    apply mapM_total
    intro child hc
    exact collectFileDigests_total code (fun f hf => hfiles f (hmem f (Or.inr ⟨child,hc,hf⟩)))
  obtain ⟨childDigests,hcd⟩ := hchildren
  exact ⟨_,by rw [collectTreeFileDigests, hroot, okOr_some, ok_bind, hrd, ok_bind, hcd, ok_bind]⟩

end ReapiCache
