import ReapiCache.Server.Collection

/-! # Which results validation accepts

The collected digests are checked in order. The one thing the validation stores on the
way is the empty blob, under a key that carries no size, so what follows it in the list
may be found there.
-/
namespace ReapiCache
open Interaction ActionCacheService
variable {env : Externals}

/-- The entry the validation stores for the empty blob. -/
def emptyEntry : StoredBlob := ⟨[],⟨.identity,0,0⟩⟩

section Complete
variable (store : InMemoryStore) (instanceName : String) (algorithm : DigestAlgorithm)

/-- Checked after others, the digest has an entry. -/
inductive Available (checked : List Digest) (digest : Digest) : Prop
  | present (h : store.Present (casKey instanceName algorithm digest))
  | empty (h : digest = emptyDigest)
  | stored (hash : digest.hash = EMPTY_SHA256) (mem : emptyDigest ∈ checked)

/-- Every digest of the list is available when its turn comes. -/
def AllAvailable (checked digests : List Digest) : Prop :=
  ∀ before d after, digests = before ++ d :: after →
    Available store instanceName algorithm (checked ++ before) d

variable (env) in
structure ArtifactsComplete (r : ActionResult) : Prop where
  files : ∀ f ∈ r.outputFiles, ∃ d, f.digest = some d
  directories : ∀ dir ∈ r.outputDirectories, DirectoryPasses env store instanceName algorithm dir
  available : AllAvailable store instanceName algorithm [] (listedDigests env store instanceName algorithm r)

end Complete

/-- The store after some digests have been checked. -/
def afterChecks (store : InMemoryStore) (instanceName : String) (algorithm : DigestAlgorithm)
    (checked : List Digest) : InMemoryStore :=
  if emptyDigest ∈ checked then store.set (casKey instanceName algorithm emptyDigest) emptyEntry else store

section Checks
variable {store : InMemoryStore} {instanceName : String} {algorithm : DigestAlgorithm} {code : Code}

@[simp] theorem afterChecks_nil : afterChecks store instanceName algorithm [] = store := rfl

@[simp] theorem afterChecks_poisoned (checked : List Digest) :
    (afterChecks store instanceName algorithm checked).poisoned = store.poisoned := by
  unfold afterChecks
  by_cases h : emptyDigest ∈ checked
  · rw [if_pos h, InMemoryStore.set_poisoned]
  · rw [if_neg h]

theorem afterChecks_blobs (checked : List Digest) (key : BlobKey) :
    (afterChecks store instanceName algorithm checked).blobs key =
      if emptyDigest ∈ checked ∧ key = casKey instanceName algorithm emptyDigest then some emptyEntry
      else store.blobs key := by
  unfold afterChecks
  by_cases h : emptyDigest ∈ checked
  · by_cases hkey : key = casKey instanceName algorithm emptyDigest
    · rw [if_pos h, if_pos ⟨h,hkey⟩, hkey, InMemoryStore.set_blobs_self]
    · rw [if_pos h, if_neg (fun hboth => hkey hboth.2), InMemoryStore.set_blobs_of_ne hkey]
  · rw [if_neg h, if_neg (fun hboth => h hboth.1)]

theorem set_set (key : BlobKey) (b : StoredBlob) : (store.set key b).set key b = store.set key b := by
  simp [InMemoryStore.set]

/-- Only a check of the empty blob changes the store. -/
theorem afterChecks_concat (checked : List Digest) (digest : Digest) :
    afterChecks store instanceName algorithm (checked ++ [digest]) =
      if digest = emptyDigest then
        (afterChecks store instanceName algorithm checked).set
          (casKey instanceName algorithm emptyDigest) emptyEntry
      else afterChecks store instanceName algorithm checked := by
  unfold afterChecks
  by_cases h : emptyDigest ∈ checked
  · by_cases hd : digest = emptyDigest
    · rw [if_pos (by simp [h]), if_pos hd, if_pos h, set_set]
    · rw [if_pos (by simp [h]), if_neg hd, if_pos h]
  · by_cases hd : digest = emptyDigest
    · rw [if_pos (by simp [hd]), if_pos hd, if_neg h]
    · rw [if_neg (by simp [h, Ne.symm hd]), if_neg hd, if_neg h]

/-- One check: it passes when the digest is available, and then the empty blob is stored
if it is the one checked. -/
theorem exec_checkArtifact (hopen : store.poisoned = false) (instanceName : String)
    (algorithm : DigestAlgorithm) (code : Code) (checked : List Digest) (digest : Digest) :
    (Available store instanceName algorithm checked digest →
      (checkArtifact instanceName algorithm code digest).run.exec InMemoryStore.handle
          (afterChecks store instanceName algorithm checked) =
        (.ok (),afterChecks store instanceName algorithm (checked ++ [digest]))) ∧
    (¬ Available store instanceName algorithm checked digest → ∃ message,
      (checkArtifact instanceName algorithm code digest).run.exec InMemoryStore.handle
          (afterChecks store instanceName algorithm checked) =
        (.error ⟨code,message⟩,afterChecks store instanceName algorithm checked)) := by
  have hopen' : (afterChecks store instanceName algorithm checked).poisoned = false := by
    rw [afterChecks_poisoned, hopen]
  unfold checkArtifact
  rw [afterChecks_concat]
  by_cases he : digest = emptyDigest
  · subst he
    refine ⟨fun _ => ?_,fun h => absurd (.empty rfl) h⟩
    rw [if_pos ((isEmpty_iff _).mpr rfl), if_pos rfl]
    simp only [storePut, Failing.exec_attempt, InMemoryStore.handle_put, InMemoryStore.put_eq hopen', mapError_ok]
    rfl
  · rw [if_neg (fun h => he ((isEmpty_iff _).mp h)), if_neg he]
    simp only [Failing.exec_bind, storeContains, Failing.exec_attempt, InMemoryStore.handle_contains,
      InMemoryStore.contains_eq hopen', mapError_ok]
    have hpresent : ((afterChecks store instanceName algorithm checked).blobs
        (casKey instanceName algorithm digest)).isSome = true ↔
          Available store instanceName algorithm checked digest := by
      rw [afterChecks_blobs]
      by_cases hs : emptyDigest ∈ checked ∧ casKey instanceName algorithm digest = casKey instanceName algorithm emptyDigest
      · have hhash : digest.hash = EMPTY_SHA256 := congrArg BlobKey.hash hs.2
        rw [if_pos hs]
        exact iff_of_true rfl (.stored hhash hs.1)
      · rw [if_neg hs, Option.isSome_iff_exists]
        constructor
        · exact fun h => .present h
        · rintro (h | h | ⟨hhash,hmem⟩)
          · exact h
          · exact absurd h he
          · refine absurd ⟨hmem,?_⟩ hs
            simp only [casKey, hhash, emptyDigest]
    rw [← hpresent]
    cases ((afterChecks store instanceName algorithm checked).blobs
        (casKey instanceName algorithm digest)).isSome with
    | true => exact ⟨fun _ => rfl,fun h => absurd rfl h⟩
    | false => exact ⟨fun h => absurd h (by simp),fun _ => ⟨_,rfl⟩⟩

theorem allAvailable_cons {checked digests : List Digest} {digest : Digest} :
    AllAvailable store instanceName algorithm checked (digest :: digests) ↔
      Available store instanceName algorithm checked digest ∧
        AllAvailable store instanceName algorithm (checked ++ [digest]) digests := by
  constructor
  · intro h
    refine ⟨by simpa using h [] digest digests rfl,?_⟩
    intro before d after hsplit
    rw [List.append_assoc]
    exact h (digest :: before) d after (by rw [hsplit]; rfl)
  · rintro ⟨hhead,htail⟩ before d after hsplit
    cases before with
    | nil =>
      obtain ⟨rfl,_⟩ := List.cons_eq_cons.mp hsplit
      simpa using hhead
    | cons x before =>
      obtain ⟨rfl,hrest⟩ := List.cons_eq_cons.mp hsplit
      simpa [List.append_assoc] using htail before d after hrest

/-- All checks: they pass when every digest is available in its turn. -/
theorem exec_checkArtifacts (hopen : store.poisoned = false) (instanceName : String)
    (algorithm : DigestAlgorithm) (code : Code) (digests checked : List Digest) :
    (AllAvailable store instanceName algorithm checked digests →
      (digests.foldlM (fun _ digest => checkArtifact instanceName algorithm code digest) ()).run.exec
          InMemoryStore.handle (afterChecks store instanceName algorithm checked) =
        (.ok (),afterChecks store instanceName algorithm (checked ++ digests))) ∧
    (¬ AllAvailable store instanceName algorithm checked digests → ∃ message n,
      (digests.foldlM (fun _ digest => checkArtifact instanceName algorithm code digest) ()).run.exec
          InMemoryStore.handle (afterChecks store instanceName algorithm checked) =
        (.error ⟨code,message⟩,afterChecks store instanceName algorithm (checked ++ digests.take n))) := by
  induction digests generalizing checked with
  | nil =>
    refine ⟨fun _ => by rw [List.append_nil]; rfl,fun h => absurd ?_ h⟩
    intro before d after hsplit
    simp at hsplit
  | cons digest digests ih =>
    obtain ⟨hpasses,hfails⟩ := exec_checkArtifact hopen instanceName algorithm code checked digest
    obtain ⟨hrest,hrest'⟩ := ih (checked ++ [digest])
    simp only [List.append_assoc, List.singleton_append] at hrest hrest'
    rw [allAvailable_cons, List.foldlM_cons, Failing.exec_bind]
    constructor
    · rintro ⟨hhead,htail⟩
      rw [hpasses hhead]
      exact hrest htail
    · intro h
      by_cases hhead : Available store instanceName algorithm checked digest
      · obtain ⟨message,n,hexec⟩ := hrest' (fun htail => h ⟨hhead,htail⟩)
        rw [hpasses hhead]
        exact ⟨message,n + 1,hexec⟩
      · obtain ⟨message,hexec⟩ := hfails hhead
        rw [hexec]
        exact ⟨message,0,by simp⟩

end Checks

section Validation
variable (env) {store : InMemoryStore} (hopen : store.poisoned = false) (instanceName : String)
  (algorithm : DigestAlgorithm) (code : Code) (r : ActionResult)
include hopen

/-- How a validation ends, and which digests it has checked until then. -/
theorem exec_validate_cases :
    (ArtifactsComplete env store instanceName algorithm r ∧
      (validateActionResultArtifacts env instanceName algorithm r code).run.exec InMemoryStore.handle store =
        (.ok (),afterChecks store instanceName algorithm (listedDigests env store instanceName algorithm r))) ∨
    (¬ ArtifactsComplete env store instanceName algorithm r ∧ ∃ s n,
      (validateActionResultArtifacts env instanceName algorithm r code).run.exec InMemoryStore.handle store =
        (.error s,afterChecks store instanceName algorithm
          ((listedDigests env store instanceName algorithm r).take n)) ∧
      (InternalFailure env store instanceName algorithm r ∧ s.code = .internal ∨
        ¬ InternalFailure env store instanceName algorithm r ∧ s.code = code)) := by
  rw [exec_validate hopen, Failing.exec_bind, Failing.exec_ofExcept]
  cases hcollect : collectResult env store instanceName algorithm code r with
  | error s =>
    refine Or.inr ⟨?_,s,0,rfl,collectResult_error hcollect⟩
    intro hcomplete
    rw [collectResult_eq_ok.mpr ⟨hcomplete.files,hcomplete.directories,rfl⟩] at hcollect
    cases hcollect
  | ok digests =>
    obtain ⟨hfiles,hdirs,rfl⟩ := collectResult_eq_ok.mp hcollect
    obtain ⟨hpasses,hfails⟩ := exec_checkArtifacts hopen instanceName algorithm code
      (listedDigests env store instanceName algorithm r) []
    by_cases havailable : AllAvailable store instanceName algorithm []
        (listedDigests env store instanceName algorithm r)
    · exact Or.inl ⟨⟨hfiles,hdirs,havailable⟩,hpasses havailable⟩
    · obtain ⟨message,n,hexec⟩ := hfails havailable
      refine Or.inr ⟨fun hcomplete => havailable hcomplete.available,_,n,hexec,Or.inr ⟨?_,rfl⟩⟩
      rintro ⟨_,before,dir,after,hsplit,_,hbroken⟩
      have hmem : dir ∈ r.outputDirectories := by
        rw [hsplit]
        exact List.mem_append_right _ List.mem_cons_self
      exact hbroken.not_passes (hdirs dir hmem)

end Validation

/-- The outcome of a validation on its own. -/
def validated (env : Externals) (store : InMemoryStore) (instanceName : String) (algorithm : DigestAlgorithm)
    (r : ActionResult) (code : Code) : Except Status Unit :=
  ((validateActionResultArtifacts env instanceName algorithm r code).run.exec InMemoryStore.handle store).1

/-- The validation accepts the complete results, and says why it refuses another. -/
structure ValidationExact (env : Externals) (store : InMemoryStore) (instanceName : String)
    (algorithm : DigestAlgorithm) (r : ActionResult) (code : Code) : Prop where
  accepts : validated env store instanceName algorithm r code = .ok () ↔
    ArtifactsComplete env store instanceName algorithm r
  internal : ∀ s, validated env store instanceName algorithm r code = .error s →
    InternalFailure env store instanceName algorithm r → s.code = .internal
  missing : ∀ s, validated env store instanceName algorithm r code = .error s →
    ¬ InternalFailure env store instanceName algorithm r → s.code = code

section Outcome
variable {store : InMemoryStore} (hopen : store.poisoned = false) {instanceName : String}
  {algorithm : DigestAlgorithm} {r : ActionResult} {code : Code}
include hopen

theorem validated_eq_ok : validated env store instanceName algorithm r code = .ok () ↔
    ArtifactsComplete env store instanceName algorithm r := by
  unfold validated
  rcases exec_validate_cases env hopen instanceName algorithm code r with
    ⟨hcomplete,hexec⟩ | ⟨hnot,s,n,hexec,_⟩
  · rw [hexec]
    exact iff_of_true rfl hcomplete
  · rw [hexec]
    refine iff_of_false ?_ hnot
    rintro ⟨⟩

theorem validated_error {s : Status} (h : validated env store instanceName algorithm r code = .error s) :
    InternalFailure env store instanceName algorithm r ∧ s.code = .internal ∨
      ¬ InternalFailure env store instanceName algorithm r ∧ s.code = code := by
  unfold validated at h
  rcases exec_validate_cases env hopen instanceName algorithm code r with
    ⟨_,hexec⟩ | ⟨_,s',n,hexec,hcode⟩
  · rw [hexec] at h
    cases h
  · rw [hexec] at h
    obtain rfl : s' = s := Except.error.inj h
    exact hcode

end Outcome

theorem validation_exact {store : InMemoryStore} (hopen : store.poisoned = false) (instanceName : String)
    (algorithm : DigestAlgorithm) (r : ActionResult) (code : Code) :
    ValidationExact env store instanceName algorithm r code where
  accepts := validated_eq_ok hopen
  internal := by
    intro s hs hinternal
    rcases validated_error hopen hs with ⟨_,hcode⟩ | ⟨hmissing,_⟩
    · exact hcode
    · exact absurd hinternal hmissing
  missing := by
    intro s hs hmissing
    rcases validated_error hopen hs with ⟨hinternal,_⟩ | ⟨_,hcode⟩
    · exact absurd hinternal hmissing
    · exact hcode

open Reference in
/-- After the upload the result of the examples is complete. -/
theorem validation_exact_uploadRun :
    ArtifactsComplete externals (serverFrom externals uploadRun).world.state "main" .sha256 result := by
  have hvalidated : validated externals (serverFrom externals uploadRun).world.state "main" .sha256 result
      .notFound = .ok () := by decide +kernel
  exact (validation_exact (serverFrom_open uploadRun) "main" .sha256 result .notFound).accepts.mp hvalidated

end ReapiCache
