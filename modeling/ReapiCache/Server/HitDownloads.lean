import ReapiCache.Server.CacheHits
import ReapiCache.Server.Lookups

/-! # Downloads after a cache hit

A get that succeeds has found an entry under the hash of every digest the result refers
to. It has not compared sizes, and the stream path does. So what a hit refers to can be
downloaded exactly when the result states the sizes that were recorded at the uploads.
-/
namespace ReapiCache
open Interaction ActionCacheService ByteStreamService
variable {env : Externals}

/-- The stream path delivers the blob of the digest, in full. -/
def Downloadable (env : Externals) (store : InMemoryStore) (instanceName : String) (digest : Digest) : Prop :=
  ∃ responses, Streamed env store instanceName digest responses ∧
    (streamed responses).length = digest.sizeBytes.toInt

section Store
variable {store : InMemoryStore} (hopen : store.poisoned = false) {instanceName : String} {digest : Digest}
include hopen

omit hopen in
/-- A name with a negative size is refused before the store is asked. -/
theorem not_streamed_of_negative (hplain : PlainInstance instanceName) (hslash : '/' ∉ digest.hash.toList)
    (hsize : digest.sizeBytes.toInt < 0) {responses : List ReadResponse} :
    ¬ Streamed env store instanceName digest responses := by
  have hparse := parse_render (blobName_readable hplain hslash .identity true)
  have herror : ∃ e, parseBytestreamResourceName (blobName instanceName .identity true digest).render = .error e := by
    by_cases hne : (blobName instanceName .identity true digest).hash = ""
    · rw [if_pos hne] at hparse
      exact ⟨_,hparse⟩
    · have hneg : (blobName instanceName .identity true digest).size.toInt < 0 := hsize
      rw [if_neg hne, if_pos hneg] at hparse
      exact ⟨_,hparse⟩
  obtain ⟨e,he⟩ := herror
  have htarget : readTarget ⟨(blobName instanceName .identity true digest).render,0,0⟩ =
      .error (Status.invalidArgument e.toString) := by
    rw [readTarget, he]
    rfl
  unfold Streamed
  simp only [execute, serve, Program.exec_map, read_eq, htarget, Failing.exec_bind, Failing.exec_ofExcept]
  rintro ⟨⟩

/-- A present digest is downloadable when its size is the recorded one, and only then. -/
theorem downloadable_iff (hint : CasIntegrity env store) (hplain : PlainInstance instanceName)
    (hpresent : store.Present (casKey instanceName .sha256 digest)) :
    Downloadable env store instanceName digest ↔ SizeRecorded store instanceName digest := by
  obtain ⟨b,hb⟩ := hpresent
  obtain ⟨d,hd,hhash⟩ := hint _ b rfl hb
  obtain ⟨hslash,hne⟩ : '/' ∉ digest.hash.toList ∧ digest.hash ≠ "" := hash_segment hhash
  by_cases hsize : digest.sizeBytes.toInt < 0
  · constructor
    · rintro ⟨responses,hr,_⟩
      exact absurd hr (not_streamed_of_negative hplain hslash hsize)
    · intro h
      have hrecorded := h b hb
      omega
  · have hcontent : ∀ responses, Streamed env store instanceName digest responses ↔ _ :=
      fun _ => streamed_content hopen hint hplain hslash hne (Int.not_lt.mp hsize)
    constructor
    · rintro ⟨responses,hr,_⟩ b' hb'
      obtain ⟨b'',d'',hb'',hd'',hlength,_⟩ := (hcontent responses).mp hr
      obtain rfl := Option.some.inj (hb'.symm.trans hb'')
      rw [hd''.uncompressedSize]
      exact hlength
    · intro h
      have hrecorded := h b hb
      rw [hd.uncompressedSize] at hrecorded
      refine ⟨_,(hcontent _).mpr ⟨b,d,hb,hd,hrecorded,rfl⟩,?_⟩
      rw [streamed_chunks, hrecorded]

end Store

section Handler
variable {P : Protocol InMemoryStore.handle Request} (hP : Orderly P) (hL : Lawful env P.history) {me : ℕ}
  {req : Request} {w : ServerWorld}
include hP hL

/-- A get that succeeds has validated its result, wherever the result came from. -/
theorem ensures_getActionResult_closed {g : GetActionResultRequest} :
    P.Ensures me req (getActionResult env g) w
      (fun r w' => ArtifactsClosed env w'.state g.instanceName .sha256 r) (fun _ => True) := by
  apply Protocol.ensures_ofExcept_bind (fun _ _ => trivial)
  intro digest _
  apply Protocol.ensures_ofExcept_bind (fun _ _ => trivial)
  intro algorithm _
  cases algorithm
  apply (ensures_storeGet hP.toReplaying).bind
  intro blob w₁ hw₁ _ _
  apply Protocol.ensures_ofExcept_bind (fun _ _ => trivial)
  intro r _
  apply (ensures_validate hP hL hw₁ (fun _ _ => trivial)).bind
  intro _ w₂ hw₂ _ hclosed
  exact Protocol.ensures_pure hw₂ (closed_stable hP hL r) hclosed

end Handler

/-- Everything the result refers to can be downloaded. -/
def ResultDownloadable (env : Externals) (store : InMemoryStore) (instanceName : String)
    (r : ActionResult) : Prop :=
  ∀ d, Referenced env store instanceName .sha256 r d → Downloadable env store instanceName d

/-- Every digest the result refers to has the size recorded under its hash. -/
def ResultSizesRecorded (env : Externals) (store : InMemoryStore) (instanceName : String)
    (r : ActionResult) : Prop :=
  ∀ d, Referenced env store instanceName .sha256 r d → SizeRecorded store instanceName d

/-- After a hit the result is closed in the store, from the return on. -/
theorem closed_of_hit (hz : env.ZstdRoundTrip) (he : env.HashesEmpty)
    {schedule : List (Interaction.Action Request)}
    (hc : CollisionFree env (serverFrom env schedule).world.log) {i : ℕ} {g : GetActionResultRequest}
    {r : ActionResult}
    (h : (serverFrom env schedule).Returned i (.getActionResult g) (.actionResult (.ok r))) :
    ArtifactsClosed env (serverFrom env schedule).world.state g.instanceName .sha256 r := by
  have hL := server_lawful hz he hc
  have hP := plain_orderly (serverFrom env schedule).world.log
  exact outcome_of_plain rfl (fun _ _ => Response.actionResult.inj) h
    (fun _ _ => ensures_getActionResult_closed hP hL)

theorem resultDownloadable_iff (hz : env.ZstdRoundTrip) (he : env.HashesEmpty)
    {schedule : List (Interaction.Action Request)}
    (hc : CollisionFree env (serverFrom env schedule).world.log) {i : ℕ} {g : GetActionResultRequest}
    {r : ActionResult} (hplain : PlainInstance g.instanceName)
    (h : (serverFrom env schedule).Returned i (.getActionResult g) (.actionResult (.ok r))) :
    ResultDownloadable env (serverFrom env schedule).world.state g.instanceName r ↔
      ResultSizesRecorded env (serverFrom env schedule).world.state g.instanceName r := by
  have hclosed := closed_of_hit hz he hc h
  obtain ⟨hopen,hint⟩ := serverFrom_sound hz he schedule
  have hone : ∀ d, Referenced env (serverFrom env schedule).world.state g.instanceName .sha256 r d →
      (Downloadable env (serverFrom env schedule).world.state g.instanceName d ↔
        SizeRecorded (serverFrom env schedule).world.state g.instanceName d) :=
    fun d hd => downloadable_iff hopen hint hplain (hclosed.present d hd)
  exact ⟨fun hall d hd => (hone d hd).mp (hall d hd),fun hall d hd => (hone d hd).mpr (hall d hd)⟩

namespace Reference

/-- Everything `result` refers to, wherever it is looked up. -/
theorem referenced_result {store : InMemoryStore} {instanceName : String} {d : Digest}
    (h : Referenced externals store instanceName .sha256 result d) : d = commandDigest ∨ d = treeDigest := by
  cases h with
  | file f mem named =>
    obtain rfl := List.mem_singleton.mp mem
    exact Or.inl (Option.some.inj named).symm
  | stdout named => cases named
  | stderr named => cases named
  | tree dir mem named =>
    obtain rfl := List.mem_singleton.mp mem
    exact Or.inr (Option.some.inj named).symm
  | treeFile dir treeDigest tree f mem named held file fileNamed =>
    obtain ⟨bytes,_,hdecode⟩ := held
    have htree : decodeTree bytes = .ok tree := hdecode
    unfold decodeTree at htree
    split at htree
    · obtain rfl := Except.ok.inj htree
      obtain rfl := List.mem_singleton.mp file
      exact Or.inl (Option.some.inj fileNamed).symm
    · cases htree

/-- The sizes recorded for the command and the tree. -/
theorem readingRun_sizes :
    ((serverFrom externals readingRun).world.state.blobs
        (CasService.casKey "main" .sha256 commandDigest.hash)).map (fun b => b.metadata.uncompressedSize) =
      some 4 ∧
      ((serverFrom externals readingRun).world.state.blobs
        (CasService.casKey "main" .sha256 treeDigest.hash)).map (fun b => b.metadata.uncompressedSize) =
      some 77 := by
  decide +kernel

theorem missizedRun_size :
    ((serverFrom externals missizedRun).world.state.blobs (CasService.casKey "main" .sha256 commandHash)).map
      (fun b => b.metadata.uncompressedSize) = some 4 := by
  decide +kernel

theorem returned_reading : (serverFrom externals readingRun).Returned 2 (.getActionResult getRequest)
    (.actionResult (.ok result)) := returned_of_answer rfl (by decide +kernel)

theorem returned_missized : (serverFrom externals missizedRun).Returned 2 (.getActionResult getRequest)
    (.actionResult (.ok missized)) := returned_of_answer rfl (by decide +kernel)

end Reference

open Reference in
theorem resultDownloadable_reading :
    ResultDownloadable externals (serverFrom externals readingRun).world.state "main" result := by
  have hsizes : ResultSizesRecorded externals (serverFrom externals readingRun).world.state "main" result := by
    intro d hd
    rcases referenced_result hd with rfl | rfl
    · exact (sizeRecorded_iff commandDigest readingRun_sizes.1).mpr rfl
    · exact (sizeRecorded_iff treeDigest readingRun_sizes.2).mpr rfl
  exact (resultDownloadable_iff zstdRoundTrip hashBytes_empty (collisionFree (by decide +kernel))
    plainInstance_main returned_reading).mpr hsizes

open Reference in
theorem resultDownloadable_fails : PlainInstance "main" ∧
    CollisionFree externals (serverFrom externals missizedRun).world.log ∧
    (serverFrom externals missizedRun).Returned 2 (.getActionResult getRequest) (.actionResult (.ok missized)) ∧
    (serverFrom externals missizedRun.dropLast).answer 2 = none ∧
    ¬ ResultDownloadable externals (serverFrom externals missizedRun).world.state "main" missized := by
  refine ⟨plainInstance_main,collisionFree (by decide +kernel),returned_missized,by decide +kernel,?_⟩
  intro h
  have hfile : Referenced externals (serverFrom externals missizedRun).world.state "main" .sha256 missized
      oversized := .file _ List.mem_cons_self rfl
  have hpresent : (serverFrom externals missizedRun).world.state.Present (casKey "main" .sha256 oversized) := by
    obtain ⟨b,hb,_⟩ := Option.map_eq_some_iff.mp missizedRun_size
    exact ⟨b,hb⟩
  obtain ⟨hopen,hint⟩ := serverFrom_sound zstdRoundTrip hashBytes_empty missizedRun
  have hrecorded := (downloadable_iff hopen hint plainInstance_main hpresent).mp (h oversized hfile)
  exact absurd ((sizeRecorded_iff oversized missizedRun_size).mp hrecorded) (by decide)

end ReapiCache
