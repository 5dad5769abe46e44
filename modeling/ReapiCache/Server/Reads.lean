import ReapiCache.Server.CacheHits
import ReapiCache.Services.Downloads

/-! # Reads never fail internally

Behind the error branches of the three reading handlers stand facts about what is
stored: contents have the hash and the size their entry states, cached results decode,
and the trees they refer to decode. All of them hold in every reachable state.
-/
namespace ReapiCache
open Interaction ByteStreamService
variable {env : Externals}

section Handlers
variable {P : Protocol InMemoryStore.handle Request} (hP : Orderly P) (hL : Lawful env P.history)
  (hcomp : env.CompressionTotal) {me : ℕ} {req : Request} {w : ServerWorld} {E : Status → Prop}
include hP hL hcomp

theorem ensures_read {r : ReadRequest} (hE : ∀ s : Status, s.code ≠ .internal → E s) :
    P.Ensures me req (read env r) w (fun _ _ => True) E := by
  rw [read_eq]
  apply Protocol.ensures_ofExcept_bind
  · intro s hs
    exact hE s (readTarget_error hs)
  intro target htarget
  obtain ⟨_,_,_,hkey⟩ := readTarget_eq_ok htarget
  have hk := resolveBlobKey_eq_ok hkey
  apply (ensures_storeGet hP.toReplaying).bind
  rintro blob w' hw' _ ⟨wr,hwr,_,_,rfl⟩
  apply Protocol.ensures_ofExcept hw' (fun _ _ _ _ _ _ _ => trivial) ?_ (fun _ _ => trivial)
  intro s hs
  apply hE
  cases hb : wr.state.blobs target.key with
  | none =>
    rw [hb, Option.map_none, answerRead_none] at hs
    obtain rfl := Except.error.inj hs
    exact show Code.notFound ≠ Code.internal by decide
  | some b =>
    rw [hb, Option.map_some] at hs
    have hkind : target.key.kind = .contentAddressableStorage := by rw [hk]
    obtain ⟨d,hd,hhash⟩ := hP.holds_of_entry hL hkind hwr hb
    have hname : target.key.hash = target.parsed.hash := by rw [hk]
    exact answerRead_not_internal target hL.zstd hcomp hd (hhash.trans hname) hs

/-- A whole blob that is held when a read of it starts is streamed. -/
theorem ensures_read_held {name : String} {target : ReadTarget} {d : Bytes} (hw : P.inv w)
    (htarget : readTarget ⟨name,0,0⟩ = .ok target) (hheld : w.state.Held env target.key d)
    (hsize : target.parsed.expectedSize.toInt = d.length) :
    P.Ensures me req (read env ⟨name,0,0⟩) w
      (fun responses _ => Decodes env target.responseEncoding (streamed responses) d) E := by
  rw [read_eq]
  apply Protocol.ensures_ok_bind htarget
  obtain ⟨_,_,_,hkey⟩ := readTarget_eq_ok htarget
  have hk := resolveBlobKey_eq_ok hkey
  have hkind : target.key.kind = .contentAddressableStorage := by rw [hk]
  have hname : target.key.hash = target.parsed.hash := by rw [hk]
  apply (ensures_storeGet hP.toReplaying).bind
  rintro blob w' hw' _ ⟨wr,hwr,hl,_,rfl⟩
  obtain ⟨b,hb,hd⟩ := hP.held_stable hL hkind d w wr hw hwr hl hheld
  obtain ⟨d',hd',hhash⟩ := hP.holds_of_entry hL hkind hwr hb
  obtain rfl := hd.unique hd'
  obtain ⟨responses,hresp,hdec⟩ := answerRead_whole target hL.zstd hcomp hd (hhash.trans hname) hsize name
  rw [hb, Option.map_some, hresp]
  apply Protocol.ensures_ofExcept hw' (fun _ _ _ _ _ _ h => h)
  · rintro s ⟨⟩
  · rintro _ ⟨⟩
    exact hdec

omit hP hL hcomp in
/-- What a batch read answers for one digest, from what was held when it started. -/
def BatchAnswer (env : Externals) (instanceName : String) (start : ServerWorld) (digest : Digest)
    (response : BlobReadResponse) : Prop :=
  ∃ status, response.digest = some digest ∧ response.status = some status ∧ status.code ≠ 13 ∧
    ∀ d, start.state.Held env (CasService.casKey instanceName .sha256 digest.hash) d →
      status.code = 0 ∧ ∃ encoding, response.compressor = StorageEncoding.asProtoValue env encoding ∧
        Decodes env encoding response.data d

theorem ensures_batchReadBlob {start : ServerWorld} (hstart : P.inv start) (hl : start.log <+: w.log)
    {instanceName : String} {acceptable : List StorageEncoding} {responses : List BlobReadResponse}
    {digest : Digest} :
    P.Ensures me req (CasService.batchReadBlob env instanceName .sha256 acceptable responses digest) w
      (fun out _ => ∃ response, out = responses ++ [response] ∧
        BatchAnswer env instanceName start digest response) E := by
  have hattempt : P.Ensures me req (Failing.attempt (.get (CasService.casKey instanceName .sha256 digest.hash))
      (fun r => .ok (CasService.blobReadResponse env acceptable digest r))) w
      (fun response _ => BatchAnswer env instanceName start digest response) E := by
    apply Protocol.ensures_attempt
    · intro w' hw' _
      exact hP.free me req _ w' hw' (by rintro _ _ _ ⟨⟩)
    · intro _ _ _ _ _ _ h
      exact h
    · intro w' hw' hl' _
      simp only [InMemoryStore.handle_get, InMemoryStore.get_eq (hP.poisoned hw'), Protocol.Outcome]
      cases hb : w'.state.blobs (CasService.casKey instanceName .sha256 digest.hash) with
      | none =>
        refine ⟨_,rfl,rfl,show (5 : Int32) ≠ 13 by decide,?_⟩
        intro d hd
        obtain ⟨b,hb',_⟩ := hP.held_stable hL rfl d start w' hstart hw' (hl.trans hl') hd
        rw [hb] at hb'
        cases hb'
      | some b =>
        obtain ⟨d,hd,_⟩ := hP.holds_of_entry hL rfl hw' hb
        obtain ⟨data,encoding,hresp,hdec⟩ :=
          CasService.blobReadResponse_of_holds hcomp hL.zstd acceptable digest hd
        rw [Option.map_some, hresp]
        refine ⟨_,rfl,rfl,show (0 : Int32) ≠ 13 by decide,?_⟩
        intro d' hd'
        have hd'' := hP.held_stable hL rfl d' start w' hstart hw' (hl.trans hl') hd'
        obtain rfl := hd''.unique ⟨b,hb,hd⟩
        exact ⟨rfl,encoding,rfl,hdec⟩
  apply hattempt.bind
  intro response w' hw' _ h
  exact Protocol.ensures_pure hw' (fun _ _ _ _ _ h => h) ⟨response,rfl,h⟩

theorem ensures_batchReadBlobs {r : BatchReadBlobsRequest} (hw : P.inv w)
    (hE : ∀ s, DigestAlgorithm.resolveProtoValue env r.digestFunction ≠ .ok .sha256 → E s) :
    P.Ensures me req (CasService.batchReadBlobs env r) w
      (fun resp _ => List.Forall₂ (BatchAnswer env r.instanceName w) r.digests resp.responses) E := by
  apply Protocol.ensures_ofExcept_bind
  · intro s hs
    apply hE
    intro hok
    rw [hok] at hs
    cases hs
  intro algorithm _
  cases algorithm
  apply Protocol.Ensures.bind (Protocol.ensures_foldlM
    (fun pre acc w' => w.log <+: w'.log ∧ List.Forall₂ (BatchAnswer env r.instanceName w) pre acc)
    ?_ r.digests ?_ [] [] w hw ⟨List.prefix_refl _,.nil⟩)
  · intro responses w' hw' _ h
    exact Protocol.ensures_pure hw' (fun _ _ _ _ _ h => h) h.2
  · rintro pre acc a b _ _ hab ⟨hl,h⟩
    exact ⟨hl.trans hab,h⟩
  · rintro pre digest acc w' _ _ ⟨hl,h⟩
    apply (ensures_batchReadBlob hP hL hcomp hw hl).imp
    rintro out w'' _ hl' ⟨response,rfl,hr⟩
    exact ⟨hl.trans hl',List.rel_append h (.cons hr .nil)⟩

end Handlers

/-- Request `i` has not failed internally in a reading handler. -/
structure NoInternalFailure (c : ServerConfig) (i : ℕ) : Prop where
  read : ∀ r s, c.Returned i (.read r) (.read (.error s)) → s.code ≠ .internal
  batchReadBlobs : ∀ r responses, c.Returned i (.batchReadBlobs r) (.batchReadBlobs (.ok ⟨responses⟩)) →
    ∀ response ∈ responses, ∀ status, response.status = some status → status.code ≠ 13
  getActionResult : ∀ g s, c.Returned i (.getActionResult g) (.actionResult (.error s)) →
    s.code ≠ .internal

theorem reads_never_internal (hz : env.ZstdRoundTrip) (he : env.HashesEmpty) (hcomp : env.CompressionTotal)
    {schedule : List (Interaction.Action Request)} (hp : env.ProstRoundTrip (submitted (startedBy schedule)))
    (hc : CollisionFree env (serverFrom env schedule).world.log) (i : ℕ) :
    NoInternalFailure (serverFrom env schedule) i := by
  have hL := server_lawful hz he hc
  have hP := plain_orderly (serverFrom env schedule).world.log
  refine ⟨?_,?_,?_⟩
  · intro r s h
    exact outcome_of_plain (E := fun s => s.code ≠ .internal) rfl (fun _ _ => Response.read.inj) h
      (fun _ _ => ensures_read hP hL hcomp (fun _ h => h))
  · intro r responses h response hmem status hstatus
    obtain ⟨start,hall⟩ := outcome_of_plain (E := fun _ => True) rfl (fun _ _ => Response.batchReadBlobs.inj) h
      (fun w hw => (ensures_batchReadBlobs hP hL hcomp hw (fun _ _ => trivial)).imp
        (fun _ _ _ _ hall => Exists.intro w hall))
    obtain ⟨digest,_,status',_,hs,hcode,_⟩ := mem_of_related hall hmem
    obtain rfl := Option.some.inj (hs.symm.trans hstatus)
    exact hcode
  · intro g s h
    exact outcome_of_closing (Q := fun _ _ => True) (E := fun s => s.code ≠ .internal) rfl
      (fun _ _ => Response.actionResult.inj) hp hL h
      (fun _ hw => (ensures_getActionResult hL hw (fun _ hcode _ => hcode)).imp (fun _ _ _ _ _ => trivial))

theorem reads_never_internal_reading :
    (serverFrom Reference.externals Reference.readingRun).answer 2 =
        some (.actionResult (.ok Reference.result)) ∧
      NoInternalFailure (serverFrom Reference.externals Reference.readingRun) 2 :=
  ⟨by decide +kernel,reads_never_internal Reference.zstdRoundTrip Reference.hashBytes_empty
    Reference.compressionTotal (Reference.prostRoundTrip _) (Reference.collisionFree (by decide +kernel)) 2⟩

end ReapiCache
