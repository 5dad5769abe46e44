import ReapiCache.Abstract.Parts
import ReapiCache.Abstract.Server

/-! # Which requests are atomic

Every request but a lookup of a result goes on only after it has found what it asked for,
so its last call decides it. A lookup is decided by the result it finds: the result was
checked when it was published, and what was found then is still there.
-/
namespace ReapiCache.Abstract
open Interaction ActionCacheService
variable {env : Externals}

/-- The blob that validation stores without being given it. -/
def EmptyBlob (address : Locator) (content : Bytes) : Prop := address.hash = EMPTY_SHA256 ∧ content = []

abbrev Settles : (op : BlobCall) → op.Ret → Prop := Cache.Confirmed EmptyBlob

section Patience

theorem patient_fetch {ε α : Type} {address : Locator} {final : Except ε α → Prop}
    {f : Option Bytes → CacheHandler ε α} (hnone : ∃ out, (f none).run = .done out ∧ final out)
    (hsome : ∀ x, (f (some x)).run.Patient Settles final) : (fetch address >>= f).run.Patient Settles final := by
  apply Failing.patient_attempt_bind
  rintro (found : Option Bytes)
  cases found with
  | none => exact Or.inl hnone
  | some x => exact Or.inr ⟨⟨x,rfl⟩,hsome x⟩

theorem patient_holds {ε α : Type} {address : Locator} {final : Except ε α → Prop}
    {f : Bool → CacheHandler ε α} (habsent : ∃ out, (f false).run = .done out ∧ final out)
    (hpresent : (f true).run.Patient Settles final) : (holds address >>= f).run.Patient Settles final := by
  apply Failing.patient_attempt_bind
  rintro (found : Bool)
  cases found with
  | false => exact Or.inl habsent
  | true => exact Or.inr ⟨rfl,hpresent⟩

theorem collectOutputDirectory_patient (instanceName : String) (algorithm : DigestAlgorithm) (code : Code)
    (digests : List Digest) (dir : OutputDirectory) :
    Failing.Patient Settles (collectOutputDirectory env instanceName algorithm code digests dir) := by
  apply Failing.Patient.bind (Failing.patient_ofExcept _)
  intro treeDigest
  apply patient_fetch
  · exact ⟨_,rfl,_,rfl⟩
  · intro x
    apply Failing.Patient.bind (Failing.patient_ofExcept _)
    intro tree
    exact Failing.patient_ofExcept _

theorem checkArtifact_patient (instanceName : String) (algorithm : DigestAlgorithm) (code : Code)
    (digest : Digest) : Failing.Patient Settles (checkArtifact instanceName algorithm code digest) := by
  unfold checkArtifact
  by_cases hempty : digest.sizeBytes = 0 ∧ digest.hash = EMPTY_SHA256
  · rw [if_pos hempty]
    exact fun _ => Or.inr ⟨⟨hempty.2,rfl⟩,trivial⟩
  · rw [if_neg hempty]
    exact patient_holds ⟨_,rfl,_,rfl⟩ trivial

theorem validateArtifacts_patient (instanceName : String) (algorithm : DigestAlgorithm) (r : ActionResult)
    (code : Code) : Failing.Patient Settles (validateArtifacts env instanceName algorithm r code) := by
  apply Failing.Patient.bind (Failing.patient_ofExcept _)
  intro fileDigests
  apply Failing.Patient.bind
  · exact Failing.patient_foldlM (fun digests dir _ => collectOutputDirectory_patient _ _ _ digests dir) _
  · intro digests
    exact Failing.patient_foldlM (fun _ digest _ => checkArtifact_patient _ _ _ digest) _

theorem updateActionResult_patient (q : UpdateActionResultRequest) :
    (updateActionResult env q).run.Patient Settles (fun _ => True) := by
  apply (Failing.patient_ofExcept _).run_bind ?_ (fun _ => trivial)
  intro digest
  apply (Failing.patient_ofExcept _).run_bind ?_ (fun _ => trivial)
  intro r
  apply (Failing.patient_ofExcept _).run_bind ?_ (fun _ => trivial)
  intro algorithm
  apply patient_fetch ⟨_,rfl,trivial⟩
  intro x
  apply (Failing.patient_ofExcept _).run_bind ?_ (fun _ => trivial)
  intro command
  apply patient_holds ⟨_,rfl,trivial⟩
  apply (validateArtifacts_patient _ _ r _).run_bind ?_ (fun _ => trivial)
  intro _
  apply (Failing.patient_ofExcept _).run_bind ?_ (fun _ => trivial)
  intro _
  -- the publication is the last call
  exact fun _ => Or.inl ⟨_,rfl,trivial⟩

section Single
variable {settles : (op : BlobCall) → op.Ret → Prop}

theorem read_patient (r : ReadRequest) : (read env r).run.Patient settles (fun _ => True) := by
  apply (Failing.patient_ofExcept _).run_bind ?_ (fun _ => trivial)
  intro target
  exact fun _ => Or.inl ⟨_,rfl,trivial⟩

theorem write_patient (s : WriteStream) : (write env s).run.Patient settles (fun _ => True) := by
  apply (Failing.patient_ofExcept _).run_bind ?_ (fun _ => trivial)
  intro state
  apply (Failing.patient_ofExcept _).run_bind ?_ (fun _ => trivial)
  intro upload
  exact fun _ => Or.inl ⟨_,rfl,trivial⟩

/-- A batch of one makes at most one call. -/
theorem batch_patient {Item Answer Resp : Type} (digestFunction : Int32)
    {round : DigestAlgorithm → Item → CacheM (List Answer)} (respond : List Answer → Resp) (item : Item)
    (h : ∀ algorithm, (round algorithm item).Patient settles (fun _ => True)) :
    (batch env digestFunction round respond [item]).Patient settles (fun _ => True) := by
  cases hresolved : (DigestAlgorithm.resolveProtoValue env digestFunction).mapError Status.invalidArgument with
  | error s =>
    rw [batch_error hresolved]
    trivial
  | ok algorithm =>
    rw [batch_one hresolved]
    exact (h algorithm).map (fun _ _ => trivial)

theorem updateBlob_patient (instanceName : String) (algorithm : DigestAlgorithm) (item : BlobRequest) :
    (updateBlob env instanceName algorithm item).Patient settles (fun _ => True) := by
  unfold updateBlob
  cases item.digest with
  | none => trivial
  | some digest =>
    cases StorageEncoding.fromProtoValue env item.compressor with
    | none => trivial
    | some encoding =>
      cases haccept : acceptBlob env algorithm digest item.data.toList encoding with
      | error status => simp only [haccept, Program.Patient]
      | ok content =>
        simp only [haccept]
        exact Program.patient_last (fun _ => ⟨_,rfl,trivial⟩)

/-- The parts of a request are patient, whatever counts as settled, unless it looks up or
publishes a result: they make at most one call. -/
theorem parts_patient {r q : Request} (hq : q ∈ parts r) (hget : ∀ g, r ≠ .getActionResult g)
    (hupdate : ∀ u, r ≠ .updateActionResult u) : (serve env q).Patient settles (fun _ => True) := by
  cases r with
  | findMissingBlobs r =>
    obtain ⟨digest,_,rfl⟩ := List.mem_map.mp hq
    exact (batch_patient _ _ digest (fun _ => Program.patient_last (fun _ => ⟨_,rfl,trivial⟩))).map (fun _ _ => trivial)
  | batchReadBlobs r =>
    obtain ⟨digest,_,rfl⟩ := List.mem_map.mp hq
    exact (batch_patient _ _ digest (fun _ => Program.patient_last (fun _ => ⟨_,rfl,trivial⟩))).map (fun _ _ => trivial)
  | batchUpdateBlobs r =>
    obtain ⟨item,_,rfl⟩ := List.mem_map.mp hq
    exact (batch_patient _ _ item (fun algorithm => updateBlob_patient _ algorithm item)).map (fun _ _ => trivial)
  | getTree => obtain rfl := List.mem_singleton.mp hq; trivial
  | splitBlob => obtain rfl := List.mem_singleton.mp hq; trivial
  | spliceBlob => obtain rfl := List.mem_singleton.mp hq; trivial
  | queryWriteStatus => obtain rfl := List.mem_singleton.mp hq; trivial
  | read r =>
    obtain rfl := List.mem_singleton.mp hq
    exact (read_patient r).map (fun _ _ => trivial)
  | write s =>
    obtain rfl := List.mem_singleton.mp hq
    exact (write_patient s).map (fun _ _ => trivial)
  | getActionResult g => exact absurd rfl (hget g)
  | updateActionResult u => exact absurd rfl (hupdate u)

end Single
end Patience
end ReapiCache.Abstract
