import ReapiCache.Interaction.Noninterference
import ReapiCache.Server.Isolation

/-! # Clients that do not notice each other

What holds of requests executed one after the other holds of their calls in any
interleaving: an instance sees nothing of the others, and nobody sees those who only
look. Neither depends on what is stored, on the codec or on the hash.
-/
namespace ReapiCache
open Interaction
variable {env : Externals}

theorem serve_consistent {instanceName : String} {req : Request} (h : req.To instanceName) :
    (serve env req).Uses (Consistent InMemoryStore.handle (InMemoryStore.AgreeOn instanceName)) := by
  apply (serve_uses req).mono
  intro op hop
  exact InMemoryStore.consistent_of_eq (Option.some.inj (hop.addressed.symm.trans h))

theorem serve_unseen {instanceName : String} {req : Request} (h : ¬ req.To instanceName) :
    (serve env req).Uses (Unseen InMemoryStore.handle (InMemoryStore.AgreeOn instanceName)) := by
  apply (serve_uses req).mono
  intro op hop
  apply InMemoryStore.unseen_of_ne
  intro hsame
  rw [← hsame] at h
  exact h hop.addressed

/-- Two runs in which an instance is sent the same requests, advanced in the same order, give
it the same responses, however their calls are interleaved with those of other requests. -/
theorem instances_isolated {instanceName : String} {store store' : InMemoryStore}
    (hstores : store.AgreeOn instanceName store') {schedule schedule' : List (Interaction.Action Request)}
    (hsame : purge (Request.To instanceName) [] schedule = purge (Request.To instanceName) [] schedule') :
    (serverRun env (Config.initial store) schedule).answers (Request.To instanceName) =
        (serverRun env (Config.initial store') schedule').answers (Request.To instanceName) ∧
      (serverRun env (Config.initial store) schedule).world.state.AgreeOn instanceName
        (serverRun env (Config.initial store') schedule').world.state :=
  run_isolated (fun _ hr => serve_consistent hr) (fun _ hr => serve_unseen hr)
    (InMemoryStore.agreeOn_equivalence instanceName) hsame hstores

/-- A lookup in `main` between the items of an upload to another instance. -/
theorem instances_isolated_upload :
    let find : Request := .findMissingBlobs ⟨"main",[Reference.commandDigest],1⟩
    let missing : Response := .findMissingBlobs (.ok ⟨[Reference.commandDigest]⟩)
    let other : Request := .batchUpdateBlobs ⟨"other",
      [Reference.blobRequest Reference.commandDigest Reference.commandData],1⟩
    (serverFrom Reference.externals [.start other,.start find,.advance 0,.advance 1]).answers (Request.To "main") =
      [(find,some missing)] := by
  intro find missing other
  have hother : ¬ other.To "main" := by decide
  have hfind : find.To "main" := by decide
  have hsame : purge (Request.To "main") [] [.start other,.start find,.advance 0,.advance 1] =
      purge (Request.To "main") [] [.start find,.advance 0] := by
    simp [purge, hother, hfind]
  have hisolated : (serverFrom Reference.externals [.start other,.start find,.advance 0,.advance 1]).answers
      (Request.To "main") = (serverFrom Reference.externals [.start find,.advance 0]).answers (Request.To "main") :=
    (instances_isolated ((InMemoryStore.agreeOn_equivalence "main").refl InMemoryStore.new) hsame).1
  have halone : (serverFrom Reference.externals [.start find,.advance 0]).answers (Request.To "main") =
      [(find,some missing)] := rfl
  exact hisolated.trans halone

/-- A call that puts nothing. -/
def StoreCall.Looks : StoreCall → Prop
  | .get _ => True
  | .contains _ => True
  | .put _ _ _ => False

/-- The requests that may put. -/
def Request.Writes : Request → Bool
  | .batchUpdateBlobs _ | .write _ | .getActionResult _ | .updateActionResult _ => true
  | .findMissingBlobs _ | .batchReadBlobs _ | .read _ | .getTree | .splitBlob | .spliceBlob | .queryWriteStatus => false

theorem serve_looks {req : Request} (h : ¬ req.Writes = true) : (serve env req).Uses StoreCall.Looks := by
  cases req with
  | findMissingBlobs r =>
    apply Program.Uses.map
    apply (Failing.uses_ofExcept _).bind
    intro algorithm
    apply Failing.Uses.bind ?_ (fun _ => Failing.uses_pure _)
    apply Failing.uses_foldlM
    intro missing digest _
    exact Failing.Uses.bind (Failing.uses_attempt _ trivial) (fun _ => Failing.uses_pure _)
  | batchReadBlobs r =>
    apply Program.Uses.map
    apply (Failing.uses_ofExcept _).bind
    intro algorithm
    apply Failing.Uses.bind ?_ (fun _ => Failing.uses_pure _)
    apply Failing.uses_foldlM
    intro responses digest _
    exact Failing.Uses.bind (Failing.uses_attempt _ trivial) (fun _ => Failing.uses_pure _)
  | read r =>
    apply Program.Uses.map
    apply (Failing.uses_ofExcept _).bind
    intro target
    apply Failing.Uses.bind (Failing.uses_attempt _ trivial)
    intro blob
    apply (Failing.uses_ofExcept _).bind
    intro identity
    exact (Failing.uses_ofExcept _).bind (fun _ => Failing.uses_pure _)
  | getTree => trivial
  | splitBlob => trivial
  | spliceBlob => trivial
  | queryWriteStatus => trivial
  | batchUpdateBlobs r => exact absurd rfl h
  | write s => exact absurd rfl h
  | getActionResult q => exact absurd rfl h
  | updateActionResult q => exact absurd rfl h

theorem unseen_of_looks {op : StoreCall} (h : op.Looks) : Unseen InMemoryStore.handle Eq op := by
  rintro store _ rfl
  cases op with
  | get key => rfl
  | contains key => rfl
  | put key metadata body => exact h.elim

/-- Two runs with the same writing requests, advanced in the same order, give them the same
responses and end in the same store, whoever looks in between. -/
theorem readers_unnoticed (store : InMemoryStore) {schedule schedule' : List (Interaction.Action Request)}
    (hsame : purge (fun r => r.Writes = true) [] schedule = purge (fun r => r.Writes = true) [] schedule') :
    (serverRun env (Config.initial store) schedule).answers (fun r => r.Writes = true) =
        (serverRun env (Config.initial store) schedule').answers (fun r => r.Writes = true) ∧
      (serverRun env (Config.initial store) schedule).world.state =
        (serverRun env (Config.initial store) schedule').world.state := by
  have hvisible : ∀ r : Request, r.Writes = true → (serve env r).Uses (Consistent InMemoryStore.handle Eq) := by
    intro r _
    apply (serve_uses r).mono
    rintro op _ s _ rfl
    exact ⟨rfl,rfl⟩
  have hhidden : ∀ r : Request, ¬ r.Writes = true → (serve env r).Uses (Unseen InMemoryStore.handle Eq) :=
    fun r hr => (serve_looks hr).mono (fun _ hop => unseen_of_looks hop)
  exact run_isolated hvisible hhidden eq_equivalence hsame rfl

/-- A lookup between the items of an upload. -/
theorem readers_unnoticed_upload :
    let find : Request := .findMissingBlobs ⟨"main",[Reference.commandDigest,Reference.treeDigest],1⟩
    (serverFrom Reference.externals [.start Reference.upload,.start find,.advance 0,.advance 1,.advance 0,.advance 1,
      .advance 0]).world.state = (serverFrom Reference.externals Reference.uploadRun).world.state := by
  intro find
  have hfind : ¬ find.Writes = true := by decide
  have hupload : Reference.upload.Writes = true := rfl
  have hsame : purge (fun r : Request => r.Writes = true) [] [.start Reference.upload,.start find,.advance 0,.advance 1,
      .advance 0,.advance 1,.advance 0] = purge (fun r => r.Writes = true) [] Reference.uploadRun := by
    simp [purge, hfind, hupload, Reference.uploadRun]
  exact (readers_unnoticed InMemoryStore.new hsame).2

end ReapiCache
