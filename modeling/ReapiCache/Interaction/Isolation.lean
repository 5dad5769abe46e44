import ReapiCache.Interaction.Program

/-! # Requests that do not see each other

Requests are executed one after the other. A request is isolated from the others when
its calls read and write only what an equivalence of states preserves, and the calls
of the others stay inside a class of it. Then two runs with the same visible requests
give them the same responses, whatever the other requests of the runs are.
-/
namespace ReapiCache.Interaction
universe u v w x y

section Calls
variable {Op : Type u} {Ret : Op → Type v} {S : Type x} (handle : (op : Op) → S → Ret op × S)
  (R : S → S → Prop)

/-- Related states give the call one reply and stay related. -/
def Consistent (op : Op) : Prop :=
  ∀ s s', R s s' → (handle op s).1 = (handle op s').1 ∧ R (handle op s).2 (handle op s').2

/-- The call leaves its state related to what it was related to. -/
def Unseen (op : Op) : Prop := ∀ s s', R s s' → R (handle op s).2 s'

variable {handle R} {α : Type w} {p : Program Op Ret α} {s s' : S}

theorem Program.Uses.consistent (hp : p.Uses (Consistent handle R)) (h : R s s') :
    (p.exec handle s).1 = (p.exec handle s').1 ∧ R (p.exec handle s).2 (p.exec handle s').2 := by
  induction p generalizing s s' with
  | done a => exact ⟨rfl,h⟩
  | call op next ih =>
    obtain ⟨hreply,hstate⟩ := hp.1 s s' h
    rw [exec_call, exec_call, ← hreply]
    exact ih _ (hp.2 _) hstate

theorem Program.Uses.unseen (hp : p.Uses (Unseen handle R)) (h : R s s') : R (p.exec handle s).2 s' := by
  induction p generalizing s with
  | done a => exact h
  | call op next ih => exact ih _ (hp.2 _) (hp.1 s s' h)

end Calls

section Runs
variable {Op : Type u} {Ret : Op → Type v} {Req : Type y} {Resp : Type w} {S : Type x}
  (handle : (op : Op) → S → Ret op × S) (serve : Req → Program Op Ret Resp)

/-- The requests of a run with their responses, and the state it ends in. -/
def runAll : List Req → S → List (Req × Resp) × S
  | [], s => ([],s)
  | r :: requests, s =>
    let (response,s') := (serve r).exec handle s
    let (responses,last) := runAll requests s'
    ((r,response) :: responses,last)

theorem runAll_cons (r : Req) (requests : List Req) (s : S) :
    runAll handle serve (r :: requests) s =
      ((r,((serve r).exec handle s).1) :: (runAll handle serve requests ((serve r).exec handle s).2).1,
        (runAll handle serve requests ((serve r).exec handle s).2).2) := rfl

theorem runAll_append (requests requests' : List Req) (s : S) :
    runAll handle serve (requests ++ requests') s =
      ((runAll handle serve requests s).1 ++ (runAll handle serve requests' (runAll handle serve requests s).2).1,
        (runAll handle serve requests' (runAll handle serve requests s).2).2) := by
  induction requests generalizing s with
  | nil => rfl
  | cons r requests ih => rw [List.cons_append, runAll_cons, runAll_cons, ih, List.cons_append]

theorem runAll_requests (requests : List Req) (s : S) :
    (runAll handle serve requests s).1.map Prod.fst = requests := by
  induction requests generalizing s with
  | nil => rfl
  | cons r requests ih => rw [runAll_cons, List.map_cons, ih]

/-- The program of the requests one after the other. -/
theorem exec_mapM (requests : List Req) (s : S) : (requests.mapM serve).exec handle s =
    ((runAll handle serve requests s).1.map Prod.snd,(runAll handle serve requests s).2) := by
  induction requests generalizing s with
  | nil => rfl
  | cons r requests ih =>
    rw [List.mapM_cons, Program.exec_bind, bind_pure_comp, Program.exec_map, ih, runAll_cons, List.map_cons]

variable {handle serve} {R : S → S → Prop} {visible : Req → Prop} [DecidablePred visible]
  (hvisible : ∀ r, visible r → (serve r).Uses (Consistent handle R))
  (hhidden : ∀ r, ¬ visible r → (serve r).Uses (Unseen handle R))
include hvisible hhidden

/-- The hidden requests of a run can be left out. -/
theorem runAll_purge (requests : List Req) {s s' : S} (h : R s s') :
    (runAll handle serve requests s).1.filter (fun p => visible p.1) =
        (runAll handle serve (requests.filter (fun r => visible r)) s').1 ∧
      R (runAll handle serve requests s).2
        (runAll handle serve (requests.filter (fun r => visible r)) s').2 := by
  induction requests generalizing s s' with
  | nil => exact ⟨rfl,h⟩
  | cons r requests ih =>
    by_cases hr : visible r
    · obtain ⟨hresponse,hstate⟩ := (hvisible r hr).consistent h
      obtain ⟨hresponses,hlast⟩ := ih hstate
      rw [List.filter_cons_of_pos (by simpa using hr), runAll_cons, runAll_cons,
        List.filter_cons_of_pos (by simpa using hr), hresponses, hresponse]
      exact ⟨rfl,hlast⟩
    · have hstate := (hhidden r hr).unseen h
      obtain ⟨hresponses,hlast⟩ := ih hstate
      rw [List.filter_cons_of_neg (by simpa using hr), runAll_cons,
        List.filter_cons_of_neg (by simpa using hr)]
      exact ⟨hresponses,hlast⟩

/-- Runs with the same visible requests agree on their responses and in the end. -/
theorem runAll_isolated (hR : Equivalence R) {requests requests' : List Req}
    (hsame : requests.filter (fun r => visible r) = requests'.filter (fun r => visible r)) {s s' : S}
    (h : R s s') :
    (runAll handle serve requests s).1.filter (fun p => visible p.1) =
        (runAll handle serve requests' s').1.filter (fun p => visible p.1) ∧
      R (runAll handle serve requests s).2 (runAll handle serve requests' s').2 := by
  obtain ⟨hresponses,hlast⟩ := runAll_purge hvisible hhidden requests h
  obtain ⟨hresponses',hlast'⟩ := runAll_purge hvisible hhidden requests' (hR.refl s')
  rw [hsame] at hresponses hlast
  exact ⟨hresponses.trans hresponses'.symm,hR.trans hlast (hR.symm hlast')⟩

end Runs
end ReapiCache.Interaction
