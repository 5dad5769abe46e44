import ReapiCache.Interaction.Settling
import ReapiCache.Interaction.Simulation

/-! # Abandoned and repeated programs

A request that is given up leaves the state its calls so far have led to. A program is
repeatable when none of this matters to it: however many of its runs have been given up,
and wherever they have been, the next one returns and leaves what the first would have.
-/
namespace ReapiCache.Interaction
universe u v w x y z

variable {Op : Type u} {Ret : Op → Type v} {α β : Type w} {S : Type y} (handle : (op : Op) → S → Ret op × S)

namespace Program

/-- The state in which a program leaves the object when it is given up after `n` calls. -/
def abandoned : ℕ → Program Op Ret α → S → S
  | 0, _, s => s
  | _ + 1, .done _, s => s
  | n + 1, .call op next, s => (next (handle op s).1).abandoned n (handle op s).2

/-- The state after several runs of a program, each given up after some of its calls. -/
def attempted (p : Program Op Ret α) (attempts : List ℕ) (s : S) : S :=
  attempts.foldl (fun s n => p.abandoned handle n s) s

/-- From states with `I` a run that has been given up is made good by the next. -/
def Repeatable (I : S → Prop) (p : Program Op Ret α) : Prop :=
  ∀ n s, I s → I (p.abandoned handle n s) ∧ p.exec handle (p.abandoned handle n s) = p.exec handle s

theorem abandoned_done (n : ℕ) (a : α) (s : S) : (done a : Program Op Ret α).abandoned handle n s = s := by
  cases n with
  | zero => rfl
  | succ n => rfl

theorem abandoned_map (f : α → β) (n : ℕ) (p : Program Op Ret α) (s : S) :
    (f <$> p).abandoned handle n s = p.abandoned handle n s := by
  induction n generalizing p s with
  | zero => rfl
  | succ n ih =>
    cases p with
    | done a => rfl
    | call op next => exact ih (next (handle op s).1) (handle op s).2

variable {handle} {I : S → Prop} {p : Program Op Ret α} {s : S}

theorem Repeatable.attempted (h : p.Repeatable handle I) (hs : I s) (attempts : List ℕ) :
    p.exec handle (p.attempted handle attempts s) = p.exec handle s := by
  induction attempts generalizing s with
  | nil => rfl
  | cons n attempts ih =>
    obtain ⟨hinv,hexec⟩ := h n s hs
    exact (ih hinv).trans hexec

theorem repeatable_done (a : α) : (done a : Program Op Ret α).Repeatable handle I := by
  intro n s hs
  rw [abandoned_done]
  exact ⟨hs,rfl⟩

theorem Repeatable.map (h : p.Repeatable handle I) (f : α → β) : (f <$> p).Repeatable handle I := by
  intro n s hs
  obtain ⟨hinv,hexec⟩ := h n s hs
  rw [abandoned_map, exec_map, exec_map, hexec]
  exact ⟨hinv,rfl⟩

/-- A call that changes nothing, when nothing after it changes its reply. -/
theorem repeatable_call {op : Op} {next : Ret op → Program Op Ret α} (hop : ∀ s, (handle op s).2 = s)
    (hkeeps : ∀ r, (next r).Uses (fun op' => ∀ s, (handle op (handle op' s).2).1 = (handle op s).1))
    (hnext : ∀ r, (next r).Repeatable handle I) : (call op next).Repeatable handle I := by
  have hreply : ∀ (n : ℕ) (q : Program Op Ret α) (s : S),
      q.Uses (fun op' => ∀ s, (handle op (handle op' s).2).1 = (handle op s).1) →
      (handle op (q.abandoned handle n s)).1 = (handle op s).1 := by
    intro n
    induction n with
    | zero => exact fun _ _ _ => rfl
    | succ n ih =>
      intro q s hq
      cases q with
      | done a => rfl
      | call op' next' => exact (ih _ _ (hq.2 _)).trans (hq.1 s)
  intro n s hs
  cases n with
  | zero => exact ⟨hs,rfl⟩
  | succ n =>
    obtain ⟨hinv,hexec⟩ := hnext (handle op s).1 n s hs
    have hstate : (call op next).abandoned handle (n + 1) s = (next (handle op s).1).abandoned handle n s :=
      congrArg ((next (handle op s).1).abandoned handle n) (hop s)
    rw [hstate, exec_call, exec_call, hop, hop, hreply n _ s (hkeeps _), hexec]
    exact ⟨hinv,rfl⟩

/-- A program that changes nothing. -/
theorem repeatable_of_unchanging (h : p.Uses (fun op => ∀ s, (handle op s).2 = s)) : p.Repeatable handle I := by
  have hstate : ∀ n s, p.abandoned handle n s = s := by
    intro n
    induction n generalizing p with
    | zero => exact fun _ => rfl
    | succ n ih =>
      intro s
      cases p with
      | done a => rfl
      | call op next => exact (ih (h.2 _) _).trans (h.1 s)
  intro n s hs
  rw [hstate]
  exact ⟨hs,rfl⟩

section Patient
variable {settles : (op : Op) → Ret op → Prop} {extends' : S → S → Prop}
  (hsettling : Settling handle extends' settles) {allowed : Op → Prop}
  (hgrows : ∀ op s, allowed op → I s → I (handle op s).2 ∧ extends' s (handle op s).2)
  (htrans : ∀ s s' s'', extends' s s' → extends' s' s'' → extends' s s'')
include hsettling hgrows htrans

theorem Uses.abandoned_grows (n : ℕ) (hp : p.Uses allowed) (hs : I s) :
    I (p.abandoned handle n s) ∧ extends' s (p.abandoned handle n s) := by
  induction n generalizing p s with
  | zero => exact ⟨hs,hsettling.refl s⟩
  | succ n ih =>
    cases p with
    | done a => exact ⟨hs,hsettling.refl s⟩
    | call op next =>
      obtain ⟨hinv,hextends⟩ := hgrows op s hp.1 hs
      obtain ⟨hlast,hlater⟩ := ih (hp.2 (handle op s).1) hinv
      exact ⟨hlast,htrans _ _ _ hextends hlater⟩

/-- A patient program gets its settled replies again, and repeats its last call. -/
theorem Patient.repeatable {final : α → Prop} (h : p.Patient settles final) (hp : p.Uses allowed)
    (hrepeat : ∀ op s, handle op (handle op s).2 = ((handle op s).1,(handle op s).2)) : p.Repeatable handle I := by
  intro n
  induction n generalizing p with
  | zero => exact fun _ hs => ⟨hs,rfl⟩
  | succ n ih =>
    intro s hs
    refine ⟨(Uses.abandoned_grows hsettling hgrows htrans (n + 1) hp hs).1,?_⟩
    cases p with
    | done a => rfl
    | call op next =>
      obtain ⟨hinv,_⟩ := hgrows op s hp.1 hs
      change (call op next).exec handle ((next (handle op s).1).abandoned handle n (handle op s).2) =
        (next (handle op s).1).exec handle (handle op s).2
      rcases h (handle op s).1 with ⟨a,ha,_⟩ | ⟨hr,hnext⟩
      · rw [ha, abandoned_done, exec_call, hrepeat, ha]
      · obtain ⟨_,hlater⟩ := Uses.abandoned_grows hsettling hgrows htrans n (hp.2 (handle op s).1) hinv
        rw [exec_call, hsettling.again hr hlater]
        exact (ih hnext (hp.2 _) (handle op s).2 hinv).2

end Patient

/-- Given up after as many calls, two programs leave related states. -/
theorem Simulates.abandoned {Op' : Type u} {Ret' : Op' → Type v} {β : Type w} {S' : Type y}
    {handle' : (op : Op') → S' → Ret' op × S'} {M : Matching Op Ret Op' Ret'} {R : S → S' → Prop}
    (hR : Refines handle handle' M R) {V : α → β → Prop} {q : Program Op' Ret' β} (h : p.Simulates M V q) {s' : S'}
    (hs : R s s') (n : ℕ) : R (p.abandoned handle n s) (q.abandoned handle' n s') := by
  induction n generalizing p q s s' with
  | zero => exact hs
  | succ n ih =>
    cases p with
    | done a =>
      cases q with
      | done a' => exact hs
      | call op' next' => exact h.elim
    | call op next =>
      cases q with
      | done a' => exact h.elim
      | call op' next' =>
        obtain ⟨hreply,hstate⟩ := hR op op' s s' h.1 hs
        exact ih (h.2 _ _ hreply) hstate

theorem Simulates.attempted {Op' : Type u} {Ret' : Op' → Type v} {β : Type w} {S' : Type y}
    {handle' : (op : Op') → S' → Ret' op × S'} {M : Matching Op Ret Op' Ret'} {R : S → S' → Prop}
    (hR : Refines handle handle' M R) {V : α → β → Prop} {q : Program Op' Ret' β} (h : p.Simulates M V q) {s' : S'}
    (hs : R s s') (attempts : List ℕ) : R (p.attempted handle attempts s) (q.attempted handle' attempts s') := by
  induction attempts generalizing s s' with
  | nil => exact hs
  | cons n attempts ih => exact ih (h.abandoned hR hs n)

end Program

namespace Failing
variable {handle} {I : S → Prop} {ε : Type w}

theorem repeatable_ofExcept_bind {r : Except ε α} {f : α → Failing Op Ret ε β}
    (h : ∀ a, r = .ok a → (f a).run.Repeatable handle I) : (ofExcept r >>= f).run.Repeatable handle I := by
  cases r with
  | error e => exact Program.repeatable_done _
  | ok a => exact h a rfl

theorem repeatable_attempt_bind {op : Op} {g : Ret op → Except ε α} {f : α → Failing Op Ret ε β}
    (hop : ∀ s, (handle op s).2 = s)
    (hkeeps : ∀ r, Uses (fun op' => ∀ s, (handle op (handle op' s).2).1 = (handle op s).1) (ofExcept (g r) >>= f))
    (hnext : ∀ r, (ofExcept (g r) >>= f).run.Repeatable handle I) : (attempt op g >>= f).run.Repeatable handle I :=
  Program.repeatable_call hop hkeeps hnext

end Failing

namespace Config
variable {Req : Type z} {Resp : Type w} (serve : Req → Program Op Ret Resp) (req : Req)

/-- Attempts at a request, numbered from `i` on, each given up after some of its calls. -/
def attempts (i : ℕ) : List ℕ → List (Action Req)
  | [] => []
  | n :: ns => .start req :: List.replicate n (.advance i) ++ attempts (i + 1) ns

variable {handle serve req}

theorem advance_state (n : ℕ) {c : Config Op Ret Req Resp S} {i : ℕ} {t : Thread Op Ret Req Resp S}
    (ht : c.threads[i]? = some t) :
    (c.run handle serve (List.replicate n (.advance i))).world.state = t.program.abandoned handle n c.world.state := by
  induction n generalizing c t with
  | zero => rfl
  | succ n ih =>
    rcases t with ⟨r,w,p⟩
    rw [List.replicate_succ, run_cons]
    cases p with
    | done a =>
      have hs : c.step handle serve (.advance i) = c := by simp only [step, ht]
      rw [hs, ih ht, Program.abandoned_done]
      rfl
    | call op next =>
      have hs : c.step handle serve (.advance i) = c.called handle i ⟨r,w,.call op next⟩ op next := by
        simp only [step, ht]
      have hnext : (c.called handle i ⟨r,w,.call op next⟩ op next).threads[i]? =
          some ⟨r,w,next (handle op c.world.state).1⟩ :=
        List.getElem?_set_self (List.getElem?_eq_some_iff.mp ht).1
      rw [hs]
      exact ih hnext

theorem attempts_state (ns : List ℕ) (c : Config Op Ret Req Resp S) :
    (c.run handle serve (attempts req c.threads.length ns)).world.state =
      (serve req).attempted handle ns c.world.state := by
  induction ns generalizing c with
  | nil => rfl
  | cons n ns ih =>
    have ht : (c.started serve req).threads[c.threads.length]? = some ⟨req,c.world,serve req⟩ := by
      simp [started]
    have hlast : ((c.started serve req).run handle serve (List.replicate n (.advance c.threads.length))).threads.length =
        c.threads.length + 1 := by
      have hrequests := congrArg List.length (requests_run handle serve (c.started serve req)
        (List.replicate n (.advance c.threads.length)))
      simpa [requests, started, startedBy] using hrequests
    rw [attempts, run_append, run_cons]
    change (((c.started serve req).run handle serve (List.replicate n (.advance c.threads.length))).run handle serve
      (attempts req (c.threads.length + 1) ns)).world.state = _
    rw [← hlast, ih, advance_state n ht]
    rfl

end Config
end ReapiCache.Interaction
