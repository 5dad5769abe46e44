import ReapiCache.Interaction.Pool

/-! # What a program can return

A condition on the value that a program returns, whatever the replies to its calls are.
A response then meets it in every run, from an object in any state, and whatever the
other programs do to the object in between.
-/
namespace ReapiCache.Interaction
universe u v w x y

variable {Op : Type u} {Ret : Op → Type v} {α β ε ε' : Type w}

namespace Program

/-- Every value that the program can return satisfies `P`. -/
def Returns (P : α → Prop) : Program Op Ret α → Prop
  | .done a => P a
  | .call _ next => ∀ r, (next r).Returns P

theorem Returns.bind {P : α → Prop} {Q : β → Prop} {p : Program Op Ret α} {f : α → Program Op Ret β}
    (h : p.Returns P) (hf : ∀ a, P a → (f a).Returns Q) : (p >>= f).Returns Q := by
  induction p with
  | done a => exact hf a h
  | call op next ih => exact fun r => ih r (h r)

theorem Returns.mono {P Q : α → Prop} {p : Program Op Ret α} (h : p.Returns P) (hPQ : ∀ a, P a → Q a) :
    p.Returns Q := by
  induction p with
  | done a => exact hPQ a h
  | call op next ih => exact fun r => ih r (h r)

theorem Returns.map {Q : β → Prop} {p : Program Op Ret α} {f : α → β} (h : p.Returns (fun a => Q (f a))) :
    (f <$> p).Returns Q := h.bind (fun _ ha => ha)

end Program

namespace Failing

/-- A success of `Q` or an error of `E`. -/
def Ends (Q : α → Prop) (E : ε → Prop) : Except ε α → Prop
  | .ok a => Q a
  | .error e => E e

theorem Ends.bind {Q : α → Prop} {R : β → Prop} {E : ε → Prop} {r : Except ε α} {f : α → Except ε β}
    (h : Ends Q E r) (hf : ∀ a, Q a → Ends R E (f a)) : Ends R E (r >>= f) := by
  cases r with
  | error e => exact h
  | ok a => exact hf a h

theorem Ends.imp {Q : α → Prop} {E F : ε → Prop} {r : Except ε α} (h : Ends Q E r) (hE : ∀ e, E e → F e) :
    Ends Q F r := by
  cases r with
  | error e => exact hE e h
  | ok a => exact h

theorem ends_mapError {E : ε' → Prop} {r : Except ε α} {f : ε → ε'} (h : ∀ e, E (f e)) :
    Ends (fun _ => True) E (r.mapError f) := by
  cases r with
  | error e => exact h e
  | ok a => trivial

theorem ends_mapM {γ : Type x} {E : ε → Prop} {f : γ → Except ε α} {l : List γ}
    (h : ∀ c, Ends (fun _ => True) E (f c)) : Ends (fun _ => True) E (l.mapM f) := by
  induction l with
  | nil => trivial
  | cons c l ih =>
    rw [List.mapM_cons]
    exact (h c).bind (fun _ _ => ih.bind (fun _ _ => trivial))

/-- The program can only succeed with values of `Q` and fail with errors of `E`. -/
def Returns (Q : α → Prop) (E : ε → Prop) (p : Failing Op Ret ε α) : Prop := Program.Returns (Ends Q E) p.run

variable {Q : α → Prop} {R : β → Prop} {E : ε → Prop}

theorem returns_pure {a : α} (h : Q a) : Returns Q E (pure a : Failing Op Ret ε α) := h
theorem returns_throw {e : ε} (h : E e) : Returns Q E (throw e : Failing Op Ret ε α) := h

theorem returns_ofExcept {r : Except ε α} (h : Ends Q E r) : Returns Q E (ofExcept r : Failing Op Ret ε α) := h

theorem returns_attempt {op : Op} {f : Ret op → Except ε α} (h : ∀ r, Ends Q E (f r)) :
    Returns Q E (attempt op f) := h

theorem Returns.imp {F : ε → Prop} {p : Failing Op Ret ε α} (h : Returns Q E p) (hE : ∀ e, E e → F e) :
    Returns Q F p := by
  exact Program.Returns.mono h (fun _ hr => hr.imp hE)

theorem Returns.bind {p : Failing Op Ret ε α} {f : α → Failing Op Ret ε β} (h : Returns Q E p)
    (hf : ∀ a, Q a → Returns R E (f a)) : Returns R E (p >>= f) := by
  unfold Returns
  rw [ExceptT.run_bind]
  apply Program.Returns.bind h
  rintro (e | a) ha
  · exact ha
  · exact hf a ha

theorem returns_outcome {p : Failing Op Ret ε α} {F : ε' → Prop} (h : Returns Q E p) :
    Returns (Ends Q E) F (outcome p : Failing Op Ret ε' (Except ε α)) := Program.Returns.map h

/-- The loop rule: the invariant speaks of the elements already processed. -/
theorem returns_foldlM {γ : Type x} {f : α → γ → Failing Op Ret ε α} (I : List γ → α → Prop) {l : List γ}
    (hf : ∀ pre a, ∀ c ∈ l, I pre a → Returns (I (pre ++ [c])) E (f a c)) (pre : List γ) (a : α) (h : I pre a) :
    Returns (I (pre ++ l)) E (l.foldlM f a) := by
  induction l generalizing pre a with
  | nil =>
    rw [List.append_nil]
    exact returns_pure h
  | cons c l ih =>
    rw [List.foldlM_cons, ← List.singleton_append, ← List.append_assoc]
    apply (hf pre a c List.mem_cons_self h).bind
    intro a' ha'
    exact ih (fun pre a d hd => hf pre a d (List.mem_cons_of_mem _ hd)) _ _ ha'

end Failing

namespace Config
variable {Req : Type x} {Resp : Type w} {S : Type y} (handle : (op : Op) → S → Ret op × S)
  (serve : Req → Program Op Ret Resp)

/-- Whatever is started later in a run returns what its program can return. -/
theorem returned_of_returns {req : Req} {P : Resp → Prop} (h : (serve req).Returns P) (c : Config Op Ret Req Resp S)
    (schedule : List (Action Req)) {i : ℕ} {a : Resp} (hi : c.threads.length ≤ i)
    (hreturned : (c.run handle serve schedule).Returned i req a) : P a := by
  have hrun := run_inv handle serve (fun d => c.threads.length ≤ d.threads.length ∧
    ∀ i t, c.threads.length ≤ i → d.threads[i]? = some t → t.request = req → t.program.Returns P) ?_ ?_ (c := c) ?_
    schedule
  · obtain ⟨t,ht,hreq,hdone⟩ := hreturned
    have hreturns := hrun.2 i t hi ht hreq
    rw [hdone] at hreturns
    exact hreturns
  · rintro d r ⟨hlength,hthreads⟩
    refine ⟨?_,?_⟩
    · simp only [started, List.length_append]
      omega
    · intro i t hi ht hreq
      by_cases hlt : i < d.threads.length
      · simp only [started, List.getElem?_append_left hlt] at ht
        exact hthreads i t hi ht hreq
      · simp only [started, List.getElem?_append_right (Nat.le_of_not_lt hlt)] at ht
        obtain rfl := List.mem_singleton.mp (List.mem_of_getElem? ht)
        obtain rfl : r = req := hreq
        exact h
  · rintro d j u op next ⟨hlength,hthreads⟩ hu hp
    refine ⟨by simpa only [called, List.length_set] using hlength,?_⟩
    intro i t hi ht hreq
    by_cases hij : j = i
    · subst hij
      simp only [called, List.getElem?_set_self (List.getElem?_eq_some_iff.mp hu).1, Option.some.injEq] at ht
      obtain rfl := ht
      have hreturns := hthreads j u hi hu hreq
      rw [hp] at hreturns
      exact hreturns _
    · simp only [called, List.getElem?_set_ne hij] at ht
      exact hthreads i t hi ht hreq
  · refine ⟨Nat.le_refl _,?_⟩
    intro i t hi ht
    have hlt := (List.getElem?_eq_some_iff.mp ht).1
    omega

end Config
end ReapiCache.Interaction
