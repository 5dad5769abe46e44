import Mathlib.Data.List.Forall2

/-! # Steps that may fail

When a sequence of fallible steps succeeds, each of its steps did.
-/
namespace ReapiCache.Interaction
universe u v w
variable {ε : Type u} {ε' : Type v} {α β : Type w}

theorem bind_eq_ok {x : Except ε α} {f : α → Except ε β} {b : β} :
    (x >>= f) = .ok b ↔ ∃ a, x = .ok a ∧ f a = .ok b := by
  cases x with
  | error e => simp [bind, Except.bind]
  | ok a => simp [bind, Except.bind]

@[simp] theorem mapError_eq_ok {x : Except ε α} {f : ε → ε'} {a : α} :
    x.mapError f = .ok a ↔ x = .ok a := by
  cases x <;> simp [Except.mapError]

@[simp] theorem mapError_eq_error {x : Except ε α} {f : ε → ε'} {e' : ε'} :
    x.mapError f = .error e' ↔ ∃ e, x = .error e ∧ f e = e' := by
  cases x <;> simp [Except.mapError]

@[simp] theorem mapError_ok (f : ε → ε') (a : α) :
    (Except.ok a : Except ε α).mapError f = .ok a := rfl
@[simp] theorem mapError_error (f : ε → ε') (e : ε) :
    (Except.error e : Except ε α).mapError f = .error (f e) := rfl
@[simp] theorem ok_bind (a : α) (f : α → Except ε β) : (Except.ok a >>= f) = f a := rfl
@[simp] theorem error_bind (e : ε) (f : α → Except ε β) : (Except.error e >>= f) = .error e := rfl

section Lists
variable {α : Type v} {β : Type w} {f : α → Except ε β} {l : List α}

theorem mapM_eq_ok {out : List β} (h : l.mapM f = .ok out) :
    List.Forall₂ (fun a b => f a = .ok b) l out := by
  induction l generalizing out with
  | nil =>
    rw [List.mapM_nil] at h
    obtain rfl := Except.ok.inj h
    exact .nil
  | cons a l ih =>
    rw [List.mapM_cons] at h
    obtain ⟨b,hb,h⟩ := bind_eq_ok.mp h
    obtain ⟨rest,hrest,h⟩ := bind_eq_ok.mp h
    obtain rfl := Except.ok.inj h
    exact .cons hb (ih hrest)

theorem mapM_total (h : ∀ a ∈ l, ∃ b, f a = .ok b) : ∃ out, l.mapM f = .ok out := by
  induction l with
  | nil => exact ⟨[],rfl⟩
  | cons a l ih =>
    obtain ⟨b,hb⟩ := h a List.mem_cons_self
    obtain ⟨rest,hrest⟩ := ih (fun a ha => h a (List.mem_cons_of_mem _ ha))
    refine ⟨b :: rest,?_⟩
    rw [List.mapM_cons, hb, ok_bind, hrest]
    rfl

theorem mapM_of_related {out : List β} (h : List.Forall₂ (fun a b => f a = .ok b) l out) :
    l.mapM f = .ok out := by
  induction h with
  | nil => rfl
  | cons hb _ ih =>
    rw [List.mapM_cons, hb, ok_bind, ih]
    rfl

/-- A sequence that fails does so at its first failing step. -/
theorem mapM_eq_error {e : ε} : l.mapM f = .error e ↔
    ∃ pre a post, l = pre ++ a :: post ∧ (∀ x ∈ pre, ∃ b, f x = .ok b) ∧ f a = .error e := by
  induction l with
  | nil => simp [List.mapM_nil, pure, Except.pure]
  | cons a l ih =>
    rw [List.mapM_cons]
    cases ha : f a with
    | error e' =>
      constructor
      · rintro ⟨⟩
        exact ⟨[],a,l,rfl,by simp,ha⟩
      · rintro ⟨pre,x,post,hl,hpre,hx⟩
        cases pre with
        | nil =>
          cases hl
          exact congrArg Except.error (Except.error.inj (ha.symm.trans hx))
        | cons y pre =>
          cases hl
          obtain ⟨b,hb⟩ := hpre a List.mem_cons_self
          rw [ha] at hb
          cases hb
    | ok b =>
      have hrest : (Except.ok b >>= fun r => l.mapM f >>= fun rs => pure (r :: rs)) = (.error e : Except ε (List β)) ↔
          l.mapM f = .error e := by
        cases l.mapM f <;> simp [pure, Except.pure]
      rw [hrest, ih]
      constructor
      · rintro ⟨pre,x,post,rfl,hpre,hx⟩
        refine ⟨a :: pre,x,post,rfl,?_,hx⟩
        intro y hy
        rcases List.mem_cons.mp hy with rfl | hy
        · exact ⟨b,ha⟩
        · exact hpre y hy
      · rintro ⟨pre,x,post,hl,hpre,hx⟩
        cases pre with
        | nil =>
          cases hl
          rw [ha] at hx
          cases hx
        | cons y pre =>
          cases hl
          exact ⟨pre,x,post,rfl,fun z hz => hpre z (List.mem_cons_of_mem _ hz),hx⟩

/-- A loop that appends what each step collects is the concatenation of the steps. -/
theorem foldlM_append (f : α → Except ε (List β)) (l : List α) (acc : List β) :
    l.foldlM (fun acc a => (f a).map (acc ++ ·)) acc = (l.mapM f).map (fun outs => acc ++ outs.flatten) := by
  induction l generalizing acc with
  | nil => simp [Except.map, pure, Except.pure]
  | cons a l ih =>
    rw [List.foldlM_cons, List.mapM_cons]
    cases f a with
    | error e => rfl
    | ok b =>
      have hstep : ((Except.ok b : Except ε (List β)).map (acc ++ ·) >>= fun acc =>
          l.foldlM (fun acc a => (f a).map (acc ++ ·)) acc) = _ := ih (acc ++ b)
      rw [hstep]
      cases l.mapM f <;> simp [Except.map, pure, Except.pure]

end Lists

section Chain
variable {σ : Type w} {α : Type v} {f : σ → α → Except ε σ} {Inv : σ → Prop} {P : α → σ → Prop}

/-- All the states that a list of steps goes through, without the first one. Each step starts
from what the step before it gave. -/
def chain (f : σ → α → Except ε σ) : σ → List α → Except ε (List σ)
  | _, [] => .ok []
  | s, a :: l => do
    let next ← f s a
    let rest ← chain f next l
    .ok (next :: rest)

theorem chain_cons_error {s : σ} {a : α} {e : ε} (h : f s a = .error e) (l : List α) :
    chain f s (a :: l) = .error e := by
  rw [chain, h, error_bind]

/-- Steps that succeed from an invariant and keep it succeed in a chain. -/
theorem chain_total (hstep : ∀ s a, Inv s → ∃ s', f s a = .ok s' ∧ Inv s' ∧ P a s') {s : σ}
    (hs : Inv s) (l : List α) : ∃ states, chain f s l = .ok states ∧
      List.Forall₂ (fun a s' => Inv s' ∧ P a s') l states := by
  induction l generalizing s with
  | nil => exact ⟨[],rfl,.nil⟩
  | cons a l ih =>
    obtain ⟨next,hnext,hinv,hp⟩ := hstep s a hs
    obtain ⟨rest,hrest,hall⟩ := ih hinv
    refine ⟨next :: rest,?_,.cons ⟨hinv,hp⟩ hall⟩
    rw [chain, hnext, ok_bind, hrest, ok_bind]

/-- The last state of a chain is one of its states, or the first one of all. -/
theorem chain_last (Inv : σ → Prop) {R : α → σ → Prop} {s : σ} {l : List α} {states : List σ} (hs : Inv s)
    (h : List.Forall₂ R l states) (hinv : ∀ a s', R a s' → Inv s') : Inv (states.getLastD s) := by
  induction h generalizing s with
  | nil => exact hs
  | cons hr _ ih =>
    rw [List.getLastD_cons]
    exact ih (hinv _ _ hr)

end Chain

/-- The first element without a property is the same however it is found. -/
theorem first_unique {α : Type u} {p : α → Prop} {pre pre' post post' : List α} {a a' : α}
    (h : pre ++ a :: post = pre' ++ a' :: post') (hpre : ∀ x ∈ pre, p x) (ha : ¬ p a)
    (hpre' : ∀ x ∈ pre', p x) (ha' : ¬ p a') : a = a' := by
  induction pre generalizing pre' with
  | nil =>
    cases pre' with
    | nil => exact (List.cons_eq_cons.mp h).1
    | cons y pre' =>
      obtain ⟨rfl,_⟩ := List.cons_eq_cons.mp h
      exact absurd (hpre' a List.mem_cons_self) ha
  | cons x pre ih =>
    cases pre' with
    | nil =>
      obtain ⟨rfl,_⟩ := List.cons_eq_cons.mp h
      exact absurd (hpre x List.mem_cons_self) ha'
    | cons y pre' =>
      obtain ⟨_,htail⟩ := List.cons_eq_cons.mp h
      exact ih htail (fun x hx => hpre x (List.mem_cons_of_mem _ hx))
        (fun x hx => hpre' x (List.mem_cons_of_mem _ hx))

section Related
variable {α : Type u} {β : Type v} {R : α → β → Prop} {l : List α} {out : List β}

theorem related_of_mem (h : List.Forall₂ R l out) {a : α} (ha : a ∈ l) : ∃ b ∈ out, R a b := by
  induction h with
  | nil => exact absurd ha List.not_mem_nil
  | cons hr _ ih =>
    rcases List.mem_cons.mp ha with rfl | ha
    · exact ⟨_,List.mem_cons_self,hr⟩
    · obtain ⟨b,hb,hab⟩ := ih ha
      exact ⟨b,List.mem_cons_of_mem _ hb,hab⟩

theorem mem_of_related (h : List.Forall₂ R l out) {b : β} (hb : b ∈ out) : ∃ a ∈ l, R a b :=
  related_of_mem h.flip hb

end Related

end ReapiCache.Interaction
