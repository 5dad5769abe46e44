import Mathlib.Data.List.Basic

/-! # Programs over a shared object

A program either returns or issues one atomic call and continues with the reply.
Nothing here fixes the object: `Op` names the calls, `Ret` types the replies, and
`perform` is the object's own transition function. Sequential execution and the
syntactic call discipline of a program are defined on the same tree that the
interleaved semantics steps through.
-/
namespace ReapiCache.Interaction
universe u v w x y

/-- A finite interaction tree. Every branch ends, so a program that is scheduled
often enough returns. -/
inductive Program (Op : Type u) (Ret : Op → Type v) (α : Type w) : Type (max u v w)
  | done (a : α) : Program Op Ret α
  | call (op : Op) (next : Ret op → Program Op Ret α) : Program Op Ret α

namespace Program
variable {Op : Type u} {Ret : Op → Type v} {α : Type w} {β : Type w}

def bind : Program Op Ret α → (α → Program Op Ret β) → Program Op Ret β
  | .done a, f => f a
  | .call op next, f => .call op (fun r => (next r).bind f)

instance : Monad (Program Op Ret) where
  pure := .done
  bind := Program.bind

@[simp] theorem call_bind (op : Op) (next : Ret op → Program Op Ret α) (f : α → Program Op Ret β) :
    (Program.call op next >>= f) = .call op (fun r => next r >>= f) := rfl

theorem bind_done (p : Program Op Ret α) : (p >>= Program.done) = p := by
  induction p with
  | done a => rfl
  | call op next ih =>
    rw [call_bind]
    exact congrArg _ (funext ih)

theorem bind_assoc {γ : Type w} (p : Program Op Ret α) (f : α → Program Op Ret β)
    (g : β → Program Op Ret γ) : ((p >>= f) >>= g) = (p >>= fun a => f a >>= g) := by
  induction p with
  | done a => rfl
  | call op next ih =>
    simp only [call_bind]
    exact congrArg _ (funext ih)

instance : LawfulMonad (Program Op Ret) :=
  LawfulMonad.mk' _ bind_done (fun _ _ => rfl) bind_assoc

section Execution
variable {S : Type x} (handle : (op : Op) → S → Ret op × S)

/-- Run a program alone, call after call. -/
def exec : Program Op Ret α → S → α × S
  | .done a, s => (a,s)
  | .call op next, s => (next (handle op s).1).exec (handle op s).2

@[simp] theorem exec_call (op : Op) (next : Ret op → Program Op Ret α) (s : S) :
    (Program.call op next).exec handle s = (next (handle op s).1).exec handle (handle op s).2 := rfl

theorem exec_bind (p : Program Op Ret α) (f : α → Program Op Ret β) (s : S) :
    (p >>= f).exec handle s = (f (p.exec handle s).1).exec handle (p.exec handle s).2 := by
  induction p generalizing s with
  | done a => rfl
  | call op next ih => exact ih _ _

theorem exec_map (f : α → β) (p : Program Op Ret α) (s : S) :
    (f <$> p).exec handle s = (f (p.exec handle s).1,(p.exec handle s).2) := by
  induction p generalizing s with
  | done a => rfl
  | call op next ih => exact ih _ _

end Execution

/-- Every call the program can ever issue is allowed, whatever the replies are. -/
def Uses (allowed : Op → Prop) : Program Op Ret α → Prop
  | .done _ => True
  | .call op next => allowed op ∧ ∀ r, (next r).Uses allowed

variable {allowed : Op → Prop}

theorem Uses.bind {p : Program Op Ret α} {f : α → Program Op Ret β} (hp : p.Uses allowed)
    (hf : ∀ a, (f a).Uses allowed) : (p >>= f).Uses allowed := by
  induction p with
  | done a => exact hf a
  | call op next ih => exact ⟨hp.1,fun r => ih r (hp.2 r)⟩

theorem Uses.map {p : Program Op Ret α} (f : α → β) (hp : p.Uses allowed) :
    (f <$> p).Uses allowed := hp.bind (fun _ => trivial)

theorem Uses.mono {q : Op → Prop} {p : Program Op Ret α} (hp : p.Uses allowed)
    (h : ∀ op, allowed op → q op) : p.Uses q := by
  induction p with
  | done a => trivial
  | call op next ih => exact ⟨h op hp.1,fun r => ih r (hp.2 r)⟩

theorem uses_of_forall (h : ∀ op, allowed op) (p : Program Op Ret α) : p.Uses allowed := by
  induction p with
  | done a => trivial
  | call op next ih => exact ⟨h op,ih⟩

end Program

section Failing
variable {Op : Type u} {Ret : Op → Type v} {α β ε ε' : Type w}

/-- A program with an early exit. -/
abbrev Failing (Op : Type u) (Ret : Op → Type v) (ε α : Type w) := ExceptT ε (Program Op Ret) α

namespace Failing

/-- Lift a pure fallible computation. -/
def ofExcept (e : Except ε α) : Failing Op Ret ε α := ExceptT.mk (.done e)

/-- Issue one call and read its reply as a success or an error. -/
def attempt (op : Op) (f : Ret op → Except ε α) : Failing Op Ret ε α :=
  ExceptT.mk (.call op (fun r => .done (f r)))

/-- Run to the end and keep the outcome as a value. -/
def outcome (p : Failing Op Ret ε α) : Failing Op Ret ε' (Except ε α) :=
  ExceptT.mk (Except.ok <$> p.run)

@[simp] theorem run_outcome (p : Failing Op Ret ε α) :
    (outcome p : Failing Op Ret ε' (Except ε α)).run = Except.ok <$> p.run := rfl

theorem ofExcept_ok (a : α) : (ofExcept (.ok a) : Failing Op Ret ε α) = pure a := rfl

/-- Lifting commutes with sequencing. -/
theorem ofExcept_bind (r : Except ε α) (f : α → Except ε β) :
    (ofExcept (r >>= f) : Failing Op Ret ε β) = ofExcept r >>= fun a => ofExcept (f a) := by
  cases r <;> rfl

section Execution
variable {S : Type x} (handle : (op : Op) → S → Ret op × S)

/-- Execution stops at the first failure and keeps the state reached there. -/
theorem exec_bind (p : Failing Op Ret ε α) (f : α → Failing Op Ret ε β) (s : S) :
    (p >>= f).run.exec handle s =
      match p.run.exec handle s with
      | (.ok a,s') => (f a).run.exec handle s'
      | (.error e,s') => (.error e,s') := by
  rw [ExceptT.run_bind, Program.exec_bind]
  rcases p.run.exec handle s with ⟨e | a,s'⟩
  · rfl
  · rfl

@[simp] theorem exec_ofExcept (e : Except ε α) (s : S) :
    (ofExcept e : Failing Op Ret ε α).run.exec handle s = (e,s) := rfl
@[simp] theorem exec_pure (a : α) (s : S) :
    (pure a : Failing Op Ret ε α).run.exec handle s = (.ok a,s) := rfl
@[simp] theorem exec_attempt (op : Op) (f : Ret op → Except ε α) (s : S) :
    (attempt op f : Failing Op Ret ε α).run.exec handle s = (f (handle op s).1,(handle op s).2) := rfl
theorem exec_outcome (p : Failing Op Ret ε α) (s : S) :
    (outcome p : Failing Op Ret ε' (Except ε α)).run.exec handle s =
      (.ok (p.run.exec handle s).1,(p.run.exec handle s).2) := by
  rw [run_outcome, Program.exec_map]

/-- Rounds that keep the state run like the pure loop of their outcomes. -/
theorem exec_foldlM_pure {γ : Type y} {f : α → γ → Failing Op Ret ε α} {g : α → γ → Except ε α} {s : S}
    (hf : ∀ a c, (f a c).run.exec handle s = (g a c,s)) (l : List γ) (a : α) :
    (l.foldlM f a).run.exec handle s = (l.foldlM g a,s) := by
  induction l generalizing a with
  | nil => rfl
  | cons c l ih =>
    rw [List.foldlM_cons, List.foldlM_cons, exec_bind, hf]
    cases g a c with
    | error e => rfl
    | ok a' => exact ih a'

/-- The loop rule of an execution alone: the invariant speaks of the elements already
processed, and no round fails. -/
theorem exec_foldlM {γ : Type y} {f : α → γ → Failing Op Ret ε α} (I : List γ → α → S → Prop) {l : List γ}
    (hf : ∀ pre c a s, c ∈ l → I pre a s →
      ∃ a' s', (f a c).run.exec handle s = (.ok a',s') ∧ I (pre ++ [c]) a' s')
    (pre : List γ) (a : α) (s : S) (h : I pre a s) :
    ∃ a' s', (l.foldlM f a).run.exec handle s = (.ok a',s') ∧ I (pre ++ l) a' s' := by
  induction l generalizing pre a s with
  | nil => exact ⟨a,s,rfl,by rwa [List.append_nil]⟩
  | cons c l ih =>
    obtain ⟨a₁,s₁,hexec,h₁⟩ := hf pre c a s List.mem_cons_self h
    obtain ⟨a₂,s₂,hexec',h₂⟩ := ih (fun pre c a s hc => hf pre c a s (List.mem_cons_of_mem _ hc)) _ a₁ s₁ h₁
    rw [List.append_assoc] at h₂
    refine ⟨a₂,s₂,?_,h₂⟩
    rw [List.foldlM_cons, exec_bind, hexec]
    exact hexec'

end Execution

/-- Every call of a failing program is allowed. -/
def Uses (allowed : Op → Prop) (p : Failing Op Ret ε α) : Prop := Program.Uses allowed p.run

variable {allowed : Op → Prop}

theorem uses_ofExcept (e : Except ε α) : Uses allowed (ofExcept e : Failing Op Ret ε α) := trivial
theorem uses_pure (a : α) : Uses allowed (pure a : Failing Op Ret ε α) := trivial
theorem uses_throw (e : ε) : Uses allowed (throw e : Failing Op Ret ε α) := trivial

theorem uses_attempt {op : Op} (f : Ret op → Except ε α) (h : allowed op) :
    Uses allowed (attempt op f) := ⟨h,fun _ => trivial⟩

theorem uses_outcome {p : Failing Op Ret ε α} (hp : Uses allowed p) :
    Uses allowed (outcome p : Failing Op Ret ε' (Except ε α)) := Program.Uses.map _ hp

theorem Uses.bind {p : Failing Op Ret ε α} {f : α → Failing Op Ret ε β} (hp : Uses allowed p)
    (hf : ∀ a, Uses allowed (f a)) : Uses allowed (p >>= f) := by
  unfold Uses
  rw [ExceptT.run_bind]
  apply Program.Uses.bind hp
  rintro (e | a)
  · trivial
  · exact hf a

/-- After a pure step only its successes go on. -/
theorem uses_ofExcept_bind {r : Except ε α} {f : α → Failing Op Ret ε β}
    (h : ∀ a, r = .ok a → Uses allowed (f a)) : Uses allowed (ofExcept r >>= f) := by
  cases r with
  | error e => trivial
  | ok a => exact h a rfl

theorem uses_foldlM {γ : Type x} {f : α → γ → Failing Op Ret ε α} {l : List γ}
    (hf : ∀ a, ∀ c ∈ l, Uses allowed (f a c)) (a : α) : Uses allowed (l.foldlM f a) := by
  induction l generalizing a with
  | nil => exact uses_pure a
  | cons c l ih =>
    rw [List.foldlM_cons]
    exact (hf a c List.mem_cons_self).bind
      (fun a' => ih (fun a c hc => hf a c (List.mem_cons_of_mem _ hc)) a')

end Failing
end Failing

end ReapiCache.Interaction
