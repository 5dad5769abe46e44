import ReapiCache.Interaction.RelyGuarantee
import Mathlib.Logic.Relation

/-! # Settled replies

A reply is settled when every later call of its kind gets it again and changes nothing.
A program that goes on only after settled replies can be moved to the moment of its last
call: executed alone there, it makes the same calls, gets the same replies and has the
same effect. A program that nothing can stop any more can be moved back to the moment
this was decided.
-/
namespace ReapiCache.Interaction
universe u v w x y

variable {Op : Type u} {Ret : Op → Type v} {S : Type y}
variable (handle : (op : Op) → S → Ret op × S)

/-- What is settled stays so in every extension of the state. -/
structure Settling (extends' : S → S → Prop) (settles : (op : Op) → Ret op → Prop) : Prop where
  refl : ∀ s, extends' s s
  again : ∀ {op s s'}, settles op (handle op s).1 → extends' (handle op s).2 s' →
    handle op s' = ((handle op s).1,s')

namespace Program
variable {α β : Type w} (settles : (op : Op) → Ret op → Prop)

/-- The program goes on only after settled replies. A reply that is not settled ends it
with one of the values of `final`. -/
def Patient (final : α → Prop) : Program Op Ret α → Prop
  | .done _ => True
  | .call op next => ∀ r, (∃ a, next r = .done a ∧ final a) ∨ (settles op r ∧ (next r).Patient final)

/-- In this state every reply the program gets is settled and nothing changes. -/
def Stays (a : α) : Program Op Ret α → S → Prop
  | .done b, _ => b = a
  | .call op next, s => settles op (handle op s).1 ∧ (handle op s).2 = s ∧ (next (handle op s).1).Stays a s

variable {settles} {final : α → Prop} {p : Program Op Ret α} {s s' : S} {a : α}

theorem Patient.bind {final' : β → Prop} {f : α → Program Op Ret β} (h : p.Patient settles final)
    (hf : ∀ a, (f a).Patient settles final') (hfinal : ∀ a, final a → ∃ b, f a = .done b ∧ final' b) :
    (p >>= f).Patient settles final' := by
  induction p with
  | done a => exact hf a
  | call op next ih =>
    intro r
    rcases h r with ⟨a,ha,hfa⟩ | ⟨hr,hnext⟩
    · obtain ⟨b,hb,hfb⟩ := hfinal a hfa
      refine Or.inl ⟨b,?_,hfb⟩
      change next r >>= f = .done b
      rw [ha]
      exact hb
    · exact Or.inr ⟨hr,ih r hnext⟩

theorem Patient.map {final' : β → Prop} {f : α → β} (h : p.Patient settles final)
    (hf : ∀ a, final a → final' (f a)) : (f <$> p).Patient settles final' :=
  h.bind (fun _ => trivial) (fun a ha => ⟨f a,rfl,hf a ha⟩)

theorem Patient.settles_mono {settles' : (op : Op) → Ret op → Prop} (h : p.Patient settles final)
    (hs : ∀ op r, settles op r → settles' op r) : p.Patient settles' final := by
  induction p with
  | done a => trivial
  | call op next ih =>
    intro r
    rcases h r with hlast | ⟨hr,hnext⟩
    · exact Or.inl hlast
    · exact Or.inr ⟨hs op r hr,ih r hnext⟩

/-- A program none of whose calls can fail to be settled. -/
theorem patient_of_uses (h : p.Uses (fun op => ∀ r, settles op r)) : p.Patient settles final := by
  induction p with
  | done a => trivial
  | call op next ih => exact fun r => Or.inr ⟨h.1 r,ih r (h.2 r)⟩

/-- A program that ends with its first call. -/
theorem patient_last {op : Op} {next : Ret op → Program Op Ret α} (h : ∀ r, ∃ a, next r = .done a ∧ final a) :
    (Program.call op next).Patient settles final := fun r => Or.inl (h r)

theorem Stays.exec (h : p.Stays handle settles a s) : p.exec handle s = (a,s) := by
  induction p with
  | done b => exact congrArg (·,s) h
  | call op next ih =>
    obtain ⟨_,hs,hnext⟩ := h
    rw [exec_call, hs]
    exact ih _ hnext

theorem Stays.bind {f : α → Program Op Ret β} {b : β} (h : p.Stays handle settles a s)
    (hf : (f a).Stays handle settles b s) : (p >>= f).Stays handle settles b s := by
  induction p with
  | done a' =>
    obtain rfl : a' = a := h
    exact hf
  | call op next ih => exact ⟨h.1,h.2.1,ih _ h.2.2⟩

theorem Stays.map (f : α → β) (h : p.Stays handle settles a s) : (f <$> p).Stays handle settles (f a) s :=
  h.bind handle rfl

theorem Stays.of_bind {f : α → Program Op Ret β} {b : β} (h : (p >>= f).Stays handle settles b s) :
    ∃ a, p.Stays handle settles a s ∧ (f a).Stays handle settles b s := by
  induction p with
  | done a => exact ⟨a,rfl,h⟩
  | call op next ih =>
    obtain ⟨hr,hs,hnext⟩ := h
    obtain ⟨a,ha,hf⟩ := ih _ hnext
    exact ⟨a,⟨hr,hs,ha⟩,hf⟩

variable {extends' : S → S → Prop} (hsettling : Settling handle extends' settles)
include hsettling

theorem Stays.later (h : p.Stays handle settles a s) (hs : extends' s s') : p.Stays handle settles a s' := by
  induction p with
  | done b => exact h
  | call op next ih =>
    obtain ⟨hr,hstate,hnext⟩ := h
    have hagain := hsettling.again hr (by rwa [hstate])
    refine ⟨?_,?_,?_⟩
    · rwa [hagain]
    · rw [hagain]
    · rw [hagain]
      exact ih _ hnext

end Program

namespace Protocol
variable {handle} {Req : Type w} {α : Type x} (P : Protocol handle Req) (silent : S → S → Prop)

/-- The program returns `a`, and none of its calls does more than what is silent. -/
def Quiet (me : ℕ) (req : Req) (a : α) : Program Op Ret α → World Op Req S → Prop
  | .done b, _ => b = a
  | .call op next, w => ∀ w', P.inv w' → w.log <+: w'.log → w'.log ++ [⟨me,req,op⟩] <+: P.history →
      Relation.ReflGen silent w'.state (handle op w'.state).2 ∧
        Quiet me req a (next (handle op w'.state).1) (w'.record handle ⟨me,req,op⟩)

/-- Each call either is settled and silent, or decides what the program returns and does
at once what the program would do if it were executed alone. -/
def Atomic (me : ℕ) (req : Req) : Program Op Ret α → World Op Req S → Prop
  | .done _, _ => True
  | .call op next, w => ∀ w', P.inv w' → w.log <+: w'.log → w'.log ++ [⟨me,req,op⟩] <+: P.history →
      (Relation.ReflGen silent w'.state (handle op w'.state).2 ∧
        (∀ w'', P.inv w'' → w'.log ++ [⟨me,req,op⟩] <+: w''.log →
          handle op w''.state = ((handle op w'.state).1,w''.state)) ∧
        Atomic me req (next (handle op w'.state).1) (w'.record handle ⟨me,req,op⟩)) ∨
      ∃ a, (Program.call op next).exec handle w'.state = (a,(handle op w'.state).2) ∧
        P.Quiet silent me req a (next (handle op w'.state).1) (w'.record handle ⟨me,req,op⟩)

/-- Executed alone in any later state, `p₀` does what is left of it does. -/
def Undecided (p₀ p : Program Op Ret α) (w : World Op Req S) : Prop :=
  ∀ w', P.inv w' → w.log <+: w'.log → p₀.exec handle w'.state = p.exec handle w'.state

variable {P silent} {me : ℕ} {req : Req} {p p₀ : Program Op Ret α} {w w' : World Op Req S} {a : α}

theorem Quiet.later (h : P.Quiet silent me req a p w) (hw : w.log <+: w'.log) :
    P.Quiet silent me req a p w' := by
  cases p with
  | done b => exact h
  | call op next => exact fun w'' hi hl => h w'' hi (hw.trans hl)

theorem Atomic.later (h : P.Atomic silent me req p w) (hw : w.log <+: w'.log) : P.Atomic silent me req p w' := by
  cases p with
  | done b => trivial
  | call op next => exact fun w'' hi hl => h w'' hi (hw.trans hl)

theorem Undecided.later (h : P.Undecided p₀ p w) (hw : w.log <+: w'.log) : P.Undecided p₀ p w' :=
  fun w'' hi hl => h w'' hi (hw.trans hl)

variable {settles : (op : Op) → Ret op → Prop} {extends' : S → S → Prop}
  (hsettling : Settling handle extends' settles)
include hsettling

/-- What stays in a state is quiet in every world that extends it. -/
theorem quiet_of_stays {s : S} (hs : ∀ w', P.inv w' → w.log <+: w'.log → extends' s w'.state)
    (h : p.Stays handle settles a s) : P.Quiet silent me req a p w := by
  induction p generalizing w with
  | done b => exact h
  | call op next ih =>
    intro w' hi hl _
    have hagain := hsettling.again h.1 (by rw [h.2.1]; exact hs w' hi hl)
    obtain ⟨_,_,hnext⟩ := h.later handle hsettling (hs w' hi hl)
    rw [hagain] at hnext ⊢
    refine ⟨.refl,?_⟩
    apply ih _ ?_ h.2.2
    intro w'' hi' hl'
    exact hs w'' hi' (hl.trans ((World.log_record handle w' _).trans hl'))

variable (hextends : ∀ w w', P.inv w → P.inv w' → w.log <+: w'.log → extends' w.state w'.state)
  (hfree : ∀ e w, P.inv w → P.guar e w)
include hextends

/-- A patient program stays where it has returned, unless it returned a final value. -/
theorem meets_stays {final : α → Prop} (h : p.Patient settles final)
    (huses : p.Uses (fun op => ∀ w', P.inv w' → P.guar ⟨me,req,op⟩ w')) :
    P.Meets me req p w (fun a w' => final a ∨ p.Stays handle settles a w'.state) := by
  induction p generalizing w with
  | done a => exact fun _ _ _ => Or.inr rfl
  | call op next ih =>
    intro w' hi _
    refine ⟨huses.1 w' hi,fun hh => ?_⟩
    have hi' := P.keeps w' _ hi (huses.1 w' hi) hh
    rcases h (handle op w'.state).1 with ⟨a,ha,hfinal⟩ | ⟨hr,hnext⟩
    · rw [ha]
      exact fun _ _ _ => Or.inl hfinal
    · apply (ih _ hnext (huses.2 _)).imp
      rintro a w'' hi'' hl'' (hfinal | hstays)
      · exact Or.inl hfinal
      · have hagain := hsettling.again hr (hextends _ w'' hi' hi'' hl'')
        refine Or.inr ⟨?_,?_,?_⟩
        · rwa [hagain]
        · rw [hagain]
        · rwa [hagain]

include hfree

/-- The last call of a patient program decides it, when the calls before it are silent. -/
theorem atomic_of_patient {final : α → Prop} (h : p.Patient settles final)
    (hsilent : ∀ op w', P.inv w' → w'.log ++ [⟨me,req,op⟩] <+: P.history → settles op (handle op w'.state).1 →
      Relation.ReflGen silent w'.state (handle op w'.state).2) : P.Atomic silent me req p w := by
  induction p generalizing w with
  | done a => trivial
  | call op next ih =>
    intro w' hi _ hh
    rcases h (handle op w'.state).1 with ⟨a,ha,_⟩ | ⟨hr,hnext⟩
    · refine Or.inr ⟨a,?_,?_⟩
      · rw [Program.exec_call, ha]
        rfl
      · rw [ha]
        exact rfl
    · have hi' := P.keeps w' _ hi (hfree _ w' hi) hh
      exact Or.inl ⟨hsilent op w' hi hh hr,
        fun w'' hi'' hl'' => hsettling.again hr (hextends _ w'' hi' hi'' hl''),ih _ hnext⟩

/-- A call after which the program stays decides it. -/
theorem atomic_of_stays {op : Op} {next : Ret op → Program Op Ret α}
    (h : ∀ w', P.inv w' → w.log <+: w'.log →
      ∃ a, (next (handle op w'.state).1).Stays handle settles a (handle op w'.state).2) :
    P.Atomic silent me req (.call op next) w := by
  intro w' hi hl hh
  obtain ⟨a,ha⟩ := h w' hi hl
  have hi' := P.keeps w' ⟨me,req,op⟩ hi (hfree _ w' hi) hh
  refine Or.inr ⟨a,?_,?_⟩
  · rw [Program.exec_call, ha.exec]
  · exact quiet_of_stays hsettling (fun w'' hi'' hl'' => hextends _ w'' hi' hi'' hl'') ha

end Protocol

namespace Failing
variable {ε α β : Type w} {settles : (op : Op) → Ret op → Prop}

def IsError (out : Except ε α) : Prop := ∃ e, out = .error e

/-- A reply that is not settled is an error. -/
abbrev Patient (settles : (op : Op) → Ret op → Prop) (p : Failing Op Ret ε α) : Prop :=
  Program.Patient settles IsError p.run

theorem patient_ofExcept (r : Except ε α) : Patient settles (ofExcept r : Failing Op Ret ε α) := trivial
theorem patient_pure (a : α) : Patient settles (pure a : Failing Op Ret ε α) := trivial

/-- What comes after a patient program may end with other values, but errors end both. -/
theorem Patient.run_bind {final : Except ε β → Prop} {p : Failing Op Ret ε α} {f : α → Failing Op Ret ε β}
    (h : Patient settles p) (hf : ∀ a, (f a).run.Patient settles final) (hfinal : ∀ e, final (.error e)) :
    (p >>= f).run.Patient settles final := by
  rw [ExceptT.run_bind]
  apply Program.Patient.bind h
  · rintro (e | a)
    · trivial
    · exact hf a
  · rintro _ ⟨e,rfl⟩
    exact ⟨_,rfl,hfinal e⟩

theorem Patient.bind {p : Failing Op Ret ε α} {f : α → Failing Op Ret ε β} (h : Patient settles p)
    (hf : ∀ a, Patient settles (f a)) : Patient settles (p >>= f) := h.run_bind hf (fun e => ⟨e,rfl⟩)

/-- One call, whose replies are settled or lead to an error at once. -/
theorem patient_attempt_bind {final : Except ε β → Prop} {op : Op} {g : Ret op → Except ε α}
    {f : α → Failing Op Ret ε β}
    (h : ∀ r, (∃ out, (ofExcept (g r) >>= f).run = .done out ∧ final out) ∨
      (settles op r ∧ (ofExcept (g r) >>= f).run.Patient settles final)) :
    (attempt op g >>= f).run.Patient settles final := h

theorem patient_foldlM {γ : Type x} {f : α → γ → Failing Op Ret ε α} {l : List γ}
    (hf : ∀ a, ∀ c ∈ l, Patient settles (f a c)) (a : α) : Patient settles (l.foldlM f a) := by
  induction l generalizing a with
  | nil => exact patient_pure a
  | cons c l ih =>
    rw [List.foldlM_cons]
    exact (hf a c List.mem_cons_self).bind (fun a' => ih (fun a c hc => hf a c (List.mem_cons_of_mem _ hc)) a')

variable (settles) in
/-- Where `p` succeeds and changes nothing, `q` does, with the same result. -/
def Implies (handle : (op : Op) → S → Ret op × S) (p q : Failing Op Ret ε α) : Prop :=
  ∀ a s, p.run.Stays handle settles (.ok a) s → q.run.Stays handle settles (.ok a) s

theorem stays_bind {p : Failing Op Ret ε α} {f : α → Failing Op Ret ε β} {b : β} {s : S} :
    (p >>= f).run.Stays handle settles (.ok b) s ↔
      ∃ a, p.run.Stays handle settles (.ok a) s ∧ (f a).run.Stays handle settles (.ok b) s := by
  rw [ExceptT.run_bind]
  constructor
  · intro h
    obtain ⟨out,hp,hf⟩ := h.of_bind
    cases out with
    | error e => cases hf
    | ok a => exact ⟨a,hp,hf⟩
  · rintro ⟨a,hp,hf⟩
    exact hp.bind handle hf

theorem Implies.bind {p q : Failing Op Ret ε α} {f g : α → Failing Op Ret ε β} (h : Implies settles handle p q)
    (hf : ∀ a, Implies settles handle (f a) (g a)) : Implies settles handle (p >>= f) (q >>= g) := by
  intro b s hs
  obtain ⟨a,hp,hfa⟩ := (stays_bind handle).mp hs
  exact (stays_bind handle).mpr ⟨a,h a s hp,hf a b s hfa⟩

theorem implies_refl (p : Failing Op Ret ε α) : Implies settles handle p p := fun _ _ h => h

theorem implies_ofExcept {r r' : Except ε α} (h : ∀ a, r = .ok a → r' = .ok a) :
    Implies settles handle (ofExcept r) (ofExcept r') := fun a _ hs => h a hs

theorem implies_foldlM {γ : Type x} {f g : α → γ → Failing Op Ret ε α} {l : List γ}
    (hf : ∀ a, ∀ c ∈ l, Implies settles handle (f a c) (g a c)) (a : α) :
    Implies settles handle (l.foldlM f a) (l.foldlM g a) := by
  induction l generalizing a with
  | nil => exact implies_refl handle _
  | cons c l ih =>
    rw [List.foldlM_cons, List.foldlM_cons]
    exact (hf a c List.mem_cons_self).bind handle
      (fun a' => ih (fun a c hc => hf a c (List.mem_cons_of_mem _ hc)) a')

end Failing

/-- The state is the replay of the log, and nothing else is asked. -/
def Protocol.replays (handle : (op : Op) → S → Ret op × S) {Req : Type w} (s : S) (L : List (Entry Op Req)) :
    Protocol handle Req where
  history := L
  inv w := w.log <+: L ∧ w.state = replay handle s w.log
  guar _ _ := True
  keeps := by
    rintro w e ⟨_,hs⟩ _ hl
    exact ⟨hl,by rw [World.record_state, World.record_log, replay_concat, hs]⟩

end ReapiCache.Interaction
