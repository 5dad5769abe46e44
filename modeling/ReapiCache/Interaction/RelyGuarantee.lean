import ReapiCache.Interaction.Pool
import Mathlib.Data.List.Forall2

/-! # Rely and guarantee over the log

Interference on a thread is the growth of the log: whatever the others do between
two of its calls, the world it meets next still satisfies the invariant and has a
longer log. `Meets` is the proof obligation of one program under that interference,
and `Config.run_meets` discharges it for every thread of every interleaving.
The history is the log of the whole run; calls outside it never happen.
-/
namespace ReapiCache.Interaction
universe u v w x y

variable {Op : Type u} {Ret : Op → Type v} {Req : Type w} {Resp : Type x} {S : Type y}
variable {handle : (op : Op) → S → Ret op × S}

/-- What all threads maintain, and what each has to establish before a call. -/
structure Protocol (handle : (op : Op) → S → Ret op × S) (Req : Type w) where
  history : List (Entry Op Req)
  inv : World Op Req S → Prop
  guar : Entry Op Req → World Op Req S → Prop
  keeps : ∀ w e, inv w → guar e w → w.log ++ [e] <+: history → inv (w.record handle e)

namespace Protocol
variable (P : Protocol handle Req)

/-- A fact that interference cannot destroy. -/
def Stable (R : World Op Req S → Prop) : Prop :=
  ∀ w w', P.inv w → P.inv w' → w.log <+: w'.log → R w → R w'

/-- The obligation of a program of caller `me` on behalf of `req`, from world `w`. -/
def Meets {α : Type x} (me : ℕ) (req : Req) :
    Program Op Ret α → World Op Req S → (α → World Op Req S → Prop) → Prop
  | .done a, w, Q => ∀ w', P.inv w' → w.log <+: w'.log → Q a w'
  | .call op next, w, Q => ∀ w', P.inv w' → w.log <+: w'.log →
      P.guar ⟨me,req,op⟩ w' ∧ (w'.log ++ [⟨me,req,op⟩] <+: P.history →
        Meets me req (next (handle op w'.state).1) (w'.record handle ⟨me,req,op⟩) Q)

variable {P} {me : ℕ} {req : Req} {α β : Type x}

theorem Meets.later {p : Program Op Ret α} {w w' : World Op Req S} {Q : α → World Op Req S → Prop}
    (h : P.Meets me req p w Q) (hw : w.log <+: w'.log) : P.Meets me req p w' Q := by
  cases p with
  | done a => exact fun w'' hi hl => h w'' hi (hw.trans hl)
  | call op next => exact fun w'' hi hl => h w'' hi (hw.trans hl)

/-- Consequence. The new postcondition may use the invariant and that the world is later. -/
theorem Meets.imp {p : Program Op Ret α} {w : World Op Req S} {Q R : α → World Op Req S → Prop}
    (h : P.Meets me req p w Q)
    (hQ : ∀ a w', P.inv w' → w.log <+: w'.log → Q a w' → R a w') : P.Meets me req p w R := by
  induction p generalizing w with
  | done a => exact fun w' hi hl => hQ a w' hi hl (h w' hi hl)
  | call op next ih =>
    intro w' hi hl
    refine ⟨(h w' hi hl).1,fun hh => ?_⟩
    apply ih _ ((h w' hi hl).2 hh)
    intro a w'' hi' hl'
    exact hQ a w'' hi' (hl.trans ((World.log_record handle w' _).trans hl'))

/-- An obligation met from every later world is met now. -/
theorem Meets.now {p : Program Op Ret α} {w : World Op Req S} {Q : α → World Op Req S → Prop}
    (h : ∀ w', P.inv w' → w.log <+: w'.log → P.Meets me req p w' Q) : P.Meets me req p w Q := by
  cases p with
  | done a => exact fun w' hi hl => h w' hi hl w' hi (List.prefix_refl _)
  | call op next => exact fun w' hi hl => h w' hi hl w' hi (List.prefix_refl _)

theorem Meets.bind {p : Program Op Ret α} {f : α → Program Op Ret β} {w : World Op Req S}
    {Q : β → World Op Req S → Prop}
    (h : P.Meets me req p w (fun a w' => P.Meets me req (f a) w' Q)) :
    P.Meets me req (p >>= f) w Q := by
  induction p generalizing w with
  | done a => exact Meets.now h
  | call op next ih =>
    intro w' hi hl
    exact ⟨(h w' hi hl).1,fun hh => ih _ ((h w' hi hl).2 hh)⟩

theorem Meets.map {p : Program Op Ret α} (f : α → β) {w : World Op Req S}
    {Q : β → World Op Req S → Prop} (h : P.Meets me req p w (fun a => Q (f a))) :
    P.Meets me req (f <$> p) w Q := by
  induction p generalizing w with
  | done a => exact h
  | call op next ih =>
    intro w' hi hl
    exact ⟨(h w' hi hl).1,fun hh => ih _ ((h w' hi hl).2 hh)⟩

theorem meets_done {a : α} {w : World Op Req S} {Q : α → World Op Req S → Prop}
    (hw : P.inv w) (hQ : P.Stable (Q a)) (h : Q a w) : P.Meets me req (.done a) w Q :=
  fun w' hi hl => hQ w w' hw hi hl h

/-- A program whose calls always satisfy the guarantee meets the trivial postcondition. -/
theorem meets_of_uses {p : Program Op Ret α}
    (h : p.Uses (fun op => ∀ w, P.inv w → P.guar ⟨me,req,op⟩ w)) (w : World Op Req S) :
    P.Meets me req p w (fun _ _ => True) := by
  induction p generalizing w with
  | done a => exact fun _ _ _ => trivial
  | call op next ih => exact fun w' hi _ => ⟨h.1 w' hi,fun _ => ih _ (h.2 _) _⟩

/-- One call and a value made of its reply, which is judged at any later moment. -/
theorem meets_call {op : Op} {g : Ret op → α} {w : World Op Req S} {Q : α → Prop}
    (hg : ∀ w', P.inv w' → P.guar ⟨me,req,op⟩ w')
    (h : ∀ w', P.inv w' → w.log <+: w'.log → Q (g (handle op w'.state).1)) :
    P.Meets me req (.call op (fun r => .done (g r))) w (fun a _ => Q a) :=
  fun w' hi hl => ⟨hg w' hi,fun _ _ _ _ => h w' hi hl⟩

/-- What each program of a list establishes of its value, the list establishes of theirs. -/
theorem meets_mapM {γ : Type x} {f : γ → Program Op Ret β} {V : γ → β → Prop} {l : List γ}
    {w : World Op Req S} (h : ∀ c ∈ l, P.Meets me req (f c) w (fun b _ => V c b)) :
    P.Meets me req (l.mapM f) w (fun bs _ => List.Forall₂ V l bs) := by
  induction l generalizing w with
  | nil => exact fun _ _ _ => .nil
  | cons c l ih =>
    rw [List.mapM_cons]
    apply Meets.bind
    apply (h c List.mem_cons_self).imp
    intro b w' _ hl hb
    apply Meets.bind
    apply (ih (fun c hc => (h c (List.mem_cons_of_mem _ hc)).later hl)).imp
    intro bs _ _ _ hbs
    exact fun _ _ _ => .cons hb hbs

/-- On success the postcondition `Q` holds; `E` constrains the errors. -/
def Outcome {ε α : Type x} (Q : α → World Op Req S → Prop) (E : ε → Prop) :
    Except ε α → World Op Req S → Prop
  | .ok a, w => Q a w
  | .error e, _ => E e

def Ensures (P : Protocol handle Req) (me : ℕ) (req : Req) {ε α : Type x} (p : Failing Op Ret ε α)
    (w : World Op Req S) (Q : α → World Op Req S → Prop) (E : ε → Prop) : Prop :=
  P.Meets me req p.run w (Outcome Q E)

variable {ε : Type x} {E : ε → Prop}

theorem ensures_pure {a : α} {w : World Op Req S} {Q : α → World Op Req S → Prop}
    (hw : P.inv w) (hQ : P.Stable (Q a)) (h : Q a w) :
    P.Ensures me req (pure a : Failing Op Ret ε α) w Q E := fun w' hi hl => hQ w w' hw hi hl h

theorem ensures_throw {e : ε} {w : World Op Req S} {Q : α → World Op Req S → Prop} (h : E e) :
    P.Ensures me req (throw e : Failing Op Ret ε α) w Q E := fun _ _ _ => h

theorem Ensures.imp {p : Failing Op Ret ε α} {w : World Op Req S} {Q R : α → World Op Req S → Prop}
    (h : P.Ensures me req p w Q E)
    (hQ : ∀ a w', P.inv w' → w.log <+: w'.log → Q a w' → R a w') : P.Ensures me req p w R E := by
  apply Meets.imp h
  rintro (e | a) w' hi hl hq
  · exact hq
  · exact hQ a w' hi hl hq

theorem Ensures.bind {p : Failing Op Ret ε α} {f : α → Failing Op Ret ε β} {w : World Op Req S}
    {Q : α → World Op Req S → Prop} {R : β → World Op Req S → Prop} (h : P.Ensures me req p w Q E)
    (hf : ∀ a w', P.inv w' → w.log <+: w'.log → Q a w' → P.Ensures me req (f a) w' R E) :
    P.Ensures me req (p >>= f) w R E := by
  unfold Ensures
  rw [ExceptT.run_bind]
  apply Meets.bind
  apply Meets.imp h
  rintro (e | a) w' hi hl hq
  · exact fun _ _ _ => hq
  · exact hf a w' hi hl hq

/-- A pure step: its success is a fact about the value, its failure about the error. -/
theorem ensures_ofExcept_bind {r : Except ε α} {f : α → Failing Op Ret ε β} {w : World Op Req S}
    {R : β → World Op Req S → Prop} (herr : ∀ e, r = .error e → E e)
    (hok : ∀ a, r = .ok a → P.Ensures me req (f a) w R E) :
    P.Ensures me req (Failing.ofExcept r >>= f) w R E := by
  cases r with
  | error e => exact fun _ _ _ => herr e rfl
  | ok a => exact hok a rfl

theorem ensures_ok_bind {r : Except ε α} {a : α} {f : α → Failing Op Ret ε β} {w : World Op Req S}
    {R : β → World Op Req S → Prop} (hr : r = .ok a) (h : P.Ensures me req (f a) w R E) :
    P.Ensures me req (Failing.ofExcept r >>= f) w R E := by
  subst hr
  exact h

theorem ensures_error_bind {r : Except ε α} {e : ε} {f : α → Failing Op Ret ε β} {w : World Op Req S}
    {R : β → World Op Req S → Prop} (hr : r = .error e) (h : E e) :
    P.Ensures me req (Failing.ofExcept r >>= f) w R E := by
  subst hr
  exact fun _ _ _ => h

theorem ensures_ofExcept {r : Except ε α} {w : World Op Req S} {Q : α → World Op Req S → Prop}
    (hw : P.inv w) (hQ : ∀ a, P.Stable (Q a)) (herr : ∀ e, r = .error e → E e)
    (hok : ∀ a, r = .ok a → Q a w) : P.Ensures me req (Failing.ofExcept r : Failing Op Ret ε α) w Q E := by
  cases r with
  | error e => exact fun _ _ _ => herr e rfl
  | ok a => exact ensures_pure hw (hQ a) (hok a rfl)

/-- One call: the guarantee before it, and its reply judged in the world after it. -/
theorem ensures_attempt {op : Op} {f : Ret op → Except ε α} {w : World Op Req S}
    {Q : α → World Op Req S → Prop}
    (hg : ∀ w', P.inv w' → w.log <+: w'.log → P.guar ⟨me,req,op⟩ w')
    (hQ : ∀ a, P.Stable (Q a))
    (h : ∀ w', P.inv w' → w.log <+: w'.log → P.inv (w'.record handle ⟨me,req,op⟩) →
      Outcome Q E (f (handle op w'.state).1) (w'.record handle ⟨me,req,op⟩)) :
    P.Ensures me req (Failing.attempt op f : Failing Op Ret ε α) w Q E := by
  intro w' hi hl
  refine ⟨hg w' hi hl,fun hh => ?_⟩
  have hi' := P.keeps w' _ hi (hg w' hi hl) hh
  have hr := h w' hi hl hi'
  apply meets_done hi' ?_ hr
  intro a b ha hb hab hq
  cases hf : f (handle op w'.state).1 with
  | error e =>
    rw [hf] at hq
    exact hq
  | ok v =>
    rw [hf] at hq
    exact hQ v a b ha hb hab hq

/-- A failure kept as a value carries what was known of the error. -/
theorem ensures_outcome {ε' : Type x} {E' : ε' → Prop} {p : Failing Op Ret ε α} {w : World Op Req S}
    {Q : α → World Op Req S → Prop} (h : P.Ensures me req p w Q E) :
    P.Ensures me req (Failing.outcome p : Failing Op Ret ε' (Except ε α)) w (Outcome Q E) E' :=
  Meets.map _ h

/-- What is done with the outcome as a value, once the program has ended. -/
theorem Ensures.meets_map {p : Failing Op Ret ε α} {w : World Op Req S} {Q : α → World Op Req S → Prop}
    (h : P.Ensures me req p w Q E) (f : Except ε α → β) :
    P.Meets me req (f <$> p.run) w (fun b w' => ∃ out, b = f out ∧ Outcome Q E out w') := by
  apply Meets.map
  exact Meets.imp h (fun out _ _ _ hout => ⟨out,rfl,hout⟩)

/-- The loop rule: the invariant speaks of the elements already processed. -/
theorem ensures_foldlM {γ : Type y} {f : α → γ → Failing Op Ret ε α}
    (I : List γ → α → World Op Req S → Prop) (hI : ∀ pre a, P.Stable (I pre a))
    (l : List γ) (hf : ∀ pre c a w, c ∈ l → P.inv w → I pre a w →
      P.Ensures me req (f a c) w (I (pre ++ [c])) E) (pre : List γ) (a : α) (w : World Op Req S)
    (hw : P.inv w) (h : I pre a w) :
    P.Ensures me req (l.foldlM f a) w (I (pre ++ l)) E := by
  induction l generalizing pre a w with
  | nil =>
    rw [List.append_nil]
    exact ensures_pure hw (hI pre a) h
  | cons c l ih =>
    rw [List.foldlM_cons]
    apply (hf pre c a w List.mem_cons_self hw h).bind
    intro a' w' hi _ hq
    have hl := ih (fun pre c a w hc => hf pre c a w (List.mem_cons_of_mem _ hc)) (pre ++ [c]) a' w' hi hq
    rwa [List.append_assoc] at hl

end Protocol

namespace Config
variable {serve : Req → Program Op Ret Resp} {P : Protocol handle Req}

/-- Every thread carries the obligations of its program from its own start to the
current world, so the invariant holds in every world of every interleaving. -/
theorem run_meets {s : S} (hs : P.inv ⟨s,[]⟩)
    (hserve : ∀ i r w, P.inv w → P.Meets i r (serve r) w (fun _ _ => True))
    (schedule : List (Action Req))
    (hlog : ((initial s : Config Op Ret Req Resp S).run handle serve schedule).world.log <+: P.history) :
    P.inv ((initial s).run handle serve schedule).world ∧
    ∀ i t, ((initial s).run handle serve schedule).threads[i]? = some t → P.inv t.start ∧
      ∀ Q, P.Meets i t.request (serve t.request) t.start Q →
        P.Meets i t.request t.program ((initial s).run handle serve schedule).world Q := by
  have h := run_inv handle serve
    (fun d : Config Op Ret Req Resp S => d.world.log <+: P.history → P.inv d.world ∧
      ∀ i t, d.threads[i]? = some t → P.inv t.start ∧
        ∀ Q, P.Meets i t.request (serve t.request) t.start Q →
          P.Meets i t.request t.program d.world Q) ?_ ?_ (c := initial s) ?_ schedule hlog
  · exact h
  · intro d r hd hl
    obtain ⟨hi,hm⟩ := hd hl
    refine ⟨hi,?_⟩
    intro i t ht
    by_cases hlt : i < d.threads.length
    · simp only [started, List.getElem?_append_left hlt] at ht
      exact hm i t ht
    · simp only [started, List.getElem?_append_right (Nat.le_of_not_lt hlt)] at ht
      obtain rfl := List.mem_singleton.mp (List.mem_of_getElem? ht)
      exact ⟨hi,fun Q hQ => hQ⟩
  · intro d i t op next hd ht hp hl
    obtain ⟨hi,hm⟩ := hd ((World.log_record handle d.world _).trans hl)
    have hcall : ∀ Q, P.Meets i t.request (serve t.request) t.start Q →
        P.guar ⟨i,t.request,op⟩ d.world ∧
        P.Meets i t.request (next (handle op d.world.state).1)
          (d.world.record handle ⟨i,t.request,op⟩) Q := by
      intro Q hQ
      have hmq := (hm i t ht).2 Q hQ
      rw [hp] at hmq
      obtain ⟨hg,hn⟩ := hmq d.world hi (List.prefix_refl _)
      exact ⟨hg,hn hl⟩
    have hg := (hcall _ (hserve i t.request t.start (hm i t ht).1)).1
    refine ⟨P.keeps d.world _ hi hg hl,?_⟩
    intro j u hu
    by_cases hij : i = j
    · subst j
      simp only [called, List.getElem?_set_self (List.getElem?_eq_some_iff.mp ht).1] at hu
      obtain rfl := Option.some.inj hu
      exact ⟨(hm i t ht).1,fun Q hQ => (hcall Q hQ).2⟩
    · simp only [called, List.getElem?_set_ne hij] at hu
      exact ⟨(hm j u hu).1,fun Q hQ => ((hm j u hu).2 Q hQ).later (World.log_record handle d.world _)⟩
  · exact fun _ => ⟨hs,fun i t ht => by simp [initial] at ht⟩

/-- What a program was shown to establish from its start holds once it has returned. -/
theorem returned_meets {s : S} (hs : P.inv ⟨s,[]⟩)
    (hserve : ∀ i r w, P.inv w → P.Meets i r (serve r) w (fun _ _ => True))
    (schedule : List (Action Req))
    (hlog : ((initial s : Config Op Ret Req Resp S).run handle serve schedule).world.log <+: P.history)
    {i : ℕ} {t : Thread Op Ret Req Resp S} {r : Req} {a : Resp}
    (ht : ((initial s).run handle serve schedule).threads[i]? = some t)
    (h : ((initial s).run handle serve schedule).Returned i r a) {Q : Resp → World Op Req S → Prop}
    (hQ : P.inv t.start → P.Meets i r (serve r) t.start Q) :
    Q a ((initial s).run handle serve schedule).world := by
  obtain ⟨u,hu,rfl,hdone⟩ := h
  obtain rfl := Option.some.inj (hu.symm.trans ht)
  obtain ⟨hi,hm⟩ := run_meets hs hserve schedule hlog
  obtain ⟨hstart,hmeets⟩ := hm i u hu
  have hq := hmeets Q (hQ hstart)
  rw [hdone] at hq
  exact hq _ hi (List.prefix_refl _)

end Config
end ReapiCache.Interaction
