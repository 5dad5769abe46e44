import ReapiCache.Interaction.Pool
import ReapiCache.Interaction.Isolation
import Mathlib.Data.List.Forall2

/-! # Two objects, call for call

A program over one object simulates a program over another when the two call in step:
their calls go together, and whatever replies go together, the programs do so again.
If the objects answer matching calls with matching replies, then two pools that are
scheduled alike give matching responses, in every interleaving.
-/
namespace ReapiCache.Interaction
universe u v w x y z

variable {Op Op' : Type u} {Ret : Op → Type v} {Ret' : Op' → Type v}

/-- Which calls of two interfaces go together, and which of their replies. -/
structure Matching (Op : Type u) (Ret : Op → Type v) (Op' : Type u) (Ret' : Op' → Type v) where
  calls : Op → Op' → Prop
  replies : (op : Op) → (op' : Op') → Ret op → Ret' op' → Prop

variable {α α' β β' : Type w}

namespace Program

/-- The programs call in step and return values related by `V`. -/
def Simulates (M : Matching Op Ret Op' Ret') (V : α → α' → Prop) :
    Program Op Ret α → Program Op' Ret' α' → Prop
  | .done a, .done a' => V a a'
  | .call op next, .call op' next' => M.calls op op' ∧
      ∀ r r', M.replies op op' r r' → Simulates M V (next r) (next' r')
  | .done _, .call _ _ => False
  | .call _ _, .done _ => False

variable {M : Matching Op Ret Op' Ret'} {V : α → α' → Prop} {W : β → β' → Prop}

theorem Simulates.bind {p : Program Op Ret α} {q : Program Op' Ret' α'} {f : α → Program Op Ret β}
    {g : α' → Program Op' Ret' β'} (h : p.Simulates M V q)
    (hf : ∀ a a', V a a' → (f a).Simulates M W (g a')) : (p >>= f).Simulates M W (q >>= g) := by
  induction p generalizing q with
  | done a =>
    cases q with
    | done a' => exact hf a a' h
    | call op' next' => exact h.elim
  | call op next ih =>
    cases q with
    | done a' => exact h.elim
    | call op' next' => exact ⟨h.1,fun r r' hr => ih r (h.2 r r' hr)⟩

theorem Simulates.map {p : Program Op Ret α} {q : Program Op' Ret' α'} {f : α → β} {g : α' → β'}
    (h : p.Simulates M V q) (hf : ∀ a a', V a a' → W (f a) (g a')) :
    (f <$> p).Simulates M W (g <$> q) := h.bind (fun a a' ha => hf a a' ha)

theorem Simulates.map_right {W : α → β' → Prop} {p : Program Op Ret α} {q : Program Op' Ret' α'} {g : α' → β'}
    (h : p.Simulates M V q) (hf : ∀ a a', V a a' → W a (g a')) : p.Simulates M W (g <$> q) := by
  rw [← id_map p]
  exact h.map hf

end Program

/-- `r` and `r'` fail alike, or succeed with values related by `V`. -/
def Alike {ε : Type w} (V : α → α' → Prop) : Except ε α → Except ε α' → Prop
  | .ok a, .ok a' => V a a'
  | .error e, .error e' => e = e'
  | .ok _, .error _ => False
  | .error _, .ok _ => False

theorem alike_refl {ε : Type w} (r : Except ε α) : Alike (· = ·) r r := by
  cases r with
  | error e => rfl
  | ok a => rfl

theorem eq_of_alike {ε : Type w} {r r' : Except ε α} (h : Alike (· = ·) r r') : r = r' := by
  cases r with
  | error e =>
    cases r' with
    | error e' => exact congrArg _ h
    | ok a' => exact h.elim
  | ok a =>
    cases r' with
    | error e' => exact h.elim
    | ok a' => exact congrArg _ h

namespace Failing
variable {M : Matching Op Ret Op' Ret'} {ε : Type w} {V : α → α' → Prop} {W : β → β' → Prop}

/-- The programs call in step and fail alike. -/
def Simulates (M : Matching Op Ret Op' Ret') (V : α → α' → Prop) (p : Failing Op Ret ε α)
    (q : Failing Op' Ret' ε α') : Prop := Program.Simulates M (Alike V) p.run q.run

theorem simulates_pure {a : α} {a' : α'} (h : V a a') :
    Simulates M V (pure a : Failing Op Ret ε α) (pure a' : Failing Op' Ret' ε α') := h

theorem simulates_throw (e : ε) :
    Simulates M V (throw e : Failing Op Ret ε α) (throw e : Failing Op' Ret' ε α') := rfl

theorem simulates_ofExcept {r : Except ε α} {r' : Except ε α'} (h : Alike V r r') :
    Simulates M V (ofExcept r : Failing Op Ret ε α) (ofExcept r' : Failing Op' Ret' ε α') := h

theorem simulates_attempt {op : Op} {op' : Op'} {f : Ret op → Except ε α} {g : Ret' op' → Except ε α'}
    (hop : M.calls op op') (h : ∀ r r', M.replies op op' r r' → Alike V (f r) (g r')) :
    Simulates M V (attempt op f) (attempt op' g) := ⟨hop,fun r r' hr => h r r' hr⟩

theorem Simulates.bind {p : Failing Op Ret ε α} {q : Failing Op' Ret' ε α'} {f : α → Failing Op Ret ε β}
    {g : α' → Failing Op' Ret' ε β'} (h : Simulates M V p q)
    (hf : ∀ a a', V a a' → Simulates M W (f a) (g a')) : Simulates M W (p >>= f) (q >>= g) := by
  unfold Simulates
  rw [ExceptT.run_bind, ExceptT.run_bind]
  apply Program.Simulates.bind h
  rintro (e | a) (e' | a') ha
  · exact ha
  · exact ha.elim
  · exact ha.elim
  · exact hf a a' ha

/-- After a pure step that both share only its successes go on. -/
theorem simulates_ofExcept_bind {r : Except ε α} {f : α → Failing Op Ret ε β}
    {g : α → Failing Op' Ret' ε β'} (hf : ∀ a, r = .ok a → Simulates M W (f a) (g a)) :
    Simulates M W (ofExcept r >>= f) (ofExcept r >>= g) := by
  cases r with
  | error e => exact rfl
  | ok a => exact hf a rfl

theorem simulates_foldlM {γ : Type x} {f : α → γ → Failing Op Ret ε α} {g : α' → γ → Failing Op' Ret' ε α'}
    (l : List γ) (hf : ∀ a a', V a a' → ∀ c ∈ l, Simulates M V (f a c) (g a' c)) {a : α} {a' : α'}
    (ha : V a a') : Simulates M V (l.foldlM f a) (l.foldlM g a') := by
  induction l generalizing a a' with
  | nil => exact simulates_pure ha
  | cons c l ih =>
    rw [List.foldlM_cons, List.foldlM_cons]
    apply (hf a a' ha c List.mem_cons_self).bind
    intro b b' hb
    exact ih (fun a a' ha c hc => hf a a' ha c (List.mem_cons_of_mem _ hc)) hb

/-- A loop that collects what its rounds give simulates the rounds taken one by one. -/
theorem simulates_collect {γ : Type w} {f : List β → γ → Failing Op Ret ε (List β)}
    {g : γ → Program Op' Ret' (List β)} (l : List γ)
    (hf : ∀ acc, ∀ c ∈ l, (f acc c).run.Simulates M (fun out new => out = .ok (acc ++ new)) (g c))
    (acc : List β) : (l.foldlM f acc).run.Simulates M (fun out news => out = .ok (acc ++ news.flatten))
      (l.mapM g) := by
  induction l generalizing acc with
  | nil => exact congrArg Except.ok (List.append_nil acc).symm
  | cons c l ih =>
    rw [List.foldlM_cons, ExceptT.run_bind, List.mapM_cons]
    apply (hf acc c List.mem_cons_self).bind
    rintro _ new rfl
    have hrest := ih (fun acc c hc => hf acc c (List.mem_cons_of_mem _ hc)) (acc ++ new)
    apply Program.Simulates.map_right hrest
    intro out news hout
    rw [hout, List.flatten_cons, List.append_assoc]

end Failing

theorem forall₂_set {γ γ' : Type x} {P : γ → γ' → Prop} {l : List γ} {l' : List γ'} (h : List.Forall₂ P l l')
    {c : γ} {c' : γ'} (hc : P c c') (i : ℕ) : List.Forall₂ P (l.set i c) (l'.set i c') := by
  induction h generalizing i with
  | nil => exact .nil
  | cons hd htail ih =>
    cases i with
    | zero => exact .cons hc htail
    | succ i => exact .cons hd (ih i)

section Runs
variable {S : Type y} {S' : Type y} (handle : (op : Op) → S → Ret op × S) (handle' : (op : Op') → S' → Ret' op × S')

/-- Between states related by `R`, matching calls get matching replies and keep the relation. -/
def Refines (M : Matching Op Ret Op' Ret') (R : S → S' → Prop) : Prop :=
  ∀ op op' s s', M.calls op op' → R s s' →
    M.replies op op' (handle op s).1 (handle' op' s').1 ∧ R (handle op s).2 (handle' op' s').2

variable {handle handle'} {M : Matching Op Ret Op' Ret'} {R : S → S' → Prop}
  (hR : Refines handle handle' M R)
include hR

/-- Executed alone, the programs return related values and leave related states. -/
theorem Program.Simulates.exec {V : α → α' → Prop} {p : Program Op Ret α} {q : Program Op' Ret' α'}
    (h : p.Simulates M V q) {s : S} {s' : S'} (hs : R s s') :
    V (p.exec handle s).1 (q.exec handle' s').1 ∧ R (p.exec handle s).2 (q.exec handle' s').2 := by
  induction p generalizing q s s' with
  | done a =>
    cases q with
    | done a' => exact ⟨h,hs⟩
    | call op' next' => exact h.elim
  | call op next ih =>
    cases q with
    | done a' => exact h.elim
    | call op' next' =>
      obtain ⟨hreply,hstate⟩ := hR op op' s s' h.1 hs
      exact ih _ (h.2 _ _ hreply) hstate

omit hR
variable {Req : Type z} {Resp : Type w}

/-- Two logged calls that go together, made for the same request. -/
structure SameEntry (M : Matching Op Ret Op' Ret') (e : Entry Op Req) (e' : Entry Op' Req) : Prop where
  caller : e.caller = e'.caller
  request : e.request = e'.request
  op : M.calls e.op e'.op

abbrev SameLog (M : Matching Op Ret Op' Ret') (log : List (Entry Op Req)) (log' : List (Entry Op' Req)) : Prop :=
  List.Forall₂ (SameEntry M) log log'

include hR in
/-- Matching logs lead from related states to related states. -/
theorem SameLog.replay {log : List (Entry Op Req)} {log' : List (Entry Op' Req)} (h : SameLog M log log')
    {s : S} {s' : S'} (hs : R s s') : R (replay handle s log) (replay handle' s' log') := by
  induction h generalizing s s' with
  | nil => exact hs
  | cons he _ ih => exact ih (hR _ _ _ _ he.op hs).2

/-- The beginning of a log matches that of the other. -/
theorem SameLog.earlier {L log : List (Entry Op Req)} {L' : List (Entry Op' Req)} (h : SameLog M L L') (hl : log <+: L) :
    ∃ log', log' <+: L' ∧ SameLog M log log' := by
  rw [List.prefix_iff_eq_take] at hl
  rw [hl]
  exact ⟨L'.take log.length,List.take_prefix _ _,List.forall₂_take _ h⟩

/-- An entry matches one that follows a matching log. -/
theorem SameLog.entry {L : List (Entry Op Req)} {L' log' : List (Entry Op' Req)} {e' : Entry Op' Req}
    (h : SameLog M L L') (hl : log' ++ [e'] <+: L') :
    ∃ log e, log ++ [e] <+: L ∧ SameLog M log log' ∧ SameEntry M e e' := by
  obtain ⟨rest,rfl⟩ := hl
  rw [List.append_assoc] at h
  obtain ⟨e,u,he,_,hdrop⟩ := List.forall₂_cons_right_iff.mp (List.forall₂_drop_append L log' ([e'] ++ rest) h)
  refine ⟨L.take log'.length,e,⟨u,?_⟩,List.forall₂_take_append L log' ([e'] ++ rest) h,he⟩
  rw [List.append_assoc, List.singleton_append, ← hdrop, List.take_append_drop]

structure SameThread (M : Matching Op Ret Op' Ret') (t : Thread Op Ret Req Resp S)
    (t' : Thread Op' Ret' Req Resp S') : Prop where
  request : t.request = t'.request
  start : SameLog M t.start.log t'.start.log
  program : t.program.Simulates M (· = ·) t'.program

theorem SameThread.done_iff {t : Thread Op Ret Req Resp S} {t' : Thread Op' Ret' Req Resp S'}
    (h : SameThread M t t') (a : Resp) : t.program = .done a ↔ t'.program = .done a := by
  have hprogram := h.program
  cases hp : t.program with
  | done b =>
    cases hp' : t'.program with
    | done b' =>
      rw [hp, hp'] at hprogram
      obtain rfl : b = b' := hprogram
      simp only [Program.done.injEq]
    | call op' next' =>
      rw [hp, hp'] at hprogram
      exact hprogram.elim
  | call op next =>
    cases hp' : t'.program with
    | done b' =>
      rw [hp, hp'] at hprogram
      exact hprogram.elim
    | call op' next' => simp only [reduceCtorEq]

/-- Two pools that have been scheduled alike. -/
structure InStep (M : Matching Op Ret Op' Ret') (R : S → S' → Prop) (c : Config Op Ret Req Resp S)
    (c' : Config Op' Ret' Req Resp S') : Prop where
  state : R c.world.state c'.world.state
  log : SameLog M c.world.log c'.world.log
  threads : List.Forall₂ (SameThread M) c.threads c'.threads

namespace InStep
variable {c : Config Op Ret Req Resp S} {c' : Config Op' Ret' Req Resp S'} (h : InStep M R c c')
include h

theorem thread {i : ℕ} {t : Thread Op Ret Req Resp S} (ht : c.threads[i]? = some t) :
    ∃ t', c'.threads[i]? = some t' ∧ SameThread M t t' := by
  obtain ⟨hlt,rfl⟩ := List.getElem?_eq_some_iff.mp ht
  have hlt' : i < c'.threads.length := h.threads.length_eq ▸ hlt
  exact ⟨_,List.getElem?_eq_getElem hlt',h.threads.get hlt hlt'⟩

theorem thread_right {i : ℕ} {t' : Thread Op' Ret' Req Resp S'} (ht' : c'.threads[i]? = some t') :
    ∃ t, c.threads[i]? = some t ∧ SameThread M t t' := by
  obtain ⟨hlt',rfl⟩ := List.getElem?_eq_some_iff.mp ht'
  have hlt : i < c.threads.length := h.threads.length_eq ▸ hlt'
  exact ⟨_,List.getElem?_eq_getElem hlt,h.threads.get hlt hlt'⟩

theorem thread_none {i : ℕ} (ht : c.threads[i]? = none) : c'.threads[i]? = none := by
  rw [List.getElem?_eq_none_iff] at ht ⊢
  rwa [← h.threads.length_eq]

/-- The same threads have returned the same responses. -/
theorem returned_iff (i : ℕ) (r : Req) (a : Resp) : c.Returned i r a ↔ c'.Returned i r a := by
  constructor
  · rintro ⟨t,ht,rfl,hp⟩
    obtain ⟨t',ht',hsame⟩ := h.thread ht
    exact ⟨t',ht',hsame.request.symm,(hsame.done_iff a).mp hp⟩
  · rintro ⟨t',ht',rfl,hp⟩
    obtain ⟨t,ht,hsame⟩ := h.thread_right ht'
    exact ⟨t,ht,hsame.request,(hsame.done_iff a).mpr hp⟩

/-- The same threads are in flight, with the same requests. -/
theorem inFlight_iff (i : ℕ) (r : Req) : c.InFlight i r ↔ c'.InFlight i r := by
  constructor
  · rintro ⟨t,ht,rfl,hp⟩
    obtain ⟨t',ht',hsame⟩ := h.thread ht
    exact ⟨t',ht',hsame.request.symm,fun a ha => hp a ((hsame.done_iff a).mpr ha)⟩
  · rintro ⟨t',ht',rfl,hp⟩
    obtain ⟨t,ht,hsame⟩ := h.thread_right ht'
    exact ⟨t,ht,hsame.request,fun a ha => hp a ((hsame.done_iff a).mp ha)⟩

end InStep

variable {serve : Req → Program Op Ret Resp} {serve' : Req → Program Op' Ret' Resp}
include hR

/-- One scheduling decision keeps the pools in step. -/
theorem InStep.step {c : Config Op Ret Req Resp S} {c' : Config Op' Ret' Req Resp S'} (h : InStep M R c c')
    (a : Action Req) (hserve : ∀ r ∈ startedBy [a], (serve r).Simulates M (· = ·) (serve' r)) : InStep M R (c.step handle serve a) (c'.step handle' serve' a) := by
  cases a with
  | start r => exact ⟨h.state,h.log,List.rel_append h.threads (.cons ⟨rfl,h.log,hserve r List.mem_cons_self⟩ .nil)⟩
  | advance i =>
    cases ht : c.threads[i]? with
    | none =>
      have ht' := h.thread_none ht
      simp only [Config.step, ht, ht']
      exact h
    | some t =>
      obtain ⟨t',ht',hsame⟩ := h.thread ht
      have hprogram := hsame.program
      rcases t with ⟨r,w,p⟩
      rcases t' with ⟨r',w',p'⟩
      cases p with
      | done a =>
        cases p' with
        | call op' next' => exact hprogram.elim
        | done a' =>
          simp only [Config.step, ht, ht']
          exact h
      | call op next =>
        cases p' with
        | done a' => exact hprogram.elim
        | call op' next' =>
          simp only [Config.step, ht, ht']
          obtain ⟨hreply,hstate⟩ := hR op op' _ _ hprogram.1 h.state
          have hnext : SameThread M ⟨r,w,next (handle op c.world.state).1⟩
              ⟨r',w',next' (handle' op' c'.world.state).1⟩ :=
            ⟨hsame.request,hsame.start,hprogram.2 _ _ hreply⟩
          exact ⟨hstate,List.rel_append h.log (.cons ⟨rfl,hsame.request,hprogram.1⟩ .nil),
            forall₂_set h.threads hnext i⟩

/-- Requests executed one after the other get the same responses. -/
theorem runAll_simulates (requests : List Req)
    (hserve : ∀ r ∈ requests, (serve r).Simulates M (· = ·) (serve' r)) {s : S} {s' : S'} (hs : R s s') :
    (runAll handle serve requests s).1 = (runAll handle' serve' requests s').1 ∧
      R (runAll handle serve requests s).2 (runAll handle' serve' requests s').2 := by
  induction requests generalizing s s' with
  | nil => exact ⟨rfl,hs⟩
  | cons r requests ih =>
    obtain ⟨hresponse,hstate⟩ := (hserve r List.mem_cons_self).exec hR hs
    obtain ⟨hresponses,hlast⟩ := ih (fun r hr => hserve r (List.mem_cons_of_mem _ hr)) hstate
    rw [runAll_cons, runAll_cons, hresponse, hresponses]
    exact ⟨rfl,hlast⟩

/-- Pools that start from related states stay in step under every schedule. -/
theorem InStep.run {c : Config Op Ret Req Resp S} {c' : Config Op' Ret' Req Resp S'} (h : InStep M R c c')
    (schedule : List (Action Req)) (hserve : ∀ r ∈ startedBy schedule, (serve r).Simulates M (· = ·) (serve' r)) :
    InStep M R (c.run handle serve schedule) (c'.run handle' serve' schedule) := by
  induction schedule generalizing c c' with
  | nil => exact h
  | cons a schedule ih =>
    rw [show a :: schedule = [a] ++ schedule from rfl, startedBy_append] at hserve
    exact ih (h.step hR a (fun r hr => hserve r (List.mem_append_left _ hr)))
      (fun r hr => hserve r (List.mem_append_right _ hr))

theorem inStep_initial {s : S} {s' : S'} (hs : R s s') (schedule : List (Action Req))
    (hserve : ∀ r ∈ startedBy schedule, (serve r).Simulates M (· = ·) (serve' r)) :
    InStep M R ((Config.initial s : Config Op Ret Req Resp S).run handle serve schedule)
      ((Config.initial s' : Config Op' Ret' Req Resp S').run handle' serve' schedule) :=
  InStep.run hR ⟨hs,.nil,.nil⟩ schedule hserve

end Runs
end ReapiCache.Interaction
