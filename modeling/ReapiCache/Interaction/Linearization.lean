import ReapiCache.Interaction.Isolation
import ReapiCache.Interaction.Settling
import Mathlib.Data.List.Induction

/-! # Interleaved requests in some order

A request is a sequence of parts, each of which either waits for settled replies or has
been decided. A pool of such requests is as good as the parts executed one at a time, in
an order that respects who had returned when whom started.
-/
namespace ReapiCache.Interaction
universe u v w x y

variable {Op : Type u} {Ret : Op → Type v} {S : Type y}
variable (handle : (op : Op) → S → Ret op × S)

section Histories
variable {Req : Type w} {Resp : Type x}

/-- What a history is made of: a part of a request, executed at one moment with its
response, or a step that a request takes silently. -/
inductive Event (Req : Type w) (Resp : Type x)
  | part (caller : ℕ) (request : Req) (response : Resp)
  | silent (caller : ℕ) (request : Req)

/-- The event is the caller's, and if it is silent it is on behalf of the request. -/
inductive Event.Of (i : ℕ) (r : Req) : Event Req Resp → Prop
  | part (q : Req) (a : Resp) : Of i r (.part i q a)
  | silent : Of i r (.silent i r)

def Event.caller : Event Req Resp → ℕ
  | .part i _ _ => i
  | .silent i _ => i

theorem Event.Of.caller_eq {i : ℕ} {r : Req} {e : Event Req Resp} (h : e.Of i r) : e.caller = i := by
  cases h with
  | part q a => rfl
  | silent => rfl

variable (serve : Req → Program Op Ret Resp) (silent : Req → S → S → Prop)

/-- One part after the other, executed alone, and in between what requests do silently. -/
inductive Sequential (s : S) : List (Event Req Resp) → S → Prop
  | nil : Sequential s [] s
  | part {h : List (Event Req Resp)} {s' s'' : S} {i : ℕ} {q : Req} {a : Resp} (before : Sequential s h s')
      (executed : (serve q).exec handle s' = (a,s'')) : Sequential s (h ++ [.part i q a]) s''
  | silent {h : List (Event Req Resp)} {s' s'' : S} {i : ℕ} {r : Req} (before : Sequential s h s')
      (step : silent r s' s'') : Sequential s (h ++ [.silent i r]) s''

/-- The parts of one caller with their responses, in order. -/
def partsOf (i : ℕ) (h : List (Event Req Resp)) : List (Req × Resp) :=
  h.filterMap (fun e =>
    match e with
    | .part j q a => if j = i then some (q,a) else none
    | .silent _ _ => none)

@[simp] theorem partsOf_nil (i : ℕ) : partsOf i ([] : List (Event Req Resp)) = [] := rfl

@[simp] theorem partsOf_append (i : ℕ) (h h' : List (Event Req Resp)) :
    partsOf i (h ++ h') = partsOf i h ++ partsOf i h' := List.filterMap_append

@[simp] theorem partsOf_part (i : ℕ) (q : Req) (a : Resp) : partsOf i [.part i q a] = [(q,a)] := by
  simp [partsOf]

theorem partsOf_concat_part (h : List (Event Req Resp)) (i : ℕ) (q : Req) (a : Resp) :
    partsOf i (h ++ [.part i q a]) = partsOf i h ++ [(q,a)] := by simp

@[simp] theorem partsOf_silent (i j : ℕ) (r : Req) : partsOf i ([.silent j r] : List (Event Req Resp)) = [] := rfl

theorem partsOf_eq_nil {i : ℕ} {h : List (Event Req Resp)} (hi : ∀ e ∈ h, e.caller ≠ i) : partsOf i h = [] := by
  unfold partsOf
  rw [List.filterMap_eq_nil_iff]
  intro e he
  cases e with
  | part j q a => exact if_neg (hi _ he)
  | silent j r => rfl

/-- A history goes on with events of one request. -/
def Continues (i : ℕ) (r : Req) (h h' : List (Event Req Resp)) : Prop :=
  ∃ late, h' = h ++ late ∧ ∀ e ∈ late, e.Of i r

namespace Continues
variable {i : ℕ} {r : Req} {h h' h'' : List (Event Req Resp)}

theorem refl (i : ℕ) (r : Req) (h : List (Event Req Resp)) : Continues i r h h :=
  ⟨[],(List.append_nil h).symm,fun _ he => absurd he List.not_mem_nil⟩

theorem trans (h₁ : Continues i r h h') (h₂ : Continues i r h' h'') : Continues i r h h'' := by
  obtain ⟨late,rfl,hlate⟩ := h₁
  obtain ⟨later,rfl,hlater⟩ := h₂
  refine ⟨late ++ later,List.append_assoc _ _ _,?_⟩
  intro e he
  rcases List.mem_append.mp he with he | he
  · exact hlate e he
  · exact hlater e he

theorem concat (h : List (Event Req Resp)) {e : Event Req Resp} (he : e.Of i r) : Continues i r h (h ++ [e]) :=
  ⟨[e],rfl,fun _ he' => (List.mem_singleton.mp he') ▸ he⟩

theorem others (hcontinues : Continues i r h h') {j : ℕ} (hj : j ≠ i) : partsOf j h' = partsOf j h := by
  obtain ⟨late,rfl,hlate⟩ := hcontinues
  have hnone : partsOf j late = [] := partsOf_eq_nil (fun e he hc => hj (hc.symm.trans (hlate e he).caller_eq))
  rw [partsOf_append, hnone, List.append_nil]

end Continues

variable {handle serve silent} in
/-- A step that changes nothing leaves no event. -/
theorem Sequential.quiet {s s' s'' : S} {h : List (Event Req Resp)} (hseq : Sequential handle serve silent s h s')
    (i : ℕ) {r : Req} (hstep : Relation.ReflGen (silent r) s' s'') :
    ∃ h', Continues i r h h' ∧ Sequential handle serve silent s h' s'' ∧ partsOf i h' = partsOf i h := by
  cases hstep with
  | refl => exact ⟨h,.refl i r h,hseq,rfl⟩
  | single hstep => exact ⟨h ++ [.silent i r],.concat h .silent,hseq.silent hstep,by simp⟩

variable (parts : Req → List Req) (assemble : Req → List Resp → Resp)

/-- What is left of a request after some of its parts. -/
def remaining (r : Req) (past : List Resp) (rest : List Req) : Program Op Ret Resp :=
  (fun responses => assemble r (past ++ responses)) <$> rest.mapM serve

theorem remaining_nil (r : Req) (past : List Resp) :
    remaining serve assemble r past [] = .done (assemble r past) := by
  rw [remaining, List.mapM_nil]
  change Program.done (assemble r (past ++ [])) = _
  rw [List.append_nil]

theorem remaining_cons (r : Req) (past : List Resp) (q : Req) (rest : List Req) :
    remaining serve assemble r past (q :: rest) =
      (serve q >>= fun a => remaining serve assemble r (past ++ [a]) rest) := by
  rw [remaining, List.mapM_cons, map_bind]
  congr 1
  funext a
  rw [remaining, bind_pure_comp, Functor.map_map]
  simp

variable {serve parts assemble} in
/-- Executed one after the other, requests are answered from the answers to their parts. -/
theorem runAll_parts (hparts : ∀ r, serve r = remaining serve assemble r [] (parts r)) (requests : List Req) (s : S) :
    ∃ answers : List (List (Req × Resp)), answers.map (fun ys => ys.map Prod.fst) = requests.map parts ∧
      (runAll handle serve requests s).1 =
        List.zipWith (fun r ys => (r,assemble r (ys.map Prod.snd))) requests answers ∧
      runAll handle serve (requests.flatMap parts) s = (answers.flatten,(runAll handle serve requests s).2) := by
  induction requests generalizing s with
  | nil => exact ⟨[],rfl,rfl,rfl⟩
  | cons r requests ih =>
    have hexec : (serve r).exec handle s = (assemble r ((runAll handle serve (parts r) s).1.map Prod.snd),
        (runAll handle serve (parts r) s).2) := by
      rw [hparts r, remaining, Program.exec_map, exec_mapM]
      rfl
    obtain ⟨answers,hrequests,hresponses,hstate⟩ := ih (runAll handle serve (parts r) s).2
    refine ⟨(runAll handle serve (parts r) s).1 :: answers,?_,?_,?_⟩
    · rw [List.map_cons, List.map_cons, runAll_requests, hrequests]
    · rw [runAll_cons, hexec, hresponses, List.zipWith_cons_cons]
    · rw [List.flatMap_cons, runAll_append, hstate, List.flatten_cons, runAll_cons, hexec]

variable {handle}

/-- How far a thread is, when its parts in `past` are in the history. -/
inductive Progress (P : Protocol handle Req) (i : ℕ) (past : List (Req × Resp))
    (t : Thread Op Ret Req Resp S) (w : World Op Req S) : Prop
  | waiting (q : Req) (rest : List Req) (op : Op) (next : Ret op → Program Op Ret Resp)
      (isParts : parts t.request = past.map Prod.fst ++ q :: rest)
      (isProgram : t.program = (.call op next >>= fun a =>
        remaining serve assemble t.request (past.map Prod.snd ++ [a]) rest))
      (undecided : P.Undecided (serve q) (.call op next) w)
      (atomic : P.Atomic (silent t.request) i t.request (.call op next) w)
  | decided (before : List (Req × Resp)) (q : Req) (a : Resp) (rest : List Req) (op : Op)
      (next : Ret op → Program Op Ret Resp) (isPast : past = before ++ [(q,a)])
      (isParts : parts t.request = past.map Prod.fst ++ rest)
      (isProgram : t.program = (.call op next >>= fun b =>
        remaining serve assemble t.request (before.map Prod.snd ++ [b]) rest))
      (quiet : P.Quiet (silent t.request) i t.request a (.call op next) w)
  | finished (isParts : parts t.request = past.map Prod.fst)
      (isProgram : t.program = .done (assemble t.request (past.map Prod.snd)))

variable {P : Protocol handle Req} {serve silent parts} {assemble}

theorem Progress.later {i : ℕ} {past : List (Req × Resp)} {t : Thread Op Ret Req Resp S} {w w' : World Op Req S}
    (h : Progress serve silent parts assemble P i past t w) (hw : w.log <+: w'.log) :
    Progress serve silent parts assemble P i past t w' := by
  cases h with
  | waiting q rest op next isParts isProgram undecided atomic =>
    exact .waiting q rest op next isParts isProgram (undecided.later hw) (atomic.later hw)
  | decided before q a rest op next isPast isParts isProgram quiet =>
    exact .decided before q a rest op next isPast isParts isProgram (quiet.later hw)
  | finished isParts isProgram => exact .finished isParts isProgram

variable {s : S} {w : World Op Req S}

variable (assemble) in
/-- From the start of its next part a thread gets to the next call it waits at. The parts
that make no call are executed on the way. -/
theorem launch (hatomic : ∀ i r, ∀ q ∈ parts r, P.Atomic (silent r) i r (serve q) w) (i : ℕ) (r : Req)
    (start : World Op Req S) (rest : List Req) {h : List (Event Req Resp)}
    (hseq : Sequential handle serve silent s h w.state)
    (hparts : parts r = (partsOf i h).map Prod.fst ++ rest) :
    ∃ h', Continues i r h h' ∧ Sequential handle serve silent s h' w.state ∧
      Progress serve silent parts assemble P i (partsOf i h')
        ⟨r,start,remaining serve assemble r ((partsOf i h).map Prod.snd) rest⟩ w := by
  induction rest generalizing h with
  | nil =>
    rw [List.append_nil] at hparts
    rw [remaining_nil]
    exact ⟨h,.refl i r h,hseq,.finished hparts rfl⟩
  | cons q rest ih =>
    have hq : q ∈ parts r := by
      rw [hparts]
      exact List.mem_append_right _ List.mem_cons_self
    rw [remaining_cons]
    cases hserve : serve q with
    | done a =>
      have hseq' : Sequential handle serve silent s (h ++ [.part i q a]) w.state := by
        apply hseq.part
        rw [hserve]
        rfl
      obtain ⟨h',hcontinues,hseq'',hprogress⟩ := ih hseq' (by simpa using hparts)
      rw [partsOf_concat_part, List.map_append] at hprogress
      exact ⟨h',(Continues.concat h (.part q a)).trans hcontinues,hseq'',hprogress⟩
    | call op next =>
      refine ⟨h,.refl i r h,hseq,.waiting q rest op next hparts rfl ?_ ?_⟩
      · rw [hserve]
        exact fun _ _ _ => rfl
      · rw [← hserve]
        exact hatomic i r q hq

variable (assemble) in
/-- A thread whose part has been decided comes to its next call. -/
theorem decided_next (hatomic : ∀ i r, ∀ q ∈ parts r, P.Atomic (silent r) i r (serve q) w) {i : ℕ} {r : Req}
    (start : World Op Req S) {before : List (Req × Resp)} {q : Req} {a : Resp} {rest : List Req}
    {h : List (Event Req Resp)} (hseq : Sequential handle serve silent s h w.state)
    (hpast : partsOf i h = before ++ [(q,a)]) (hparts : parts r = (partsOf i h).map Prod.fst ++ rest)
    {p : Program Op Ret Resp} (hquiet : P.Quiet (silent r) i r a p w) :
    ∃ h', Continues i r h h' ∧ Sequential handle serve silent s h' w.state ∧
      Progress serve silent parts assemble P i (partsOf i h')
        ⟨r,start,p >>= fun b => remaining serve assemble r (before.map Prod.snd ++ [b]) rest⟩ w := by
  cases p with
  | done b =>
    obtain rfl : b = a := hquiet
    obtain ⟨h',hcontinues,hseq',hprogress⟩ := launch assemble hatomic i r start rest hseq hparts
    rw [hpast, List.map_append] at hprogress
    exact ⟨h',hcontinues,hseq',hprogress⟩
  | call op next => exact ⟨h,.refl i r h,hseq,.decided before q a rest op next hpast hparts rfl hquiet⟩

variable (assemble) in
/-- A thread whose part is still open comes to its next call, or to the end of the part. -/
theorem waiting_next (hw : P.inv w) (hatomic : ∀ i r, ∀ q ∈ parts r, P.Atomic (silent r) i r (serve q) w) {i : ℕ}
    {r : Req} (start : World Op Req S) {q : Req} {rest : List Req} {h : List (Event Req Resp)}
    (hseq : Sequential handle serve silent s h w.state)
    (hparts : parts r = (partsOf i h).map Prod.fst ++ q :: rest) {p : Program Op Ret Resp}
    (hundecided : P.Undecided (serve q) p w) (hp : P.Atomic (silent r) i r p w) :
    ∃ h', Continues i r h h' ∧ Sequential handle serve silent s h' w.state ∧
      Progress serve silent parts assemble P i (partsOf i h')
        ⟨r,start,p >>= fun a => remaining serve assemble r ((partsOf i h).map Prod.snd ++ [a]) rest⟩ w := by
  cases p with
  | done a =>
    have hexec := hundecided w hw (List.prefix_refl _)
    have hseq' : Sequential handle serve silent s (h ++ [.part i q a]) w.state := hseq.part hexec
    have hquiet : P.Quiet (silent r) i r a (.done a) w := rfl
    obtain ⟨h',hcontinues,hseq'',hprogress⟩ := decided_next assemble hatomic start hseq'
      (partsOf_concat_part h i q a) (by simpa using hparts) hquiet
    exact ⟨h',(Continues.concat h (.part q a)).trans hcontinues,hseq'',hprogress⟩
  | call op next => exact ⟨h,.refl i r h,hseq,.waiting q rest op next hparts rfl hundecided hp⟩

/-- What the history says about a pool. -/
structure Tracks (P : Protocol handle Req) (serve : Req → Program Op Ret Resp) (silent : Req → S → S → Prop)
    (parts : Req → List Req) (assemble : Req → List Resp → Resp) (s : S) (c : Config Op Ret Req Resp S)
    (h : List (Event Req Resp)) : Prop where
  sequential : Sequential handle serve silent s h c.world.state
  callers : ∀ e ∈ h, ∃ t, c.threads[e.caller]? = some t ∧ e.Of e.caller t.request
  threads : ∀ i t, c.threads[i]? = some t →
    Progress serve silent parts assemble P i (partsOf i h) t c.world

/-- No event is one of a request that has returned. -/
def Unreturned (c : Config Op Ret Req Resp S) (late : List (Event Req Resp)) : Prop :=
  ∀ e ∈ late, ∀ r a, ¬ c.Returned e.caller r a

namespace Tracks
variable {c : Config Op Ret Req Resp S} {h : List (Event Req Resp)}
  (htracks : Tracks P serve silent parts assemble s c h)
include htracks

/-- A history that goes on with events of one thread still tracks the others. -/
theorem others {i : ℕ} {r : Req} {h' : List (Event Req Resp)} (hcontinues : Continues i r h h') {w : World Op Req S}
    (hw : c.world.log <+: w.log) {j : ℕ} (hj : j ≠ i) {t : Thread Op Ret Req Resp S}
    (ht : c.threads[j]? = some t) : Progress serve silent parts assemble P j (partsOf j h') t w := by
  rw [hcontinues.others hj]
  exact (htracks.threads j t ht).later hw

theorem started (hparts : ∀ r, serve r = remaining serve assemble r [] (parts r))
    (hatomic : ∀ i r, ∀ q ∈ parts r, P.Atomic (silent r) i r (serve q) c.world) (r : Req) :
    ∃ late, Unreturned c late ∧ Tracks P serve silent parts assemble s (c.started serve r) (h ++ late) := by
  have hlt : ∀ e ∈ h, e.caller < c.threads.length := by
    intro e he
    obtain ⟨t,ht,_⟩ := htracks.callers e he
    exact (List.getElem?_eq_some_iff.mp ht).1
  have hnone : partsOf c.threads.length h = [] := partsOf_eq_nil (fun e he => Nat.ne_of_lt (hlt e he))
  obtain ⟨h',hcontinues,hseq,hprogress⟩ := launch assemble hatomic c.threads.length r c.world (parts r)
    htracks.sequential (by rw [hnone]; rfl)
  obtain ⟨late,rfl,hlate⟩ := id hcontinues
  refine ⟨late,?_,hseq,?_,?_⟩
  · rintro e he r' a ⟨t,ht,_⟩
    rw [(hlate e he).caller_eq, List.getElem?_eq_none (Nat.le_refl _)] at ht
    cases ht
  · intro e he
    simp only [Config.started]
    rcases List.mem_append.mp he with he | he
    · rw [List.getElem?_append_left (hlt e he)]
      exact htracks.callers e he
    · have hof := hlate e he
      rw [hof.caller_eq, List.getElem?_concat_length]
      exact ⟨_,rfl,hof⟩
  · intro j t ht
    by_cases hj : j < c.threads.length
    · simp only [Config.started, List.getElem?_append_left hj] at ht
      exact htracks.others hcontinues (List.prefix_refl _) (Nat.ne_of_lt hj) ht
    · have hj : j = c.threads.length := by
        have hbound := (List.getElem?_eq_some_iff.mp ht).1
        simp only [Config.started, List.length_append, List.length_singleton] at hbound
        omega
      subst hj
      simp only [Config.started, List.getElem?_concat_length, Option.some.injEq] at ht
      rw [hnone] at hprogress
      rw [← ht, hparts r]
      exact hprogress

/-- The call of a thread leads it to its next call, or to its return. -/
theorem advanced (hinv : P.inv c.world) {i : ℕ} {t : Thread Op Ret Req Resp S} {op : Op}
    {next : Ret op → Program Op Ret Resp} (ht : c.threads[i]? = some t) (hp : t.program = .call op next)
    (hlog : c.world.log ++ [⟨i,t.request,op⟩] <+: P.history)
    (hinv' : P.inv (c.world.record handle ⟨i,t.request,op⟩))
    (hatomic : ∀ j r, ∀ q ∈ parts r, P.Atomic (silent r) j r (serve q) (c.world.record handle ⟨i,t.request,op⟩)) :
    ∃ h', Continues i t.request h h' ∧
      Sequential handle serve silent s h' (c.world.record handle ⟨i,t.request,op⟩).state ∧
      Progress serve silent parts assemble P i (partsOf i h')
        { t with program := next (handle op c.world.state).1 } (c.world.record handle ⟨i,t.request,op⟩) := by
  cases htracks.threads i t ht with
  | finished isParts isProgram =>
    rw [hp] at isProgram
    cases isProgram
  | waiting q rest op' next' isParts isProgram undecided atomic =>
    rw [hp] at isProgram
    cases isProgram
    rcases atomic c.world hinv (List.prefix_refl _) hlog with ⟨hsilent,hagain,hatomic'⟩ | ⟨a,hexec,hquiet⟩
    · obtain ⟨h₁,hcontinues₁,hseq₁,hsame⟩ := htracks.sequential.quiet i hsilent
      have hundecided : P.Undecided (serve q) (next' (handle op c.world.state).1)
          (c.world.record handle ⟨i,t.request,op⟩) := by
        intro w' hw' hl'
        rw [undecided w' hw' ((World.log_record handle c.world _).trans hl'), Program.exec_call,
          hagain w' hw' hl']
      rw [← hsame] at isParts
      obtain ⟨h',hcontinues,hseq,hprogress⟩ := waiting_next assemble hinv' hatomic t.start hseq₁ isParts
        hundecided hatomic'
      rw [hsame] at hprogress
      exact ⟨h',hcontinues₁.trans hcontinues,hseq,hprogress⟩
    · have hserve : (serve q).exec handle c.world.state = (a,(handle op c.world.state).2) :=
        (undecided c.world hinv (List.prefix_refl _)).trans hexec
      obtain ⟨h',hcontinues,hseq,hprogress⟩ := decided_next assemble hatomic t.start
        (htracks.sequential.part hserve) (partsOf_concat_part h i q a) (by simpa using isParts) hquiet
      exact ⟨h',(Continues.concat h (.part q a)).trans hcontinues,hseq,hprogress⟩
  | decided before q a rest op' next' isPast isParts isProgram quiet =>
    rw [hp] at isProgram
    cases isProgram
    obtain ⟨hsilent,hquiet⟩ := quiet c.world hinv (List.prefix_refl _) hlog
    obtain ⟨h₁,hcontinues₁,hseq₁,hsame⟩ := htracks.sequential.quiet i hsilent
    rw [← hsame] at isPast isParts
    obtain ⟨h',hcontinues,hseq,hprogress⟩ := decided_next assemble hatomic t.start hseq₁ isPast isParts hquiet
    exact ⟨h',hcontinues₁.trans hcontinues,hseq,hprogress⟩

theorem called (hinv : P.inv c.world) {i : ℕ} {t : Thread Op Ret Req Resp S} {op : Op}
    {next : Ret op → Program Op Ret Resp} (ht : c.threads[i]? = some t) (hp : t.program = .call op next)
    (hlog : c.world.log ++ [⟨i,t.request,op⟩] <+: P.history)
    (hinv' : P.inv (c.world.record handle ⟨i,t.request,op⟩))
    (hatomic : ∀ j r, ∀ q ∈ parts r, P.Atomic (silent r) j r (serve q) (c.world.record handle ⟨i,t.request,op⟩)) :
    ∃ late, Unreturned c late ∧ Tracks P serve silent parts assemble s (c.called handle i t op next) (h ++ late) := by
  have hlt := (List.getElem?_eq_some_iff.mp ht).1
  obtain ⟨h',hcontinues,hseq,hprogress⟩ := htracks.advanced hinv ht hp hlog hinv' hatomic
  obtain ⟨late,rfl,hlate⟩ := id hcontinues
  refine ⟨late,?_,hseq,?_,?_⟩
  · rintro e he r a ⟨u,hu,_,hdone⟩
    rw [(hlate e he).caller_eq, ht] at hu
    cases hu
    rw [hp] at hdone
    cases hdone
  · intro e he
    simp only [Config.called]
    rcases List.mem_append.mp he with he | he
    · obtain ⟨u,hu,hof⟩ := htracks.callers e he
      by_cases hi : i = e.caller
      · subst hi
        obtain rfl := Option.some.inj (ht.symm.trans hu)
        exact ⟨_,List.getElem?_set_self hlt,hof⟩
      · exact ⟨u,by rw [List.getElem?_set_ne hi]; exact hu,hof⟩
    · have hof := hlate e he
      rw [hof.caller_eq]
      exact ⟨_,List.getElem?_set_self hlt,hof⟩
  · intro j u hu
    by_cases hj : j = i
    · subst hj
      simp only [Config.called, List.getElem?_set_self hlt, Option.some.injEq] at hu
      rw [← hu]
      exact hprogress
    · simp only [Config.called, List.getElem?_set_ne (Ne.symm hj)] at hu
      exact htracks.others hcontinues (World.log_record handle c.world _) hj hu

/-- One step adds events of requests that have not returned before it. -/
theorem step (hinv : P.inv c.world) (hfree : ∀ e w, P.inv w → P.guar e w)
    (hparts : ∀ r, serve r = remaining serve assemble r [] (parts r))
    (hatomic : ∀ i r, ∀ q ∈ parts r, ∀ w, P.inv w → P.Atomic (silent r) i r (serve q) w) (a : Action Req)
    (hlog : (c.step handle serve a).world.log <+: P.history) :
    P.inv (c.step handle serve a).world ∧
      ∃ late, Unreturned c late ∧ Tracks P serve silent parts assemble s (c.step handle serve a) (h ++ late) := by
  rcases Config.step_cases handle serve c a with
    ⟨r,rfl,hstep⟩ | ⟨i,t,op,next,rfl,ht,hp,hstep⟩ | ⟨i,rfl,hstep⟩
  · rw [hstep]
    exact ⟨hinv,htracks.started hparts (fun i r q hq => hatomic i r q hq _ hinv) r⟩
  · rw [hstep] at hlog ⊢
    have hinv' := P.keeps _ ⟨i,t.request,op⟩ hinv (hfree _ _ hinv) hlog
    exact ⟨hinv',htracks.called hinv ht hp hlog hinv' (fun j r q hq => hatomic j r q hq _ hinv')⟩
  · rw [hstep]
    exact ⟨hinv,[],fun _ he => absurd he List.not_mem_nil,by rwa [List.append_nil]⟩

/-- The parts of a returned request are in the history, and its response is made of theirs. -/
theorem returned {i : ℕ} {r : Req} {a : Resp} (hr : c.Returned i r a) :
    (partsOf i h).map Prod.fst = parts r ∧ a = assemble r ((partsOf i h).map Prod.snd) := by
  obtain ⟨t,ht,rfl,hp⟩ := hr
  cases htracks.threads i t ht with
  | finished isParts isProgram =>
    rw [hp] at isProgram
    cases isProgram
    exact ⟨isParts.symm,rfl⟩
  | waiting q rest op next isParts isProgram =>
    rw [hp] at isProgram
    cases isProgram
  | decided before q a rest op next isPast isParts isProgram =>
    rw [hp] at isProgram
    cases isProgram

theorem pending {i : ℕ} {t : Thread Op Ret Req Resp S} (ht : c.threads[i]? = some t) :
    (partsOf i h).map Prod.fst <+: parts t.request := by
  cases htracks.threads i t ht with
  | finished isParts isProgram => exact ⟨[],by rw [isParts, List.append_nil]⟩
  | waiting q rest op next isParts isProgram => exact ⟨_,isParts.symm⟩
  | decided before q a rest op next isPast isParts isProgram => exact ⟨_,isParts.symm⟩

end Tracks

theorem Config.run_concat (serve : Req → Program Op Ret Resp) (c : Config Op Ret Req Resp S)
    (schedule : List (Action Req)) (a : Action Req) :
    c.run handle serve (schedule ++ [a]) = (c.run handle serve schedule).step handle serve a :=
  Config.run_append handle serve c schedule [a]

variable (hs : P.inv ⟨s,[]⟩) (hfree : ∀ e w, P.inv w → P.guar e w)
  (hparts : ∀ r, serve r = remaining serve assemble r [] (parts r))
  (hatomic : ∀ i r, ∀ q ∈ parts r, ∀ w, P.inv w → P.Atomic (silent r) i r (serve q) w)
include hs hfree hparts hatomic

/-- Every run has a history, and it goes on as the run does, with events of requests that
have not returned. -/
theorem exists_history (schedule : List (Action Req))
    (hlog : ((Config.initial s : Config Op Ret Req Resp S).run handle serve schedule).world.log <+: P.history) :
    P.inv ((Config.initial s).run handle serve schedule).world ∧
    ∃ h, Tracks P serve silent parts assemble s ((Config.initial s).run handle serve schedule) h ∧
      ∀ before, before <+: schedule → ∃ h₁ late, h = h₁ ++ late ∧
        Unreturned ((Config.initial s).run handle serve before) late ∧
        Tracks P serve silent parts assemble s ((Config.initial s).run handle serve before) h₁ := by
  induction schedule using List.reverseRecOn with
  | nil =>
    have htracks : Tracks P serve silent parts assemble s (Config.initial s) [] :=
      ⟨.nil,by simp,by simp [Config.initial]⟩
    refine ⟨hs,[],htracks,?_⟩
    intro before hbefore
    rw [List.prefix_nil.mp hbefore]
    exact ⟨[],[],rfl,fun _ he => absurd he List.not_mem_nil,htracks⟩
  | append_singleton schedule a ih =>
    have hgrow := Config.log_run handle serve ((Config.initial s).run handle serve schedule) [a]
    rw [← Config.run_append] at hgrow
    obtain ⟨hinv,h,htracks,hearlier⟩ := ih (hgrow.trans hlog)
    rw [Config.run_concat] at hlog ⊢
    obtain ⟨hinv',late,hlate,htracks'⟩ := htracks.step hinv hfree hparts hatomic a hlog
    refine ⟨hinv',h ++ late,htracks',?_⟩
    intro before hbefore
    rcases List.prefix_concat_iff.mp hbefore with rfl | hbefore
    · rw [Config.run_concat]
      exact ⟨h ++ late,[],(List.append_nil _).symm,fun _ he => absurd he List.not_mem_nil,htracks'⟩
    · obtain ⟨h₁,late₁,rfl,hlate₁,htracks₁⟩ := hearlier before hbefore
      refine ⟨h₁,late₁ ++ late,List.append_assoc _ _ _,?_,htracks₁⟩
      intro e he r b hreturned
      rcases List.mem_append.mp he with he | he
      · exact hlate₁ e he r b hreturned
      · -- what has returned in the beginning has returned when the event is added
        obtain ⟨rest,rfl⟩ := hbefore
        have hlater := hreturned.run handle serve rest
        rw [← Config.run_append] at hlater
        exact hlate e he r b hlater

end Histories
end ReapiCache.Interaction
