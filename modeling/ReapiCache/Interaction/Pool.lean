import ReapiCache.Interaction.Program

/-! # A pool of requests interleaved call by call

Each request is served by its own program. A schedule starts requests and
advances them one atomic call at a time, in any order and for ever longer lists.
The world carries the object's state together with the log of executed calls.
The log and the world stored in a thread at its start are ghost data: no step
reads them.
-/
namespace ReapiCache.Interaction
universe u v w x y

/-- One executed call, with the request on whose behalf it was issued. -/
structure Entry (Op : Type u) (Req : Type w) where
  caller : ℕ
  request : Req
  op : Op

structure World (Op : Type u) (Req : Type w) (S : Type y) where
  state : S
  log : List (Entry Op Req)

structure Thread (Op : Type u) (Ret : Op → Type v) (Req : Type w) (Resp : Type x) (S : Type y) where
  request : Req
  start : World Op Req S
  program : Program Op Ret Resp

structure Config (Op : Type u) (Ret : Op → Type v) (Req : Type w) (Resp : Type x) (S : Type y) where
  world : World Op Req S
  threads : List (Thread Op Ret Req Resp S)

/-- A scheduling decision. Requests are numbered in the order they start. -/
inductive Action (Req : Type w)
  | start (request : Req)
  | advance (caller : ℕ)

variable {Op : Type u} {Ret : Op → Type v} {Req : Type w} {Resp : Type x} {S : Type y}
variable (handle : (op : Op) → S → Ret op × S) (serve : Req → Program Op Ret Resp)

def World.record (world : World Op Req S) (e : Entry Op Req) : World Op Req S :=
  ⟨(handle e.op world.state).2,world.log ++ [e]⟩

@[simp] theorem World.record_log (world : World Op Req S) (e : Entry Op Req) :
    (world.record handle e).log = world.log ++ [e] := rfl
@[simp] theorem World.record_state (world : World Op Req S) (e : Entry Op Req) :
    (world.record handle e).state = (handle e.op world.state).2 := rfl

theorem World.log_record (world : World Op Req S) (e : Entry Op Req) :
    world.log <+: (world.record handle e).log := List.prefix_append _ _

/-- The state reached by executing logged calls in order. -/
def replay (s : S) (log : List (Entry Op Req)) : S := log.foldl (fun s e => (handle e.op s).2) s

theorem replay_concat (s : S) (log : List (Entry Op Req)) (e : Entry Op Req) :
    replay handle s (log ++ [e]) = (handle e.op (replay handle s log)).2 := by
  simp [replay]

/-- The requests a schedule starts. -/
def startedBy (schedule : List (Action Req)) : List Req :=
  schedule.filterMap (fun a =>
    match a with
    | .start r => some r
    | .advance _ => none)

theorem startedBy_append (before after : List (Action Req)) :
    startedBy (before ++ after) = startedBy before ++ startedBy after := List.filterMap_append ..

namespace Config

def initial (s : S) : Config Op Ret Req Resp S := ⟨⟨s,[]⟩,[]⟩

def started (c : Config Op Ret Req Resp S) (r : Req) : Config Op Ret Req Resp S :=
  { c with threads := c.threads ++ [⟨r,c.world,serve r⟩] }

/-- Thread `i`, waiting at `op`, executes it and moves to its continuation. -/
def called (c : Config Op Ret Req Resp S) (i : ℕ) (t : Thread Op Ret Req Resp S) (op : Op)
    (next : Ret op → Program Op Ret Resp) : Config Op Ret Req Resp S where
  world := c.world.record handle ⟨i,t.request,op⟩
  threads := c.threads.set i { t with program := next (handle op c.world.state).1 }

def step (c : Config Op Ret Req Resp S) : Action Req → Config Op Ret Req Resp S
  | .start r => c.started serve r
  | .advance i =>
    match c.threads[i]? with
    | some ⟨r,s,.call op next⟩ => c.called handle i ⟨r,s,.call op next⟩ op next
    | _ => c

def run (c : Config Op Ret Req Resp S) (schedule : List (Action Req)) :
    Config Op Ret Req Resp S := schedule.foldl (step handle serve) c

theorem run_cons (c : Config Op Ret Req Resp S) (a : Action Req) (schedule : List (Action Req)) :
    c.run handle serve (a :: schedule) = (c.step handle serve a).run handle serve schedule := rfl
theorem run_append (c : Config Op Ret Req Resp S) (s t : List (Action Req)) :
    c.run handle serve (s ++ t) = (c.run handle serve s).run handle serve t := List.foldl_append

/-- Everything a step can do: start a request, execute the next call of a thread
that waits at one, or nothing. -/
theorem step_cases (c : Config Op Ret Req Resp S) (a : Action Req) :
    (∃ r, a = .start r ∧ c.step handle serve a = c.started serve r) ∨
    (∃ i t op next, a = .advance i ∧ c.threads[i]? = some t ∧ t.program = .call op next ∧
      c.step handle serve a = c.called handle i t op next) ∨
    (∃ i, a = .advance i ∧ c.step handle serve a = c) := by
  cases a with
  | start r => exact Or.inl ⟨r,rfl,rfl⟩
  | advance i =>
    right
    cases ht : c.threads[i]? with
    | none => exact Or.inr ⟨i,rfl,by simp only [step, ht]⟩
    | some t =>
      rcases t with ⟨r,s,p⟩
      cases p with
      | done a => exact Or.inr ⟨i,rfl,by simp only [step, ht]⟩
      | call op next => exact Or.inl ⟨i,_,op,next,rfl,ht,rfl,by simp only [step, ht]⟩

/-- A property kept by every start and by every call holds along every run. -/
theorem run_inv (I : Config Op Ret Req Resp S → Prop)
    (hstart : ∀ c r, I c → I (c.started serve r))
    (hcall : ∀ c i t op next, I c → c.threads[i]? = some t → t.program = .call op next →
      I (c.called handle i t op next))
    {c : Config Op Ret Req Resp S} (h : I c) (schedule : List (Action Req)) :
    I (c.run handle serve schedule) := by
  induction schedule generalizing c with
  | nil => exact h
  | cons a schedule ih =>
    rw [run_cons]
    apply ih
    rcases step_cases handle serve c a with ⟨r,rfl,hs⟩ | ⟨i,t,op,next,rfl,ht,hp,hs⟩ | ⟨i,rfl,hs⟩
    · rw [hs]
      exact hstart c r h
    · rw [hs]
      exact hcall c i t op next h ht hp
    · rw [hs]
      exact h

/-- The log only grows. -/
theorem log_run (c : Config Op Ret Req Resp S) (schedule : List (Action Req)) :
    c.world.log <+: (c.run handle serve schedule).world.log :=
  run_inv handle serve (fun d => c.world.log <+: d.world.log) (fun _ _ h => h)
    (fun d _ _ _ _ h _ _ => h.trans (World.log_record handle d.world _)) (List.prefix_refl _) schedule

/-- The state is the replay of the log, so two runs with one log agree. -/
theorem state_run (s : S) (schedule : List (Action Req)) :
    ((initial s : Config Op Ret Req Resp S).run handle serve schedule).world.state =
      replay handle s ((initial s : Config Op Ret Req Resp S).run handle serve schedule).world.log := by
  apply run_inv handle serve (fun d => d.world.state = replay handle s d.world.log)
  · exact fun _ _ h => h
  · intro d i t op next h _ _
    simp only [called, World.record_state, World.record_log, replay_concat, h]
  · rfl

/-- Thread `i` serves `r` and has returned `a`. -/
def Returned (c : Config Op Ret Req Resp S) (i : ℕ) (r : Req) (a : Resp) : Prop :=
  ∃ t, c.threads[i]? = some t ∧ t.request = r ∧ t.program = .done a

/-- Thread `i` serves `r` and has not returned. -/
def InFlight (c : Config Op Ret Req Resp S) (i : ℕ) (r : Req) : Prop :=
  ∃ t, c.threads[i]? = some t ∧ t.request = r ∧ ∀ a, t.program ≠ .done a

/-- A thread keeps its number, its request and its start, and a returned response
stays returned. -/
theorem thread_run {c : Config Op Ret Req Resp S} {i : ℕ} {t : Thread Op Ret Req Resp S}
    (ht : c.threads[i]? = some t) (schedule : List (Action Req)) :
    ∃ t', (c.run handle serve schedule).threads[i]? = some t' ∧ t'.request = t.request ∧
      t'.start = t.start ∧ ∀ a, t.program = .done a → t'.program = .done a := by
  apply run_inv handle serve (fun d => ∃ t', d.threads[i]? = some t' ∧ t'.request = t.request ∧
      t'.start = t.start ∧ ∀ a, t.program = .done a → t'.program = .done a)
  · rintro d r ⟨t',ht',h⟩
    refine ⟨t',?_,h⟩
    simp only [started]
    rw [List.getElem?_append_left (List.getElem?_eq_some_iff.mp ht').1]
    exact ht'
  · rintro d j u op next ⟨t',ht',hr,hs,hd⟩ hu hp
    by_cases hij : j = i
    · subst j
      obtain rfl : u = t' := Option.some.inj (hu.symm.trans ht')
      have hlt := (List.getElem?_eq_some_iff.mp ht').1
      refine ⟨_,List.getElem?_set_self hlt,hr,hs,?_⟩
      intro a ha
      rw [hd a ha] at hp
      cases hp
    · exact ⟨t',by simp only [called]; rw [List.getElem?_set_ne hij]; exact ht',hr,hs,hd⟩
  · exact ⟨t,ht,rfl,rfl,fun _ h => h⟩

theorem Returned.run {c : Config Op Ret Req Resp S} {i : ℕ} {r : Req} {a : Resp}
    (h : c.Returned i r a) (schedule : List (Action Req)) :
    (c.run handle serve schedule).Returned i r a := by
  obtain ⟨t,ht,hr,ha⟩ := h
  obtain ⟨t',ht',hr',_,hd⟩ := thread_run handle serve ht schedule
  exact ⟨t',ht',hr'.trans hr,hd a ha⟩

/-- A request started in `c` is thread number `c.threads.length`, and remembers `c`. -/
theorem start_run (c : Config Op Ret Req Resp S) (r : Req) (schedule : List (Action Req)) :
    ∃ t, ((c.step handle serve (.start r)).run handle serve schedule).threads[c.threads.length]? =
      some t ∧ t.request = r ∧ t.start = c.world := by
  have h : (c.step handle serve (.start r)).threads[c.threads.length]? = some ⟨r,c.world,serve r⟩ := by
    simp [step, started]
  obtain ⟨t,ht,hr,hs,_⟩ := thread_run handle serve h schedule
  exact ⟨t,ht,hr,hs⟩

/-- The response of thread `i`, once it has one. -/
def answer (c : Config Op Ret Req Resp S) (i : ℕ) : Option Resp :=
  c.threads[i]?.bind (fun t =>
    match t.program with
    | .done a => some a
    | .call _ _ => none)

/-- The requests of a run, in the order they started. -/
def requests (c : Config Op Ret Req Resp S) : List Req := c.threads.map Thread.request

theorem requests_called (c : Config Op Ret Req Resp S) {i : ℕ} {t : Thread Op Ret Req Resp S}
    (ht : c.threads[i]? = some t) (op : Op) (next : Ret op → Program Op Ret Resp) :
    (c.called handle i t op next).requests = c.requests := by
  obtain ⟨hlt,rfl⟩ := List.getElem?_eq_some_iff.mp ht
  simp only [requests, called, List.map_set]
  rw [← List.getElem_map Thread.request (h := by simpa using hlt), List.set_getElem_self]

theorem requests_run (c : Config Op Ret Req Resp S) (schedule : List (Action Req)) :
    (c.run handle serve schedule).requests = c.requests ++ startedBy schedule := by
  induction schedule generalizing c with
  | nil => simp [run, startedBy]
  | cons a schedule ih =>
    rw [run_cons, ih]
    rcases step_cases handle serve c a with ⟨r,rfl,hs⟩ | ⟨i,t,op,next,rfl,ht,_,hs⟩ | ⟨i,rfl,hs⟩
    · rw [hs]
      simp [startedBy, requests, started]
    · rw [hs, requests_called handle c ht]
      simp [startedBy]
    · rw [hs]
      simp [startedBy]

theorem requests_initial_run (s : S) (schedule : List (Action Req)) :
    ((initial s : Config Op Ret Req Resp S).run handle serve schedule).requests = startedBy schedule := by
  rw [requests_run]
  rfl

theorem returned_of_answer {c : Config Op Ret Req Resp S} {i : ℕ} {r : Req} {a : Resp}
    (hr : c.requests[i]? = some r) (ha : c.answer i = some a) : c.Returned i r a := by
  rw [requests, List.getElem?_map] at hr
  obtain ⟨t,ht,rfl⟩ := Option.map_eq_some_iff.mp hr
  rw [answer, ht, Option.bind_some] at ha
  cases hp : t.program with
  | call op next =>
    rw [hp] at ha
    cases ha
  | done b =>
    rw [hp] at ha
    obtain rfl := Option.some.inj ha
    exact ⟨t,ht,rfl,hp⟩

/-- No interleaving can block a request: advancing it alone makes it return. -/
theorem exists_returned (c : Config Op Ret Req Resp S) {i : ℕ} {t : Thread Op Ret Req Resp S}
    (ht : c.threads[i]? = some t) :
    ∃ k a, (c.run handle serve (List.replicate k (.advance i))).Returned i t.request a := by
  rcases t with ⟨r,w,p⟩
  induction p generalizing c with
  | done a => exact ⟨0,a,_,ht,rfl,rfl⟩
  | call op next ih =>
    have hs : c.step handle serve (.advance i) = c.called handle i ⟨r,w,.call op next⟩ op next := by
      simp only [step, ht]
    have hnext : (c.called handle i ⟨r,w,.call op next⟩ op next).threads[i]? =
        some ⟨r,w,next (handle op c.world.state).1⟩ :=
      List.getElem?_set_self (List.getElem?_eq_some_iff.mp ht).1
    obtain ⟨k,a,h⟩ := ih _ _ hnext
    refine ⟨k + 1,a,?_⟩
    rw [List.replicate_succ, run_cons, hs]
    exact h

/-- Advanced alone, a thread returns what its program does when it is executed there. -/
theorem exec_run (c : Config Op Ret Req Resp S) {i : ℕ} {t : Thread Op Ret Req Resp S}
    (ht : c.threads[i]? = some t) : ∃ k, (c.run handle serve (List.replicate k (.advance i))).Returned i t.request
      (t.program.exec handle c.world.state).1 := by
  rcases t with ⟨r,w,p⟩
  induction p generalizing c with
  | done a => exact ⟨0,_,ht,rfl,rfl⟩
  | call op next ih =>
    have hs : c.step handle serve (.advance i) = c.called handle i ⟨r,w,.call op next⟩ op next := by
      simp only [step, ht]
    have hnext : (c.called handle i ⟨r,w,.call op next⟩ op next).threads[i]? =
        some ⟨r,w,next (handle op c.world.state).1⟩ :=
      List.getElem?_set_self (List.getElem?_eq_some_iff.mp ht).1
    obtain ⟨k,h⟩ := ih _ _ hnext
    refine ⟨k + 1,?_⟩
    rw [List.replicate_succ, run_cons, hs]
    exact h

theorem Returned.unique {c : Config Op Ret Req Resp S} {i : ℕ} {r r' : Req} {a a' : Resp}
    (h : c.Returned i r a) (h' : c.Returned i r' a') : a = a' := by
  obtain ⟨t,ht,_,ha⟩ := h
  obtain ⟨t',ht',_,ha'⟩ := h'
  obtain rfl := Option.some.inj (ht.symm.trans ht')
  exact Program.done.inj (ha.symm.trans ha')

/-- Every logged call was issued by a thread that serves the request it names. -/
theorem log_caller (s : S) (schedule : List (Action Req)) :
    ∀ e ∈ ((initial s : Config Op Ret Req Resp S).run handle serve schedule).world.log,
      ∃ t, ((initial s).run handle serve schedule).threads[e.caller]? = some t ∧
        t.request = e.request := by
  apply run_inv handle serve (fun d : Config Op Ret Req Resp S =>
    ∀ e ∈ d.world.log, ∃ t, d.threads[e.caller]? = some t ∧ t.request = e.request)
  · intro d r h e he
    obtain ⟨t,ht,hr⟩ := h e he
    refine ⟨t,?_,hr⟩
    simp only [started]
    rw [List.getElem?_append_left (List.getElem?_eq_some_iff.mp ht).1]
    exact ht
  · intro d i u op next h hu _ e he
    have hlt := (List.getElem?_eq_some_iff.mp hu).1
    rcases List.mem_append.mp he with he | he
    · obtain ⟨t,ht,hr⟩ := h e he
      by_cases hi : i = e.caller
      · subst hi
        obtain rfl := Option.some.inj (hu.symm.trans ht)
        exact ⟨_,List.getElem?_set_self hlt,hr⟩
      · exact ⟨t,by simp only [called]; rw [List.getElem?_set_ne hi]; exact ht,hr⟩
    · rw [List.mem_singleton.mp he]
      exact ⟨_,List.getElem?_set_self hlt,rfl⟩
  · exact fun e he => absurd he List.not_mem_nil

/-- If every served program only issues calls allowed to its request, the log
holds allowed calls only. -/
theorem log_allowed {allowed : Req → Op → Prop} (hserve : ∀ r, (serve r).Uses (allowed r))
    (s : S) (schedule : List (Action Req)) :
    ∀ e ∈ ((initial s : Config Op Ret Req Resp S).run handle serve schedule).world.log,
      allowed e.request e.op := by
  have h := run_inv handle serve
    (fun d : Config Op Ret Req Resp S =>
      (∀ t ∈ d.threads, t.program.Uses (allowed t.request)) ∧
      ∀ e ∈ d.world.log, allowed e.request e.op)
    (c := initial s) ?_ ?_ ?_ schedule
  · exact h.2
  · rintro d r ⟨ht,he⟩
    refine ⟨?_,he⟩
    intro t hm
    rcases List.mem_append.mp hm with hm | hm
    · exact ht t hm
    · rw [List.mem_singleton.mp hm]
      exact hserve r
  · rintro d i t op next ⟨ht,he⟩ hi hp
    have hu := ht t (List.mem_of_getElem? hi)
    rw [hp] at hu
    constructor
    · intro t' hm
      rcases List.mem_or_eq_of_mem_set hm with hm | rfl
      · exact ht t' hm
      · exact hu.2 _
    · intro e hm
      rcases List.mem_append.mp hm with hm | hm
      · exact he e hm
      · rw [List.mem_singleton.mp hm]
        exact hu.1
  · exact ⟨fun t h => absurd h List.not_mem_nil,fun e h => absurd h List.not_mem_nil⟩

end Config
end ReapiCache.Interaction
