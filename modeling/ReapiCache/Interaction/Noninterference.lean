import ReapiCache.Interaction.Isolation
import ReapiCache.Interaction.Pool
import Mathlib.Data.List.Basic

/-! # Interleaved requests that do not see each other

The requests of a pool are visible or hidden. Visible ones call only what an equivalence
of states determines, and the calls of the hidden ones stay inside a class of it. Then
the hidden requests can be purged from any schedule: the visible ones get the same
responses, call for call, and the states stay equivalent.
-/
namespace ReapiCache.Interaction
universe u v w x y

section Lists
variable {α : Type u} {p : α → Bool}

theorem getElem?_filter_countPBefore {l : List α} {i : ℕ} {a : α} (h : l[i]? = some a) (ha : p a = true) :
    (l.filter p)[l.countPBefore p i]? = some a := by
  induction l generalizing i with
  | nil => cases h
  | cons b l ih =>
    cases i with
    | zero =>
      obtain rfl := Option.some.inj h
      simp [List.filter_cons_of_pos ha]
    | succ i =>
      rw [List.getElem?_cons_succ] at h
      by_cases hb : p b = true
      · simpa [List.filter_cons_of_pos hb, List.countPBefore_cons_succ_of_pos hb] using ih h
      · simpa [List.filter_cons_of_neg hb, hb] using ih h

theorem filter_set_of_pos {l : List α} {i : ℕ} {a b : α} (h : l[i]? = some a) (ha : p a = true) (hb : p b = true) :
    (l.set i b).filter p = (l.filter p).set (l.countPBefore p i) b := by
  induction l generalizing i with
  | nil => cases h
  | cons c l ih =>
    cases i with
    | zero =>
      obtain rfl := Option.some.inj h
      simp [List.filter_cons_of_pos ha, List.filter_cons_of_pos hb]
    | succ i =>
      rw [List.getElem?_cons_succ] at h
      by_cases hc : p c = true
      · simp [List.filter_cons_of_pos hc, List.countPBefore_cons_succ_of_pos hc, ih h]
      · simp [List.filter_cons_of_neg hc, hc, ih h]

theorem filter_set_of_neg {l : List α} {i : ℕ} {a b : α} (h : l[i]? = some a) (ha : ¬ p a = true)
    (hb : ¬ p b = true) : (l.set i b).filter p = l.filter p := by
  induction l generalizing i with
  | nil => cases h
  | cons c l ih =>
    cases i with
    | zero =>
      obtain rfl := Option.some.inj h
      simp [List.filter_cons_of_neg ha, List.filter_cons_of_neg hb]
    | succ i =>
      rw [List.getElem?_cons_succ] at h
      by_cases hc : p c = true
      · simp [List.filter_cons_of_pos hc, ih h]
      · simp [List.filter_cons_of_neg hc, ih h]

end Lists

section Schedules
variable {Req : Type w} (visible : Req → Prop) [DecidablePred visible]

/-- A schedule without what is hidden, when the requests of `before` have been started. The
visible requests are numbered anew, in the order they start. -/
def purge (before : List Req) : List (Action Req) → List (Action Req)
  | [] => []
  | .start r :: schedule =>
    if visible r then .start r :: purge (before ++ [r]) schedule else purge (before ++ [r]) schedule
  | .advance i :: schedule =>
    if before[i]?.any (fun r => visible r) then
      .advance (before.countPBefore (fun r => visible r) i) :: purge before schedule
    else purge before schedule

end Schedules

variable {Op : Type u} {Ret : Op → Type v} {Req : Type w} {Resp : Type x} {S : Type y}

/-- What a client knows of its request. -/
def Thread.view (t : Thread Op Ret Req Resp S) : Req × Program Op Ret Resp := (t.request,t.program)

/-- The response of a thread, once it has one. -/
def Thread.response? (t : Thread Op Ret Req Resp S) : Option Resp :=
  match t.program with
  | .done a => some a
  | .call _ _ => none

section Visible
variable (visible : Req → Prop) [DecidablePred visible]

/-- The visible requests of a pool, as their clients know them. -/
def Config.views (c : Config Op Ret Req Resp S) : List (Req × Program Op Ret Resp) :=
  (c.threads.filter (fun t => visible t.request)).map Thread.view

/-- The visible requests of a pool with their responses, in the order they started. -/
def Config.answers (c : Config Op Ret Req Resp S) : List (Req × Option Resp) :=
  (c.threads.filter (fun t => visible t.request)).map (fun t => (t.request,t.response?))

theorem Config.answers_eq (c : Config Op Ret Req Resp S) : c.answers visible =
    (c.views visible).map (fun v => (v.1,(⟨v.1,c.world,v.2⟩ : Thread Op Ret Req Resp S).response?)) := by
  rw [answers, views, List.map_map]
  rfl

end Visible

variable (handle : (op : Op) → S → Ret op × S) (serve : Req → Program Op Ret Resp) (R : S → S → Prop)
  (visible : Req → Prop) [DecidablePred visible]

/-- A pool and one that has the visible requests of it only. -/
structure Shows (c d : Config Op Ret Req Resp S) : Prop where
  state : R c.world.state d.world.state
  threads : c.views visible = d.threads.map Thread.view
  seen : ∀ t ∈ c.threads, visible t.request → t.program.Uses (Consistent handle R)
  unseen : ∀ t ∈ c.threads, ¬ visible t.request → t.program.Uses (Unseen handle R)

variable {handle serve R visible} {c d : Config Op Ret Req Resp S}

namespace Shows
variable (h : Shows handle R visible c d)
include h

theorem started_visible {r : Req} (hr : visible r) (hserve : (serve r).Uses (Consistent handle R)) :
    Shows handle R visible (c.started serve r) (d.started serve r) where
  state := h.state
  threads := by
    have hthreads := h.threads
    simp only [Config.views, Config.started, List.filter_append, List.map_append] at hthreads ⊢
    rw [hthreads]
    simp [hr, Thread.view]
  seen := by
    intro t ht hv
    rcases List.mem_append.mp ht with ht | ht
    · exact h.seen t ht hv
    · rw [List.mem_singleton.mp ht]
      exact hserve
  unseen := by
    intro t ht hv
    rcases List.mem_append.mp ht with ht | ht
    · exact h.unseen t ht hv
    · rw [List.mem_singleton.mp ht] at hv
      exact absurd hr hv

theorem started_hidden {r : Req} (hr : ¬ visible r) (hserve : (serve r).Uses (Unseen handle R)) :
    Shows handle R visible (c.started serve r) d where
  state := h.state
  threads := by
    have hthreads := h.threads
    simp only [Config.views, Config.started, List.filter_append, List.map_append] at hthreads ⊢
    rw [hthreads]
    simp [hr]
  seen := by
    intro t ht hv
    rcases List.mem_append.mp ht with ht | ht
    · exact h.seen t ht hv
    · rw [List.mem_singleton.mp ht] at hv
      exact absurd hv hr
  unseen := by
    intro t ht hv
    rcases List.mem_append.mp ht with ht | ht
    · exact h.unseen t ht hv
    · rw [List.mem_singleton.mp ht]
      exact hserve

variable {i : ℕ} {t : Thread Op Ret Req Resp S} (ht : c.threads[i]? = some t)
include ht

/-- The visible thread has its counterpart. -/
theorem counterpart (hv : visible t.request) :
    ∃ start, d.threads[c.threads.countPBefore (fun t => visible t.request) i]? =
      some ⟨t.request,start,t.program⟩ := by
  have hfilter := getElem?_filter_countPBefore (p := fun t : Thread Op Ret Req Resp S => decide (visible t.request))
    ht (by simpa using hv)
  have hview : (c.views visible)[c.threads.countPBefore (fun t => visible t.request) i]? = some t.view := by
    rw [Config.views, List.getElem?_map, hfilter]
    rfl
  rw [h.threads, List.getElem?_map] at hview
  obtain ⟨⟨r,start,p⟩,ht',hview⟩ := Option.map_eq_some_iff.mp hview
  cases hview
  exact ⟨start,ht'⟩

variable (serve) in
theorem called_visible {op : Op} {next : Ret op → Program Op Ret Resp} (hp : t.program = .call op next)
    (hv : visible t.request) : Shows handle R visible (c.called handle i t op next)
      (d.step handle serve (.advance (c.threads.countPBefore (fun t => visible t.request) i))) := by
  obtain ⟨start,ht'⟩ := h.counterpart ht hv
  rw [hp] at ht'
  have huses := h.seen t (List.mem_of_getElem? ht) hv
  rw [hp] at huses
  obtain ⟨hreply,hstate⟩ := huses.1 _ _ h.state
  simp only [Config.step, ht']
  refine ⟨hstate,?_,?_,?_⟩
  · have hthreads := h.threads
    simp only [Config.views, Config.called] at hthreads ⊢
    rw [filter_set_of_pos ht (by simpa using hv) (by simpa using hv), List.map_set, List.map_set, hthreads, ← hreply]
    rfl
  · intro u hu hvu
    rcases List.mem_or_eq_of_mem_set hu with hu | rfl
    · exact h.seen u hu hvu
    · exact huses.2 _
  · intro u hu hvu
    rcases List.mem_or_eq_of_mem_set hu with hu | rfl
    · exact h.unseen u hu hvu
    · exact absurd hv hvu

theorem called_hidden {op : Op} {next : Ret op → Program Op Ret Resp} (hp : t.program = .call op next)
    (hv : ¬ visible t.request) : Shows handle R visible (c.called handle i t op next) d := by
  have huses := h.unseen t (List.mem_of_getElem? ht) hv
  rw [hp] at huses
  refine ⟨huses.1 _ _ h.state,?_,?_,?_⟩
  · have hthreads := h.threads
    simp only [Config.views, Config.called] at hthreads ⊢
    rwa [filter_set_of_neg ht (by simpa using hv) (by simpa using hv)]
  · intro u hu hvu
    rcases List.mem_or_eq_of_mem_set hu with hu | rfl
    · exact h.seen u hu hvu
    · exact absurd hvu hv
  · intro u hu hvu
    rcases List.mem_or_eq_of_mem_set hu with hu | rfl
    · exact h.unseen u hu hvu
    · exact huses.2 _

end Shows

section Runs
variable (hvisible : ∀ r, visible r → (serve r).Uses (Consistent handle R))
  (hhidden : ∀ r, ¬ visible r → (serve r).Uses (Unseen handle R))

theorem countPBefore_requests (c : Config Op Ret Req Resp S) (i : ℕ) :
    c.requests.countPBefore (fun r => visible r) i = c.threads.countPBefore (fun t => visible t.request) i := by
  rw [List.countPBefore_eq_countP_take, List.countPBefore_eq_countP_take, Config.requests, ← List.map_take,
    List.countP_map]
  rfl

include hvisible hhidden

/-- One scheduling decision is taken in both pools, or purged. -/
theorem Shows.step (h : Shows handle R visible c d) (a : Action Req) :
    Shows handle R visible (c.step handle serve a) (d.run handle serve (purge visible c.requests [a])) := by
  cases a with
  | start r =>
    by_cases hr : visible r
    · rw [purge, if_pos hr]
      exact h.started_visible hr (hvisible r hr)
    · rw [purge, if_neg hr]
      exact h.started_hidden hr (hhidden r hr)
  | advance i =>
    rw [purge, countPBefore_requests, Config.requests, List.getElem?_map]
    cases ht : c.threads[i]? with
    | none =>
      simp only [Config.step, ht]
      exact h
    | some t =>
      rcases t with ⟨r,start,p⟩
      simp only [Option.map_some, Option.any_some, decide_eq_true_eq]
      cases p with
      | done a =>
        simp only [Config.step, ht]
        by_cases hv : visible r
        · obtain ⟨start',ht'⟩ := h.counterpart ht hv
          rw [if_pos hv]
          change Shows handle R visible c (d.step handle serve (.advance _))
          simp only [Config.step, ht']
          exact h
        · rw [if_neg hv]
          exact h
      | call op next =>
        simp only [Config.step, ht]
        by_cases hv : visible r
        · rw [if_pos hv]
          exact h.called_visible serve ht rfl hv
        · rw [if_neg hv]
          exact h.called_hidden ht rfl hv

omit [DecidablePred visible] hvisible hhidden in
theorem requests_step (c : Config Op Ret Req Resp S) (a : Action Req) :
    (c.step handle serve a).requests = c.requests ++ startedBy [a] := Config.requests_run handle serve c [a]

omit hvisible hhidden in
theorem purge_cons (before : List Req) (a : Action Req) (schedule : List (Action Req)) :
    purge visible before (a :: schedule) = purge visible before [a] ++ purge visible (before ++ startedBy [a]) schedule := by
  cases a with
  | start r =>
    by_cases hr : visible r
    · simp [purge, hr, startedBy]
    · simp [purge, hr, startedBy]
  | advance i =>
    simp only [purge, startedBy, List.filterMap_cons, List.filterMap_nil, List.append_nil]
    by_cases hi : before[i]?.any (fun r => visible r) = true
    · rw [if_pos hi, if_pos hi]
      rfl
    · rw [if_neg hi, if_neg hi]
      rfl

/-- What is hidden can be left out of a run. -/
theorem Shows.run (h : Shows handle R visible c d) (schedule : List (Action Req)) :
    Shows handle R visible (c.run handle serve schedule) (d.run handle serve (purge visible c.requests schedule)) := by
  induction schedule generalizing c d with
  | nil => exact h
  | cons a schedule ih =>
    have hnext := ih (h.step hvisible hhidden a)
    rw [requests_step] at hnext
    rw [purge_cons, Config.run_append]
    exact hnext

/-- Runs with the same visible part agree on their visible responses and in the end. -/
theorem run_isolated (hR : Equivalence R) {schedule schedule' : List (Action Req)}
    (hsame : purge visible [] schedule = purge visible [] schedule') {s s' : S} (h : R s s') :
    ((Config.initial s : Config Op Ret Req Resp S).run handle serve schedule).answers visible =
        ((Config.initial s' : Config Op Ret Req Resp S).run handle serve schedule').answers visible ∧
      R ((Config.initial s : Config Op Ret Req Resp S).run handle serve schedule).world.state
        ((Config.initial s' : Config Op Ret Req Resp S).run handle serve schedule').world.state := by
  have hstart : ∀ {s₁ s₂ : S}, R s₁ s₂ →
      Shows handle R visible (Config.initial s₁ : Config Op Ret Req Resp S) (Config.initial s₂) :=
    fun hs => ⟨hs,rfl,by simp [Config.initial],by simp [Config.initial]⟩
  have hrun := (hstart h).run hvisible hhidden schedule
  have hrun' := (hstart (hR.refl s')).run hvisible hhidden schedule'
  change Shows handle R visible _ (Config.run handle serve _ (purge visible [] schedule)) at hrun
  change Shows handle R visible _ (Config.run handle serve _ (purge visible [] schedule')) at hrun'
  rw [← hsame] at hrun'
  refine ⟨?_,hR.trans hrun.state (hR.symm hrun'.state)⟩
  rw [Config.answers_eq, Config.answers_eq, hrun.threads, hrun'.threads]
  rfl

end Runs

/-- In a state that no call changes, what is started is answered as if it were executed alone. -/
theorem Config.run_frozen (handle : (op : Op) → S → Ret op × S) (serve : Req → Program Op Ret Resp)
    (c : Config Op Ret Req Resp S) (hfrozen : ∀ op, (handle op c.world.state).2 = c.world.state)
    (schedule : List (Action Req)) :
    (c.run handle serve schedule).world.state = c.world.state ∧
      ∀ i r a, c.threads.length ≤ i → (c.run handle serve schedule).Returned i r a →
        a = ((serve r).exec handle c.world.state).1 := by
  have hrun := run_inv handle serve (fun d => d.world.state = c.world.state ∧
    c.threads.length ≤ d.threads.length ∧ ∀ i t, c.threads.length ≤ i → d.threads[i]? = some t →
      t.program.exec handle c.world.state = (serve t.request).exec handle c.world.state) ?_ ?_ (c := c) ?_ schedule
  · obtain ⟨hstate,_,hthreads⟩ := hrun
    refine ⟨hstate,?_⟩
    rintro i r a hi ⟨t,ht,rfl,hp⟩
    have hexec := hthreads i t hi ht
    rw [hp] at hexec
    exact congrArg Prod.fst hexec
  · rintro d r ⟨hstate,hlength,hthreads⟩
    refine ⟨hstate,?_,?_⟩
    · simp only [started, List.length_append]
      omega
    · intro i t hi ht
      by_cases hlt : i < d.threads.length
      · simp only [started, List.getElem?_append_left hlt] at ht
        exact hthreads i t hi ht
      · simp only [started, List.getElem?_append_right (Nat.le_of_not_lt hlt)] at ht
        rw [List.mem_singleton.mp (List.mem_of_getElem? ht)]
  · rintro d j u op next ⟨hstate,hlength,hthreads⟩ hu hp
    refine ⟨?_,by simpa only [called, List.length_set] using hlength,?_⟩
    · simp only [called, World.record_state, hstate]
      exact hfrozen op
    · intro i t hi ht
      by_cases hij : j = i
      · subst hij
        simp only [called, List.getElem?_set_self (List.getElem?_eq_some_iff.mp hu).1, Option.some.injEq] at ht
        have hexec := hthreads j u hi hu
        rw [hp, Program.exec_call, hfrozen] at hexec
        rw [← ht, hstate]
        exact hexec
      · simp only [called, List.getElem?_set_ne hij] at ht
        exact hthreads i t hi ht
  · refine ⟨rfl,Nat.le_refl _,?_⟩
    intro i t hi ht
    have hlt := (List.getElem?_eq_some_iff.mp ht).1
    omega

end ReapiCache.Interaction
