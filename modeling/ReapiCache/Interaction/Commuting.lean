import ReapiCache.Interaction.Pool

/-! # Programs whose calls get fixed replies

Where the reply to a call does not depend on the state, a program issues the same calls
and returns the same value in every interleaving. What a run of such programs leaves
behind is then the effect of one collection of calls, in some order, and when the calls
commute the order is irrelevant.
-/
namespace ReapiCache.Interaction
universe u v w x y z
variable {Op : Type u} {Ret : Op → Type v} {S : Type y} {α : Type w}

namespace Program
variable (reply : (op : Op) → Ret op)

/-- The calls of a program, when it gets these replies. -/
def calls : Program Op Ret α → List Op
  | .done _ => []
  | .call op next => op :: (next (reply op)).calls

/-- What a program returns, when it gets these replies. -/
def value : Program Op Ret α → α
  | .done a => a
  | .call op next => (next (reply op)).value

@[simp] theorem calls_done (a : α) : (done a : Program Op Ret α).calls reply = [] := rfl
@[simp] theorem calls_call (op : Op) (next : Ret op → Program Op Ret α) :
    (call op next).calls reply = op :: (next (reply op)).calls reply := rfl
@[simp] theorem value_done (a : α) : (done a : Program Op Ret α).value reply = a := rfl
@[simp] theorem value_call (op : Op) (next : Ret op → Program Op Ret α) :
    (call op next).value reply = (next (reply op)).value reply := rfl

end Program

variable (handle : (op : Op) → S → Ret op × S)

/-- The state after some calls, one after the other. -/
def perform (ops : List Op) (s : S) : S := ops.foldl (fun s op => (handle op s).2) s

@[simp] theorem perform_nil (s : S) : perform handle [] s = s := rfl
@[simp] theorem perform_cons (op : Op) (ops : List Op) (s : S) :
    perform handle (op :: ops) s = perform handle ops (handle op s).2 := rfl

theorem replay_eq_perform {Req : Type x} (s : S) (log : List (Entry Op Req)) :
    replay handle s log = perform handle (log.map Entry.op) s := by
  simp only [replay, perform, List.foldl_map]

/-- The calls may be made in either order. -/
def Commute (op op' : Op) : Prop := ∀ s, (handle op' (handle op s).2).2 = (handle op (handle op' s).2).2

variable {handle}

theorem perform_perm {ops ops' : List Op} (hperm : ops.Perm ops')
    (h : ∀ op ∈ ops, ∀ op' ∈ ops, Commute handle op op') (s : S) : perform handle ops s = perform handle ops' s :=
  hperm.foldl_eq' (fun op hop op' hop' s => h op hop op' hop' s) s

/-- Calls that each keep the state keep it together. -/
theorem perform_absorbed {ops : List Op} {s : S} (h : ∀ op ∈ ops, (handle op s).2 = s) :
    perform handle ops s = s := by
  induction ops with
  | nil => rfl
  | cons op ops ih =>
    rw [perform_cons, h op List.mem_cons_self]
    exact ih (fun op hop => h op (List.mem_cons_of_mem _ hop))

variable (handle) in
/-- In the states of `I` an allowed call gets its fixed reply and leads to a state of `I`. -/
def FixedReplies (I : S → Prop) (allowed : Op → Prop) (reply : (op : Op) → Ret op) : Prop :=
  ∀ op s, allowed op → I s → (handle op s).1 = reply op ∧ I (handle op s).2

variable {I : S → Prop} {allowed : Op → Prop} {reply : (op : Op) → Ret op}
  (hfixed : FixedReplies handle I allowed reply)
include hfixed

/-- Executed alone, a program makes its calls and returns its value. -/
theorem Program.Uses.exec_fixed {p : Program Op Ret α} (hp : p.Uses allowed) {s : S} (hs : I s) :
    p.exec handle s = (p.value reply,perform handle (p.calls reply) s) := by
  induction p generalizing s with
  | done a => rfl
  | call op next ih =>
    obtain ⟨hreply,hnext⟩ := hfixed op s hp.1 hs
    rw [exec_call, hreply]
    exact ih _ (hp.2 _) hnext

section Runs
variable {Req : Type x} {Resp : Type z} {serve : Req → Program Op Ret Resp}
omit hfixed

namespace Config

/-- Every request has returned. -/
def Complete (c : Config Op Ret Req Resp S) : Prop := ∀ t ∈ c.threads, ∃ a, t.program = .done a

theorem complete_of_answers {c : Config Op Ret Req Resp S}
    (h : ∀ i < c.threads.length, (c.answer i).isSome) : c.Complete := by
  intro t ht
  obtain ⟨i,hget⟩ := List.mem_iff_getElem?.mp ht
  have hlt := (List.getElem?_eq_some_iff.mp hget).1
  obtain ⟨a,ha⟩ := Option.isSome_iff_exists.mp (h i hlt)
  have hrequest : c.requests[i]? = some t.request := by
    rw [requests, List.getElem?_map, hget, Option.map_some]
  obtain ⟨t',ht',_,hp⟩ := returned_of_answer hrequest ha
  obtain rfl := Option.some.inj (hget.symm.trans ht')
  exact ⟨a,hp⟩

theorem Complete.returned {c : Config Op Ret Req Resp S} (h : c.Complete) {r : Req} (hr : r ∈ c.requests) :
    ∃ i a, c.Returned i r a := by
  obtain ⟨t,ht,rfl⟩ := List.mem_map.mp hr
  obtain ⟨i,hget⟩ := List.mem_iff_getElem?.mp ht
  obtain ⟨a,ha⟩ := h t ht
  exact ⟨i,a,t,hget,rfl,ha⟩

end Config

variable (serve reply) in
/-- The thread is on its way to the value of its request, and the calls behind it are logged. -/
structure OnTrack (allowed : Op → Prop) (log : List (Entry Op Req)) (t : Thread Op Ret Req Resp S) : Prop where
  uses : t.program.Uses allowed
  value : t.program.value reply = (serve t.request).value reply
  calls : ∃ past, (serve t.request).calls reply = past ++ t.program.calls reply ∧
    ∀ op ∈ past, op ∈ log.map Entry.op

variable (serve reply) in
/-- The logged calls and those still to come are the calls of the requests. -/
structure Accounted (I : S → Prop) (allowed : Op → Prop) (c : Config Op Ret Req Resp S) : Prop where
  state : I c.world.state
  logged : ∀ op ∈ c.world.log.map Entry.op, allowed op
  threads : ∀ t ∈ c.threads, OnTrack reply serve allowed c.world.log t
  calls : (c.world.log.map Entry.op ++ c.threads.flatMap (fun t => t.program.calls reply)).Perm
    (c.requests.flatMap (fun r => (serve r).calls reply))

theorem OnTrack.later {log log' : List (Entry Op Req)} {t : Thread Op Ret Req Resp S}
    (h : OnTrack reply serve allowed log t) (hl : log <+: log') : OnTrack reply serve allowed log' t where
  uses := h.uses
  value := h.value
  calls := by
    obtain ⟨past,hcalls,hpast⟩ := h.calls
    exact ⟨past,hcalls,fun op hop => (hl.map Entry.op).subset (hpast op hop)⟩

/-- The next call of a thread brings it one call further. -/
theorem OnTrack.called {log : List (Entry Op Req)} {t : Thread Op Ret Req Resp S} {op : Op}
    {next : Ret op → Program Op Ret Resp} (h : OnTrack reply serve allowed log t)
    (hp : t.program = .call op next) (i : ℕ) :
    OnTrack reply serve allowed (log ++ [⟨i,t.request,op⟩]) { t with program := next (reply op) } where
  uses := by
    have huses := h.uses
    rw [hp] at huses
    exact huses.2 _
  value := by
    have hvalue := h.value
    rwa [hp, Program.value_call] at hvalue
  calls := by
    obtain ⟨past,hcalls,hpast⟩ := h.calls
    rw [hp, Program.calls_call] at hcalls
    refine ⟨past ++ [op],by simpa using hcalls,?_⟩
    intro op' hop'
    rw [List.map_append, List.mem_append]
    rcases List.mem_append.mp hop' with hop' | hop'
    · exact Or.inl (hpast op' hop')
    · exact Or.inr hop'

/-- The call a thread waits at is one of its request's. -/
theorem OnTrack.mem_calls {log : List (Entry Op Req)} {t : Thread Op Ret Req Resp S} {op : Op}
    {next : Ret op → Program Op Ret Resp} (h : OnTrack reply serve allowed log t)
    (hp : t.program = .call op next) : op ∈ (serve t.request).calls reply := by
  obtain ⟨past,hcalls,_⟩ := h.calls
  rw [hcalls, hp, Program.calls_call]
  exact List.mem_append_right _ List.mem_cons_self

namespace Accounted
variable {c : Config Op Ret Req Resp S} (h : Accounted reply serve I allowed c)
include h

theorem started {r : Req} (hr : (serve r).Uses allowed) :
    Accounted reply serve I allowed (c.started serve r) where
  state := h.state
  logged := h.logged
  threads := by
    intro t ht
    rcases List.mem_append.mp ht with ht | ht
    · exact h.threads t ht
    · rw [List.mem_singleton.mp ht]
      exact ⟨hr,rfl,[],rfl,by simp⟩
  calls := by
    have hcalls := h.calls
    simp only [Config.requests] at hcalls
    simp only [Config.started, Config.requests, List.map_append, List.flatMap_append, ← List.append_assoc]
    simpa using hcalls.append_right _

include hfixed in
theorem called {i : ℕ} {t : Thread Op Ret Req Resp S} {op : Op} {next : Ret op → Program Op Ret Resp}
    (ht : c.threads[i]? = some t) (hp : t.program = .call op next) :
    Accounted reply serve I allowed (c.called handle i t op next) := by
  have hthread := h.threads t (List.mem_of_getElem? ht)
  have huses := hthread.uses
  rw [hp] at huses
  obtain ⟨hreply,hstate⟩ := hfixed op c.world.state huses.1 h.state
  refine ⟨hstate,?_,?_,?_⟩
  · intro op' hop'
    simp only [Config.called, World.record_log, List.map_append, List.mem_append] at hop'
    rcases hop' with hop' | hop'
    · exact h.logged op' hop'
    · obtain rfl : op' = op := by simpa using hop'
      exact huses.1
  · intro t' ht'
    simp only [Config.called, hreply] at ht'
    rcases List.mem_or_eq_of_mem_set ht' with ht' | rfl
    · exact (h.threads t' ht').later (List.prefix_append _ _)
    · exact hthread.called hp i
  · rw [Config.requests_called handle c ht]
    apply List.Perm.trans ?_ h.calls
    obtain ⟨hlt,hget⟩ := List.getElem?_eq_some_iff.mp ht
    obtain ⟨l₁,l₂,hsplit,_,hset⟩ := @List.exists_of_set _ i { t with program := next (reply op) } _ hlt
    simp only [Config.called, hreply, World.record_log, List.map_append, hset]
    rw [hget] at hsplit
    -- the executed call moves from the thread to the end of the log
    simp only [hsplit, List.flatMap_append, List.flatMap_cons, hp, Program.calls_call, List.map_cons,
      List.map_nil, List.append_assoc, List.cons_append, List.nil_append]
    exact (List.perm_middle.symm).append_left _

/-- A request that has returned gave its value, and all its calls are logged. -/
theorem returned {i : ℕ} {r : Req} {a : Resp} (hr : c.Returned i r a) :
    a = (serve r).value reply ∧ ∀ op ∈ (serve r).calls reply, op ∈ c.world.log.map Entry.op := by
  obtain ⟨t,ht,rfl,hp⟩ := hr
  have hthread := h.threads t (List.mem_of_getElem? ht)
  have hvalue := hthread.value
  obtain ⟨past,hcalls,hpast⟩ := hthread.calls
  rw [hp, Program.value_done] at hvalue
  rw [hp, Program.calls_done, List.append_nil] at hcalls
  rw [hcalls]
  exact ⟨hvalue,hpast⟩

/-- In the end the log has the calls of the requests. -/
theorem complete (hc : c.Complete) :
    (c.world.log.map Entry.op).Perm (c.requests.flatMap (fun r => (serve r).calls reply)) := by
  have hnone : c.threads.flatMap (fun t => t.program.calls reply) = [] := by
    rw [List.flatMap_eq_nil_iff]
    intro t ht
    obtain ⟨a,ha⟩ := hc t ht
    rw [ha, Program.calls_done]
  have hcalls := h.calls
  rwa [hnone, List.append_nil] at hcalls

end Accounted

/-- Two complete runs of the same requests have logged the same calls, in some order. -/
theorem Accounted.perm {c c' : Config Op Ret Req Resp S} (h : Accounted reply serve I allowed c)
    (h' : Accounted reply serve I allowed c') (hc : c.Complete) (hc' : c'.Complete)
    (hperm : c'.requests.Perm c.requests) :
    (c'.world.log.map Entry.op).Perm (c.world.log.map Entry.op) :=
  (h'.complete hc').trans ((hperm.flatMap_right _).trans (h.complete hc).symm)

variable {good : Req → Prop} (hserve : ∀ r, good r → (serve r).Uses allowed)
include hfixed hserve

/-- In every run of such programs the calls are accounted for. -/
theorem Config.accounted_run {s : S} (hs : I s) (schedule : List (Action Req))
    (hgood : ∀ r ∈ startedBy schedule, good r) :
    Accounted reply serve I allowed ((initial s : Config Op Ret Req Resp S).run handle serve schedule) := by
  rw [← requests_initial_run handle serve s schedule] at hgood
  revert hgood
  apply Config.run_inv handle serve (fun c : Config Op Ret Req Resp S =>
    (∀ r ∈ c.requests, good r) → Accounted reply serve I allowed c)
  · intro c r h hgood
    have hmem : ∀ r' ∈ c.requests ++ [r], good r' := by simpa [Config.started, Config.requests] using hgood
    have hr := hserve r (hmem r (by simp))
    exact (h (fun r' hr' => hmem r' (List.mem_append_left _ hr'))).started hr
  · intro c i t op next h ht hp hgood
    rw [Config.requests_called handle c ht] at hgood
    exact (h hgood).called hfixed ht hp
  · intro _
    exact ⟨hs,by simp [initial],by simp [initial],by simp [initial, Config.requests]⟩

end Runs
end ReapiCache.Interaction
