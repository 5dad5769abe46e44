import ReapiCache.Server.Integrity
import ReapiCache.Interaction.RelyGuarantee

/-! # What one request may rely on

Between two calls of a request the others only extend the log. Presence under a key
survives that without any assumption. The content behind a content key survives it
when no two blobs of the run collide: every later put to the key stores, perhaps in
another encoding, a content of the same hash.
-/
namespace ReapiCache
open Interaction ActionCacheService
variable {env : Externals}

/-- The store holds `d` under the key. -/
def InMemoryStore.Held (env : Externals) (store : InMemoryStore) (key : BlobKey) (d : Bytes) : Prop :=
  ∃ b, store.blobs key = some b ∧ Holds env b.metadata b.data d

theorem InMemoryStore.Held.present {store : InMemoryStore} {key : BlobKey} {d : Bytes}
    (h : store.Held env key d) : store.Present key := by
  obtain ⟨b,hb,_⟩ := h
  exact ⟨b,hb⟩

theorem InMemoryStore.Held.unique {store : InMemoryStore} {key : BlobKey} {d d' : Bytes}
    (h : store.Held env key d) (h' : store.Held env key d') : d = d' := by
  obtain ⟨b,hb,hd⟩ := h
  obtain ⟨b',hb',hd'⟩ := h'
  obtain rfl := Option.some.inj (hb.symm.trans hb')
  exact hd.unique hd'

/-- The contents stored under content keys in the course of a run. -/
def casContents (env : Externals) (log : List (StoreEntry Request)) : Set Bytes :=
  {d | ∃ e ∈ log, ∃ key metadata body, e.op = .put key metadata body ∧
    key.kind = .contentAddressableStorage ∧ Holds env metadata body.cursor d}

/-- No two blobs of the run have one hash. -/
def CollisionFree (env : Externals) (log : List (StoreEntry Request)) : Prop :=
  Set.InjOn (DigestAlgorithm.sha256.hashBytes env) (casContents env log)

/-- What is assumed of the external code along a run with this log. -/
structure Lawful (env : Externals) (log : List (StoreEntry Request)) : Prop where
  zstd : env.ZstdRoundTrip
  empty : env.HashesEmpty
  permitted : ∀ e ∈ log, Permitted env e.request e.op
  collisionFree : CollisionFree env log

theorem mem_casContents {log : List (StoreEntry Request)} {key : BlobKey} {d : Bytes}
    (hkind : key.kind = .contentAddressableStorage) (h : (stored log).Held env key d) :
    d ∈ casContents env log := by
  obtain ⟨b,hb,hd⟩ := h
  obtain ⟨e,he,_,hop⟩ := mem_of_stored hb
  exact ⟨e,he,key,b.metadata,⟨b.data⟩,hop,hkind,hd⟩

theorem casContents_mono {log log' : List (StoreEntry Request)} (h : log <+: log') :
    casContents env log ⊆ casContents env log' := by
  rintro d ⟨e,he,hd⟩
  exact ⟨e,h.subset he,hd⟩

namespace Reference

/-- The blobs whose true hashes the concrete instance knows. -/
def blobs : List Bytes := [[],commandBlob,actionBlob,treeBlob]

/-- A put to a content key stores one of them. -/
def knownPut : StoreCall → Bool
  | .put key metadata body => key.kind = .actionCache ∨ ∃ d ∈ blobs,
      metadata.encoding = .zstd ∧ body.cursor = frameHeader d ++ d ∨
      metadata.encoding = .identity ∧ body.cursor = d
  | _ => true

theorem hash_injOn : Set.InjOn (DigestAlgorithm.sha256.hashBytes externals) {d | d ∈ blobs} := by
  have hne : ([EMPTY_SHA256,commandHash,actionHash,treeHash] : List String).Nodup := by decide
  have hmap : blobs.map (DigestAlgorithm.sha256.hashBytes externals) =
      [EMPTY_SHA256,commandHash,actionHash,treeHash] := by
    simp only [blobs, List.map_cons, List.map_nil, hashBytes_empty, hashBytes_command, hashBytes_action,
      hashBytes_tree]
  rw [← hmap] at hne
  exact fun _ hd _ hd' h => List.inj_on_of_nodup_map hne hd hd' h

theorem casContents_known {log : List (StoreEntry Request)} (h : log.all (fun e => knownPut e.op) = true) :
    casContents externals log ⊆ {d | d ∈ blobs} := by
  rintro d ⟨e,he,key,metadata,body,hop,hkind,hd⟩
  have hk := List.all_eq_true.mp h e he
  rw [hop] at hk
  simp only [knownPut, hkind, reduceCtorEq, false_or, decide_eq_true_eq] at hk
  obtain ⟨d',hm,⟨hz,hb⟩ | ⟨hi,hb⟩⟩ := hk
  · have hdec := hd.decodes
    rw [hz, hb] at hdec
    rw [hdec.unique (decompresses d')]
    exact hm
  · have hdec := hd.decodes
    rw [hi, hb] at hdec
    obtain rfl : d' = d := hdec
    exact hm

theorem collisionFree {log : List (StoreEntry Request)}
    (h : log.all (fun e => knownPut e.op) = true) : CollisionFree externals log :=
  hash_injOn.mono (casContents_known h)

end Reference

namespace Lawful
variable {L log log' : List (StoreEntry Request)}

theorem integrity (hL : Lawful env L) (hl : log <+: L) : CasIntegrity env (stored log) :=
  stored_integrity hL.zstd hL.empty (fun e he => hL.permitted e (hl.subset he))

/-- A present content key holds a content of its hash. -/
theorem held_of_present (hL : Lawful env L) (hl : log <+: L) {key : BlobKey}
    (hkind : key.kind = .contentAddressableStorage) (h : (stored log).Present key) :
    ∃ d, (stored log).Held env key d ∧ key.algorithm.hashBytes env d = key.hash := by
  obtain ⟨b,hb⟩ := h
  obtain ⟨d,hd,hh⟩ := hL.integrity hl key b hkind hb
  exact ⟨d,⟨b,hb,hd⟩,hh⟩

/-- Two contents held under one content key, at any two moments, are equal. -/
theorem held_eq (hL : Lawful env L) (hl : log <+: L) (hl' : log' <+: L) {key : BlobKey}
    (hkind : key.kind = .contentAddressableStorage) {d d' : Bytes} (h : (stored log).Held env key d)
    (h' : (stored log').Held env key d') : d = d' := by
  obtain ⟨c,hc,hh⟩ := hL.held_of_present hl hkind h.present
  obtain ⟨c',hc',hh'⟩ := hL.held_of_present hl' hkind h'.present
  obtain rfl := h.unique hc
  obtain rfl := h'.unique hc'
  cases ha : key.algorithm
  rw [ha] at hh hh'
  exact hL.collisionFree (casContents_mono hl (mem_casContents hkind h))
    (casContents_mono hl' (mem_casContents hkind h')) (hh.trans hh'.symm)

/-- What is present under the hash of a known blob is that blob. -/
theorem held_own (hL : Lawful env L) (hl : log <+: L) {own : Set Bytes}
    (hown : Set.InjOn (DigestAlgorithm.sha256.hashBytes env) (casContents env L ∪ own)) {d : Bytes} (hd : d ∈ own)
    {instanceName hash : String} (hhash : DigestAlgorithm.sha256.hashBytes env d = hash)
    (h : (stored log).Present ⟨instanceName,.sha256,hash,.contentAddressableStorage⟩) :
    (stored log).Held env ⟨instanceName,.sha256,hash,.contentAddressableStorage⟩ d := by
  obtain ⟨d',hheld,hsame⟩ := hL.held_of_present hl rfl h
  have hmem : d' ∈ casContents env L := casContents_mono hl (mem_casContents rfl hheld)
  obtain rfl : d' = d := hown (Or.inl hmem) (Or.inr hd) (hsame.trans hhash.symm)
  exact hheld

/-- The content behind a content key never changes. -/
theorem held_later (hL : Lawful env L) (hl : log <+: log') (hl' : log' <+: L) {key : BlobKey}
    (hkind : key.kind = .contentAddressableStorage) {d : Bytes} (h : (stored log).Held env key d) :
    (stored log').Held env key d := by
  obtain ⟨d',hd',_⟩ := hL.held_of_present hl' hkind (h.present.later hl)
  obtain rfl := hL.held_eq (hl.trans hl') hl' hkind h hd'
  exact hd'

end Lawful

/-- The log is the history's, the state is its replay, and no call that puts nothing needs
a guarantee. -/
structure Replaying (P : Protocol InMemoryStore.handle Request) : Prop where
  history : ∀ w, P.inv w → w.log <+: P.history
  state : ∀ w, P.inv w → w.state = stored w.log
  looks : ∀ me req op w, P.inv w → (∀ key metadata body, op ≠ .put key metadata body) → P.guar ⟨me,req,op⟩ w

namespace Replaying
variable {P : Protocol InMemoryStore.handle Request} (hP : Replaying P) {w : ServerWorld}
include hP

theorem poisoned (hw : P.inv w) : w.state.poisoned = false := by
  rw [hP.state w hw]
  exact stored_poisoned w.log

theorem present_stable (key : BlobKey) : P.Stable (fun w => w.state.Present key) := by
  intro w w' hw hw' hl h
  rw [hP.state w hw] at h
  rw [hP.state w' hw']
  exact h.later hl

end Replaying

/-- Nor does any other call that is not a put to the action cache. -/
structure Orderly (P : Protocol InMemoryStore.handle Request) : Prop extends Replaying P where
  free : ∀ me req op w, P.inv w →
    (∀ key metadata body, op = .put key metadata body → key.kind = .contentAddressableStorage) →
      P.guar ⟨me,req,op⟩ w

namespace Orderly
variable {P : Protocol InMemoryStore.handle Request} (hP : Orderly P) {w : ServerWorld}
include hP

theorem held_stable (hL : Lawful env P.history) {key : BlobKey}
    (hkind : key.kind = .contentAddressableStorage) (d : Bytes) :
    P.Stable (fun w => w.state.Held env key d) := by
  intro w w' hw hw' hl h
  rw [hP.state w hw] at h
  rw [hP.state w' hw']
  exact hL.held_later hl (hP.history w' hw') hkind h

/-- An entry under a content key holds a content of its hash. -/
theorem holds_of_entry (hL : Lawful env P.history) {key : BlobKey}
    (hkind : key.kind = .contentAddressableStorage) (hw : P.inv w) {b : StoredBlob}
    (hb : w.state.blobs key = some b) :
    ∃ d, Holds env b.metadata b.data d ∧ key.algorithm.hashBytes env d = key.hash := by
  rw [hP.state w hw] at hb
  exact hL.integrity (hP.history w hw) key b hkind hb

end Orderly

section Calls
variable {P : Protocol InMemoryStore.handle Request} (hP : Replaying P) {me : ℕ} {req : Request}
  {w : ServerWorld} {ε : Type} {f : StorageError → ε} {E : ε → Prop} {key : BlobKey}
include hP

/-- A reply of `contains` speaks of the later states when positive, of the earlier
ones when negative. -/
theorem ensures_storeContains (hw : P.inv w) : P.Ensures me req (storeContains f key) w
    (fun present w' => (present = true → w'.state.Present key) ∧
      (present = false → ¬ w.state.Present key)) E := by
  apply Protocol.ensures_attempt
  · intro w' hw' _
    exact hP.looks me req _ w' hw' (by rintro _ _ _ ⟨⟩)
  · intro present a b ha hb hab h
    exact ⟨fun hp => hP.present_stable key a b ha hb hab (h.1 hp),h.2⟩
  · intro w' hw' hl _
    simp only [InMemoryStore.handle_contains, InMemoryStore.contains_eq (hP.poisoned hw'), mapError_ok,
      Protocol.Outcome, World.record_state, InMemoryStore.Present]
    cases hb : w'.state.blobs key with
    | some b => simp
    | none =>
      refine ⟨by simp,fun _ hp => ?_⟩
      obtain ⟨b,hb'⟩ := hP.present_stable key w w' hw hw' hl hp
      rw [hb] at hb'
      cases hb'

/-- A reply of `get` is the entry at one moment between the start and the return, just
before the call itself is logged. -/
theorem ensures_storeGet : P.Ensures me req (storeGet f key) w
    (fun blob w' => ∃ wr, P.inv wr ∧ w.log <+: wr.log ∧ wr.log ++ [⟨me,req,.get key⟩] <+: w'.log ∧
      blob = (wr.state.blobs key).map (fun b => ⟨b.metadata,⟨b.data⟩⟩)) E := by
  apply Protocol.ensures_attempt
  · intro w' hw' _
    exact hP.looks me req _ w' hw' (by rintro _ _ _ ⟨⟩)
  · rintro blob a b _ _ hab ⟨wr,hr,hl,hl',hb⟩
    exact ⟨wr,hr,hl,hl'.trans hab,hb⟩
  · intro w' hw' hl _
    simp only [InMemoryStore.handle_get, InMemoryStore.get_eq (hP.poisoned hw'), mapError_ok,
      Protocol.Outcome]
    exact ⟨w',hw',hl,List.prefix_refl _,rfl⟩

/-- A put is in the log from its moment on. -/
theorem ensures_storePut {metadata : StoredBlobMetadata} {body : BlobReader}
    (hg : ∀ w', P.inv w' → w.log <+: w'.log → P.guar ⟨me,req,.put key metadata body⟩ w') :
    P.Ensures me req (storePut f key metadata body) w
      (fun _ w' => (⟨me,req,.put key metadata body⟩ : StoreEntry Request) ∈ w'.log) E := by
  apply Protocol.ensures_attempt hg
  · intro _ a b _ _ hab h
    exact hab.subset h
  · intro w' hw' _ _
    simp only [InMemoryStore.handle_put, InMemoryStore.put_eq (hP.poisoned hw'), mapError_ok,
      Protocol.Outcome, World.record_log]
    exact List.mem_append_right _ (List.mem_singleton_self _)

end Calls

/-- Nothing is maintained beyond the replay of the log. -/
def plain (L : List (StoreEntry Request)) : Protocol InMemoryStore.handle Request where
  history := L
  inv w := w.log <+: L ∧ w.state = stored w.log
  guar _ _ := True
  keeps := by
    rintro w e ⟨_,hs⟩ _ hl
    exact ⟨hl,by rw [World.record_state, World.record_log, stored, replay_concat, hs]⟩

theorem plain_orderly (L : List (StoreEntry Request)) : Orderly (plain L) where
  history := fun _ hw => hw.1
  state := fun _ hw => hw.2
  looks := fun _ _ _ _ _ _ => trivial
  free := fun _ _ _ _ _ _ => trivial

/-- The run that starts a request in `c` and goes on under a schedule. -/
def serverAfter (env : Externals) (c : ServerConfig) (req : Request)
    (schedule : List (Interaction.Action Request)) : ServerConfig :=
  serverRun env (c.step InMemoryStore.handle (serve env) (.start req)) schedule

/-- Started in `c`, the request is answered as `Q` says, in the world of the answer and
in every later one of the schedule. However far the run has gone, some more steps of
the request itself bring the answer. -/
def Answers (env : Externals) (c : ServerConfig) (req : Request)
    (schedule : List (Interaction.Action Request)) (Q : Response → ServerWorld → Prop) : Prop :=
  (∀ resp, (serverAfter env c req schedule).Returned c.threads.length req resp →
    Q resp (serverAfter env c req schedule).world) ∧
  ∃ k resp, (serverRun env (serverAfter env c req schedule)
    (List.replicate k (.advance c.threads.length))).Returned c.threads.length req resp

theorem serverAfter_serverFrom (before after : List (Interaction.Action Request)) (req : Request) :
    serverAfter env (serverFrom env before) req after = serverFrom env (before ++ .start req :: after) :=
  (Config.run_append InMemoryStore.handle (serve env) _ before (.start req :: after)).symm

theorem log_serverAfter (c : ServerConfig) (req : Request) (schedule : List (Interaction.Action Request)) :
    c.world.log <+: (serverAfter env c req schedule).world.log :=
  Config.log_run InMemoryStore.handle (serve env) (c.step InMemoryStore.handle (serve env) (.start req)) schedule

theorem returned_of_answer {schedule : List (Interaction.Action Request)} {i : ℕ} {req : Request}
    {resp : Response} (hreq : (startedBy schedule)[i]? = some req)
    (h : (serverFrom env schedule).answer i = some resp) : (serverFrom env schedule).Returned i req resp := by
  apply Config.returned_of_answer ?_ h
  have hrequests := Config.requests_initial_run InMemoryStore.handle (serve env) InMemoryStore.new schedule
  rw [serverFrom, serverRun, hrequests, hreq]

/-- Every call of a run is on behalf of a request that the run started. -/
theorem startedBy_caller {schedule : List (Interaction.Action Request)} {e : StoreEntry Request}
    (he : e ∈ (serverFrom env schedule).world.log) : (startedBy schedule)[e.caller]? = some e.request := by
  obtain ⟨t,ht,hrequest⟩ := Config.log_caller InMemoryStore.handle (serve env) InMemoryStore.new schedule e he
  rw [← Config.requests_initial_run InMemoryStore.handle (serve env) InMemoryStore.new schedule, Config.requests,
    List.getElem?_map, ht, Option.map_some, hrequest]

theorem submitted_of_log (schedule : List (Interaction.Action Request)) :
    submitted ((serverFrom env schedule).world.log.map Entry.request) ⊆ submitted (startedBy schedule) := by
  apply submitted_mono
  intro r hr
  obtain ⟨e,he,rfl⟩ := List.mem_map.mp hr
  exact List.mem_of_getElem? (startedBy_caller he)

theorem roundTrip_before {before after : List (Interaction.Action Request)}
    (hp : env.ProstRoundTrip (submitted (startedBy (before ++ after)))) :
    env.ProstRoundTrip (submitted (startedBy before)) := by
  rw [startedBy_append] at hp
  exact hp.mono (submitted_mono (List.subset_append_left _ _))

theorem roundTrip_logged {before after : List (Interaction.Action Request)} {req : Request}
    (hp : env.ProstRoundTrip (submitted (startedBy (before ++ .start req :: after)))) :
    env.ProstRoundTrip
      (submitted ((serverAfter env (serverFrom env before) req after).world.log.map Entry.request)) := by
  rw [serverAfter_serverFrom]
  exact hp.mono (submitted_of_log _)

/-- The calls of one caller are on behalf of one request. -/
theorem request_of_caller {schedule : List (Interaction.Action Request)} {e e' : StoreEntry Request}
    (he : e ∈ (serverFrom env schedule).world.log) (he' : e' ∈ (serverFrom env schedule).world.log)
    (h : e.caller = e'.caller) : e.request = e'.request := by
  have hstarted := startedBy_caller he
  rw [h, startedBy_caller he'] at hstarted
  exact (Option.some.inj hstarted).symm

theorem Answers.imp {c : ServerConfig} {req : Request} {schedule : List (Interaction.Action Request)}
    {Q R : Response → ServerWorld → Prop} (h : Answers env c req schedule Q)
    (hQ : ∀ resp w, Q resp w → R resp w) : Answers env c req schedule R :=
  ⟨fun resp hresp => hQ resp _ (h.1 resp hresp),h.2⟩

/-- It is enough to know what the request answers once it has returned. -/
theorem answers_of_returned {c : ServerConfig} {req : Request} {schedule : List (Interaction.Action Request)}
    {Q : Response → ServerWorld → Prop} (h : ∀ t resp, (serverAfter env c req schedule).threads[c.threads.length]? =
      some t → t.request = req → t.start = c.world → t.program = .done resp →
        Q resp (serverAfter env c req schedule).world) : Answers env c req schedule Q := by
  obtain ⟨t,ht,hr,hs⟩ := Config.start_run InMemoryStore.handle (serve env) c req schedule
  constructor
  · rintro resp ⟨t',ht',_,hdone⟩
    obtain rfl := Option.some.inj (ht.symm.trans ht')
    exact h t resp ht hr hs hdone
  · have hreturned := Config.exists_returned InMemoryStore.handle (serve env) _ ht
    rw [hr] at hreturned
    exact hreturned

section Handlers
variable {P : Protocol InMemoryStore.handle Request} (hinit : P.inv ⟨InMemoryStore.new,[]⟩)
  (hserve : ∀ i r w, P.inv w → P.Meets i r (serve env r) w (fun _ _ => True))
  {α : Type} {p : Handler Status α} {f : Except Status α → Response} {req : Request}
  (hreq : serve env req = f <$> p.run) {Q : α → ServerWorld → Prop} {E : Status → Prop}
include hinit hserve hreq

/-- A request is answered as its handler was shown to under a protocol of the run, when
it was shown not to fail. -/
theorem answers_of_ensures {before after : List (Interaction.Action Request)}
    (hhistory : P.history = (serverAfter env (serverFrom env before) req after).world.log)
    (hQ : P.inv (serverFrom env before).world → P.Ensures (serverFrom env before).threads.length req p
      (serverFrom env before).world Q (fun _ => False)) :
    Answers env (serverFrom env before) req after (fun resp w => ∃ a, resp = f (.ok a) ∧ Q a w) := by
  obtain ⟨t,ht,hr,hs⟩ := Config.start_run InMemoryStore.handle (serve env) (serverFrom env before) req after
  change (serverAfter env (serverFrom env before) req after).threads[_]? = some t at ht
  constructor
  · intro resp hresp
    rw [serverAfter_serverFrom] at ht hresp hhistory ⊢
    have hmeets : P.inv t.start → P.Meets (serverFrom env before).threads.length req (serve env req) t.start
        (fun resp w => ∃ out, resp = f out ∧ Protocol.Outcome Q (fun _ => False) out w) := by
      rw [hs, hreq]
      exact fun hw => (hQ hw).meets_map f
    have hlog : (serverFrom env (before ++ .start req :: after)).world.log <+: P.history := by
      rw [hhistory]
    obtain ⟨out,hresp,hout⟩ := Config.returned_meets hinit hserve _ hlog ht hresp hmeets
    cases out with
    | error s => exact hout.elim
    | ok a => exact ⟨a,hresp,hout⟩
  · have h := Config.exists_returned InMemoryStore.handle (serve env) _ ht
    rw [hr] at h
    exact h

/-- What the outcome of any request of a run establishes, if its handler was shown to. -/
theorem outcome_of_ensures (hf : Function.Injective f) {schedule : List (Interaction.Action Request)} {i : ℕ}
    {out : Except Status α} (h : (serverFrom env schedule).Returned i req (f out))
    (hhistory : P.history = (serverFrom env schedule).world.log)
    (hQ : ∀ w, P.inv w → P.Ensures i req p w Q E) :
    Protocol.Outcome Q E out (serverFrom env schedule).world := by
  have ⟨t,ht,_⟩ := h
  have hmeets : P.inv t.start → P.Meets i req (serve env req) t.start
      (fun resp w => ∃ out, resp = f out ∧ Protocol.Outcome Q E out w) := by
    rw [hreq]
    exact fun hw => (hQ _ hw).meets_map f
  have hlog : (serverFrom env schedule).world.log <+: P.history := by rw [hhistory]
  obtain ⟨out',hsame,hout⟩ := Config.returned_meets hinit hserve schedule hlog ht h hmeets
  obtain rfl := hf hsame
  exact hout

end Handlers

/-- Under the plain protocol every request meets the trivial postcondition. -/
theorem plain_serve (L : List (StoreEntry Request)) (i : ℕ) (r : Request) (w : ServerWorld) :
    (plain L).Meets i r (serve env r) w (fun _ _ => True) :=
  Protocol.meets_of_uses ((serve_uses r).mono (fun _ _ _ _ => trivial)) w

section Plain
variable {α : Type} {p : Handler Status α} {f : Except Status α → Response} {req : Request}
  (hreq : serve env req = f <$> p.run) {Q : α → ServerWorld → Prop} {E : Status → Prop}
include hreq

theorem answers_of_plain {before after : List (Interaction.Action Request)}
    (hQ : (plain (serverAfter env (serverFrom env before) req after).world.log).inv (serverFrom env before).world →
      (plain (serverAfter env (serverFrom env before) req after).world.log).Ensures
        (serverFrom env before).threads.length req p (serverFrom env before).world Q (fun _ => False)) :
    Answers env (serverFrom env before) req after (fun resp w => ∃ a, resp = f (.ok a) ∧ Q a w) :=
  answers_of_ensures (P := plain _) ⟨List.nil_prefix,rfl⟩ (fun i r w _ => plain_serve _ i r w) hreq rfl hQ

theorem outcome_of_plain (hf : Function.Injective f) {schedule : List (Interaction.Action Request)} {i : ℕ}
    {out : Except Status α} (h : (serverFrom env schedule).Returned i req (f out))
    (hQ : ∀ w, (plain (serverFrom env schedule).world.log).inv w →
      (plain (serverFrom env schedule).world.log).Ensures i req p w Q E) :
    Protocol.Outcome Q E out (serverFrom env schedule).world :=
  outcome_of_ensures (P := plain _) ⟨List.nil_prefix,rfl⟩ (fun i r w _ => plain_serve _ i r w) hreq hf h rfl hQ

end Plain
end ReapiCache
