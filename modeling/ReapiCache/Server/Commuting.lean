import ReapiCache.Interaction.Commuting
import ReapiCache.Server.UploadPaths

/-! # Uploads commute

An upload decides what to put before it looks at the store, and the store's reply does
not depend on what is stored. Two puts to one key put the same blob: both store the one
form of a content of that hash. So the order of the puts of any uploads is irrelevant,
and to put again what has been put changes nothing.
-/
namespace ReapiCache
open Interaction
variable {env : Externals}

/-- The request uploads blobs, on either path. -/
inductive Request.IsUpload : Request → Prop
  | batch (r : BatchUpdateBlobsRequest) : IsUpload (.batchUpdateBlobs r)
  | stream (s : WriteStream) : IsUpload (.write s)

/-- A put of a verified upload, whoever uploads it. -/
def UploadPut (env : Externals) (op : StoreCall) : Prop := ∃ req, UploadCall env req op

theorem Request.IsUpload.uses {req : Request} (h : req.IsUpload) : (serve env req).Uses (UploadPut env) := by
  cases h with
  | batch r => exact Program.Uses.map _ ((batchUpdateBlobs_uploads r).mono (fun _ h => ⟨_,h⟩))
  | stream s => exact Program.Uses.map _ ((write_uploads s).mono (fun _ h => ⟨_,h⟩))

namespace InMemoryStore
variable {store : InMemoryStore}

/-- The reply of every store whose lock is in this state, to a call that does not ask for an entry. -/
def putReply (poisoned : Bool) (op : StoreCall) : op.Ret := (handle op ⟨fun _ => none,poisoned⟩).1

theorem fixedReplies (poisoned : Bool) :
    FixedReplies handle (fun store => store.poisoned = poisoned) (UploadPut env) (putReply poisoned) := by
  rintro op store ⟨req,hop⟩ hstore
  refine ⟨?_,(handle_poisoned op store).trans hstore⟩
  cases hop with
  | put key blob =>
    change (store.put key blob.metadata blob.body).1 = (put ⟨fun _ => none,poisoned⟩ key blob.metadata blob.body).1
    cases poisoned <;> simp [put, hstore]

/-- Behind a poisoned lock nothing changes. -/
theorem handle_of_poisoned (h : store.poisoned = true) (op : StoreCall) : (handle op store).2 = store := by
  cases op with
  | get key => rfl
  | contains key => rfl
  | put key metadata body => simp [put, h]

theorem set_eq_self {key : BlobKey} {b : StoredBlob} (h : store.blobs key = some b) :
    store.set key b = store := by
  rw [set, ← h, Function.update_eq_self]

theorem set_comm {key key' : BlobKey} (h : key ≠ key') (b b' : StoredBlob) :
    (store.set key b).set key' b' = (store.set key' b').set key b := by
  simp only [set, Function.update_comm h]

end InMemoryStore

/-- In a run without collisions a key determines the put to it. -/
theorem UploadPut.eq_of_key (hz : env.ZstdRoundTrip) {log : List (StoreEntry Request)}
    (hc : CollisionFree env log) {op op' : StoreCall} (hop : op ∈ log.map Entry.op)
    (hop' : op' ∈ log.map Entry.op) (h : UploadPut env op) (h' : UploadPut env op') (hkey : op.key = op'.key) :
    op = op' := by
  obtain ⟨req,h⟩ := h
  obtain ⟨req',h'⟩ := h'
  obtain ⟨e,he,heop⟩ := List.mem_map.mp hop
  obtain ⟨e',he',heop'⟩ := List.mem_map.mp hop'
  cases h with
  | put key blob d _ kind hash encoded =>
    cases h' with
    | put key' blob' d' _ kind' hash' encoded' =>
      obtain rfl : key = key' := hkey
      have hd : d ∈ casContents env log :=
        ⟨e,he,_,_,_,heop,kind,(fromIdentityData_holds hz encoded).1⟩
      have hd' : d' ∈ casContents env log :=
        ⟨e',he',_,_,_,heop',kind,(fromIdentityData_holds hz encoded').1⟩
      have hsame := hash.trans hash'.symm
      cases halgorithm : key.algorithm
      rw [halgorithm] at hsame
      obtain rfl := hc hd hd' hsame
      obtain rfl := Except.ok.inj (encoded.symm.trans encoded')
      rfl

/-- Puts commute, unless they put different blobs under one key. -/
theorem UploadPut.commute {op op' : StoreCall} (h : UploadPut env op) (h' : UploadPut env op')
    (hsame : op.key = op'.key → op = op') : Commute InMemoryStore.handle op op' := by
  obtain ⟨req,h⟩ := h
  obtain ⟨req',h'⟩ := h'
  intro store
  cases hstore : store.poisoned with
  | true =>
    rw [InMemoryStore.handle_of_poisoned hstore, InMemoryStore.handle_of_poisoned hstore,
      InMemoryStore.handle_of_poisoned hstore]
  | false =>
    by_cases hkey : op.key = op'.key
    · rw [hsame hkey]
    · cases h with
      | put key blob =>
        cases h' with
        | put key' blob' =>
          have hne : key ≠ key' := hkey
          simp only [InMemoryStore.handle_put, InMemoryStore.put_eq, InMemoryStore.set_poisoned, hstore]
          exact InMemoryStore.set_comm hne _ _

section Replay
variable {store : InMemoryStore} {log : List (StoreEntry Request)} (hz : env.ZstdRoundTrip)
  (hlog : ∀ op ∈ log.map Entry.op, UploadPut env op)
  (hc : store.poisoned = false → CollisionFree env log)
include hz hlog hc

/-- Uploads in another order leave the same store. -/
theorem replay_uploads_perm {log' : List (StoreEntry Request)}
    (hperm : (log'.map Entry.op).Perm (log.map Entry.op)) :
    replay InMemoryStore.handle store log' = replay InMemoryStore.handle store log := by
  rw [replay_eq_perform, replay_eq_perform]
  cases hstore : store.poisoned with
  | true =>
    have hkept := InMemoryStore.handle_of_poisoned hstore
    rw [perform_absorbed (fun op _ => hkept op), perform_absorbed (fun op _ => hkept op)]
  | false =>
    apply perform_perm hperm
    intro op hop op' hop'
    have hmem := hperm.subset hop
    have hmem' := hperm.subset hop'
    exact (hlog op hmem).commute (hlog op' hmem')
      ((hlog op hmem).eq_of_key hz (hc hstore) hmem hmem' (hlog op' hmem'))

/-- What has been put is put again without any effect. -/
theorem replay_uploads_absorb {op : StoreCall} (hop : op ∈ log.map Entry.op) :
    (InMemoryStore.handle op (replay InMemoryStore.handle store log)).2 =
      replay InMemoryStore.handle store log := by
  have hpoisoned : (replay InMemoryStore.handle store log).poisoned = store.poisoned :=
    replay_inv (fun s : InMemoryStore => s.poisoned = store.poisoned)
      (fun op s h => by rw [InMemoryStore.handle_poisoned, h]) rfl log
  cases hstore : store.poisoned with
  | true => exact InMemoryStore.handle_of_poisoned (hpoisoned.trans hstore) op
  | false =>
    obtain ⟨e,he,rfl⟩ := List.mem_map.mp hop
    obtain ⟨req,hput⟩ := hlog e.op hop
    generalize hgen : e.op = op at hput hop
    cases hput with
    | put key blob d =>
      have hwrites : e.op.putTo key = some ⟨blob.body.cursor,blob.metadata⟩ :=
        StoreCall.putTo_eq_some.mpr hgen
      obtain ⟨last,hlast⟩ := exists_lastWrite he hwrites
      obtain ⟨hmem,b,hb⟩ := lastWrite_spec hlast
      have hop' := StoreCall.putTo_eq_some.mp hb
      have hmem' : last.op ∈ log.map Entry.op := List.mem_map_of_mem hmem
      -- the last put to the key is the same put
      have hsame := (hlog last.op hmem').eq_of_key hz (hc hstore) hmem' hop (hlog _ hop)
        (by rw [hop']; rfl)
      have hentry : (replay InMemoryStore.handle store log).blobs key =
          some ⟨blob.body.cursor,blob.metadata⟩ := by
        rw [lookup_replay (StoreCall.putTo key) (fun s : InMemoryStore => s.blobs key)
          (fun s : InMemoryStore => s.poisoned = false) (fun op s h => by rw [InMemoryStore.handle_poisoned, h])
          (fun op s h => InMemoryStore.handle_blobs op h key) hstore log, hlast, Option.bind_some, hsame,
          ← hgen, hwrites, Option.some_or]
      rw [InMemoryStore.handle_put, InMemoryStore.put_eq (hpoisoned.trans hstore)]
      exact InMemoryStore.set_eq_self hentry

end Replay

/-- A run of the server from some store. -/
abbrev serverOn (env : Externals) (store : InMemoryStore) (schedule : List (Interaction.Action Request)) :
    ServerConfig := serverRun env (Config.initial store) schedule

/-- Whoever is interleaved, an upload gets the response it gets alone. Any other schedule of
the same uploads leaves the same store in the end. Once an upload has returned, a repetition
of it leaves the store as it is, executed alone or call by call. -/
structure UploadsCommute (env : Externals) (store : InMemoryStore)
    (schedule : List (Interaction.Action Request)) : Prop where
  responses : ∀ i req resp, (serverOn env store schedule).Returned i req resp →
    resp = (execute env req store).1
  stores : ∀ schedule', (startedBy schedule').Perm (startedBy schedule) →
    (serverOn env store schedule).Complete → (serverOn env store schedule').Complete →
    (serverOn env store schedule').world.state = (serverOn env store schedule).world.state
  repeated : ∀ i req resp, (serverOn env store schedule).Returned i req resp →
    (execute env req (serverOn env store schedule).world.state).2 = (serverOn env store schedule).world.state ∧
    ∀ j t, (serverOn env store schedule).threads[j]? = some t → t.request = req →
      ((serverOn env store schedule).step InMemoryStore.handle (serve env) (.advance j)).world.state =
        (serverOn env store schedule).world.state

/-- What an upload does is settled by the state of the lock. -/
theorem Request.IsUpload.execute_eq {req : Request} (h : req.IsUpload) {store : InMemoryStore} {poisoned : Bool}
    (hstore : store.poisoned = poisoned) : execute env req store =
      ((serve env req).value (InMemoryStore.putReply poisoned),
        perform InMemoryStore.handle ((serve env req).calls (InMemoryStore.putReply poisoned)) store) :=
  h.uses.exec_fixed (InMemoryStore.fixedReplies poisoned) hstore

/-- The calls of the uploads are accounted for. -/
abbrev UploadsAccounted (env : Externals) (store : InMemoryStore) (c : ServerConfig) : Prop :=
  Accounted (InMemoryStore.putReply store.poisoned) (serve env)
    (fun store' : InMemoryStore => store'.poisoned = store.poisoned) (UploadPut env) c

section Run
variable {store : InMemoryStore} {schedule : List (Interaction.Action Request)}
  (huploads : ∀ req ∈ startedBy schedule, req.IsUpload)
include huploads

theorem serverOn_accounted : UploadsAccounted env store (serverOn env store schedule) :=
  Config.accounted_run (InMemoryStore.fixedReplies store.poisoned) (fun _ h => h.uses) rfl schedule huploads

theorem serverOn_upload {i : ℕ} {req : Request} {resp : Response}
    (h : (serverOn env store schedule).Returned i req resp) : req.IsUpload := by
  obtain ⟨t,ht,rfl,_⟩ := h
  apply huploads
  rw [← Config.requests_initial_run InMemoryStore.handle (serve env) store schedule]
  exact List.mem_map_of_mem (List.mem_of_getElem? ht)

variable (hz : env.ZstdRoundTrip)
  (hc : store.poisoned = false → CollisionFree env (serverOn env store schedule).world.log)
include hz hc

/-- What some upload has put is put again without any effect. -/
theorem serverOn_absorbs {op : StoreCall} (hop : op ∈ (serverOn env store schedule).world.log.map Entry.op) :
    (InMemoryStore.handle op (serverOn env store schedule).world.state).2 =
      (serverOn env store schedule).world.state := by
  have hstate : (serverOn env store schedule).world.state =
      replay InMemoryStore.handle store (serverOn env store schedule).world.log :=
    Config.state_run InMemoryStore.handle (serve env) store schedule
  rw [hstate]
  exact replay_uploads_absorb hz (serverOn_accounted huploads).logged hc hop

theorem uploads_commute : UploadsCommute env store schedule where
  responses := by
    intro i req resp hreturned
    rw [(serverOn_upload huploads hreturned).execute_eq rfl]
    exact ((serverOn_accounted huploads).returned hreturned).1
  stores := by
    intro schedule' hperm hcomplete hcomplete'
    have huploads' : ∀ req ∈ startedBy schedule', req.IsUpload :=
      fun req hreq => huploads req (hperm.subset hreq)
    have hrequests : (serverOn env store schedule').requests.Perm (serverOn env store schedule).requests := by
      unfold serverOn serverRun
      rw [Config.requests_initial_run, Config.requests_initial_run]
      exact hperm
    have hcalls := (serverOn_accounted huploads).perm (serverOn_accounted huploads') hcomplete hcomplete' hrequests
    have hstate : ∀ schedule, (serverOn env store schedule).world.state =
        replay InMemoryStore.handle store (serverOn env store schedule).world.log :=
      Config.state_run InMemoryStore.handle (serve env) store
    rw [hstate schedule, hstate schedule']
    exact replay_uploads_perm hz (serverOn_accounted huploads).logged hc hcalls
  repeated := by
    intro i req resp hreturned
    have haccounted : UploadsAccounted env store (serverOn env store schedule) := serverOn_accounted huploads
    obtain ⟨_,hlogged⟩ := haccounted.returned hreturned
    have habsorbed : ∀ op ∈ (serve env req).calls (InMemoryStore.putReply store.poisoned),
        (InMemoryStore.handle op (serverOn env store schedule).world.state).2 =
          (serverOn env store schedule).world.state :=
      fun op hop => serverOn_absorbs huploads hz hc (hlogged op hop)
    constructor
    · rw [(serverOn_upload huploads hreturned).execute_eq haccounted.state]
      exact perform_absorbed habsorbed
    · rintro j t ht rfl
      rcases Config.step_cases InMemoryStore.handle (serve env) (serverOn env store schedule) (.advance j) with
        ⟨_,hstart,_⟩ | ⟨j',t',op,next,hj,ht',hp,hstep⟩ | ⟨_,_,hstep⟩
      · cases hstart
      · obtain rfl := Interaction.Action.advance.inj hj
        obtain rfl := Option.some.inj (ht.symm.trans ht')
        rw [hstep]
        exact habsorbed op ((haccounted.threads t (List.mem_of_getElem? ht)).mem_calls hp)
      · rw [hstep]

end Run

namespace Reference

/-- A stream sends the command between the puts of a batch that also has it. -/
def mixedUploads : List (Interaction.Action Request) :=
  [.start upload,.start (.write commandStream),.advance 0,.advance 1,.advance 0,.advance 0]

/-- The stream comes first. -/
def streamFirst : List (Interaction.Action Request) :=
  [.start (.write commandStream),.advance 0,.start upload,.advance 1,.advance 1,.advance 1]

theorem mixedUploads_uploads : ∀ req ∈ startedBy mixedUploads, req.IsUpload := by
  intro req hreq
  obtain rfl | rfl : req = upload ∨ req = .write commandStream := by
    simpa [startedBy, mixedUploads] using hreq
  · exact .batch _
  · exact .stream _

end Reference

open Reference in
theorem uploads_commute_mixed :
    (serverOn externals InMemoryStore.new streamFirst).world.state =
        (serverOn externals InMemoryStore.new mixedUploads).world.state ∧
      (execute externals upload (serverOn externals InMemoryStore.new mixedUploads).world.state).2 =
        (serverOn externals InMemoryStore.new mixedUploads).world.state := by
  have hcommute : UploadsCommute externals InMemoryStore.new mixedUploads :=
    uploads_commute mixedUploads_uploads zstdRoundTrip (fun _ => collisionFree (by decide +kernel))
  have hcomplete : (serverOn externals InMemoryStore.new mixedUploads).Complete :=
    Config.complete_of_answers (by decide +kernel)
  refine ⟨hcommute.stores streamFirst (.swap _ _ _) hcomplete (Config.complete_of_answers (by decide +kernel)),?_⟩
  have hreq : upload ∈ (serverOn externals InMemoryStore.new mixedUploads).requests := by
    unfold serverOn serverRun
    rw [Config.requests_initial_run]
    exact List.mem_cons_self
  obtain ⟨i,resp,hreturned⟩ := hcomplete.returned hreq
  exact (hcommute.repeated i upload resp hreturned).1

end ReapiCache
