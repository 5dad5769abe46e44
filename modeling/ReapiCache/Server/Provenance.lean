import ReapiCache.Server.MonotonicReads
import ReapiCache.Server.Supplied
import ReapiCache.Abstract.Coherence

/-! # Where the entries of a store come from

Every entry of a reachable store was sent by a request of the run to the instance of its
key, and so was everything the run delivers: the server makes up no content and no
result, and takes none from another instance or another name.
-/
namespace ReapiCache
open Interaction ActionCacheService
variable {env : Externals}

/-- The log of the run continues `l` with the entry `e`, of a request of the run, which puts
the blob under the key. -/
structure PutBy (env : Externals) (schedule : List (Interaction.Action Request)) (key : BlobKey) (b : StoredBlob)
    (l : List (StoreEntry Request)) (e : StoreEntry Request) : Prop where
  made : l ++ [e] <+: (serverFrom env schedule).world.log
  started : (startedBy schedule)[e.caller]? = some e.request
  puts : e.op = .put key b.metadata ⟨b.data⟩

/-- A request of the run sent what is stored under the key. -/
inductive Sent (env : Externals) (schedule : List (Interaction.Action Request)) (key : BlobKey) (b : StoredBlob) : Prop
  | content (l : List (StoreEntry Request)) (e : StoreEntry Request) (d : Bytes)
      (kind : key.kind = .contentAddressableStorage) (put : PutBy env schedule key b l e)
      (brings : Brings env l e.caller e.request key d) (holds : Holds env b.metadata b.data d)
      (hash : key.algorithm.hashBytes env d = key.hash)
  | result (l : List (StoreEntry Request)) (e : StoreEntry Request) (q : UpdateActionResultRequest) (r : ActionResult)
      (kind : key.kind = .actionCache) (put : PutBy env schedule key b l e)
      (request : e.request = .updateActionResult q) (targets : q.Targets env key r)
      (holds : Holds env b.metadata b.data (env.encodeActionResult r))

section Entries
variable (hz : env.ZstdRoundTrip) (he : env.HashesEmpty) {schedule : List (Interaction.Action Request)} {key : BlobKey}
  {b : StoredBlob} (h : (serverFrom env schedule).world.state.blobs key = some b)
include h

/-- Whatever is stored some request of the run has put. -/
theorem exists_putBy : ∃ l e, e ∈ (serverFrom env schedule).world.log ∧ PutBy env schedule key b l e := by
  rw [serverFrom_state] at h
  obtain ⟨e,hmem,_,hop⟩ := mem_of_stored h
  obtain ⟨l,later,hlog⟩ := List.append_of_mem hmem
  exact ⟨l,e,hmem,⟨later,by rw [hlog, List.append_assoc, List.singleton_append]⟩,startedBy_caller hmem,hop⟩

include hz

include he in
theorem content_sent (hkind : key.kind = .contentAddressableStorage) : Sent env schedule key b := by
  obtain ⟨l,e,hmem,hput⟩ := exists_putBy h
  obtain ⟨d,hbrings,hd⟩ := log_supplied hz schedule hput.made key b.metadata ⟨b.data⟩ hput.puts hkind
  have hputs := (server_log_permitted schedule e hmem).puts key b.metadata ⟨b.data⟩ hput.puts
  obtain ⟨d',hd',hhash⟩ := hputs.holds hz he hkind
  obtain rfl := hd.unique hd'
  exact .content l e d hkind hput hbrings hd hhash

theorem result_sent (hkind : key.kind = .actionCache) : Sent env schedule key b := by
  obtain ⟨l,e,hmem,hput⟩ := exists_putBy h
  cases (server_log_permitted schedule e hmem).puts key b.metadata ⟨b.data⟩ hput.puts with
  | upload _ kind => exact absurd (hkind.symm.trans kind) (by decide)
  | empty kind => exact absurd (hkind.symm.trans kind) (by decide)
  | result q r request targets encoded =>
    exact .result l e q r hkind hput request targets (fromIdentityData_holds hz (mapError_eq_ok.mp encoded)).1

include he in
/-- Every entry of a reachable store was sent by a request of the run, for its key. -/
theorem stored_sent : Sent env schedule key b := by
  cases hkind : key.kind with
  | contentAddressableStorage => exact content_sent hz he h hkind
  | actionCache => exact result_sent hz h hkind

end Entries

open Reference in
/-- The result that is cached once the update has been served. -/
theorem stored_sent_caching : ∃ b, (serverFrom externals cachingRun).world.state.blobs actionCacheKey = some b ∧
    Sent externals cachingRun actionCacheKey b := by
  have hcached : ((serverFrom externals cachingRun).world.state.blobs actionCacheKey).isSome = true := by decide +kernel
  obtain ⟨b,hb⟩ := Option.isSome_iff_exists.mp hcached
  exact ⟨b,hb,stored_sent zstdRoundTrip hashBytes_empty hb⟩

/-- A request of the run brought the content for the hash, in the instance, and put it. -/
def Brought (env : Externals) (schedule : List (Interaction.Action Request)) (instanceName hash : String) (d : Bytes) :
    Prop :=
  ∃ b l e, PutBy env schedule (CasService.casKey instanceName .sha256 hash) b l e ∧ Holds env b.metadata b.data d ∧
    Brings env l e.caller e.request (CasService.casKey instanceName .sha256 hash) d

/-- A read answered with success delivers the window it asked for, plain or compressed, of a
content that was brought under the name it asked for. -/
structure WindowBrought (env : Externals) (schedule : List (Interaction.Action Request)) (r : ReadRequest)
    (messages : List ReadResponse) (target : ByteStreamService.ReadTarget) (d : Bytes) : Prop where
  resolves : ByteStreamService.readTarget r = .ok target
  size : target.parsed.expectedSize.toInt = d.length
  brought : Brought env schedule target.parsed.instanceName target.parsed.hash d
  offset : 0 ≤ r.readOffset.toInt ∧ r.readOffset.toInt ≤ d.length
  limit : 0 ≤ r.readLimit.toInt
  delivers : Decodes env target.responseEncoding (ByteStreamService.streamed messages)
    (ByteStreamService.window r.readOffset.toInt.toNat r.readLimit.toInt.toNat d)

def ReadBrought (env : Externals) (schedule : List (Interaction.Action Request)) (r : ReadRequest)
    (messages : List ReadResponse) : Prop :=
  ∃ target d, WindowBrought env schedule r messages target d

/-- What an answer to a digest delivers was brought under its hash. -/
def AnswerBrought (env : Externals) (schedule : List (Interaction.Action Request)) (instanceName : String)
    (digest : Digest) (answer : BlobReadResponse) : Prop :=
  ∀ status, answer.status = some status → status.code = 0 → answer.digest = some digest ∧
    ∃ encoding d, answer.compressor = encoding.asProtoValue env ∧ Decodes env encoding answer.data d ∧
      Brought env schedule instanceName digest.hash d

/-- Whatever the response delivers was sent by requests of the run. -/
def Delivers (env : Externals) (schedule : List (Interaction.Action Request)) : Request → Response → Prop
  | .batchReadBlobs r, response => ∀ out, response = .batchReadBlobs (.ok out) →
      List.Forall₂ (AnswerBrought env schedule r.instanceName) r.digests out.responses
  | .read r, response => ∀ messages, response = .read (.ok messages) → ReadBrought env schedule r messages
  | .getActionResult g, response => ∀ r, response = .actionResult (.ok r) →
      ∃ (i : ℕ) (q : UpdateActionResultRequest) (key : BlobKey),
        (startedBy schedule)[i]? = some (.updateActionResult q) ∧ q.Targets env key r ∧ g.Asks env key
  | _, _ => True

/-- What a read delivers decodes to the window it asks for. -/
theorem requested_window (hz : env.ZstdRoundTrip) {r : ReadRequest} {encoding : StorageEncoding} {d data : Bytes}
    (hlimit : encoding = .identity ∨ r.readLimit = 0) (h : Abstract.requested env r encoding d = .ok data) :
    (0 ≤ r.readOffset.toInt ∧ r.readOffset.toInt ≤ d.length) ∧ 0 ≤ r.readLimit.toInt ∧
      Decodes env encoding data (ByteStreamService.window r.readOffset.toInt.toNat r.readLimit.toInt.toNat d) := by
  cases encoding with
  | identity =>
    obtain ⟨⟨h0,hle,hl⟩,hdata⟩ := Abstract.requested_plain.mp h
    exact ⟨⟨h0,hle⟩,hl,hdata⟩
  | zstd =>
    obtain ⟨hrange,hdata⟩ := Abstract.requested_eq_ok.mp h
    have hzero : r.readLimit = 0 := hlimit.resolve_left (by decide)
    rw [hzero]
    exact ⟨hrange,by decide,hz _ _ (mapError_eq_ok.mp (mapError_eq_ok.mp hdata))⟩

section Answers
variable {schedule : List (Interaction.Action Request)} (hz : env.ZstdRoundTrip) (he : env.HashesEmpty)
include hz he

open Abstract in
theorem brought_of_represents {cache : BlobCache} (h : Represents env (serverFrom env schedule).world.state cache)
    {address : Locator} {d : Bytes} (hd : cache.contents address = some d) :
    Brought env schedule address.instanceName address.hash d := by
  obtain ⟨b,hb,hstands⟩ := h.entry hd
  cases content_sent hz he hb rfl with
  | content l e d' kind put brings holds hash =>
    obtain rfl := (hstands.holds hz).unique holds
    rcases address with ⟨instanceName,algorithm,hash⟩
    cases algorithm
    exact ⟨b,l,e,put,holds,brings⟩
  | result _ _ _ _ kind => cases kind

open Abstract in
theorem answerBrought_of_seen {cache : BlobCache} (h : Represents env (serverFrom env schedule).world.state cache)
    {absent : Locator → Prop} {acceptable : List StorageEncoding} {address : Locator} {found : Option Bytes}
    (hseen : Seen cache.contents absent address found) (digest : Digest) (hhash : digest.hash = address.hash) :
    AnswerBrought env schedule address.instanceName digest (Abstract.blobReadResponse env acceptable digest found) := by
  cases found with
  | none =>
    rintro _ ⟨⟩ hcode
    exact absurd hcode (by decide)
  | some d =>
    have hd : cache.contents address = some d := by
      rcases hseen with hfound | ⟨hnone,_⟩
      · exact hfound.symm
      · cases hnone
    have hbrought := brought_of_represents hz he h hd
    rw [← hhash] at hbrought
    unfold Abstract.blobReadResponse
    by_cases hzstd : StorageEncoding.zstd ∈ acceptable
    · simp only [if_pos hzstd]
      cases hdata : compressZstd env d with
      | error err =>
        rintro _ ⟨⟩ hcode
        exact absurd hcode (show (13 : Int32) ≠ 0 by decide)
      | ok data =>
        rintro _ _ _
        exact ⟨rfl,.zstd,d,rfl,hz d data (mapError_eq_ok.mp hdata),hbrought⟩
    · simp only [if_neg hzstd]
      rintro _ _ _
      exact ⟨rfl,.identity,d,rfl,rfl,hbrought⟩

open Abstract in
theorem readBrought_of_seen {cache : BlobCache} (h : Represents env (serverFrom env schedule).world.state cache)
    {absent : Locator → Prop} {r : ReadRequest} {target : ByteStreamService.ReadTarget} {found : Option Bytes}
    {messages : List ReadResponse} (htarget : ByteStreamService.readTarget r = .ok target)
    (hseen : Seen cache.contents absent (.ofKey target.key) found)
    (hanswer : Abstract.answerRead env r target found = .ok messages) : ReadBrought env schedule r messages := by
  obtain ⟨d,hcontent,hdata⟩ := bind_eq_ok.mp hanswer
  obtain ⟨rfl,hsize⟩ := namedContent_eq_ok.mp hcontent
  obtain ⟨data,hwindow,hchunks⟩ := bind_eq_ok.mp hdata
  obtain rfl := Except.ok.inj hchunks
  have hd : cache.contents (.ofKey target.key) = some d := by
    rcases hseen with hfound | ⟨hnone,_⟩
    · exact hfound.symm
    · cases hnone
  obtain ⟨_,_,hlimit,hkey⟩ := ByteStreamService.readTarget_eq_ok htarget
  have hbrought := brought_of_represents hz he h hd
  rw [resolveBlobKey_eq_ok hkey] at hbrought
  obtain ⟨hoffset,hlimited,hdecodes⟩ := requested_window hz hlimit hwindow
  refine ⟨target,d,htarget,hsize,hbrought,hoffset,hlimited,?_⟩
  rwa [ByteStreamService.streamed_chunks]

end Answers

/-- Lists of one element each, put together. -/
theorem forall₂_flatten {α β : Type} {P : α → β → Prop} {xs : List α} {lists : List (List β)}
    (h : List.Forall₂ (fun x l => ∃ y, P x y ∧ l = [y]) xs lists) : List.Forall₂ P xs lists.flatten := by
  induction h with
  | nil => exact .nil
  | cons hx _ ih =>
    obtain ⟨y,hy,rfl⟩ := hx
    exact .cons hy ih

open Abstract in
/-- Nothing is delivered that was not sent: every content read was brought to the instance
under the name it is read from, and every cached result was submitted for its action. -/
theorem delivers_sent (hz : env.ZstdRoundTrip) (hc : env.CompressionTotal) (he : env.HashesEmpty)
    {schedule : List (Interaction.Action Request)} (hp : env.ProstRoundTrip (submitted (startedBy schedule)))
    (hcollision : CollisionFree env (serverFrom env schedule).world.log) {i : ℕ} {req : Request} {response : Response}
    (hreturned : (serverFrom env schedule).Returned i req response) : Delivers env schedule req response := by
  have hrepresents := (server_inStep hz hc he hp represents_new).state
  obtain ⟨absent,hfrom⟩ : ∃ absent, AnsweredFrom env (cacheRun env Cache.new schedule).world.state.contents absent req
      response := by
    obtain ⟨t,ht,rfl,hdone⟩ := hreturned
    exact ⟨_,answeredFrom_run hz hc he hp hcollision ht hdone⟩
  cases req with
  | batchReadBlobs r =>
    rintro out rfl
    obtain ⟨_,⟨rfl⟩,hbatch⟩ := hfrom
    rcases hbatch with ⟨s,_,hs⟩ | ⟨algorithm,answers,_,hout,hitems⟩
    · cases hs
    have hresponses : out.responses = answers.flatten := Except.ok.inj hout
    rw [hresponses]
    apply forall₂_flatten
    apply hitems.imp
    rintro digest _ ⟨found,hseen,rfl⟩
    exact ⟨_,answerBrought_of_seen hz he hrepresents hseen digest rfl,rfl⟩
  | read r =>
    rintro messages rfl
    obtain ⟨_,⟨rfl⟩,hread⟩ := hfrom
    rcases hread with ⟨s,_,hs⟩ | ⟨target,found,htarget,hseen,hanswer⟩
    · cases hs
    exact readBrought_of_seen hz he hrepresents htarget hseen hanswer.symm
  | getActionResult g =>
    rintro r rfl
    obtain ⟨key,l,e,hlatest⟩ := hit_latest hz he hp hcollision hreturned
    obtain ⟨q,hrequest,htargets⟩ := hlatest.request
    have hstarted := startedBy_caller hlatest.mem_log
    rw [hrequest] at hstarted
    exact ⟨e.caller,q,key,hstarted,htargets,hlatest.asks⟩
  | findMissingBlobs r => trivial
  | batchUpdateBlobs r => trivial
  | getTree => trivial
  | splitBlob => trivial
  | spliceBlob => trivial
  | write s => trivial
  | queryWriteStatus => trivial
  | updateActionResult q => trivial

open Reference in
/-- The tree that is read while the result is looked up. -/
theorem delivers_sent_reading : Delivers externals readingRun (.read ⟨"main/blobs/" ++ treeHash ++ "/77",0,0⟩)
    (.read (.ok [⟨treeBlob⟩])) := by
  have hreturned : (serverFrom externals readingRun).Returned 3 (.read ⟨"main/blobs/" ++ treeHash ++ "/77",0,0⟩)
      (.read (.ok [⟨treeBlob⟩])) := returned_of_answer rfl (by decide +kernel)
  exact delivers_sent zstdRoundTrip compressionTotal hashBytes_empty (prostRoundTrip _)
    (collisionFree (by decide +kernel)) hreturned

end ReapiCache
