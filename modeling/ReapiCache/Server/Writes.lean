import ReapiCache.Services.ResourceNameGrammar
import ReapiCache.Server.UploadPaths

/-! # Which streams are committed

The message loop carries the accumulated data and the name along. What it checks of a
message depends on the messages before it only, so acceptance is a condition on the
messages up to the first finishing one.
-/
namespace ReapiCache
open Interaction
variable {env : Externals}

/-- The data sent before the message of an index. -/
def dataBefore (messages : List WriteRequest) (i : ℕ) : Bytes :=
  (messages.take i).flatMap (fun m => m.data.toList)

/-- The stream finishes at message `n` and sends the content `d`, in an encoding, for the
resource of its first message. -/
structure WriteStream.WellFormed (env : Externals) (stream : WriteStream) (n : ℕ)
    (parsed : ParsedReadResource) (encoding : StorageEncoding) (d : Bytes) : Prop where
  finishing : stream.messages.findIdx? WriteRequest.finishWrite = some n
  offsets : ∀ i ≤ n, ∀ m, stream.messages[i]? = some m →
    m.writeOffset.toInt = (dataBefore stream.messages i).length
  first : ∃ first, stream.messages[0]? = some first ∧ first.resourceName ≠ "" ∧
    parseBytestreamResourceName first.resourceName = .ok parsed ∧ parsed.uploadId ≠ none ∧
    ∀ i ≤ n, ∀ m, stream.messages[i]? = some m →
      m.resourceName = "" ∨ m.resourceName = first.resourceName
  compression : parsed.compression = encoding.compression
  bounded : parsed.expectedSize.toInt ≤ MAX_DECOMPRESSED_BLOB_SIZE
  decodes : Decodes env encoding (dataBefore stream.messages (n + 1)) d
  size : parsed.expectedSize.toInt = d.length
  hash : DigestAlgorithm.sha256.hashBytes env d = parsed.hash

/-- The handler can report the length of the data up to message `n`. -/
def WriteStream.Reportable (stream : WriteStream) (n : ℕ) : Prop :=
  ((dataBefore stream.messages (n + 1)).length : ℤ) ≤ i64Max

theorem WriteStream.Reportable.fits {stream : WriteStream} {n : ℕ} (h : stream.Reportable n) :
    (dataBefore stream.messages (n + 1)).length ≤ isizeMax := Int.ofNat_le.mp h

namespace ByteStreamService
variable {name : String} {parsed : ParsedReadResource} {accumulator : Bytes} {offset n : ℕ}
  {m : WriteRequest} {messages : List WriteRequest} {transportError : Option Status}

/-- The message is where it should be and carries the name or none. -/
def InPlace (name : String) (offset : ℕ) (m : WriteRequest) : Prop :=
  m.writeOffset = Int64.ofNat offset ∧ (m.resourceName = "" ∨ m.resourceName = name)

theorem acceptMessage_eq_ok {state : WriteState} :
    acceptMessage ⟨accumulator,some (name,parsed)⟩ m = .ok state ↔
      InPlace name accumulator.length m ∧
        state = ⟨accumulator ++ m.data.toList,some (name,parsed)⟩ := by
  constructor
  · intro h
    unfold acceptMessage at h
    by_cases hoffset : m.writeOffset = Int64.ofNat accumulator.length
    · rw [if_neg (not_not.mpr hoffset)] at h
      dsimp only at h
      by_cases hname : m.resourceName ≠ "" ∧ m.resourceName ≠ name
      · rw [if_pos hname] at h
        cases h
      · rw [if_neg hname] at h
        exact ⟨⟨hoffset,by tauto⟩,(Except.ok.inj h).symm⟩
    · rw [if_pos hoffset] at h
      cases h
  · rintro ⟨⟨hoffset,hname⟩,rfl⟩
    exact acceptMessage_named hname hoffset

/-- From an offset on, the messages up to the first finishing one are in place. -/
def InOrder (name : String) (offset n : ℕ) (messages : List WriteRequest) : Prop :=
  messages.findIdx? WriteRequest.finishWrite = some n ∧ ∀ i ≤ n, ∀ m, messages[i]? = some m →
    InPlace name (offset + (dataBefore messages i).length) m

theorem dataBefore_cons (m : WriteRequest) (messages : List WriteRequest) (i : ℕ) :
    dataBefore (m :: messages) (i + 1) = m.data.toList ++ dataBefore messages i := by
  simp [dataBefore]

theorem inOrder_finished (h : m.finishWrite = true) :
    InOrder name offset n (m :: messages) ↔ n = 0 ∧ InPlace name offset m := by
  unfold InOrder
  rw [List.findIdx?_cons, if_pos h, Option.some.injEq]
  constructor
  · rintro ⟨rfl,hall⟩
    exact ⟨rfl,hall 0 (Nat.le_refl 0) m rfl⟩
  · rintro ⟨rfl,hm⟩
    refine ⟨rfl,fun i hi m' hm' => ?_⟩
    obtain rfl := Nat.le_zero.mp hi
    obtain rfl := Option.some.inj hm'
    exact hm

theorem inOrder_unfinished (h : m.finishWrite = false) :
    InOrder name offset n (m :: messages) ↔ ∃ k, n = k + 1 ∧ InPlace name offset m ∧
      InOrder name (offset + m.data.toList.length) k messages := by
  unfold InOrder
  rw [List.findIdx?_cons, if_neg (by simp [h])]
  constructor
  · rintro ⟨hfind,hall⟩
    obtain ⟨k,hk,rfl⟩ := Option.map_eq_some_iff.mp hfind
    refine ⟨k,rfl,hall 0 (Nat.zero_le _) m rfl,hk,fun i hi m' hm' => ?_⟩
    have hi' := hall (i + 1) (Nat.succ_le_succ hi) m' hm'
    rwa [dataBefore_cons, List.length_append, ← Nat.add_assoc] at hi'
  · rintro ⟨k,rfl,hm,hk,hall⟩
    refine ⟨by rw [hk]; rfl,fun i hi m' hm' => ?_⟩
    cases i with
    | zero =>
      obtain rfl := Option.some.inj hm'
      exact hm
    | succ i =>
      rw [dataBefore_cons, List.length_append, ← Nat.add_assoc]
      exact hall i (Nat.le_of_succ_le_succ hi) m' hm'

/-- Once the resource is known, the loop succeeds on the messages in order. -/
theorem receive_eq_ok {state : WriteState} :
    receive transportError ⟨accumulator,some (name,parsed)⟩ messages = .ok state ↔
      ∃ n, InOrder name accumulator.length n messages ∧
        state = ⟨accumulator ++ dataBefore messages (n + 1),some (name,parsed)⟩ := by
  induction messages generalizing accumulator with
  | nil => cases transportError <;> simp [receive, InOrder]
  | cons m messages ih =>
    rw [receive, bind_eq_ok]
    simp only [acceptMessage_eq_ok]
    cases hf : m.finishWrite with
    | true =>
      simp only [inOrder_finished hf, dataBefore_cons, ↓reduceIte, Except.ok.injEq]
      constructor
      · rintro ⟨_,⟨hm,rfl⟩,rfl⟩
        exact ⟨0,⟨rfl,hm⟩,by simp [dataBefore]⟩
      · rintro ⟨_,⟨rfl,hm⟩,rfl⟩
        exact ⟨_,⟨hm,rfl⟩,by simp [dataBefore]⟩
    | false =>
      simp only [inOrder_unfinished hf, Bool.false_eq_true, ↓reduceIte]
      constructor
      · rintro ⟨_,⟨hm,rfl⟩,h⟩
        obtain ⟨k,hk,rfl⟩ := ih.mp h
        rw [List.length_append] at hk
        exact ⟨k + 1,⟨k,rfl,hm,hk⟩,by rw [dataBefore_cons, List.append_assoc]⟩
      · rintro ⟨_,⟨k,rfl,hm,hk⟩,rfl⟩
        refine ⟨_,⟨hm,rfl⟩,ih.mpr ⟨k,?_,?_⟩⟩
        · rwa [List.length_append]
        · rw [dataBefore_cons, List.append_assoc]

/-- The first message has to name the resource. -/
theorem acceptMessage_fresh {state : WriteState} : acceptMessage ⟨[],none⟩ m = .ok state ↔
    ∃ parsed, m.resourceName ≠ "" ∧ parseBytestreamResourceName m.resourceName = .ok parsed ∧
      parsed.uploadId ≠ none ∧ acceptMessage ⟨[],some (m.resourceName,parsed)⟩ m = .ok state := by
  constructor
  · intro h
    have hstate := h
    unfold acceptMessage at h
    by_cases hoffset : m.writeOffset = Int64.ofNat ([] : Bytes).length
    · rw [if_neg (not_not.mpr hoffset)] at h
      dsimp only at h
      by_cases hname : m.resourceName = ""
      · rw [if_pos hname] at h
        cases h
      · rw [if_neg hname] at h
        obtain ⟨parsed,hparse,h⟩ := bind_eq_ok.mp h
        rw [mapError_eq_ok] at hparse
        cases hup : parsed.uploadId with
        | none =>
          rw [hup] at h
          cases h
        | some id =>
          have hnone : parsed.uploadId.isNone = false := by rw [hup]; rfl
          rw [acceptMessage_first rfl hoffset hparse hnone] at hstate
          exact ⟨parsed,hname,hparse,by simp [hup],hstate⟩
    · rw [if_pos hoffset] at h
      cases h
  · rintro ⟨parsed,hname,hparse,hup,h⟩
    have hoffset := (acceptMessage_eq_ok.mp h).1.1
    have hnone : parsed.uploadId.isNone = false := by
      cases hu : parsed.uploadId with
      | none => exact absurd hu hup
      | some id => rfl
    rw [acceptMessage_first rfl hoffset hparse hnone]
    exact h

theorem receive_fresh {state : WriteState} :
    receive transportError ⟨[],none⟩ messages = .ok state ↔ ∃ first parsed n,
      messages[0]? = some first ∧ first.resourceName ≠ "" ∧
      parseBytestreamResourceName first.resourceName = .ok parsed ∧ parsed.uploadId ≠ none ∧
      InOrder first.resourceName 0 n messages ∧
      state = ⟨dataBefore messages (n + 1),some (first.resourceName,parsed)⟩ := by
  cases messages with
  | nil => cases transportError <;> simp [receive]
  | cons m messages =>
    have hstep : ∀ parsed, receive transportError ⟨[],some (m.resourceName,parsed)⟩ (m :: messages) =
        .ok state ↔ _ := fun _ => receive_eq_ok
    constructor
    · intro h
      rw [receive, bind_eq_ok] at h
      obtain ⟨next,hnext,h⟩ := h
      obtain ⟨parsed,hname,hparse,hup,hnext⟩ := acceptMessage_fresh.mp hnext
      have hreceive : receive transportError ⟨[],some (m.resourceName,parsed)⟩ (m :: messages) =
          .ok state := by
        rw [receive, hnext]
        exact h
      obtain ⟨n,hn,hs⟩ := (hstep parsed).mp hreceive
      exact ⟨m,parsed,n,rfl,hname,hparse,hup,hn,hs⟩
    · rintro ⟨first,parsed,n,hfirst,hname,hparse,hup,hn,hs⟩
      obtain rfl := Option.some.inj hfirst
      have hreceive := (hstep parsed).mpr ⟨n,hn,hs⟩
      rw [receive, bind_eq_ok] at hreceive ⊢
      obtain ⟨next,hnext,h⟩ := hreceive
      exact ⟨next,acceptMessage_fresh.mpr ⟨parsed,hname,hparse,hup,hnext⟩,h⟩

theorem length_dataBefore_le {i j : ℕ} (h : i ≤ j) (messages : List WriteRequest) :
    (dataBefore messages i).length ≤ (dataBefore messages j).length := by
  obtain ⟨rest,hrest⟩ : messages.take i <+: messages.take j := List.take_prefix_take_left h
  unfold dataBefore
  rw [← hrest, List.flatMap_append, List.length_append]
  omega

/-- A length that fits is compared as it is. -/
theorem eq_ofNat_iff {x : Int64} {k : ℕ} (hk : k ≤ isizeMax) : x = Int64.ofNat k ↔ x.toInt = k := by
  have hlt : k < 2 ^ 63 := by
    unfold isizeMax at hk
    omega
  rw [← Int64.toInt_inj, Int64.toInt_ofNat_of_lt hlt]

/-- When the data fit into a vector, the messages are in order exactly when every offset
is the length of the data before it. -/
theorem inOrder_iff (hfits : (dataBefore messages (n + 1)).length ≤ isizeMax) :
    InOrder name 0 n messages ↔ messages.findIdx? WriteRequest.finishWrite = some n ∧
      (∀ i ≤ n, ∀ m, messages[i]? = some m →
        m.writeOffset.toInt = (dataBefore messages i).length) ∧
      ∀ i ≤ n, ∀ m, messages[i]? = some m → m.resourceName = "" ∨ m.resourceName = name := by
  have hoffset : ∀ i ≤ n, ∀ x : Int64, x = Int64.ofNat (0 + (dataBefore messages i).length) ↔
      x.toInt = (dataBefore messages i).length := by
    intro i hi x
    have hle := length_dataBefore_le (Nat.le_succ_of_le hi) messages
    rw [Nat.zero_add]
    exact eq_ofNat_iff (hle.trans hfits)
  unfold InOrder InPlace
  constructor
  · rintro ⟨hfind,hall⟩
    exact ⟨hfind,fun i hi m hm => (hoffset i hi _).mp (hall i hi m hm).1,
      fun i hi m hm => (hall i hi m hm).2⟩
  · rintro ⟨hfind,hoff,hname⟩
    exact ⟨hfind,fun i hi m hm => ⟨(hoffset i hi _).mpr (hoff i hi m hm),hname i hi m hm⟩⟩

/-- Messages after the first finishing one are not received. -/
theorem receive_take {messages' : List WriteRequest} {transportError' : Option Status} {state : WriteState}
    (hfind : messages.findIdx? WriteRequest.finishWrite = some n)
    (htake : messages'.take (n + 1) = messages.take (n + 1)) :
    receive transportError' state messages' = receive transportError state messages := by
  induction messages generalizing state messages' n with
  | nil => cases hfind
  | cons m messages ih =>
    cases messages' with
    | nil => cases htake
    | cons m' messages' =>
      rw [List.take_succ_cons, List.take_succ_cons] at htake
      obtain ⟨rfl,htail⟩ := List.cons_eq_cons.mp htake
      rw [receive, receive]
      cases hf : m'.finishWrite with
      | true => rfl
      | false =>
        rw [List.findIdx?_cons, if_neg (by simp [hf])] at hfind
        obtain ⟨k,hk,rfl⟩ := Option.map_eq_some_iff.mp hfind
        have hrest : ∀ state : WriteState, receive transportError' state messages' =
            receive transportError state messages := fun state => ih hk htail
        simp only [Bool.false_eq_true, ↓reduceIte, hrest]

end ByteStreamService

open ByteStreamService in
/-- What is committed for a stream: its data, stored in one form under the key of its name. -/
structure CommitsAs (env : Externals) (stream : WriteStream) (n : ℕ) (parsed : ParsedReadResource)
    (d : Bytes) (commit : Commit) : Prop where
  key : commit.key = CasService.casKey parsed.instanceName .sha256 parsed.hash
  committedSize : commit.committedSize = Int64.ofNat (dataBefore stream.messages (n + 1)).length
  stored : StoredAs env d commit.stored.metadata commit.stored.body.cursor

namespace ByteStreamService
variable {stream : WriteStream}

theorem wellFormed_of_commit {state : WriteState} {commit : Commit}
    (hstate : receive stream.transportError ⟨[],none⟩ stream.messages = .ok state)
    (hcommit : verifyUpload env state = .ok commit) :
    ∃ n parsed encoding d, stream.WellFormed env n parsed encoding d ∧ stream.Reportable n := by
  obtain ⟨first,parsed,n,hfirst,hname,hparse,hup,horder,rfl⟩ := receive_fresh.mp hstate
  obtain ⟨hkey,hmax,_,encoding,d,hencoding,hverified⟩ := verifyUpload_eq_ok.mp hcommit
  obtain ⟨⟨hbounded,hdecodes⟩,hsize,hhash,_⟩ := Verified.iff_decodes.mp hverified
  have hreport : stream.Reportable n := hmax
  obtain ⟨hfind,hoffsets,hnames⟩ := (inOrder_iff hreport.fits).mp horder
  have hk := (Except.ok.inj (hkey.symm.trans (resolveBlobKey_of_parse hparse)))
  rw [hk] at hhash
  exact ⟨n,parsed,encoding,d,⟨hfind,hoffsets,⟨first,hfirst,hname,hparse,hup,hnames⟩,
    storageEncoding_eq_ok.mp hencoding,hbounded,hdecodes,hsize,hhash⟩,hreport⟩

theorem commit_of_wellFormed (hc : env.CompressionTotal) {n : ℕ} {parsed : ParsedReadResource}
    {encoding : StorageEncoding} {d : Bytes} (h : stream.WellFormed env n parsed encoding d)
    (hreport : stream.Reportable n) : ∃ state commit,
      receive stream.transportError ⟨[],none⟩ stream.messages = .ok state ∧
      verifyUpload env state = .ok commit ∧ CommitsAs env stream n parsed d commit := by
  obtain ⟨first,hfirst,hname,hparse,hup,hnames⟩ := h.first
  have horder : InOrder first.resourceName 0 n stream.messages :=
    (inOrder_iff hreport.fits).mpr ⟨h.finishing,h.offsets,hnames⟩
  obtain ⟨metadata,bytes,hstored⟩ := exists_storedAs hc d
  have hlength : d.length ≤ MAX_DECOMPRESSED_BLOB_SIZE := by
    have hsize := h.size
    have hbounded := h.bounded
    omega
  have hencoded : BlobCodec.fromIdentityData env d .zstd = .ok ⟨metadata,⟨bytes⟩⟩ :=
    fromIdentityData_zstd.mpr ⟨hlength,hstored⟩
  have hverified : Verified env .sha256 parsed.hash parsed.expectedSize
      (dataBefore stream.messages (n + 1)) encoding d ⟨metadata,⟨bytes⟩⟩ :=
    Verified.iff_decodes.mpr ⟨⟨h.bounded,h.decodes⟩,h.size,h.hash,hencoded⟩
  let commit : Commit := ⟨CasService.casKey parsed.instanceName .sha256 parsed.hash,⟨metadata,⟨bytes⟩⟩,
    Int64.ofNat (dataBefore stream.messages (n + 1)).length⟩
  have hcommit : verifyUpload env ⟨dataBefore stream.messages (n + 1),some (first.resourceName,parsed)⟩ =
      .ok commit := verifyUpload_eq_ok.mpr ⟨resolveBlobKey_of_parse hparse,hreport,rfl,
    encoding,d,storageEncoding_eq_ok.mpr h.compression,hverified⟩
  exact ⟨_,commit,receive_fresh.mpr ⟨first,parsed,n,hfirst,hname,hparse,hup,horder,rfl⟩,hcommit,rfl,rfl,hstored⟩

end ByteStreamService

open ByteStreamService in
theorem streamAccepted_iff (hc : env.CompressionTotal) (store : InMemoryStore) (stream : WriteStream) :
    StreamAccepted (execute env (.write stream) store).1 ↔ store.poisoned = false ∧
      ∃ n parsed encoding d, stream.WellFormed env n parsed encoding d ∧ stream.Reportable n := by
  constructor
  · intro haccepted
    cases hstate : receive stream.transportError ⟨[],none⟩ stream.messages with
    | error s =>
      obtain ⟨r,hr⟩ := haccepted
      rw [stream_refused (Or.inl hstate)] at hr
      cases hr
    | ok state =>
      cases hcommit : verifyUpload env state with
      | error s =>
        obtain ⟨r,hr⟩ := haccepted
        rw [stream_refused (Or.inr ⟨state,hstate,hcommit⟩)] at hr
        cases hr
      | ok commit =>
        refine ⟨?_,wellFormed_of_commit hstate hcommit⟩
        have hput := (stream_verified hstate hcommit).1.mp haccepted
        cases hp : store.poisoned with
        | false => rfl
        | true =>
          rw [InMemoryStore.put, hp] at hput
          cases hput
  · rintro ⟨hopen,n,parsed,encoding,d,hform,hreport⟩
    obtain ⟨state,commit,hstate,hcommit,_⟩ := commit_of_wellFormed hc hform hreport
    rw [(stream_verified hstate hcommit).1, InMemoryStore.put_eq hopen]

/-- A write commits the well-formed streams on an open store, all of their data or nothing. -/
structure WriteCommits (env : Externals) (store : InMemoryStore) (stream : WriteStream) : Prop where
  accepted : StreamAccepted (execute env (.write stream) store).1 ↔
    store.poisoned = false ∧
      ∃ n parsed encoding d, stream.WellFormed env n parsed encoding d ∧ stream.Reportable n
  committed : ∀ n parsed encoding d, stream.WellFormed env n parsed encoding d → stream.Reportable n →
    store.poisoned = false →
    ∃ size b, (execute env (.write stream) store).1 = .write (.ok ⟨size⟩) ∧
      (execute env (.write stream) store).2 =
        store.set (CasService.casKey parsed.instanceName .sha256 parsed.hash) b ∧
      size.toInt = (dataBefore stream.messages (n + 1)).length ∧ StoredAs env d b.metadata b.data
  refused : ¬ StreamAccepted (execute env (.write stream) store).1 →
    (execute env (.write stream) store).2 = store
  ignored : ∀ n, stream.messages.findIdx? WriteRequest.finishWrite = some n → ∀ stream' : WriteStream,
    stream'.messages.take (n + 1) = stream.messages.take (n + 1) →
      execute env (.write stream') store = execute env (.write stream) store

open ByteStreamService in
theorem write_commits (hc : env.CompressionTotal) (store : InMemoryStore) (stream : WriteStream) :
    WriteCommits env store stream where
  accepted := streamAccepted_iff hc store stream
  committed := by
    intro n parsed encoding d hform hreport hopen
    obtain ⟨state,commit,hstate,hcommit,hcommits⟩ := commit_of_wellFormed hc hform hreport
    have hwrite : execute env (.write stream) store = (.write (.ok ⟨commit.committedSize⟩),
        store.set commit.key ⟨commit.stored.body.cursor,commit.stored.metadata⟩) := by
      simp only [execute, serve, Program.exec_map, ByteStreamService.write, hstate, hcommit,
        Failing.exec_bind, Failing.exec_ofExcept, storePut, Failing.exec_attempt, InMemoryStore.handle_put,
        InMemoryStore.put_eq hopen, mapError_ok, Failing.exec_pure]
    rw [hwrite, hcommits.key]
    refine ⟨commit.committedSize,⟨commit.stored.body.cursor,commit.stored.metadata⟩,rfl,rfl,?_,hcommits.stored⟩
    exact (eq_ofNat_iff hreport.fits).mp hcommits.committedSize
  refused := by
    intro hrefused
    cases hstate : receive stream.transportError ⟨[],none⟩ stream.messages with
    | error s => rw [stream_refused (Or.inl hstate)]
    | ok state =>
      cases hcommit : verifyUpload env state with
      | error s => rw [stream_refused (Or.inr ⟨state,hstate,hcommit⟩)]
      | ok commit =>
        obtain ⟨haccepted,hstore⟩ : (StreamAccepted (execute env (.write stream) store).1 ↔ _) ∧ _ :=
          stream_verified hstate hcommit
        rw [hstore]
        cases hput : (store.put commit.key commit.stored.metadata commit.stored.body).1 with
        | ok u => exact absurd (haccepted.mpr hput) hrefused
        | error err => exact InMemoryStore.put_error hput
  ignored := by
    intro n hfind stream' htake
    have hreceive : receive stream'.transportError ⟨[],none⟩ stream'.messages =
        receive stream.transportError ⟨[],none⟩ stream.messages := receive_take hfind htake
    simp only [execute, serve, ByteStreamService.write, hreceive]

namespace Reference

/-- What the name of the command's upload says. -/
def commandResource : ParsedReadResource := (uploadName "main" "7" .identity false commandDigest).parsed

theorem commandStream_wellFormed :
    commandStream.WellFormed externals 2 commandResource .identity commandBlob where
  finishing := rfl
  offsets := by
    intro i hi m hm
    obtain rfl | rfl | rfl : i = 0 ∨ i = 1 ∨ i = 2 := by omega
    · cases hm
      decide
    · cases hm
      decide
    · cases hm
      decide
  first := by
    refine ⟨_,rfl,by decide,by decide,by decide,?_⟩
    intro i hi m hm
    obtain rfl | rfl | rfl : i = 0 ∨ i = 1 ∨ i = 2 := by omega
    · cases hm
      exact Or.inr rfl
    · cases hm
      exact Or.inl rfl
    · cases hm
      exact Or.inr rfl
  compression := rfl
  bounded := by decide
  decodes := rfl
  size := by decide
  hash := hashBytes_command

theorem commandStream_reportable : commandStream.Reportable 2 := by
  unfold WriteStream.Reportable
  decide

end Reference

open Reference in
theorem write_commits_command : ∃ b, (execute externals (.write commandStream) InMemoryStore.new).2 =
    InMemoryStore.new.set (CasService.casKey "main" .sha256 commandHash) b ∧
      StoredAs externals commandBlob b.metadata b.data := by
  obtain ⟨_,b,_,hstore,_,hstored⟩ := (write_commits compressionTotal InMemoryStore.new commandStream).committed
    2 commandResource .identity commandBlob commandStream_wellFormed commandStream_reportable rfl
  exact ⟨b,hstore,hstored⟩

open Reference in
/-- Behind a poisoned lock even a well-formed stream is refused. -/
theorem write_commits_poisoned : ¬ (StreamAccepted
      (execute externals (.write commandStream) { InMemoryStore.new with poisoned := true }).1 ↔
    ∃ n parsed encoding d, commandStream.WellFormed externals n parsed encoding d) := by
  intro h
  have haccepted := h.mpr ⟨2,commandResource,.identity,commandBlob,commandStream_wellFormed⟩
  obtain ⟨hopen,_⟩ := (streamAccepted_iff compressionTotal _ _).mp haccepted
  cases hopen

end ReapiCache
