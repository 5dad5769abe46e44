import ReapiCache.Interaction.Settling
import ReapiCache.Interaction.LastWrite
import Mathlib.Logic.Function.Basic

/-! # A content cache

Contents under addresses and results under addresses of their own, over any types. Where
an address names one content in the course of a run, contents are only ever added: what
has been fetched or seen is settled, and so is a store of what is there.
-/
namespace ReapiCache.Abstract
open Interaction

structure Cache (Address Content Result : Type) where
  contents : Address → Option Content
  results : Address → Option Result

inductive CacheCall (Address Content Result : Type)
  | fetch (address : Address)
  | holds (address : Address)
  | store (address : Address) (content : Content)
  | retrieve (address : Address)
  | publish (address : Address) (result : Result)

variable {Address Content Result : Type}

def CacheCall.Ret : CacheCall Address Content Result → Type
  | .fetch _ => Option Content
  | .holds _ => Bool
  | .store _ _ => Unit
  | .retrieve _ => Option Result
  | .publish _ _ => Unit

namespace Cache

def new : Cache Address Content Result := ⟨fun _ => none,fun _ => none⟩

variable [DecidableEq Address]

def handle : (op : CacheCall Address Content Result) → Cache Address Content Result →
    op.Ret × Cache Address Content Result
  | .fetch address, c => (c.contents address,c)
  | .holds address, c => ((c.contents address).isSome,c)
  | .store address content, c => ((),{ c with contents := Function.update c.contents address (some content) })
  | .retrieve address, c => (c.results address,c)
  | .publish address result, c => ((),{ c with results := Function.update c.results address (some result) })

/-- Every content of `c` is one of `c'`, under its address. -/
def Extends (c c' : Cache Address Content Result) : Prop :=
  ∀ address x, c.contents address = some x → c'.contents address = some x

/-- A content was found, or one was stored that might have appeared. -/
def Confirmed (may : Address → Content → Prop) :
    (op : CacheCall Address Content Result) → op.Ret → Prop
  | .fetch _, (found : Option Content) => ∃ x, found = some x
  | .holds _, (found : Bool) => found = true
  | .store address x, _ => may address x
  | .retrieve _, _ => False
  | .publish _ _, _ => False

theorem settling (may : Address → Content → Prop) :
    Settling (handle : (op : CacheCall Address Content Result) → _) Extends (Confirmed may) where
  refl := fun _ _ _ h => h
  again := by
    intro op c c' hr hc
    cases op with
    | fetch address =>
      obtain ⟨x,hx⟩ := hr
      change c.contents address = some x at hx
      have hx' := hc address x hx
      simp only [handle, hx, hx']
    | holds address =>
      obtain ⟨x,hx⟩ := Option.isSome_iff_exists.mp hr
      have hx' := hc address x hx
      simp only [handle, hx, hx']
    | store address x =>
      have hx := hc address x (Function.update_self _ _ _)
      simp only [handle]
      rw [← hx, Function.update_eq_self]
    | retrieve address => exact hr.elim
    | publish address result => exact hr.elim

/-- A confirmed call changes nothing, unless it stores. -/
theorem confirmed_cases {may : Address → Content → Prop} {op : CacheCall Address Content Result}
    {c : Cache Address Content Result} (h : Confirmed may op (handle op c).1) :
    (handle op c).2 = c ∨ ∃ address x, op = .store address x := by
  cases op with
  | fetch address => exact Or.inl rfl
  | holds address => exact Or.inl rfl
  | store address x => exact Or.inr ⟨address,x,rfl⟩
  | retrieve address => exact h.elim
  | publish address result => exact h.elim

omit [DecidableEq Address] in
theorem confirmed_mono {may may' : Address → Content → Prop} (h : ∀ address x, may address x → may' address x)
    (op : CacheCall Address Content Result) (r : op.Ret) (hr : Confirmed may op r) : Confirmed may' op r := by
  cases op with
  | fetch address => exact hr
  | holds address => exact hr
  | store address x => exact h address x hr
  | retrieve address => exact hr
  | publish address result => exact hr

theorem handle_repeat (op : CacheCall Address Content Result) (c : Cache Address Content Result) :
    handle op (handle op c).2 = ((handle op c).1,(handle op c).2) := by
  cases op with
  | fetch address => rfl
  | holds address => rfl
  | store address x => simp [handle]
  | retrieve address => rfl
  | publish address result => simp [handle]

omit [DecidableEq Address] in
theorem extends_trans (c c' c'' : Cache Address Content Result) (h : Extends c c') (h' : Extends c' c'') :
    Extends c c'' := fun address x hx => h' address x (h address x hx)

/-- Every content is one that may be there. -/
def Within (may : Address → Content → Prop) (c : Cache Address Content Result) : Prop :=
  ∀ address x, c.contents address = some x → may address x

def StoresWithin (may : Address → Content → Prop) (op : CacheCall Address Content Result) : Prop :=
  ∀ address x, op = .store address x → may address x

/-- Where an address may have one content only, stores add to what is there. -/
theorem handle_within {may : Address → Content → Prop} (hmay : ∀ address x y, may address x → may address y → x = y)
    (op : CacheCall Address Content Result) (c : Cache Address Content Result) (hop : StoresWithin may op)
    (hc : Within may c) : Within may (handle op c).2 ∧ Extends c (handle op c).2 := by
  cases op with
  | fetch address => exact ⟨hc,fun _ _ h => h⟩
  | holds address => exact ⟨hc,fun _ _ h => h⟩
  | retrieve address => exact ⟨hc,fun _ _ h => h⟩
  | publish address result => exact ⟨hc,fun _ _ h => h⟩
  | store address x =>
    have hx := hop address x rfl
    constructor
    · intro a y hy
      by_cases ha : a = address
      · subst ha
        simp only [handle, Function.update_self, Option.some.injEq] at hy
        exact hy ▸ hx
      · simp only [handle, Function.update_of_ne ha] at hy
        exact hc a y hy
    · intro a y hy
      by_cases ha : a = address
      · subst ha
        simp only [handle, Function.update_self, Option.some.injEq]
        exact hmay a x y hx (hc a y hy)
      · simpa only [handle, Function.update_of_ne ha] using hy

/-- What a call stores under an address. -/
def stores (address : Address) : CacheCall Address Content Result → Option Content
  | .store a x => if a = address then some x else none
  | _ => none

theorem stores_eq_some {address : Address} {op : CacheCall Address Content Result} {x : Content} :
    stores address op = some x ↔ op = .store address x := by
  cases op with
  | store a y =>
    by_cases ha : a = address
    · simp [stores, ha]
    · simp [stores, ha]
  | fetch _ => simp [stores]
  | holds _ => simp [stores]
  | retrieve _ => simp [stores]
  | publish _ _ => simp [stores]

variable {Req : Type}

/-- In the course of the log an address stands for one content. -/
def Univocal (log : List (Entry (CacheCall Address Content Result) Req)) : Prop :=
  ∀ e ∈ log, ∀ e' ∈ log, ∀ address x y, e.op = .store address x → e'.op = .store address y → x = y

theorem contents_replay (log : List (Entry (CacheCall Address Content Result) Req)) (address : Address) :
    (replay handle new log).contents address =
      (lastWrite (stores address) log).bind (fun e => stores address e.op) := by
  have hwrites : ∀ (op : CacheCall Address Content Result) (c : Cache Address Content Result), True →
      (handle op c).2.contents address = (stores address op).or (c.contents address) := by
    intro op c _
    cases op with
    | store a x =>
      by_cases ha : a = address
      · subst ha
        simp [handle, stores]
      · simp [handle, stores, ha, Function.update_of_ne (Ne.symm ha)]
    | fetch _ => rfl
    | holds _ => rfl
    | retrieve _ => rfl
    | publish _ _ => rfl
  have hlookup := lookup_replay (stores address) (fun c : Cache Address Content Result => c.contents address)
    (fun _ => True) (fun _ _ _ => trivial) hwrites (s := new) trivial log
  simpa [new] using hlookup

/-- A content was stored under its address, and what was stored under an address is there. -/
theorem contents_eq_some {log : List (Entry (CacheCall Address Content Result) Req)} (h : Univocal log)
    {address : Address} {x : Content} :
    (replay handle new log).contents address = some x ↔ ∃ e ∈ log, e.op = .store address x := by
  rw [contents_replay]
  constructor
  · intro hx
    obtain ⟨e,he,hx⟩ := Option.bind_eq_some_iff.mp hx
    exact ⟨e,(lastWrite_spec he).1,stores_eq_some.mp hx⟩
  · rintro ⟨e,he,hop⟩
    obtain ⟨e',he'⟩ := exists_lastWrite he (stores_eq_some.mpr hop)
    obtain ⟨hmem,y,hy⟩ := lastWrite_spec he'
    obtain rfl := h e he e' hmem address x y hop (stores_eq_some.mp hy)
    rw [he']
    exact hy

/-- Along a univocal log contents are only added. -/
theorem replay_extends {L log log' : List (Entry (CacheCall Address Content Result) Req)} (h : Univocal L)
    (hl : log <+: log') (hl' : log' <+: L) : Extends (replay handle new log) (replay handle new log') := by
  have hsub : ∀ {l : List (Entry (CacheCall Address Content Result) Req)}, l <+: L → Univocal l :=
    fun hp e he e' he' => h e (hp.subset he) e' (hp.subset he')
  intro address x hx
  obtain ⟨e,he,hop⟩ := (contents_eq_some (hsub (hl.trans hl'))).mp hx
  exact (contents_eq_some (hsub hl')).mpr ⟨e,hl.subset he,hop⟩

end Cache
end ReapiCache.Abstract
