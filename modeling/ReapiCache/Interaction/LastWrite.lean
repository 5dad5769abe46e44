import ReapiCache.Interaction.Pool
import Mathlib.Data.List.Induction

/-! # What a log leaves at one place

An observation of the state that some calls overwrite and all others keep is, after
a replay, what the last overwriting call of the log wrote.
-/
namespace ReapiCache.Interaction
universe u v w y z
variable {Op : Type u} {Ret : Op → Type v} {Req : Type w} {S : Type y} {V : Type z}
variable (writes : Op → Option V)

def lastWrite (log : List (Entry Op Req)) : Option (Entry Op Req) :=
  log.reverse.find? (fun e => (writes e.op).isSome)

variable {writes} {log : List (Entry Op Req)} {e e' : Entry Op Req}

theorem lastWrite_concat : lastWrite writes (log ++ [e]) =
    if (writes e.op).isSome then some e else lastWrite writes log := by
  unfold lastWrite
  rw [List.reverse_concat, List.find?_cons]
  cases (writes e.op).isSome <;> rfl

/-- The last write is in the log and is a write. -/
theorem lastWrite_spec (h : lastWrite writes log = some e) : e ∈ log ∧ ∃ v, writes e.op = some v := by
  constructor
  · exact List.mem_reverse.mp (List.mem_of_find?_eq_some h)
  · have hw := List.find?_some h
    exact Option.isSome_iff_exists.mp hw

theorem exists_lastWrite (he : e ∈ log) {v : V} (hv : writes e.op = some v) :
    ∃ e', lastWrite writes log = some e' := by
  apply Option.isSome_iff_exists.mp
  unfold lastWrite
  rw [List.find?_isSome]
  exact ⟨e,List.mem_reverse.mpr he,by rw [hv]; rfl⟩

/-- After a write the last write is that one or a later one. -/
theorem lastWrite_after {l₁ l₂ : List (Entry Op Req)} {v : V} (hv : writes e.op = some v)
    (h : lastWrite writes (l₁ ++ e :: l₂) = some e') : e' = e ∨ e' ∈ l₂ := by
  induction l₂ using List.reverseRecOn with
  | nil =>
    rw [lastWrite_concat, hv, Option.isSome_some, if_pos rfl] at h
    exact Or.inl (Option.some.inj h).symm
  | append_singleton l₂ x ih =>
    have hl : l₁ ++ e :: (l₂ ++ [x]) = (l₁ ++ e :: l₂) ++ [x] := by simp
    rw [hl, lastWrite_concat] at h
    by_cases hx : (writes x.op).isSome
    · rw [if_pos hx] at h
      obtain rfl := Option.some.inj h
      exact Or.inr (List.mem_append_right _ (List.mem_singleton_self _))
    · rw [if_neg hx] at h
      rcases ih h with rfl | hm
      · exact Or.inl rfl
      · exact Or.inr (List.mem_append_left _ hm)

theorem lastWrite_append (l₁ l₂ : List (Entry Op Req)) :
    lastWrite writes (l₁ ++ l₂) = (lastWrite writes l₂).or (lastWrite writes l₁) := by
  rw [lastWrite, List.reverse_append, List.find?_append]
  rfl

variable {handle : (op : Op) → S → Ret op × S}

theorem replay_inv (I : S → Prop) (hI : ∀ op s, I s → I (handle op s).2) {s : S} (hs : I s)
    (log : List (Entry Op Req)) : I (replay handle s log) := by
  induction log using List.reverseRecOn with
  | nil => exact hs
  | append_singleton log e ih =>
    rw [replay_concat]
    exact hI e.op _ ih

theorem lookup_replay (writes : Op → Option V) (lookup : S → Option V) (I : S → Prop)
    (hI : ∀ op s, I s → I (handle op s).2)
    (hw : ∀ op s, I s → lookup (handle op s).2 = (writes op).or (lookup s)) {s : S} (hs : I s)
    (log : List (Entry Op Req)) : lookup (replay handle s log) =
      ((lastWrite writes log).bind (fun e => writes e.op)).or (lookup s) := by
  induction log using List.reverseRecOn with
  | nil => rfl
  | append_singleton log e ih =>
    rw [replay_concat, hw e.op _ (replay_inv I hI hs log), ih, lastWrite_concat]
    cases hv : writes e.op with
    | none => rfl
    | some v => simp [hv]

end ReapiCache.Interaction
