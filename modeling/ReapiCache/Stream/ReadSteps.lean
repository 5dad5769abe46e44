import ReapiCache.Stream.BoundedRead

/-! # The reads of a bounded read

The loop taken one read at a time. Every read that receives a piece moves it from the
limit to the output, so the two never add up to more than the bound, and after at
most as many pieces as the bound the loop is over. A buffer that is smaller than the
limit only makes the pieces smaller.
-/
namespace ReapiCache.Stream
universe u v
variable {β : Type u} {ε : Type v}

/-- The loop between two reads: how much may still be read, and what was read. -/
structure Progress (β : Type u) where
  limit : ℕ
  out : List β

def Progress.initial (n : ℕ) : Progress β := ⟨n,[]⟩

namespace Source
variable (s : Source β ε)

/-- The loop is over with a result, or it goes on with a piece more. -/
def step (p : Progress β) : Except ε (List β) ⊕ Progress β :=
  if p.limit = 0 then .inl (.ok p.out)
  else
    match s.read p.out.length p.limit with
    | .error e => .inl (.error e)
    | .ok piece =>
      if piece.isEmpty then .inl (.ok p.out)
      else .inr ⟨p.limit - piece.length,p.out ++ piece⟩

/-- What the loop has come to after a number of pieces. -/
inductive Reaches (start : Progress β) : ℕ → Progress β → Prop
  | start : Reaches start 0 start
  | piece {k : ℕ} {p q : Progress β} : Reaches start k p → s.step p = .inr q → Reaches start (k + 1) q

variable {s}

theorem readLoop_succ (fuel : ℕ) (p : Progress β) : s.readLoop (fuel + 1) p.limit p.out =
    match s.step p with
    | .inl result => result
    | .inr q => s.readLoop fuel q.limit q.out := by
  rw [readLoop, step]
  by_cases hl : p.limit = 0
  · rw [if_pos hl, if_pos hl]
  · rw [if_neg hl, if_neg hl]
    cases s.read p.out.length p.limit with
    | error e => rfl
    | ok piece =>
      by_cases hp : piece.isEmpty = true
      · simp only [if_pos hp]
      · simp only [if_neg hp]

/-- A read never delivers more than was asked for. -/
theorem read_length_le {position asked : ℕ} {piece : List β} (h : s.read position asked = .ok piece) :
    piece.length ≤ asked := by
  have hle := s.piece_le position asked
  unfold read at h
  cases hc : s.content with
  | finite bytes ending =>
    simp only [hc] at h
    cases hd : bytes.drop position with
    | nil =>
      simp only [hd] at h
      cases ending with
      | clean =>
        obtain rfl := Except.ok.inj h
        exact Nat.zero_le _
      | failed e => cases h
    | cons b rest =>
      simp only [hd] at h
      obtain rfl := Except.ok.inj h
      rw [List.length_take]
      omega
  | endless bytes =>
    simp only [hc] at h
    obtain rfl := Except.ok.inj h
    rw [List.length_map, List.length_range]
    exact hle

/-- A piece is moved from the limit to the output, and it is not empty. -/
theorem step_eq_inr {p q : Progress β} (h : s.step p = .inr q) : ∃ piece,
    s.read p.out.length p.limit = .ok piece ∧ piece ≠ [] ∧ q.out = p.out ++ piece ∧
      q.limit + piece.length = p.limit := by
  unfold step at h
  by_cases hl : p.limit = 0
  · rw [if_pos hl] at h
    cases h
  · rw [if_neg hl] at h
    cases hr : s.read p.out.length p.limit with
    | error e =>
      rw [hr] at h
      cases h
    | ok piece =>
      simp only [hr] at h
      by_cases hp : piece.isEmpty = true
      · rw [if_pos hp] at h
        cases h
      · rw [if_neg hp] at h
        obtain rfl := Sum.inr.inj h
        have hle := read_length_le hr
        exact ⟨piece,rfl,by simpa using hp,rfl,by dsimp only; omega⟩

/-- With no limit left there is no further read. -/
theorem step_limit_zero {p : Progress β} (h : p.limit = 0) : s.step p = .inl (.ok p.out) := by
  rw [step, if_pos h]

/-- Limit and output add up to the bound, and every piece used up some of the limit. -/
theorem Reaches.bounded {start p : Progress β} {k : ℕ} (h : s.Reaches start k p) :
    p.limit + p.out.length = start.limit + start.out.length ∧ k + p.limit ≤ start.limit := by
  induction h with
  | start => omega
  | piece _ hstep ih =>
    obtain ⟨piece,_,hne,hout,hlimit⟩ := step_eq_inr hstep
    have hpos := List.length_pos_iff.mpr hne
    rw [hout, List.length_append]
    omega

theorem Reaches.head {start next p : Progress β} {k : ℕ} (hstep : s.step start = .inr next)
    (h : s.Reaches next k p) : s.Reaches start (k + 1) p := by
  induction h with
  | start => exact .piece .start hstep
  | piece _ hq ih => exact .piece ih hq

/-- The loop comes to an end, in the result of the fuelled loop: as much fuel as the
limit is never used up. -/
theorem exists_reaches_result (fuel : ℕ) (start : Progress β) (hf : start.limit ≤ fuel) :
    ∃ k p, s.Reaches start k p ∧ s.step p = .inl (s.readLoop fuel start.limit start.out) := by
  induction fuel generalizing start with
  | zero =>
    refine ⟨0,start,.start,?_⟩
    rw [step_limit_zero (by omega), readLoop]
  | succ fuel ih =>
    rw [readLoop_succ]
    cases hstep : s.step start with
    | inl result => exact ⟨0,start,.start,hstep⟩
    | inr next =>
      obtain ⟨piece,_,hne,_,hlimit⟩ := step_eq_inr hstep
      have hpos := List.length_pos_iff.mpr hne
      obtain ⟨k,p,hreach,hresult⟩ := ih next (by omega)
      exact ⟨k + 1,p,.head hstep hreach,hresult⟩

/-- A bounded read never holds more than the bound, receives at most that many pieces,
and ends in its result. -/
theorem takeReadToEnd_steps (n : ℕ) :
    (∀ k p, s.Reaches (.initial n) k p → p.out.length ≤ n ∧ k ≤ n) ∧
      ∃ k p, s.Reaches (.initial n) k p ∧ s.step p = .inl (s.takeReadToEnd n) := by
  constructor
  · intro k p h
    have hb : p.limit + p.out.length = n + 0 ∧ k + p.limit ≤ n := h.bounded
    omega
  · exact exists_reaches_result n (.initial n) (Nat.le_refl n)

end Source
end ReapiCache.Stream
