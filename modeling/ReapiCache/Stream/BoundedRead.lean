import Mathlib.Data.List.Basic

/-! # Reading a stream up to a bound

A source delivers its content in pieces of its own choosing, never empty before the
end and never longer than asked for. It then ends cleanly, fails, or runs on for
ever. `takeReadToEnd` is the loop that reads at most a given number of elements;
its result depends on the content alone, not on how the content is cut.
-/
namespace ReapiCache.Stream
universe u v
variable {β : Type u} {ε : Type v}

inductive Ending (ε : Type v)
  | clean
  | failed (e : ε)

def Ending.report : Ending ε → Except ε (List β)
  | .clean => .ok []
  | .failed e => .error e

inductive Content (β : Type u) (ε : Type v)
  | finite (bytes : List β) (ending : Ending ε)
  | endless (bytes : ℕ → β)

/-- The first `n` elements, or the failure met before them. -/
def Content.upTo (n : ℕ) : Content β ε → Except ε (List β)
  | .finite bytes .clean => .ok (bytes.take n)
  | .finite bytes (.failed e) => if n ≤ bytes.length then .ok (bytes.take n) else .error e
  | .endless bytes => .ok ((List.range n).map bytes)

/-- What a bounded read of a stream returns has the expected length only when the stream
is finite, ends cleanly and was read to its end. -/
theorem Content.upTo_eq_ok {content : Content β ε} {output : List β} {n : ℕ} :
    content.upTo (n + 1) = .ok output ∧ output.length = n ↔
      content = .finite output .clean ∧ output.length = n := by
  cases content with
  | endless bytes =>
    simp only [Content.upTo, Except.ok.injEq, reduceCtorEq, false_and, iff_false, not_and]
    rintro rfl
    simp
  | finite bytes ending =>
    cases ending with
    | clean =>
      simp only [Content.upTo, Except.ok.injEq, Content.finite.injEq, and_true]
      constructor
      · rintro ⟨rfl,hlen⟩
        rw [List.length_take] at hlen
        have hle : bytes.length ≤ n + 1 := by omega
        rw [List.take_of_length_le hle]
        exact ⟨rfl,by omega⟩
      · rintro ⟨rfl,hlen⟩
        exact ⟨List.take_of_length_le (by omega),hlen⟩
    | failed e =>
      simp only [Content.upTo, Content.finite.injEq, reduceCtorEq, and_false, false_and,
        iff_false, not_and]
      by_cases hle : n + 1 ≤ bytes.length
      · rw [if_pos hle]
        intro hout hlen
        obtain rfl := Except.ok.inj hout
        rw [List.length_take] at hlen
        omega
      · rw [if_neg hle]
        rintro ⟨⟩

/-- More than `n` elements are delivered, whatever happens after them. -/
def Content.Exceeds (n : ℕ) : Content β ε → Prop
  | .finite bytes _ => n < bytes.length
  | .endless _ => True

/-- One element more than `n` is enough to notice a longer content. -/
theorem Content.Exceeds.upTo_succ {content : Content β ε} {n : ℕ} (h : content.Exceeds n) :
    ∃ out, content.upTo (n + 1) = .ok out ∧ out.length = n + 1 := by
  cases content with
  | endless bytes => exact ⟨_,rfl,by simp⟩
  | finite bytes ending =>
    have hlen : n + 1 ≤ bytes.length := h
    have htake : (bytes.take (n + 1)).length = n + 1 := by simp [hlen]
    cases ending with
    | clean => exact ⟨_,rfl,htake⟩
    | failed e => exact ⟨_,if_pos hlen,htake⟩

/-- A content together with the sizes of the pieces it is delivered in. -/
structure Source (β : Type u) (ε : Type v) where
  content : Content β ε
  piece : ℕ → ℕ → ℕ
  piece_pos : ∀ position asked, 0 < asked → 0 < piece position asked
  piece_le : ∀ position asked, piece position asked ≤ asked

namespace Source
variable (s : Source β ε)

/-- One read at a position: a non-empty piece, the empty piece at a clean end, or the failure. -/
def read (position asked : ℕ) : Except ε (List β) :=
  match s.content with
  | .finite bytes ending =>
    match bytes.drop position with
    | [] => ending.report
    | b :: rest => .ok ((b :: rest).take (s.piece position asked))
  | .endless bytes => .ok ((List.range (s.piece position asked)).map (fun i => bytes (position + i)))

/-- Read until the limit is used up or the stream ends. Every round uses up some of
the limit, so the limit itself is enough fuel. -/
def readLoop : ℕ → ℕ → List β → Except ε (List β)
  | 0, _, out => .ok out
  | fuel + 1, limit, out =>
    if limit = 0 then .ok out
    else
      match s.read out.length limit with
      | .error e => .error e
      | .ok piece =>
        if piece.isEmpty then .ok out
        else readLoop fuel (limit - piece.length) (out ++ piece)

def takeReadToEnd (n : ℕ) : Except ε (List β) := s.readLoop n n []

variable {s}

@[simp] theorem readLoop_zero (fuel : ℕ) (out : List β) : s.readLoop fuel 0 out = .ok out := by
  cases fuel <;> simp [readLoop]

/-- One round that received a piece. -/
theorem readLoop_piece {fuel limit : ℕ} {out piece : List β} (hl : limit ≠ 0)
    (hr : s.read out.length limit = .ok piece) (hp : piece ≠ []) :
    s.readLoop (fuel + 1) limit out = s.readLoop fuel (limit - piece.length) (out ++ piece) := by
  simp [readLoop, hl, hr, hp]

/-- Inside a finite content a read delivers the next few elements. -/
theorem read_finite {bytes : List β} {ending : Ending ε} (hc : s.content = .finite bytes ending)
    {k limit : ℕ} (hk : k < bytes.length) :
    s.read k limit = .ok ((bytes.drop k).take (s.piece k limit)) := by
  unfold read
  rw [hc]
  cases hd : bytes.drop k with
  | nil =>
    have := List.drop_eq_nil_iff.mp hd
    omega
  | cons b rest => simp only [hd]

/-- Past a finite content a read reports the ending. -/
theorem read_ending {bytes : List β} {ending : Ending ε} (hc : s.content = .finite bytes ending)
    {k : ℕ} (limit : ℕ) (hk : bytes.length ≤ k) :
    s.read k limit = ending.report := by
  unfold read
  rw [hc]
  simp only [List.drop_eq_nil_of_le hk]

/-- From any position of a finite content the loop reads on to the bound. -/
theorem readLoop_finite {bytes : List β} {ending : Ending ε} (hc : s.content = .finite bytes ending)
    (fuel limit k : ℕ) (hf : limit ≤ fuel) (hk : k ≤ bytes.length) :
    s.readLoop fuel limit (bytes.take k) = (Content.finite bytes ending).upTo (k + limit) := by
  induction fuel generalizing limit k with
  | zero =>
    obtain rfl : limit = 0 := by omega
    cases ending <;> simp [Content.upTo, hk]
  | succ fuel ih =>
    have hlen : (bytes.take k).length = k := by simp [hk]
    by_cases hl : limit = 0
    · subst limit
      cases ending <;> simp [Content.upTo, hk]
    · by_cases hlt : k < bytes.length
      · have hp := s.piece_pos k limit (Nat.pos_of_ne_zero hl)
        have hple := s.piece_le k limit
        have hr : s.read (bytes.take k).length limit = .ok ((bytes.drop k).take (s.piece k limit)) := by
          rw [hlen]
          exact read_finite hc hlt
        have hq : ((bytes.drop k).take (s.piece k limit)).length = min (s.piece k limit) (bytes.length - k) := by
          simp
        have hne : (bytes.drop k).take (s.piece k limit) ≠ [] := by
          apply List.ne_nil_of_length_pos
          omega
        rw [readLoop_piece hl hr hne, ← List.take_add]
        have hcut : bytes.take (k + s.piece k limit) =
            bytes.take (k + ((bytes.drop k).take (s.piece k limit)).length) := by
          rw [List.take_eq_take_iff, hq]
          omega
        rw [hcut, ih _ _ (by omega) (by omega)]
        congr 1
        omega
      · have hend := read_ending hc limit (Nat.le_of_not_lt hlt)
        rw [readLoop, if_neg hl, hlen, hend]
        cases ending with
        | clean =>
          have hall : bytes.length ≤ k + limit := by omega
          simp [Ending.report, Content.upTo, List.take_of_length_le (Nat.le_of_not_lt hlt),
            List.take_of_length_le hall]
        | failed e =>
          simp only [Ending.report, Content.upTo]
          rw [if_neg (by omega)]

theorem readLoop_endless {bytes : ℕ → β} (hc : s.content = .endless bytes)
    (fuel limit k : ℕ) (hf : limit ≤ fuel) :
    s.readLoop fuel limit ((List.range k).map bytes) = (Content.endless bytes : Content β ε).upTo (k + limit) := by
  induction fuel generalizing limit k with
  | zero =>
    obtain rfl : limit = 0 := by omega
    rfl
  | succ fuel ih =>
    by_cases hl : limit = 0
    · subst limit
      simp [Content.upTo]
    · have hp := s.piece_pos k limit (Nat.pos_of_ne_zero hl)
      have hple := s.piece_le k limit
      have hr : s.read ((List.range k).map bytes).length limit =
          .ok ((List.range (s.piece k limit)).map (fun i => bytes (k + i))) := by
        simp [read, hc]
      have hne : (List.range (s.piece k limit)).map (fun i => bytes (k + i)) ≠ [] := by
        apply List.ne_nil_of_length_pos
        simpa using hp
      have hout : (List.range k).map bytes ++ (List.range (s.piece k limit)).map (fun i => bytes (k + i)) =
          (List.range (k + s.piece k limit)).map bytes := by
        rw [List.range_add, List.map_append, List.map_map]
        rfl
      rw [readLoop_piece hl hr hne, hout, List.length_map, List.length_range, ih _ _ (by omega)]
      congr 1
      omega

/-- However the content is cut into pieces, a bounded read returns its first elements. -/
theorem takeReadToEnd_eq (n : ℕ) : s.takeReadToEnd n = s.content.upTo n := by
  unfold takeReadToEnd
  cases hc : s.content with
  | finite bytes ending => simpa using readLoop_finite hc n n 0 (Nat.le_refl n) (Nat.zero_le _)
  | endless bytes => simpa using readLoop_endless hc n n 0 (Nat.le_refl n)

end Source
end ReapiCache.Stream
