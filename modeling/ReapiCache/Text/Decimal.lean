import Mathlib.Data.List.Basic
import Mathlib.Algebra.Order.Ring.Int
import Mathlib.Tactic.Ring

/-! # Bounded decimal integers

The parser of a signed machine integer: an optional sign, then at least one digit,
with a range check after every digit. Canonical decimals inside the range parse back
to the number they write.
-/
namespace ReapiCache.Text

inductive ParseIntError
  | empty
  | invalidDigit
  | posOverflow
  | negOverflow
deriving DecidableEq, Repr

def digitValue (c : Char) : Option ℕ := if c.isDigit then some (c.toNat - '0'.toNat) else none

variable (lo hi : ℤ)

/-- Digits are accumulated on the side of zero the sign selects. -/
def parseDigits (negative : Bool) : List Char → ℤ → Except ParseIntError ℤ
  | [], acc => .ok acc
  | c :: cs, acc =>
    match digitValue c with
    | none => .error .invalidDigit
    | some x =>
      let next := if negative then acc * 10 - x else acc * 10 + x
      if next < lo then .error .negOverflow
      else if hi < next then .error .posOverflow
      else parseDigits negative cs next

def parseChars : List Char → Except ParseIntError ℤ
  | [] => .error .empty
  | ['+'] => .error .invalidDigit
  | ['-'] => .error .invalidDigit
  | '+' :: digits => parseDigits lo hi false digits 0
  | '-' :: digits => parseDigits lo hi true digits 0
  | digits => parseDigits lo hi false digits 0

def parseInt (s : String) : Except ParseIntError ℤ := parseChars lo hi s.toList

variable {lo hi}

theorem digitValue_of_isDigit {c : Char} (h : c.isDigit) : digitValue c = some (c.toNat - '0'.toNat) := by
  simp [digitValue, h]

theorem le_ofDigitChars (cs : List Char) (n : ℕ) : n ≤ Nat.ofDigitChars 10 cs n := by
  induction cs generalizing n with
  | nil => simp
  | cons c cs ih =>
    rw [Nat.ofDigitChars_cons]
    have h := ih (10 * n + (c.toNat - '0'.toNat))
    omega

/-- Digits whose value stays in range are read as that value. -/
theorem parseDigits_eq {cs : List Char} (hcs : ∀ c ∈ cs, c.isDigit) (n : ℕ) (hlo : lo ≤ 0) (hi : ℤ) :
    (Nat.ofDigitChars 10 cs n : ℤ) ≤ hi →
      parseDigits lo hi false cs n = .ok (Nat.ofDigitChars 10 cs n : ℤ) := by
  induction cs generalizing n with
  | nil => simp [parseDigits]
  | cons c cs ih =>
    intro h
    rw [Nat.ofDigitChars_cons] at h ⊢
    have hn := le_ofDigitChars cs (10 * n + (c.toNat - '0'.toNat))
    have hnext : (n : ℤ) * 10 + ((c.toNat - '0'.toNat : ℕ) : ℤ) =
        ((10 * n + (c.toNat - '0'.toNat) : ℕ) : ℤ) := by push_cast; ring
    simp only [parseDigits, digitValue_of_isDigit (hcs c List.mem_cons_self), Bool.false_eq_true,
      ↓reduceIte, hnext]
    rw [if_neg (by omega), if_neg (by omega)]
    exact ih (fun c hc => hcs c (List.mem_cons_of_mem _ hc)) _ h

theorem parseDigits_neg_eq {cs : List Char} (hcs : ∀ c ∈ cs, c.isDigit) (n : ℕ) (hhi : 0 ≤ hi) (lo : ℤ) :
    lo ≤ -(Nat.ofDigitChars 10 cs n : ℤ) →
      parseDigits lo hi true cs (-(n : ℤ)) = .ok (-(Nat.ofDigitChars 10 cs n : ℤ)) := by
  induction cs generalizing n with
  | nil => simp [parseDigits]
  | cons c cs ih =>
    intro h
    rw [Nat.ofDigitChars_cons] at h ⊢
    have hn := le_ofDigitChars cs (10 * n + (c.toNat - '0'.toNat))
    have hnext : -(n : ℤ) * 10 - ((c.toNat - '0'.toNat : ℕ) : ℤ) =
        -((10 * n + (c.toNat - '0'.toNat) : ℕ) : ℤ) := by push_cast; ring
    simp only [parseDigits, digitValue_of_isDigit (hcs c List.mem_cons_self), ↓reduceIte, hnext]
    rw [if_neg (by omega), if_neg (by omega)]
    exact ih (fun c hc => hcs c (List.mem_cons_of_mem _ hc)) _ h

theorem isDigit_of_mem_toDigits {n : ℕ} : ∀ c ∈ Nat.toDigits 10 n, c.isDigit := fun _ hc =>
  Nat.isDigit_of_mem_toDigits (by decide) (by decide) hc

/-- Without a leading sign the characters are read as a non-negative number. -/
theorem parseChars_digits {cs : List Char} (hne : cs ≠ []) (hcs : ∀ c ∈ cs, c.isDigit) :
    parseChars lo hi cs = parseDigits lo hi false cs 0 := by
  cases cs with
  | nil => exact absurd rfl hne
  | cons c cs =>
    have hc := hcs c List.mem_cons_self
    have hplus : c ≠ '+' := by rintro rfl; exact absurd hc (by decide)
    have hminus : c ≠ '-' := by rintro rfl; exact absurd hc (by decide)
    unfold parseChars
    split <;> simp_all

theorem parseChars_minus {cs : List Char} (hne : cs ≠ []) :
    parseChars lo hi ('-' :: cs) = parseDigits lo hi true cs 0 := by
  cases cs with
  | nil => exact absurd rfl hne
  | cons c cs => rfl

/-- The decimal of a number in range parses back to it. -/
theorem parseInt_repr {n : ℤ} (hlo : lo ≤ 0) (hhi : 0 ≤ hi) (hn : lo ≤ n) (hn' : n ≤ hi) :
    parseInt lo hi n.repr = .ok n := by
  rw [Int.repr_eq_if]
  by_cases h : 0 ≤ n
  · obtain ⟨k,rfl⟩ := Int.eq_ofNat_of_zero_le h
    have hk : Nat.ofDigitChars 10 (Nat.toDigits 10 k) 0 = k := Nat.ofDigitChars_ten_toDigits
    rw [if_pos h, parseInt, Int.toNat_natCast, Nat.toList_repr,
      parseChars_digits Nat.toDigits_ne_nil isDigit_of_mem_toDigits]
    have hp := parseDigits_eq isDigit_of_mem_toDigits 0 hlo hi (by rw [hk]; exact hn')
    rw [hk] at hp
    exact hp
  · obtain ⟨k,hk⟩ := Int.eq_ofNat_of_zero_le (show 0 ≤ -n by omega)
    have hd : Nat.ofDigitChars 10 (Nat.toDigits 10 k) 0 = k := Nat.ofDigitChars_ten_toDigits
    have hminus : ("-" ++ k.repr).toList = '-' :: Nat.toDigits 10 k := by simp
    rw [if_neg h, parseInt, hk, Int.toNat_natCast, hminus, parseChars_minus Nat.toDigits_ne_nil]
    have hp := parseDigits_neg_eq (isDigit_of_mem_toDigits : ∀ c ∈ Nat.toDigits 10 k, c.isDigit) 0 hhi lo (by rw [hd]; omega)
    rw [hd] at hp
    simpa [← hk] using hp

/-- Decimals of naturals contain digits only. -/
theorem isDigit_of_mem_repr {n : ℕ} : ∀ c ∈ n.repr.toList, c.isDigit := by
  rw [Nat.toList_repr]
  exact isDigit_of_mem_toDigits

end ReapiCache.Text
