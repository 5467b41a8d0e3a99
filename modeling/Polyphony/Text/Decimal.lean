/-
# Decimal numbers

Writing a natural number takes the fewest digits, most significant first, and
reading takes any run of digits, leading zeros included; reading undoes writing
(`value_digits`).  A signed number is read from an optional single sign and a run
of digits, in the range of 64-bit words (`readInt?`), and `readIn?` narrows that
range further.
-/

import Polyphony.Text

namespace Polyphony
namespace Decimal

/-- Is `b` one of `0` to `9`? -/
def isDigit (b : UInt8) : Bool := 48 ≤ b && b ≤ 57

/-- The digit of a number below ten. -/
def digit (d : Nat) : UInt8 := 48 + d.toUInt8

/-- The number a digit stands for. -/
def digitValue (b : UInt8) : Nat := b.toNat - 48

theorem digit_toNat {d : Nat} (h : d < 10) : (digit d).toNat = 48 + d := by
  simp only [digit, UInt8.toNat_add, Nat.toUInt8, UInt8.toNat_ofNat', UInt8.reduceToNat]
  omega

theorem isDigit_digit {d : Nat} (h : d < 10) : isDigit (digit d) = true := by
  have := digit_toNat h
  simp only [isDigit, Bool.and_eq_true, decide_eq_true_eq, UInt8.le_iff_toNat_le,
    UInt8.reduceToNat]
  omega

theorem digitValue_digit {d : Nat} (h : d < 10) : digitValue (digit d) = d := by
  rw [digitValue, digit_toNat h]; omega

/-- The digits of `n`, written before `rest`. -/
def digitsBefore (n : Nat) (rest : Text) : Text :=
  if n < 10 then digit n :: rest else digitsBefore (n / 10) (digit (n % 10) :: rest)
termination_by n

/-- The digits of `n`, most significant first. -/
def digits (n : Nat) : Text := digitsBefore n []

/-- The number that a run of digits stands for, most significant first. -/
def value (t : Text) : Nat := t.foldl (fun v b => 10 * v + digitValue b) 0

theorem digitsBefore_eq (n : Nat) (rest : Text) : digitsBefore n rest = digits n ++ rest := by
  suffices ∀ s r, digitsBefore n (s ++ r) = digitsBefore n s ++ r by
    simpa [digits] using this [] rest
  induction n using Nat.strongRecOn with
  | _ n ih =>
    intro s r
    rw [digitsBefore, digitsBefore.eq_def n s]
    split
    · rfl
    · exact ih (n / 10) (by omega) (digit (n % 10) :: s) r

/-- A number below ten is one digit, and every other number is the digits of its
tenth part and one digit more. -/
theorem digits_eq (n : Nat) :
    digits n = if n < 10 then [digit n] else digits (n / 10) ++ [digit (n % 10)] := by
  rw [digits, digitsBefore]
  split
  · rfl
  · exact digitsBefore_eq _ _

theorem value_append_singleton (t : Text) (b : UInt8) :
    value (t ++ [b]) = 10 * value t + digitValue b := by
  simp [value]

/-- Reading undoes writing. -/
theorem value_digits (n : Nat) : value (digits n) = n := by
  induction n using Nat.strongRecOn with
  | _ n ih =>
    rw [digits_eq]
    split
    · simp [value, digitValue_digit, *]
    · rw [value_append_singleton, ih (n / 10) (by omega), digitValue_digit (by omega)]
      omega

theorem all_isDigit_digits (n : Nat) : (digits n).all isDigit = true := by
  induction n using Nat.strongRecOn with
  | _ n ih =>
    rw [digits_eq]
    split
    · simp [isDigit_digit, *]
    · simp [ih (n / 10) (by omega), isDigit_digit (show n % 10 < 10 by omega)]

theorem digits_ne_nil (n : Nat) : digits n ≠ [] := by
  rw [digits_eq]; split <;> simp

/-- An integer in decimal, with `-` before a negative one. -/
def ofInt : Int → Text
  | .ofNat n => digits n
  | .negSucc n => Text.byte '-' :: digits (n + 1)

/-- A natural number is written as itself and as no other integer. -/
theorem ofInt_eq_digits_iff {v : Int} {n : Nat} : ofInt v = digits n ↔ v = n := by
  cases v with
  | ofNat m =>
    refine ⟨fun h => ?_, fun h => congrArg digits (Int.ofNat.inj h)⟩
    have hvalue := congrArg value h
    rw [ofInt, value_digits, value_digits] at hvalue
    exact congrArg Int.ofNat hvalue
  | negSucc m =>
    refine ⟨fun h => ?_, fun h => by cases h⟩
    have hdigits := all_isDigit_digits n
    rw [← h] at hdigits
    exact absurd hdigits Bool.false_ne_true

/-- Reads one or more digits and nothing else. -/
def readNat? (t : Text) : Option Nat :=
  if t ≠ [] ∧ t.all isDigit = true then some (value t) else none

theorem readNat?_digits (n : Nat) : readNat? (digits n) = some n := by
  simp [readNat?, digits_ne_nil, all_isDigit_digits, value_digits]

/-- Does a number fit a signed 64-bit word? -/
def fitsWord (v : Int) : Bool := -0x8000000000000000 ≤ v && v ≤ 0x7FFFFFFFFFFFFFFF

/-- Reads an optional single sign and digits, as far as the number fits a word. -/
def readInt? : Text → Option Int
  | [] => none
  | b :: t =>
    let number :=
      if b = Text.byte '-' then (readNat? t).map fun n => -(n : Int)
      else if b = Text.byte '+' then (readNat? t).map fun n => (n : Int)
      else (readNat? (b :: t)).map fun n => (n : Int)
    number.filter fitsWord

/-- Reads a number from `lo` to `hi`.  A zero byte ends the text. -/
def readIn? (lo hi : Int) (t : Text) : Option Int :=
  (readInt? t.beforeNul).filter fun v => lo ≤ v && v ≤ hi

theorem readIn?_bounds {lo hi v : Int} {t : Text} (h : readIn? lo hi t = some v) :
    lo ≤ v ∧ v ≤ hi := by
  simpa using (Option.filter_eq_some_iff.1 h).2

end Decimal
end Polyphony
