/-
# Durations

A duration is a number of beats, an explicit infinity, or the mark of a sum that
grew too large.  Finite durations are fractions in lowest terms whose two terms
fit 64 bits.  Every operation is exact on the rationals first and looks only then
whether the result fits (`reduce`); what does not fit is `overflow`, and it stays
so in further finite arithmetic.

| operation | `infinite` with anything | else `overflow` with anything | else |
| --- | --- | --- | --- |
| `a + b` | `infinite` | `overflow` | `reduce` of the sum |
| `a.scale n`, `n > 0` | `infinite` | `overflow` | `reduce` of the product |
| `a.scale 0` | zero | zero | zero |
-/

import Polyphony.Text.Decimal

namespace Polyphony

/-- Largest numerator and denominator of a duration, the largest 64-bit number. -/
def maxTerm : Nat := 0xFFFFFFFFFFFFFFFF

/-- A fraction in lowest terms, both of which fit 64 bits.  Zero is `0/1`. -/
structure Fraction where
  /-- Numerator. -/
  num : Nat
  /-- Denominator. -/
  den : Nat
  den_pos : 0 < den
  coprime : Nat.Coprime num den
  num_le : num ≤ maxTerm
  den_le : den ≤ maxTerm
deriving DecidableEq

theorem Fraction.ext {a b : Fraction} (hn : a.num = b.num) (hd : a.den = b.den) : a = b := by
  cases a; cases b; cases hn; cases hd; rfl

/-- A length of musical time, counted in beats. -/
inductive Duration where
  /-- Exactly this many beats. -/
  | finite (beats : Fraction)
  /-- Too many beats, or too fine a part of one, to be held exactly. -/
  | overflow
  /-- The length of what never ends. -/
  | infinite
deriving DecidableEq

namespace Duration

/-- `num / den` beats in lowest terms, or `overflow` if a lowest term does not fit. -/
def reduce (num den : Nat) (den_pos : 0 < den) : Duration :=
  if fits : num / num.gcd den ≤ maxTerm ∧ den / num.gcd den ≤ maxTerm then
    .finite
      { num := num / num.gcd den
        den := den / num.gcd den
        den_pos := Nat.div_pos (Nat.le_of_dvd den_pos (Nat.gcd_dvd_right num den))
          (Nat.gcd_pos_of_pos_right num den_pos)
        coprime := Nat.coprime_div_gcd_div_gcd (Nat.gcd_pos_of_pos_right num den_pos)
        num_le := fits.1
        den_le := fits.2 }
  else .overflow

/-- `num / den` beats; there is no such duration over zero. -/
def ofFraction? (num den : Nat) : Option Duration :=
  if den_pos : 0 < den then some (reduce num den den_pos) else none

theorem ofFraction?_eq_none_iff {num den : Nat} : ofFraction? num den = none ↔ den = 0 := by
  unfold ofFraction?; split <;> simp <;> omega

/-- A whole number of beats. -/
def ofBeats (n : Nat) : Duration := reduce n 1 Nat.one_pos

/-- No beats at all. -/
def zero : Duration := ofBeats 0

instance : Inhabited Duration := ⟨zero⟩

/-- Does it last no beats? -/
def isZero : Duration → Bool
  | .finite f => f.num == 0
  | _ => false

/-- Does it never end? -/
def isInfinite : Duration → Bool
  | .infinite => true
  | _ => false

/-- Is it too large to be held exactly? -/
def isOverflow : Duration → Bool
  | .overflow => true
  | _ => false

/-- A fraction in lowest terms is its own reduction. -/
theorem reduce_fraction (f : Fraction) : reduce f.num f.den f.den_pos = .finite f := by
  have h := f.coprime
  unfold Nat.Coprime at h
  simp [reduce, h, f.num_le, f.den_le]

theorem isZero_iff {d : Duration} : d.isZero = true ↔ d = zero := by
  constructor
  · intro h
    cases d with
    | finite f =>
      have hn : f.num = 0 := by simpa [isZero] using h
      have hd : f.den = 1 := by
        have := f.coprime
        rwa [hn, Nat.coprime_zero_left] at this
      rw [← reduce_fraction f]
      simp [hn, hd, zero, ofBeats]
    | overflow => simp [isZero] at h
    | infinite => simp [isZero] at h
  · rintro rfl
    decide

end Duration

namespace Fraction

theorem den_div_gcd_pos (a b : Fraction) : 0 < a.den / a.den.gcd b.den :=
  Nat.div_pos (Nat.le_of_dvd a.den_pos (Nat.gcd_dvd_left ..)) (Nat.gcd_pos_of_pos_left _ a.den_pos)

/-- Sum of two fractions, taken over their least common denominator. -/
def sum (a b : Fraction) : Duration :=
  .reduce (a.num * (b.den / a.den.gcd b.den) + b.num * (a.den / a.den.gcd b.den))
    (a.den / a.den.gcd b.den * b.den) (Nat.mul_pos (den_div_gcd_pos a b) b.den_pos)

end Fraction

namespace Duration

/-- One duration after the other. -/
def add : Duration → Duration → Duration
  | .infinite, _ => .infinite
  | _, .infinite => .infinite
  | .overflow, _ => .overflow
  | _, .overflow => .overflow
  | .finite a, .finite b => a.sum b

instance : Add Duration := ⟨add⟩

/-- A duration `count` times over; no times anything is zero. -/
def scale (d : Duration) (count : Nat) : Duration :=
  if count = 0 then zero
  else match d with
    | .finite f => reduce (f.num * count) f.den f.den_pos
    | .overflow => .overflow
    | .infinite => .infinite

@[simp] theorem infinite_add (d : Duration) : .infinite + d = (.infinite : Duration) := by
  cases d <;> rfl

@[simp] theorem add_infinite (d : Duration) : d + .infinite = (.infinite : Duration) := by
  cases d <;> rfl

@[simp] theorem finite_add_finite (a b : Fraction) :
    Duration.finite a + Duration.finite b = a.sum b := rfl

end Duration
end Polyphony
