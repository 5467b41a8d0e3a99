/-
# Counting ticks

A duration of `d` beats takes the whole part of `d * t` ticks at `t` ticks in a beat, and the
count stops at the largest 64-bit number.  Whatever is no fraction of beats takes that many.  So
the count follows the order of durations to its very end: what is longer never takes fewer ticks,
also if it is too large or never ends.

Each count loses less than a tick.  Two durations lose less than two ticks if they are counted
apart and less than one if they are counted together, so the two counts are apart by a tick at
most.

| ticks of `a + b` | hold of |
| --- | --- |
| at least those of `a` and those of `b`, as far as such a number can be counted | all durations |
| at most one more | durations whose sum is not too large |

A sum that is too large takes all the ticks there are, even where neither part takes one.

The machine multiplies before it divides, in 128 bits.  Resolutions have 32 bits, so the product
needs 96 of them at most.
-/

import Polyphony.Proofs.Duration.Comparison
import Polyphony.Proofs.Piece.Length

namespace Polyphony

/-! ### In machine words -/

namespace Words

open Duration

/-- Ticks that a duration takes at a resolution. -/
def toTicks (a : Words) (ticksPerBeat : UInt32) : Except Trap UInt64 :=
  if a.infinite || a.overflow then return maxTerm.toUInt64
  else do
    let ticks ← Wide.div (← Wide.mul a.num.toNat ticksPerBeat.toNat) a.den.toNat
    if maxTerm < ticks then return maxTerm.toUInt64
    return ticks.toUInt64

/-- The machine counts ticks as it should. -/
theorem toTicks_words (a : Duration) (ticksPerBeat : UInt32) :
    (toTicks a.words ticksPerBeat).map UInt64.toNat = .ok (a.toTicks ticksPerBeat.toNat) := by
  cases a with
  | infinite => rfl
  | overflow => rfl
  | finite f =>
    have hresolution : ticksPerBeat.toNat ≤ maxTerm :=
      (Nat.le_of_lt_succ ticksPerBeat.toNat_lt).trans (by decide)
    have hproduct : f.num * ticksPerBeat.toNat ≤ maxWide :=
      maxTerm_mul_le_maxWide f.num_le hresolution
    simp only [toTicks, infinite_words, overflow_words, Bool.or_self, Bool.false_eq_true, if_false,
      toNat_num_words, toNat_den_words, Wide.mul_of_le hproduct, Wide.div_of_pos f.den_pos, bind,
      Except.bind]
    rw [Duration.toTicks]
    by_cases hlarge : maxTerm < f.num * ticksPerBeat.toNat / f.den
    · rw [if_pos hlarge, Nat.min_eq_right hlarge.le]
      rfl
    · have hfits := Nat.not_lt.1 hlarge
      rw [if_neg hlarge, Nat.min_eq_left hfits]
      exact congrArg Except.ok (toNat_toUInt64_of_le hfits)

end Words

namespace Duration

/-! ### The count and the order -/

/-- What is longer never takes fewer ticks. -/
theorem monotone_toTicks (ticksPerBeat : Nat) : Monotone fun d => toTicks d ticksPerBeat := by
  intro a b hle
  cases b with
  | overflow => exact toTicks_le a ticksPerBeat
  | infinite => exact toTicks_le a ticksPerBeat
  | finite g =>
    cases a with
    | overflow => exact absurd (Duration.finite_lt_overflow g) hle
    | infinite => exact absurd rfl hle
    | finite f =>
      have hvalue : f.value ≤ g.value := not_lt.1 (mt finite_lt_finite_iff_value.2 hle)
      have hfloor : ⌊f.value * ticksPerBeat⌋₊ ≤ ⌊g.value * ticksPerBeat⌋₊ :=
        Nat.floor_mono (mul_le_mul_of_nonneg_right hvalue (Nat.cast_nonneg ticksPerBeat))
      simp only [toTicks_finite]
      exact min_le_min_right maxTerm hfloor

/-- The finer the ticks, the more of them. -/
theorem monotone_toTicks_resolution (d : Duration) : Monotone d.toTicks := by
  intro s t hle
  cases d with
  | overflow => exact le_rfl
  | infinite => exact le_rfl
  | finite f =>
    have hproduct : f.num * s ≤ f.num * t := Nat.mul_le_mul_left f.num hle
    exact min_le_min_right maxTerm (Nat.div_le_div_right hproduct)

/-! ### The count and sums -/

variable {a b : Duration} {f g c : Fraction}

theorem value_mul_nonneg (f : Fraction) (ticksPerBeat : Nat) : 0 ≤ f.value * ticksPerBeat :=
  mul_nonneg f.value_nonneg (Nat.cast_nonneg ticksPerBeat)

/-- Whole parts of ticks, added before and after they are cut down. -/
theorem floor_add_bounds (hvalue : c.value = f.value + g.value) (ticksPerBeat : Nat) :
    ⌊f.value * ticksPerBeat⌋₊ + ⌊g.value * ticksPerBeat⌋₊ ≤ ⌊c.value * ticksPerBeat⌋₊ ∧
      ⌊c.value * ticksPerBeat⌋₊ ≤
        ⌊f.value * ticksPerBeat⌋₊ + ⌊g.value * ticksPerBeat⌋₊ + 1 := by
  have hf := value_mul_nonneg f ticksPerBeat
  have hg := value_mul_nonneg g ticksPerBeat
  rw [hvalue, add_mul]
  constructor
  · refine Nat.le_floor ?_
    rw [Nat.cast_add]
    exact add_le_add (Nat.floor_le hf) (Nat.floor_le hg)
  · refine Nat.le_of_lt_succ ((Nat.floor_lt (add_nonneg hf hg)).2 ?_)
    have hf_lt := Nat.lt_floor_add_one (f.value * ticksPerBeat)
    have hg_lt := Nat.lt_floor_add_one (g.value * ticksPerBeat)
    push_cast
    linarith

/-- Counted together, two durations take no fewer ticks than counted apart, as far as these can be
counted. -/
theorem min_add_toTicks_le (a b : Duration) (ticksPerBeat : Nat) :
    min (a.toTicks ticksPerBeat + b.toTicks ticksPerBeat) maxTerm ≤
      (a + b).toTicks ticksPerBeat := by
  cases hsum : a + b with
  | overflow => exact min_le_right ..
  | infinite => exact min_le_right ..
  | finite c =>
    obtain ⟨f, g, rfl, rfl, hvalue⟩ := exists_of_add_eq_finite hsum
    have hfloor := (floor_add_bounds hvalue ticksPerBeat).1
    rw [toTicks_finite, toTicks_finite, toTicks_finite]
    omega

/-- Counted together, two durations take at most one tick more than counted apart. -/
theorem toTicks_add_le (h : a + b ≠ .overflow) (ticksPerBeat : Nat) :
    (a + b).toTicks ticksPerBeat ≤ a.toTicks ticksPerBeat + b.toTicks ticksPerBeat + 1 := by
  cases hsum : a + b with
  | overflow => exact absurd hsum h
  | infinite =>
    have hall : infinite.toTicks ticksPerBeat = maxTerm := rfl
    rcases add_eq_infinite_iff.1 hsum with rfl | rfl <;> omega
  | finite c =>
    obtain ⟨f, g, rfl, rfl, hvalue⟩ := exists_of_add_eq_finite hsum
    have hfloor := (floor_add_bounds hvalue ticksPerBeat).2
    rw [toTicks_finite, toTicks_finite, toTicks_finite]
    omega

/-- What counting ticks is held to. -/
structure TickLaws : Prop where
  /-- A fraction of beats takes the whole part of its ticks, as far as it can be counted. -/
  toTicks_finite : ∀ (f : Fraction) (ticksPerBeat : Nat),
    (finite f).toTicks ticksPerBeat = min ⌊f.value * ticksPerBeat⌋₊ maxTerm
  /-- What is too large takes as many ticks as can be counted. -/
  toTicks_overflow : ∀ ticksPerBeat : Nat, overflow.toTicks ticksPerBeat = maxTerm
  /-- So does what never ends. -/
  toTicks_infinite : ∀ ticksPerBeat : Nat, infinite.toTicks ticksPerBeat = maxTerm
  /-- The count follows the order of all durations. -/
  monotone : ∀ ticksPerBeat : Nat, Monotone fun d => toTicks d ticksPerBeat
  /-- The count follows the resolution. -/
  monotone_resolution : ∀ d : Duration, Monotone d.toTicks
  /-- If a sum of fractions is one and its ticks can be counted, it takes the ticks of its parts or
  one more. -/
  toTicks_sum : ∀ (f g c : Fraction) (ticksPerBeat : Nat), finite f + finite g = finite c →
    ⌊c.value * ticksPerBeat⌋₊ ≤ maxTerm →
    (finite f).toTicks ticksPerBeat + (finite g).toTicks ticksPerBeat ≤
        (finite c).toTicks ticksPerBeat ∧
      (finite c).toTicks ticksPerBeat ≤
        (finite f).toTicks ticksPerBeat + (finite g).toTicks ticksPerBeat + 1
  /-- The lower bound holds of all sums as far as the ticks of the parts can be counted. -/
  min_add_le : ∀ (a b : Duration) (ticksPerBeat : Nat),
    min (a.toTicks ticksPerBeat + b.toTicks ticksPerBeat) maxTerm ≤ (a + b).toTicks ticksPerBeat
  /-- The upper bound holds of all sums that are not too large. -/
  le_add : ∀ (a b : Duration) (ticksPerBeat : Nat), a + b ≠ overflow →
    (a + b).toTicks ticksPerBeat ≤ a.toTicks ticksPerBeat + b.toTicks ticksPerBeat + 1
  /-- The machine counts the same ticks, and nothing wraps around on the way. -/
  toTicks_words : ∀ (a : Duration) (ticksPerBeat : UInt32),
    (a.words.toTicks ticksPerBeat).map UInt64.toNat = .ok (a.toTicks ticksPerBeat.toNat)

/-- **Ticks are counted exactly** as far as they can be counted, in the order of durations, and a
sum takes the ticks of its parts or one more. -/
theorem tickLaws : TickLaws where
  toTicks_finite := Duration.toTicks_finite
  toTicks_overflow _ := rfl
  toTicks_infinite _ := rfl
  monotone := monotone_toTicks
  monotone_resolution := monotone_toTicks_resolution
  toTicks_sum f g c ticksPerBeat hsum hfits := by
    obtain ⟨hlower, hupper⟩ := floor_add_bounds (value_of_sum hsum) ticksPerBeat
    rw [Duration.toTicks_finite, Duration.toTicks_finite, Duration.toTicks_finite]
    constructor <;> omega
  min_add_le := min_add_toTicks_le
  le_add _ _ ticksPerBeat h := toTicks_add_le h ticksPerBeat
  toTicks_words := Words.toTicks_words

/-- Two halves of a beat, at one tick in a beat, take no tick apart and one together. -/
theorem tickLaws_of_halves : ∃ half whole : Fraction,
    finite half = reduce 1 2 (by decide) ∧ finite half + finite half = finite whole ∧
      ⌊whole.value * (1 : Nat)⌋₊ ≤ maxTerm ∧
      ((finite half).toTicks 1 + (finite half).toTicks 1 ≤ (finite whole).toTicks 1 ∧
        (finite whole).toTicks 1 ≤ (finite half).toTicks 1 + (finite half).toTicks 1 + 1) ∧
      (finite half).toTicks 1 = 0 ∧ (finite whole).toTicks 1 = 1 := by
  let half : Fraction := ⟨1, 2, by decide, by decide, by decide, by decide⟩
  let whole : Fraction := ⟨1, 1, by decide, by decide, by decide, by decide⟩
  have hsum : finite half + finite half = finite whole := by decide +kernel
  have hfits : ⌊whole.value * (1 : Nat)⌋₊ ≤ maxTerm := by norm_num [whole, Fraction.value, maxTerm]
  exact ⟨half, whole, by decide +kernel, hsum, hfits,
    tickLaws.toTicks_sum half half whole 1 hsum hfits, by decide, by decide⟩

/-- Two parts of a beat whose sum is too large take no tick apart and all of them together. -/
example : (reduce 1 maxTerm (by decide)).toTicks 1 = 0 ∧
    (reduce 1 (maxTerm - 1) (by decide)).toTicks 1 = 0 ∧
    (reduce 1 maxTerm (by decide) + reduce 1 (maxTerm - 1) (by decide)).toTicks 1 = maxTerm := by
  decide +kernel

end Duration
end Polyphony
