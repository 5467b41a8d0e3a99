/-
# What durations are worth

A finite duration is worth a rational number of beats, and whatever finite duration comes out
of an operation is worth what that number says:

| operation | worth |
| --- | --- |
| `reduce n m` | `n / m` |
| `a + b` | the sum of both |
| `max a b` | the larger of both |
| `a < b` | comes before |
| `roundedRatio? a b`, if `a` is a whole multiple of `b` | the quotient of both |
| `toTicks` | the whole part of so many ticks, as long as it is held |

A sum or a maximum is finite only if both of its parts are (`exists_of_add_eq_finite`,
`exists_of_max_eq_finite`).
-/

import Polyphony.Duration.Order
import Polyphony.Duration.Ratio
import Polyphony.Duration.Ticks
import Mathlib.Algebra.Order.Floor.Semifield
import Mathlib.Data.Rat.Floor

namespace Polyphony

/-- How many beats a fraction is. -/
def Fraction.value (f : Fraction) : Rat := f.num / f.den

namespace Fraction

theorem den_ne_zero (f : Fraction) : (f.den : Rat) ≠ 0 := Nat.cast_ne_zero.2 f.den_pos.ne'

theorem value_eq_div_iff (f : Fraction) {num den : Nat} (h : 0 < den) :
    f.value = num / den ↔ f.num * den = num * f.den := by
  have hden : (den : Rat) ≠ 0 := Nat.cast_ne_zero.2 h.ne'
  rw [value, div_eq_div_iff f.den_ne_zero hden]
  exact_mod_cast Iff.rfl

theorem value_lt_value_iff {a b : Fraction} :
    a.value < b.value ↔ a.num * b.den < b.num * a.den := by
  have ha : (0 : Rat) < a.den := Nat.cast_pos.2 a.den_pos
  have hb : (0 : Rat) < b.den := Nat.cast_pos.2 b.den_pos
  rw [value, value, div_lt_div_iff₀ ha hb]
  exact_mod_cast Iff.rfl

/-- Numerator of a sum over the least common denominator. -/
def sumNum (f g : Fraction) : Nat :=
  f.num * (g.den / f.den.gcd g.den) + g.num * (f.den / f.den.gcd g.den)

/-- The least common denominator. -/
def sumDen (f g : Fraction) : Nat := f.den / f.den.gcd g.den * g.den

theorem sumDen_pos (f g : Fraction) : 0 < f.sumDen g :=
  Nat.mul_pos (den_div_gcd_pos f g) g.den_pos

/-- A sum over the least common denominator is worth what both parts are. -/
theorem sumNum_div_sumDen (f g : Fraction) :
    (f.sumNum g : Rat) / f.sumDen g = f.value + g.value := by
  have hf := Nat.div_mul_cancel (Nat.gcd_dvd_left f.den g.den)
  have hg := Nat.div_mul_cancel (Nat.gcd_dvd_right f.den g.den)
  rw [sumNum, sumDen]
  generalize f.den.gcd g.den = k at hf hg ⊢
  generalize f.den / k = df at hf ⊢
  generalize g.den / k = dg at hg ⊢
  have hfq : (f.den : Rat) = df * k := by exact_mod_cast hf.symm
  have hgq : (g.den : Rat) = dg * k := by exact_mod_cast hg.symm
  have hfne := f.den_ne_zero
  have hgne := g.den_ne_zero
  rw [hfq] at hfne
  rw [hgq] at hgne
  have hdf := left_ne_zero_of_mul hfne
  have hdg := left_ne_zero_of_mul hgne
  have hk := right_ne_zero_of_mul hgne
  rw [value, value, hfq, hgq]
  push_cast
  rw [hgq]
  field_simp

end Fraction

namespace Duration

variable {a b : Duration} {f g : Fraction}

/-- A reduced fraction is worth what it was before. -/
theorem value_of_reduce {num den : Nat} {den_pos : 0 < den}
    (h : reduce num den den_pos = .finite f) : f.value = num / den := by
  unfold reduce at h
  split at h
  · obtain rfl := Duration.finite.inj h
    rw [Fraction.value_eq_div_iff _ den_pos]
    have hnum := Nat.div_mul_cancel (Nat.gcd_dvd_left num den)
    have hden := Nat.div_mul_cancel (Nat.gcd_dvd_right num den)
    calc num / num.gcd den * den
        = num / num.gcd den * (den / num.gcd den * num.gcd den) := by rw [hden]
      _ = num / num.gcd den * num.gcd den * (den / num.gcd den) := by ring
      _ = num * (den / num.gcd den) := by rw [hnum]
  · cases h

theorem value_of_sum {c : Fraction} (h : f.sum g = .finite c) : c.value = f.value + g.value :=
  (value_of_reduce h).trans (f.sumNum_div_sumDen g)

/-- The parts of a finite sum are finite, and the sum is worth theirs. -/
theorem exists_of_add_eq_finite {c : Fraction} (h : a + b = .finite c) :
    ∃ f g, a = .finite f ∧ b = .finite g ∧ c.value = f.value + g.value := by
  cases a with
  | infinite => rw [infinite_add] at h; cases h
  | overflow => cases b <;> cases h
  | finite f =>
    cases b with
    | infinite => rw [add_infinite] at h; cases h
    | overflow => cases h
    | finite g => exact ⟨f, g, rfl, rfl, value_of_sum h⟩

theorem finite_lt_finite_iff_value : Duration.finite f < .finite g ↔ f.value < g.value := by
  rw [finite_lt_finite, Fraction.value_lt_value_iff]

/-- Both of two lengths are finite if the longer one is. -/
theorem exists_of_max_eq_finite {c : Fraction} (h : max a b = .finite c) :
    ∃ f g, a = .finite f ∧ b = .finite g ∧ c.value = max f.value g.value := by
  rw [max_def] at h
  split at h
  · next hlt =>
    subst h
    cases a with
    | infinite => cases hlt
    | overflow => cases hlt
    | finite f =>
      exact ⟨f, c, rfl, rfl, (max_eq_right (finite_lt_finite_iff_value.1 hlt).le).symm⟩
  · next hlt =>
    subst h
    cases b with
    | infinite => exact absurd rfl hlt
    | overflow => exact absurd rfl hlt
    | finite g =>
      rw [finite_lt_finite_iff_value, not_lt] at hlt
      exact ⟨c, g, rfl, rfl, (max_eq_left hlt).symm⟩

/-- A duration takes the whole part of its ticks, if that can be held. -/
theorem toTicks_finite (f : Fraction) (ticksPerBeat : Nat) :
    (Duration.finite f).toTicks ticksPerBeat = min ⌊f.value * ticksPerBeat⌋₊ maxTerm := by
  have hfloor : ⌊f.value * ticksPerBeat⌋₊ = f.num * ticksPerBeat / f.den := by
    rw [Fraction.value, div_mul_eq_mul_div, ← Nat.cast_mul, Nat.floor_div_eq_div]
  rw [hfloor, toTicks]

/-- The ratio of two finite lengths is the quotient of their worths. -/
theorem value_of_ratio? {p q : Nat} (h : a.ratio? b = some (p, q)) :
    ∃ f g, a = .finite f ∧ b = .finite g ∧ 0 < g.value ∧ f.value * q = p * g.value := by
  cases a with
  | infinite => cases h
  | overflow => cases h
  | finite f =>
    cases b with
    | infinite => cases h
    | overflow => cases h
    | finite g =>
      rw [ratio?] at h
      split at h
      · cases h
      · next hnum =>
        obtain ⟨rfl, rfl⟩ := Prod.mk.inj (Option.some.inj h)
        have hf := f.den_ne_zero
        have hg := g.den_ne_zero
        have hpos : 0 < g.value :=
          div_pos (Nat.cast_pos.2 (Nat.pos_of_ne_zero hnum)) (Nat.cast_pos.2 g.den_pos)
        refine ⟨f, g, rfl, rfl, hpos, ?_⟩
        rw [Fraction.value, Fraction.value]
        push_cast
        field_simp

/-- A whole multiple is worth as many of the other as the ratio says. -/
theorem value_eq_mul_of_isWholeMultiple {count : Nat} (h : a.isWholeMultiple b = true)
    (hcount : a.roundedRatio? b = some count) :
    ∃ f g, a = .finite f ∧ b = .finite g ∧ 0 < g.value ∧ f.value = count * g.value := by
  rw [isWholeMultiple] at h
  rw [roundedRatio?] at hcount
  rcases hratio : a.ratio? b with _ | ⟨p, q⟩ <;> rw [hratio] at h hcount
  · cases h
  · have hq := ratio?_den_pos hratio
    have hmod : p % q = 0 := beq_iff_eq.1 h
    simp only [Option.bind_some, hmod, Nat.sub_zero] at hcount
    rw [if_neg (Nat.not_le.2 hq), Nat.add_zero] at hcount
    split at hcount
    · obtain rfl := Option.some.inj hcount
      obtain ⟨f, g, rfl, rfl, hpos, hvalue⟩ := value_of_ratio? hratio
      have hpq : (p : Rat) = (p / q : Nat) * q := by
        exact_mod_cast (Nat.div_mul_cancel (Nat.dvd_of_mod_eq_zero hmod)).symm
      have hq' : (q : Rat) ≠ 0 := Nat.cast_ne_zero.2 hq.ne'
      refine ⟨f, g, rfl, rfl, hpos, mul_right_cancel₀ hq' ?_⟩
      rw [hvalue, hpq]
      ring
    · cases hcount

/-- What is not shorter than a length and is a multiple of it is a positive one. -/
theorem pos_of_isWholeMultiple {count : Nat} (hle : b ≤ a) (h : a.isWholeMultiple b = true)
    (hcount : a.roundedRatio? b = some count) : 0 < count := by
  obtain ⟨f, g, rfl, rfl, hpos, hvalue⟩ := value_eq_mul_of_isWholeMultiple h hcount
  by_contra hzero
  have hlt : f.value < g.value := by
    rw [hvalue, Nat.eq_zero_of_not_pos hzero, Nat.cast_zero, zero_mul]
    exact hpos
  exact hle (finite_lt_finite_iff_value.2 hlt)

end Duration
end Polyphony
