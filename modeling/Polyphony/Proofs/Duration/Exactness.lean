/-
# Sums and multiples are exact or overflow

A rational number of beats can be held if its terms fit 64 bits in lowest terms
(`Duration.Fits`).  A duration that comes out of arithmetic is either the exact result, or that
result cannot be held and the duration is `overflow` (`Duration.Holds`).  For `reduce` this is
so by definition; sums and multiples are reductions of fractions that are worth the right
number.

A sum is taken over the least common denominator.  What can still be cancelled there divides
the greatest common divisor of both denominators (`Fraction.gcd_sumNum_dvd`), so it fits 64
bits.  Hence a sum whose numerator does not fit 128 bits before it is reduced does not fit 64
bits after (`Fraction.not_fits_of_maxWide_lt`).
-/

import Polyphony.Proofs.Duration.Order
import Mathlib.Data.Nat.Cast.Field
import Mathlib.Data.Nat.GCD.Basic

namespace Polyphony

/-- Largest 128-bit number. -/
def maxWide : Nat := 0xFFFFFFFFFFFFFFFFFFFFFFFFFFFFFFFF

theorem maxTerm_mul_le_maxWide {m n : Nat} (hm : m ≤ maxTerm) (hn : n ≤ maxTerm) :
    m * n ≤ maxWide :=
  (Nat.mul_le_mul hm hn).trans (by decide)

namespace Duration

/-- Can so many beats be held? -/
def Fits (worth : Rat) : Prop := worth.num ≤ maxTerm ∧ worth.den ≤ maxTerm

instance (worth : Rat) : Decidable (Fits worth) :=
  inferInstanceAs (Decidable (worth.num ≤ maxTerm ∧ worth.den ≤ maxTerm))

/-- `d` is so many beats, or `overflow` if these cannot be held. -/
structure Holds (d : Duration) (worth : Rat) : Prop where
  /-- What can be held is held exactly. -/
  exact : Fits worth → ∃ f, d = .finite f ∧ f.value = worth
  /-- Nothing but what cannot be held overflows. -/
  overflow_iff : d = .overflow ↔ ¬ Fits worth

/-- A quotient in lowest terms has both of its terms divided by what they have in common. -/
theorem num_den_div (num : Nat) {den : Nat} (h : 0 < den) :
    ((num : Rat) / den).num = (num / num.gcd den : Nat) ∧
      ((num : Rat) / den).den = den / num.gcd den := by
  have hgcd : 0 < num.gcd den := Nat.gcd_pos_of_pos_right num h
  have hcoprime := Nat.coprime_div_gcd_div_gcd hgcd
  have hpos : 0 < den / num.gcd den := Nat.div_pos (Nat.gcd_le_right num h) hgcd
  have hcast : ((num.gcd den : Nat) : Rat) ≠ 0 := Nat.cast_ne_zero.2 hgcd.ne'
  have hvalue : (num : Rat) / den =
      ((num / num.gcd den : Nat) : Int) / ((den / num.gcd den : Nat) : Int) := by
    rw [Int.cast_natCast, Int.cast_natCast, Nat.cast_div (Nat.gcd_dvd_left num den) hcast,
      Nat.cast_div (Nat.gcd_dvd_right num den) hcast, div_div_div_cancel_right₀ hcast]
  rw [hvalue]
  refine ⟨Rat.num_div_eq_of_coprime (Int.natCast_pos.2 hpos) hcoprime, ?_⟩
  exact Int.natCast_inj.1 (Rat.den_div_eq_of_coprime (Int.natCast_pos.2 hpos) hcoprime)

theorem fits_div_iff (num : Nat) {den : Nat} (h : 0 < den) :
    Fits ((num : Rat) / den) ↔ num / num.gcd den ≤ maxTerm ∧ den / num.gcd den ≤ maxTerm := by
  obtain ⟨hnum, hden⟩ := num_den_div num h
  rw [Fits, hnum, hden, Int.ofNat_le]

/-- A reduction is exact, or its result cannot be held. -/
theorem holds_reduce (num : Nat) {den : Nat} (h : 0 < den) :
    Holds (reduce num den h) (num / den) := by
  have hiff := fits_div_iff num h
  by_cases hfits : Fits ((num : Rat) / den)
  · obtain ⟨f, hreduce⟩ : ∃ f, reduce num den h = .finite f := ⟨_, dif_pos (hiff.1 hfits)⟩
    rw [hreduce]
    exact ⟨fun _ => ⟨f, rfl, value_of_reduce hreduce⟩,
      iff_of_false Duration.noConfusion (not_not.2 hfits)⟩
  · have hreduce : reduce num den h = .overflow := dif_neg (mt hiff.2 hfits)
    exact ⟨fun h => absurd h hfits, iff_of_true hreduce hfits⟩

/-- There is one duration for each number of beats. -/
theorem Holds.unique {a b : Duration} {worth : Rat} (ha : a.Holds worth) (hb : b.Holds worth) :
    a = b := by
  by_cases hfits : Fits worth
  · obtain ⟨f, rfl, hf⟩ := ha.exact hfits
    obtain ⟨g, rfl, hg⟩ := hb.exact hfits
    exact congrArg finite (Fraction.value_injective (hf.trans hg.symm))
  · rw [ha.overflow_iff.2 hfits, hb.overflow_iff.2 hfits]

theorem holds_finite (f : Fraction) : (finite f).Holds f.value := by
  have h := holds_reduce f.num f.den_pos
  rwa [reduce_fraction] at h

theorem holds_ofFraction? {num den : Nat} {d : Duration} (h : ofFraction? num den = some d) :
    Holds d (num / den) := by
  rw [ofFraction?] at h
  split at h
  · next hden => exact Option.some.inj h ▸ holds_reduce num hden
  · cases h

/-- A multiple is exact, or cannot be held. -/
theorem holds_scale (f : Fraction) (count : Nat) :
    Holds ((finite f).scale count) (f.value * count) := by
  by_cases hcount : count = 0
  · subst hcount
    have hzero := holds_reduce 0 Nat.one_pos
    rwa [Nat.cast_zero, zero_div, ← mul_zero f.value, ← Nat.cast_zero] at hzero
  · rw [scale, if_neg hcount, Fraction.value, div_mul_eq_mul_div, ← Nat.cast_mul]
    exact holds_reduce _ f.den_pos

end Duration

namespace Fraction

variable (f g : Fraction)

/-- A sum is exact, or cannot be held. -/
theorem holds_sum : (f.sum g).Holds (f.value + g.value) :=
  f.sumNum_div_sumDen g ▸ Duration.holds_reduce _ (f.sumDen_pos g)

/-- Three parts of a beat by different primes can be added, and a fourth one is too much. -/
example : Duration.Fits ((1 : Rat) / 999983 + 1 / 999979 + 1 / 999961) ∧
    ¬ Duration.Fits ((1 : Rat) / 999983 + 1 / 999979 + 1 / 999961 + 1 / 999959) := by
  decide +kernel

/-- Over the least common denominator nothing can be cancelled but what both denominators had
in common. -/
theorem gcd_sumNum_dvd : (f.sumNum g).gcd (f.sumDen g) ∣ f.den.gcd g.den := by
  have hk : 0 < f.den.gcd g.den := Nat.gcd_pos_of_pos_left _ f.den_pos
  have hparts := Nat.coprime_div_gcd_div_gcd hk
  have hf := Nat.div_mul_cancel (Nat.gcd_dvd_left f.den g.den)
  have hg := Nat.div_mul_cancel (Nat.gcd_dvd_right f.den g.den)
  have hfnum := f.coprime
  have hgnum := g.coprime
  rw [sumNum, sumDen]
  generalize f.den.gcd g.den = k at *
  generalize f.den / k = df at *
  generalize g.den / k = dg at *
  rw [← hf] at hfnum
  rw [← hg] at hgnum ⊢
  -- A factor of one part divides one summand of the numerator and is coprime to the other.
  have hdf : (f.num * dg + g.num * df).Coprime df :=
    (Nat.coprime_add_mul_right_left ..).2
      (hfnum.coprime_mul_right_right.mul_left hparts.symm)
  have hdg : (f.num * dg + g.num * df).Coprime dg := by
    rw [Nat.add_comm]
    exact (Nat.coprime_add_mul_right_left ..).2 (hgnum.coprime_mul_right_right.mul_left hparts)
  refine ((hdf.mul_right hdg).coprime_dvd_left (Nat.gcd_dvd_left ..)).dvd_of_dvd_mul_left ?_
  rw [Nat.mul_assoc]
  exact Nat.gcd_dvd_right ..

/-- A sum that does not fit 128 bits over the least common denominator cannot be held. -/
theorem not_fits_of_maxWide_lt (h : maxWide < f.sumNum g) :
    ¬ Duration.Fits (f.value + g.value) := by
  rw [← sumNum_div_sumDen, Duration.fits_div_iff _ (f.sumDen_pos g)]
  rintro ⟨hnum, -⟩
  have hgcd : (f.sumNum g).gcd (f.sumDen g) ≤ maxTerm :=
    (Nat.le_of_dvd (Nat.gcd_pos_of_pos_left _ f.den_pos) (f.gcd_sumNum_dvd g)).trans
      ((Nat.gcd_le_left _ f.den_pos).trans f.den_le)
  have hprod := maxTerm_mul_le_maxWide hnum hgcd
  rw [Nat.div_mul_cancel (Nat.gcd_dvd_left ..)] at hprod
  exact absurd hprod (Nat.not_le.2 h)

/-- There are such sums, also of fractions that are worth about one. -/
example : maxWide < sumNum ⟨maxTerm, maxTerm - 1, by decide, by decide, by decide, by decide⟩
    ⟨maxTerm, maxTerm - 2, by decide, by decide, by decide, by decide⟩ := by decide

end Fraction
end Polyphony
