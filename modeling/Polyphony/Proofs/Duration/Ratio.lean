/-
# How often one length goes into another

Both questions about `longer` and `shorter` are answered as over the rationals:

| question | answer |
| --- | --- |
| `roundedRatio?` | the whole part of `longer / shorter + 1/2`, if it fits 64 bits |
| `isWholeMultiple` | is there a number of times that `shorter` is `longer`? |

So many times `shorter` is at most half of `shorter` away from `longer`
(`abs_rounds_mul_sub_le`), and exactly `longer` if that is a whole multiple
(`scale_of_isWholeMultiple`).  A whole multiple need not have a ratio that can be held.
-/

import Polyphony.Proofs.Duration.Exactness

namespace Polyphony
namespace Duration

variable {a b : Duration} {f g : Fraction} {count : Nat}

/-- How often `part` goes into `whole`, to the nearest number of times, a half going up. -/
def rounds (whole part : Rat) : Nat := ⌊whole / part + 1 / 2⌋₊

/-- Rounding up from half of the divisor on is taking the whole part of a half more. -/
theorem rounds_eq (p : Nat) {q : Nat} (h : 0 < q) :
    rounds p q = p / q + if q - p % q ≤ p % q then 1 else 0 := by
  have hq : (q : Rat) ≠ 0 := Nat.cast_ne_zero.2 h.ne'
  have hhalf : (p : Rat) / q + 1 / 2 = (2 * p + q : Nat) / (2 * q : Nat) := by
    push_cast
    field_simp
  have hmod := Nat.mod_lt p h
  have hdiv := Nat.div_add_mod p q
  rw [rounds, hhalf, Nat.floor_div_eq_div]
  split
  · next hup =>
    refine Nat.div_eq_of_lt_le ?_ ?_
    · calc (p / q + 1) * (2 * q) = 2 * (q * (p / q)) + 2 * q := by ring
        _ ≤ 2 * p + q := by omega
    · calc 2 * p + q < 2 * (q * (p / q)) + 4 * q := by omega
        _ = (p / q + 1 + 1) * (2 * q) := by ring
  · next hdown =>
    refine Nat.div_eq_of_lt_le ?_ ?_
    · calc (p / q + 0) * (2 * q) = 2 * (q * (p / q)) := by ring
        _ ≤ 2 * p + q := by omega
    · calc 2 * p + q < 2 * (q * (p / q)) + 2 * q := by omega
        _ = (p / q + 0 + 1) * (2 * q) := by ring

/-- So many rounds miss the whole by at most half a part. -/
theorem abs_rounds_mul_sub_le {whole part : Rat} (hwhole : 0 ≤ whole) (hpart : 0 < part) :
    |rounds whole part * part - whole| ≤ part / 2 := by
  have hnonneg : 0 ≤ whole / part + 1 / 2 := by positivity
  have hlow := Nat.floor_le hnonneg
  have hhigh := Nat.lt_floor_add_one (whole / part + 1 / 2)
  have hquot : whole = whole / part * part := (div_mul_cancel₀ whole hpart.ne').symm
  have hmiss : rounds whole part * part - whole =
      ((⌊whole / part + 1 / 2⌋₊ : Rat) - whole / part) * part := by
    rw [sub_mul, ← hquot, rounds]
  have hclose : |(⌊whole / part + 1 / 2⌋₊ : Rat) - whole / part| ≤ 1 / 2 :=
    abs_le.2 ⟨by linarith, by linarith⟩
  calc |rounds whole part * part - whole|
      = |(⌊whole / part + 1 / 2⌋₊ : Rat) - whole / part| * part := by
        rw [hmiss, abs_mul, abs_of_pos hpart]
    _ ≤ 1 / 2 * part := mul_le_mul_of_nonneg_right hclose hpart.le
    _ = part / 2 := by ring

/-- A part that is not longer than the whole goes into it at least once. -/
theorem rounds_pos {whole part : Rat} (hpart : 0 < part) (hle : part ≤ whole) :
    1 ≤ rounds whole part := by
  have hone : 1 ≤ whole / part := (one_le_div hpart).2 hle
  refine Nat.le_floor ?_
  push_cast
  linarith

/-- A whole number of times is its own rounding. -/
theorem rounds_mul (count : Nat) {part : Rat} (hpart : 0 < part) :
    rounds (count * part) part = count := by
  rw [rounds, mul_div_cancel_right₀ _ hpart.ne', add_comm, Nat.floor_add_natCast (by norm_num)]
  norm_num

/-- Cross products are in the ratio of the worths. -/
theorem cross_div_cross (f g : Fraction) :
    ((f.num * g.den : Nat) : Rat) / (f.den * g.num : Nat) = f.value / g.value := by
  rw [Fraction.value, Fraction.value, div_div_div_eq, Nat.cast_mul, Nat.cast_mul]

theorem num_ne_zero_iff : g.num ≠ 0 ↔ 0 < g.value := by
  rw [Fraction.value, div_pos_iff_of_pos_right (Nat.cast_pos.2 g.den_pos), Nat.cast_pos,
    Nat.pos_iff_ne_zero]

theorem ratio?_finite (hg : 0 < g.value) :
    (finite f).ratio? (finite g) = some (f.num * g.den, f.den * g.num) :=
  if_neg (num_ne_zero_iff.2 hg)

/-- Nothing goes into anything a number of times if it lasts no beats. -/
theorem roundedRatio?_of_not_pos (hg : ¬ 0 < g.value) :
    (finite f).roundedRatio? (finite g) = none := by
  rw [roundedRatio?, ratio?, if_pos (not_not.1 (mt num_ne_zero_iff.1 hg)), Option.bind_none]

/-- The rounded ratio is the one over the rationals, if it can be held. -/
theorem roundedRatio?_finite (hg : 0 < g.value) : (finite f).roundedRatio? (finite g) =
    if rounds f.value g.value ≤ maxTerm then some (rounds f.value g.value) else none := by
  have hq : 0 < f.den * g.num :=
    Nat.mul_pos f.den_pos (Nat.pos_of_ne_zero (num_ne_zero_iff.2 hg))
  have hrounds : rounds f.value g.value = rounds (f.num * g.den : Nat) (f.den * g.num : Nat) := by
    rw [rounds, rounds, cross_div_cross]
  rw [roundedRatio?, ratio?_finite hg, hrounds, rounds_eq _ hq]
  rfl

/-- A length is a whole multiple of another exactly if it is its rounded ratio times it. -/
theorem isWholeMultiple_finite_iff (hg : 0 < g.value) :
    (finite f).isWholeMultiple (finite g) = true ↔ rounds f.value g.value * g.value = f.value := by
  have hq : ((f.den * g.num : Nat) : Rat) ≠ 0 :=
    Nat.cast_ne_zero.2 (Nat.mul_pos f.den_pos (Nat.pos_of_ne_zero (num_ne_zero_iff.2 hg))).ne'
  have hmul : ∀ count : Nat, f.num * g.den = count * (f.den * g.num) ↔
      count * g.value = f.value := by
    intro count
    rw [← eq_div_iff hg.ne', ← cross_div_cross, eq_div_iff hq, eq_comm]
    exact_mod_cast Iff.rfl
  simp only [isWholeMultiple, ratio?_finite hg, beq_iff_eq]
  rw [← Nat.dvd_iff_mod_eq_zero]
  constructor
  · rintro ⟨count, hcount⟩
    have hvalue := (hmul count).1 (hcount.trans (Nat.mul_comm _ _))
    rw [← hvalue, rounds_mul count hg]
  · intro h
    exact Dvd.intro_left _ ((hmul _).2 h).symm

/-- The rounded ratio is the whole part of half more than the quotient. -/
theorem roundedRatio?_eq_some_iff : a.roundedRatio? b = some count ↔
    ∃ f g, a = .finite f ∧ b = .finite g ∧ g.value ≠ 0 ∧
      (count : Int) = ⌊f.value / g.value + 1 / 2⌋ ∧ count ≤ maxTerm := by
  have hfloor : ∀ f g : Fraction,
      (count : Int) = ⌊f.value / g.value + 1 / 2⌋ ↔ count = rounds f.value g.value := by
    intro f g
    have hnonneg : 0 ≤ f.value / g.value + 1 / 2 :=
      add_nonneg (div_nonneg f.value_nonneg g.value_nonneg) (by norm_num)
    rw [rounds, ← Int.natCast_floor_eq_floor hnonneg, Int.natCast_inj]
  constructor
  · intro h
    cases hratio : a.ratio? b with
    | none =>
      rw [roundedRatio?, hratio] at h
      cases h
    | some terms =>
      obtain ⟨f, g, rfl, rfl, hpos, -⟩ := value_of_ratio? hratio
      rw [roundedRatio?_finite hpos, Option.ite_none_right_eq_some, Option.some.injEq] at h
      obtain ⟨hfits, rfl⟩ := h
      exact ⟨f, g, rfl, rfl, hpos.ne', (hfloor f g).2 rfl, hfits⟩
  · rintro ⟨f, g, rfl, rfl, hne, hcount, hfits⟩
    rw [hfloor] at hcount
    subst hcount
    rw [roundedRatio?_finite (g.value_nonneg.lt_of_ne' hne), if_pos hfits]

/-- A whole multiple is a natural number of times the other. -/
theorem isWholeMultiple_iff : a.isWholeMultiple b = true ↔
    ∃ f g, a = .finite f ∧ b = .finite g ∧ g.value ≠ 0 ∧ ∃ k : Nat, f.value = k * g.value := by
  constructor
  · intro h
    cases hratio : a.ratio? b with
    | none =>
      rw [isWholeMultiple, hratio] at h
      cases h
    | some terms =>
      obtain ⟨f, g, rfl, rfl, hpos, -⟩ := value_of_ratio? hratio
      exact ⟨f, g, rfl, rfl, hpos.ne', _, ((isWholeMultiple_finite_iff hpos).1 h).symm⟩
  · rintro ⟨f, g, rfl, rfl, hne, k, hk⟩
    have hpos := g.value_nonneg.lt_of_ne' hne
    rw [isWholeMultiple_finite_iff hpos, hk, rounds_mul k hpos]

/-- The longest duration is a whole multiple of the shortest one, more often than can be held. -/
example : (ofBeats maxTerm).isWholeMultiple (reduce 1 maxTerm (by decide)) = true ∧
    (ofBeats maxTerm).roundedRatio? (reduce 1 maxTerm (by decide)) = none := by decide +kernel

/-- A whole multiple is so many times the other. -/
theorem scale_of_isWholeMultiple (h : a.isWholeMultiple b = true)
    (hcount : a.roundedRatio? b = some count) : b.scale count = a := by
  obtain ⟨f, g, rfl, rfl, -, hvalue⟩ := value_eq_mul_of_isWholeMultiple h hcount
  have hscale := holds_scale g count
  rw [mul_comm, ← hvalue] at hscale
  exact hscale.unique (holds_finite f)

end Duration
end Polyphony
