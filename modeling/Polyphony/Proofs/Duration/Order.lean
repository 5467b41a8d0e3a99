/-
# Where durations stand

Durations stand in one row: the finite ones in the order of their worth, `overflow` behind all
of them, `infinite` last.  The row is that of the rationals with two more points above them, and
`Duration.rank` is a duration's place in it.

Nothing stands in two places and no two durations in one (`rank_injective`), so of two that
differ exactly one comes before the other.
-/

import Polyphony.Proofs.Duration.Value

namespace Polyphony

theorem Fraction.value_nonneg (f : Fraction) : 0 ≤ f.value :=
  div_nonneg (Nat.cast_nonneg _) (Nat.cast_nonneg _)

/-- What is in lowest terms is told by its worth. -/
theorem Fraction.value_injective : Function.Injective Fraction.value := by
  intro f g h
  have hf : (0 : Int) < f.den := Int.natCast_pos.2 f.den_pos
  have hg : (0 : Int) < g.den := Int.natCast_pos.2 g.den_pos
  have hcoprime : ∀ e : Fraction, Nat.Coprime (e.num : Int).natAbs (e.den : Int).natAbs :=
    fun e => e.coprime
  have hterms : ((f.num : Int) : Rat) / (f.den : Int) = ((g.num : Int) : Rat) / (g.den : Int) := by
    simpa only [Int.cast_natCast, Fraction.value] using h
  obtain ⟨hnum, hden⟩ := Rat.div_int_inj hf hg (hcoprime f) (hcoprime g) hterms
  exact Fraction.ext (Int.natCast_inj.1 hnum) (Int.natCast_inj.1 hden)

namespace Duration

variable {a b : Duration}

/-- The place of a duration among all. -/
def rank : Duration → WithTop (WithTop Rat)
  | .finite f => ((f.value : WithTop Rat) : WithTop (WithTop Rat))
  | .overflow => ((⊤ : WithTop Rat) : WithTop (WithTop Rat))
  | .infinite => ⊤

/-- A duration comes before another exactly if its place does. -/
theorem rank_lt_rank_iff : a.rank < b.rank ↔ a < b := by
  cases a with
  | infinite => exact iff_of_false not_top_lt Bool.false_ne_true
  | overflow =>
    cases b with
    | infinite => exact iff_of_true (WithTop.coe_lt_top _) rfl
    | overflow => exact iff_of_false (lt_irrefl _) Bool.false_ne_true
    | finite g =>
      exact iff_of_false (not_lt.2 (WithTop.coe_le_coe.2 le_top)) Bool.false_ne_true
  | finite f =>
    cases b with
    | infinite => exact iff_of_true (WithTop.coe_lt_top _) rfl
    | overflow => exact iff_of_true (WithTop.coe_lt_coe.2 (WithTop.coe_lt_top _)) rfl
    | finite g =>
      rw [finite_lt_finite_iff_value, rank, rank, WithTop.coe_lt_coe, WithTop.coe_lt_coe]

/-- No two durations stand in one place. -/
theorem rank_injective : Function.Injective rank := by
  intro a b h
  cases a with
  | infinite =>
    cases b with
    | infinite => rfl
    | overflow => exact absurd h WithTop.top_ne_coe
    | finite g => exact absurd h WithTop.top_ne_coe
  | overflow =>
    cases b with
    | infinite => exact absurd h WithTop.coe_ne_top
    | overflow => rfl
    | finite g => exact absurd (WithTop.coe_inj.1 h) WithTop.top_ne_coe
  | finite f =>
    cases b with
    | infinite => exact absurd h WithTop.coe_ne_top
    | overflow => exact absurd (WithTop.coe_inj.1 h) WithTop.coe_ne_top
    | finite g =>
      exact congrArg finite (Fraction.value_injective (WithTop.coe_inj.1 (WithTop.coe_inj.1 h)))

/-- Of two durations at most one comes before the other. -/
theorem not_lt_of_lt (h : a < b) : ¬ b < a := by
  rw [← rank_lt_rank_iff] at h ⊢
  exact lt_asymm h

/-- Of two durations that differ one comes before the other. -/
theorem lt_or_lt_of_ne (h : a ≠ b) : a < b ∨ b < a := by
  rw [← rank_lt_rank_iff, ← rank_lt_rank_iff]
  exact lt_or_gt_of_ne (rank_injective.ne h)

end Duration
end Polyphony
