/-
# The order of durations

Finite durations are ordered as fractions, and every finite duration comes before
`overflow`, which comes before `infinite`.
-/

import Polyphony.Duration.Basic

namespace Polyphony
namespace Duration

/-- Is `a` strictly shorter than `b`?  Fractions are compared by cross products. -/
def shorter : Duration → Duration → Bool
  | .infinite, _ => false
  | _, .infinite => true
  | .overflow, _ => false
  | _, .overflow => true
  | .finite a, .finite b => a.num * b.den < b.num * a.den

instance : LT Duration := ⟨fun a b => shorter a b = true⟩

instance : LE Duration := ⟨fun a b => ¬ b < a⟩

instance (a b : Duration) : Decidable (a < b) :=
  inferInstanceAs (Decidable (shorter a b = true))

instance (a b : Duration) : Decidable (a ≤ b) :=
  inferInstanceAs (Decidable (¬ b < a))

/-- The longer of two durations, the first one if they are equal. -/
instance : Max Duration := ⟨fun a b => if a < b then b else a⟩

theorem finite_lt_finite {a b : Fraction} :
    Duration.finite a < Duration.finite b ↔ a.num * b.den < b.num * a.den := by
  show (decide _ = true) ↔ _
  rw [decide_eq_true_iff]

theorem finite_lt_overflow (a : Fraction) : Duration.finite a < Duration.overflow := rfl

theorem overflow_lt_infinite : Duration.overflow < Duration.infinite := rfl

theorem max_def (a b : Duration) : max a b = if a < b then b else a := rfl

end Duration
end Polyphony
