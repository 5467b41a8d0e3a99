/-
# Durations as ticks

At a resolution a duration takes whole ticks; what is left of a broken tick is
dropped.
-/

import Polyphony.Duration.Basic

namespace Polyphony
namespace Duration

/-- Ticks that a duration takes at a resolution.  The count stops at the largest
64-bit number, which also stands for `overflow` and `infinite`. -/
def toTicks (d : Duration) (ticksPerBeat : Nat) : Nat :=
  match d with
  | .finite f => min (f.num * ticksPerBeat / f.den) maxTerm
  | .overflow => maxTerm
  | .infinite => maxTerm

theorem toTicks_le (d : Duration) (ticksPerBeat : Nat) : d.toTicks ticksPerBeat ≤ maxTerm := by
  cases d with
  | finite f => exact Nat.min_le_right ..
  | overflow => exact Nat.le_refl _
  | infinite => exact Nat.le_refl _

/-- What lasts no beats takes no ticks. -/
theorem toTicks_of_isZero {d : Duration} (h : d.isZero = true) (ticksPerBeat : Nat) :
    d.toTicks ticksPerBeat = 0 := by
  cases d with
  | finite f =>
    have hnum : f.num = 0 := by simpa [isZero] using h
    rw [toTicks, hnum, Nat.zero_mul, Nat.zero_div, Nat.zero_min]
  | overflow => cases h
  | infinite => cases h

end Duration
end Polyphony
