/-
# How often one duration goes into another

Both questions are asked of `longer / shorter = p / q` with
`p = longer.num * shorter.den` and `q = longer.den * shorter.num`, and have an
answer only for finite durations and a `shorter` one that is not zero.
-/

import Polyphony.Duration.Basic

namespace Polyphony
namespace Duration

/-- Terms of `longer / shorter`, if both are finite and `shorter` is not zero. -/
def ratio? : Duration → Duration → Option (Nat × Nat)
  | .finite a, .finite b => if b.num = 0 then none else some (a.num * b.den, a.den * b.num)
  | _, _ => none

theorem ratio?_den_pos {a b : Duration} {p q : Nat} (h : ratio? a b = some (p, q)) : 0 < q := by
  cases a <;> cases b <;> simp only [ratio?, reduceCtorEq] at h
  rename_i f g
  split at h
  · simp at h
  · obtain ⟨-, rfl⟩ := Prod.mk.inj (Option.some.inj h)
    exact Nat.mul_pos f.den_pos (by omega)

/-- `longer / shorter` to the nearest whole number, a half going up; none if that
number does not fit 64 bits. -/
def roundedRatio? (longer shorter : Duration) : Option Nat :=
  (ratio? longer shorter).bind fun (p, q) =>
    let nearest := p / q + if q - p % q ≤ p % q then 1 else 0
    if nearest ≤ maxTerm then some nearest else none

/-- Is `longer` a whole number of times `shorter`? -/
def isWholeMultiple (longer shorter : Duration) : Bool :=
  match ratio? longer shorter with
  | some (p, q) => p % q == 0
  | none => false

end Duration
end Polyphony
