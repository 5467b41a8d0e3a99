/-
# Comparing durations in machine words

Comparisons look at the marks of both durations first, the one for what never ends before the one
for what is too large, and at their terms only if no mark is set: the terms of a marked duration
mean nothing.

| machine | duration |
| --- | --- |
| `Words.same a b` | `a == b` |
| `Words.less a b` | `a < b` |
| `Words.longer a b` | `max a b` |
| `Words.hash a` | `a.hashCode` |

Fractions are compared by cross products, which fit 128 bits, so that no comparison ends in a trap.
-/

import Polyphony.Piece.Equality
import Polyphony.Proofs.Duration.MachineWords

namespace Polyphony

namespace Words

/-- Are two durations equal? -/
def same (a b : Words) : Bool :=
  if a.infinite || b.infinite then a.infinite == b.infinite
  else if a.overflow || b.overflow then a.overflow == b.overflow
  else a.num == b.num && a.den == b.den

/-- Is `a` strictly shorter than `b`? -/
def less (a b : Words) : Except Trap Bool :=
  if a.infinite then return false
  else if b.infinite then return true
  else if a.overflow then return false
  else if b.overflow then return true
  else do
    let left ← Wide.mul a.num.toNat b.den.toNat
    let right ← Wide.mul b.num.toNat a.den.toNat
    return left < right

/-- The longer of two durations, the first one if they are equal. -/
def longer (a b : Words) : Except Trap Words := do
  if ← less a b then return b else return a

/-- A duration as a 64-bit number. -/
def hash (a : Words) : UInt64 :=
  if a.infinite then 0xFFFFFFFFFFFFFFFF
  else if a.overflow then 0xFFFFFFFFFFFFFFFE
  else a.num * 31 + a.den

open Duration

/-- The comparison decides equality. -/
theorem same_words (a b : Duration) : same a.words b.words = (a == b) := by
  have hwords : same a.words b.words = true → a.words = b.words := by
    intro h
    cases a with
    | infinite => cases b with
      | infinite => rfl
      | overflow => cases h
      | finite g => cases h
    | overflow => cases b with
      | infinite => cases h
      | overflow => rfl
      | finite g => cases h
    | finite f => cases b with
      | infinite => cases h
      | overflow => cases h
      | finite g =>
        obtain ⟨hnum, hden⟩ := (Bool.and_eq_true ..).mp h
        exact congrArg₂ (Words.mk · · false false) (eq_of_beq hnum) (eq_of_beq hden)
  have hself : same b.words b.words = true := by
    cases b <;> simp [same, words, infinity, overflowed]
  rw [Bool.eq_iff_iff, beq_iff_eq]
  refine ⟨fun h => words_injective (hwords h), fun h => ?_⟩
  rw [h, hself]

/-- The machine tells the shorter of two durations as it should. -/
theorem less_words (a b : Duration) : less a.words b.words = .ok (decide (a < b)) := by
  cases a with
  | infinite => rfl
  | overflow => cases b <;> rfl
  | finite f => cases b with
    | infinite => rfl
    | overflow => rfl
    | finite g =>
      have hleft : f.num * g.den ≤ maxWide := maxTerm_mul_le_maxWide f.num_le g.den_le
      have hright : g.num * f.den ≤ maxWide := maxTerm_mul_le_maxWide g.num_le f.den_le
      simp only [less, infinite_words, overflow_words, toNat_num_words, toNat_den_words,
        Wide.mul_of_le hleft, Wide.mul_of_le hright, Bool.false_eq_true, if_false, bind,
        Except.bind, finite_lt_finite]
      rfl

/-- The machine tells the longer of two durations as it should. -/
theorem longer_words (a b : Duration) : longer a.words b.words = .ok (max a b).words := by
  rw [longer, less_words, max_def]
  by_cases h : a < b
  · simp only [h, decide_true, bind, Except.bind, if_true]
    rfl
  · simp only [h, decide_false, bind, Except.bind, Bool.false_eq_true, if_false]
    rfl

theorem hash_words (a : Duration) : a.words.hash = a.hashCode := by
  cases a <;> rfl

end Words
end Polyphony
