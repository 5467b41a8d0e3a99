/-
# Lengths of no beats

A sum lasts no beats exactly if both of its parts do (`isZero_add_iff`), and the longer of two
lengths exactly if both do (`isZero_max_iff`).  So a piece of no beats is made of nothing that
takes a tick (`Piece.ticks_of_isZero`).  The converse fails, as a leaf can be shorter than a
tick.
-/

import Polyphony.Duration.Order
import Polyphony.Proofs.Playback.Timeline

namespace Polyphony
namespace Duration

/-- A fraction is zero exactly if its numerator is, before and after it is reduced. -/
theorem isZero_reduce_iff {num den : Nat} (den_pos : 0 < den) :
    (reduce num den den_pos).isZero = true ↔ num = 0 := by
  constructor
  · intro h
    unfold reduce at h
    split at h
    · have hquot : num / num.gcd den = 0 := by simpa [isZero] using h
      exact Nat.eq_zero_of_dvd_of_div_eq_zero (Nat.gcd_dvd_left num den) hquot
    · cases h
  · rintro rfl
    simp [reduce, isZero, Nat.div_self den_pos, maxTerm]

theorem isZero_sum_iff (a b : Fraction) :
    (a.sum b).isZero = true ↔ a.num = 0 ∧ b.num = 0 := by
  have ha : 0 < a.den / a.den.gcd b.den := Fraction.den_div_gcd_pos a b
  have hb : 0 < b.den / a.den.gcd b.den := Nat.gcd_comm a.den b.den ▸ Fraction.den_div_gcd_pos b a
  rw [Fraction.sum, isZero_reduce_iff, Nat.add_eq_zero_iff, Nat.mul_eq_zero, Nat.mul_eq_zero,
    or_iff_left (Nat.ne_of_gt hb), or_iff_left (Nat.ne_of_gt ha)]

/-- A sum lasts no beats exactly if both of its parts do. -/
theorem isZero_add_iff {a b : Duration} :
    (a + b).isZero = true ↔ a.isZero = true ∧ b.isZero = true := by
  cases a with
  | infinite => simp [isZero]
  | overflow => cases b <;> simp [isZero, HAdd.hAdd, Add.add, add]
  | finite f =>
    cases b with
    | infinite => simp [isZero]
    | overflow => simp [isZero, HAdd.hAdd, Add.add, add]
    | finite g =>
      rw [finite_add_finite, isZero_sum_iff]
      simp [isZero]

/-- No length is shorter than no beats. -/
theorem not_lt_of_isZero {a b : Duration} (h : b.isZero = true) : ¬ a < b := by
  cases b with
  | infinite => cases h
  | overflow => cases h
  | finite g =>
    have hg : g.num = 0 := by simpa [isZero] using h
    cases a with
    | infinite => exact Bool.false_ne_true
    | overflow => exact Bool.false_ne_true
    | finite f => rw [finite_lt_finite, hg, Nat.zero_mul]; exact Nat.not_lt_zero _

/-- What lasts no beats is shorter than all else. -/
theorem lt_of_isZero {a b : Duration} (ha : a.isZero = true) (hb : b.isZero = false) : a < b := by
  cases a with
  | infinite => cases ha
  | overflow => cases ha
  | finite f =>
    have hf : f.num = 0 := by simpa [isZero] using ha
    cases b with
    | infinite => rfl
    | overflow => rfl
    | finite g =>
      have hg : g.num ≠ 0 := by simpa [isZero] using hb
      rw [finite_lt_finite, hf, Nat.zero_mul]
      exact Nat.mul_pos (Nat.pos_of_ne_zero hg) f.den_pos

/-- The longer of two lengths lasts no beats exactly if both do. -/
theorem isZero_max_iff {a b : Duration} :
    (max a b).isZero = true ↔ a.isZero = true ∧ b.isZero = true := by
  rw [max_def]
  cases hb : b.isZero with
  | true => simp [not_lt_of_isZero hb]
  | false =>
    cases ha : a.isZero with
    | true => simp [lt_of_isZero ha hb, hb]
    | false => split <;> simp [ha, hb]

end Duration

namespace Piece

/-- A piece of no beats takes no ticks. -/
theorem ticks_of_isZero {pace : Playback.Pace} {p : Piece} (h : p.duration.isZero = true) :
    p.ticks pace = 0 := by
  induction p with
  | note d pitch i => exact Duration.toTicks_of_isZero h _
  | rest d => exact Duration.toTicks_of_isZero h _
  | concat a b iha ihb =>
    obtain ⟨ha, hb⟩ := Duration.isZero_add_iff.1 h
    rw [ticks, iha ha, ihb hb]
  | together a b iha ihb =>
    obtain ⟨ha, hb⟩ := Duration.isZero_max_iff.1 h
    rw [ticks, iha ha, ihb hb, Nat.max_self]
  | forever a ih => cases h

/-- A third of a beat is lost at two ticks in a beat. -/
example : (rest (.reduce 1 3 (by decide))).ticks ⟨2, 1⟩ = 0 := by decide

end Piece
end Polyphony
