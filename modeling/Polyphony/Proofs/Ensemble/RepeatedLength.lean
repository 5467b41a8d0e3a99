/-
# How long repetitions last

The length of a repeated piece is a sum that is taken item by item, the last one first.  A sum
that is too large stays so, also where the next one would be small again: cancelling against
the denominator can make a multiple fit that comes after one that does not.

| among the first `count` multiples of a length | `count` repetitions last |
| --- | --- |
| none is too large | `count` times as long as one |
| one is too large | `overflow` |

So an accompaniment by a whole number of repetitions lasts as long as the longer part, unless a
smaller number of them is too large (`length_of_accompaniment`).  It then still ends with
the longer part when it is played, but no longer tells its length (`vastRest_loses_length`).
-/

import Polyphony.Proofs.Duration.Exactness
import Polyphony.Proofs.Duration.Ratio
import Polyphony.Proofs.Ensemble.Accompaniment

namespace Polyphony
namespace Duration

variable {count : Nat}

/-- Once is as it is. -/
theorem scale_one (d : Duration) : d.scale 1 = d := by
  cases d with
  | finite f =>
    have h := holds_scale f 1
    rw [Nat.cast_one, mul_one] at h
    exact h.unique (holds_finite f)
  | overflow => rfl
  | infinite => rfl

/-- Once more, if it was not too large so far. -/
theorem add_scale {d : Duration} (hpos : 0 < count) (h : d.scale count ≠ .overflow) :
    d + d.scale count = d.scale (count + 1) := by
  cases d with
  | infinite => rw [infinite_add, scale, if_neg (Nat.succ_ne_zero count)]
  | overflow => exact absurd (if_neg hpos.ne') h
  | finite f =>
    have hnext := holds_scale f (count + 1)
    have hworth : f.value * (count + 1 : Nat) = f.value + f.value * count := by
      push_cast
      ring
    by_cases hfits : Fits (f.value * count)
    · obtain ⟨g, hg, hvalue⟩ := (holds_scale f count).exact hfits
      rw [hg, finite_add_finite]
      rw [hworth, ← hvalue] at hnext
      exact (f.holds_sum g).unique hnext
    · exact absurd ((holds_scale f count).overflow_iff.2 hfits) h

/-- What is too large some times over is too large with anything that is. -/
theorem add_overflow {d : Duration} (hpos : 0 < count) (h : d.scale count = .overflow) :
    d + .overflow = .overflow := by
  cases d with
  | infinite =>
    rw [scale, if_neg hpos.ne'] at h
    cases h
  | overflow => rfl
  | finite f => rfl

/-- Is one of the first `count` multiples of a length too large? -/
def Outgrows (d : Duration) (count : Nat) : Prop := ∃ k, 1 ≤ k ∧ k ≤ count ∧ d.scale k = .overflow

/-- One multiple more. -/
theorem outgrows_succ_iff {d : Duration} :
    d.Outgrows (count + 1) ↔ d.Outgrows count ∨ d.scale (count + 1) = .overflow := by
  constructor
  · rintro ⟨k, hpos, hle, hk⟩
    rcases Nat.lt_or_eq_of_le hle with hlt | rfl
    · exact Or.inl ⟨k, hpos, Nat.le_of_lt_succ hlt, hk⟩
    · exact Or.inr hk
  · rintro (⟨k, hpos, hle, hk⟩ | h)
    · exact ⟨k, hpos, Nat.le_succ_of_le hle, hk⟩
    · exact ⟨count + 1, Nat.succ_pos count, le_rfl, h⟩

end Duration

namespace Ensemble

variable {longer shorter : Piece} {count : Nat}

/-- The sum of so many equal lengths is the multiple, unless a sum on the way is too large. -/
theorem duration_chain_concat (more : Nat) (p : Piece) :
    (p.duration.Outgrows (more + 1) → (chain .concat .identity more p).duration = .overflow) ∧
      (¬ p.duration.Outgrows (more + 1) →
        (chain .concat .identity more p).duration = p.duration.scale (more + 1)) := by
  induction more with
  | zero =>
    rw [chain, Nat.zero_add, p.duration.scale_one]
    refine ⟨?_, fun _ => rfl⟩
    rintro ⟨k, hpos, hle, hk⟩
    rwa [Nat.le_antisymm hle hpos, p.duration.scale_one] at hk
  | succ more ih =>
    obtain ⟨hover, hexact⟩ := ih
    have hsum : (chain .concat .identity (more + 1) p).duration =
        p.duration + (chain .concat .identity more p).duration := rfl
    rw [Duration.outgrows_succ_iff, hsum]
    by_cases hbefore : p.duration.Outgrows (more + 1)
    · rw [hover hbefore]
      refine ⟨fun _ => ?_, fun h => absurd (Or.inl hbefore) h⟩
      obtain ⟨k, hpos, -, hk⟩ := hbefore
      exact Duration.add_overflow hpos hk
    · have hfits : p.duration.scale (more + 1) ≠ .overflow := fun h =>
        hbefore (Duration.outgrows_succ_iff.2 (Or.inr h))
      rw [hexact hbefore, Duration.add_scale more.succ_pos hfits]
      exact ⟨fun h => h.resolve_left hbefore, fun _ => rfl⟩

/-- **Repetitions last as often as long, unless that is too large on the way.**  A positive
number of repetitions is always formed.  Their length is `overflow` exactly if the length of the
piece is too large that many times over or some smaller number of times, and else it is that
many times the length of the piece, also if that is nothing or without end. -/
theorem length_of_repetitions (p : Piece) (hpos : 0 < count) :
    ∃ repeated, repetitions p count = .ok repeated ∧
      (repeated.duration = .overflow ↔
        ∃ k, 1 ≤ k ∧ k ≤ count ∧ p.duration.scale k = .overflow) ∧
      (repeated.duration ≠ .overflow → repeated.duration = p.duration.scale count) := by
  obtain ⟨hover, hexact⟩ := duration_chain_concat (count - 1) p
  rw [Nat.sub_add_cancel hpos] at hover hexact
  refine ⟨_, repetitions_eq_ok p hpos, ⟨fun h => ?_, hover⟩, fun h => hexact (mt hover h)⟩
  by_contra hnone
  exact hnone ⟨count, hpos, le_rfl, (hexact hnone).symm.trans h⟩

/-- A third of the smallest whole number of beats that is too large when it is doubled. -/
def vastThird : Piece := .rest ((Duration.ofFraction? 0x8000000000000000 3).get rfl)

/-- Twice a third is too large, and the whole is not. -/
theorem length_of_three_thirds :
    0 < 3 ∧ vastThird.duration.scale 2 = .overflow ∧
      vastThird.duration.scale 3 = .ofBeats 0x8000000000000000 ∧
      ∃ repeated, repetitions vastThird 3 = .ok repeated ∧ repeated.duration = .overflow := by
  have htwo : vastThird.duration.scale 2 = .overflow := by decide +kernel
  obtain ⟨repeated, hrepeated, hover, -⟩ := length_of_repetitions vastThird (Nat.succ_pos 2)
  exact ⟨Nat.succ_pos 2, htwo, by decide +kernel, repeated, hrepeated,
    hover.2 ⟨2, by decide, by decide, htwo⟩⟩

/-- **An accompaniment keeps the length of the longer part, unless repeating is too large on the
way.**  If the length of `shorter` goes into that of `longer` a whole number of times, and not
too often, the accompaniment is formed.  It lasts as long as `longer` if no number of repetitions
up to that one is too large, and else its length is `overflow`. -/
theorem length_of_accompaniment (hle : shorter.duration ≤ longer.duration)
    (hmultiple : longer.duration.isWholeMultiple shorter.duration = true)
    (hcount : longer.duration.roundedRatio? shorter.duration = some count)
    (hmax : count ≤ maxRepetitions) :
    ∃ repeated, repetitions shorter count = .ok repeated ∧
      accompany longer shorter = .ok ⟨.together longer repeated, none⟩ ∧
      ((∀ k, 1 ≤ k → k ≤ count → shorter.duration.scale k ≠ .overflow) →
        (Piece.together longer repeated).duration = longer.duration) ∧
      ((∃ k, 1 ≤ k ∧ k ≤ count ∧ shorter.duration.scale k = .overflow) →
        (Piece.together longer repeated).duration = .overflow) := by
  have hpos := Duration.pos_of_isWholeMultiple hle hmultiple hcount
  have hrepeated := repetitions_eq_ok shorter hpos
  obtain ⟨hover, hexact⟩ := duration_chain_concat (count - 1) shorter
  rw [Nat.sub_add_cancel hpos, Duration.scale_of_isWholeMultiple hmultiple hcount] at hexact
  rw [Nat.sub_add_cancel hpos] at hover
  refine ⟨_, hrepeated, accompany_eq_ok hle hmultiple hcount hmax hrepeated, fun h => ?_,
    fun h => ?_⟩
  · have hfits : ¬ ∃ k, 1 ≤ k ∧ k ≤ count ∧ shorter.duration.scale k = .overflow := by
      rintro ⟨k, hk, hkle, hlarge⟩
      exact h k hk hkle hlarge
    rw [Piece.duration, hexact hfits, Duration.max_def, ite_self]
  · obtain ⟨f, g, hf, -, -⟩ := Duration.value_eq_mul_of_isWholeMultiple hmultiple hcount
    rw [Piece.duration, hover h, hf]
    rfl

/-- The whole of it. -/
def vastRest : Piece := .rest (.ofBeats 0x8000000000000000)

/-- Three thirds go into the whole exactly, and the accompaniment has lost its length. -/
theorem vastRest_loses_length :
    (vastRest.duration.isInfinite = false ∧ vastRest.duration.isOverflow = false) ∧
      (vastThird.duration.isInfinite = false ∧ vastThird.duration.isOverflow = false) ∧
      vastThird.duration.isZero = false ∧ vastThird.duration ≤ vastRest.duration ∧
      vastRest.duration.isWholeMultiple vastThird.duration = true ∧
      vastRest.duration.roundedRatio? vastThird.duration = some 3 ∧ 3 ≤ maxRepetitions ∧
      ∃ fitted, accompany vastRest vastThird = .ok fitted ∧ fitted.caution = none ∧
        fitted.piece.duration = .overflow ∧ fitted.piece.duration ≠ vastRest.duration :=
  ⟨by decide +kernel, by decide +kernel, by decide +kernel, by decide +kernel, by decide +kernel,
    by decide +kernel, by decide, _, rfl, by decide +kernel, by decide +kernel, by decide +kernel⟩

/-- The most beats that can be held. -/
def longestRest : Piece := .rest (.ofBeats maxTerm)

/-- Half of them, which is not a whole number of beats. -/
def longestHalf : Piece := .rest ((Duration.ofFraction? maxTerm 2).get rfl)

/-- Two halves are the longest rest, and none of the two is too large. -/
theorem length_of_two_halves :
    longestHalf.duration ≤ longestRest.duration ∧
      longestRest.duration.isWholeMultiple longestHalf.duration = true ∧
      longestRest.duration.roundedRatio? longestHalf.duration = some 2 ∧ 2 ≤ maxRepetitions ∧
      (∀ k, 1 ≤ k → k ≤ 2 → longestHalf.duration.scale k ≠ .overflow) ∧
      ∃ repeated, repetitions longestHalf 2 = .ok repeated ∧
        accompany longestRest longestHalf = .ok ⟨.together longestRest repeated, none⟩ ∧
        (Piece.together longestRest repeated).duration = longestRest.duration := by
  have hle : longestHalf.duration ≤ longestRest.duration := by decide +kernel
  have hmultiple : longestRest.duration.isWholeMultiple longestHalf.duration = true := by
    decide +kernel
  have hcount : longestRest.duration.roundedRatio? longestHalf.duration = some 2 := by
    decide +kernel
  have hfits : ∀ k, 1 ≤ k → k ≤ 2 → longestHalf.duration.scale k ≠ .overflow := by
    decide +kernel
  obtain ⟨repeated, hrepeated, haccompany, hkeeps, -⟩ :=
    length_of_accompaniment hle hmultiple hcount (by decide)
  exact ⟨hle, hmultiple, hcount, by decide, hfits, repeated, hrepeated, haccompany, hkeeps hfits⟩

end Ensemble
end Polyphony
