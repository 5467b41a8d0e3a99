/-
# Fitting one part to another

What becomes of two parts is told by their lengths alone.  If one of them is too large, or the
shorter one lasts no beats, or it goes into the longer one too often, nothing does (`Unfit`).
Else the longer one is played together with

| longer | shorter | |
| --- | --- | --- |
| without end | without end | the shorter one |
| without end | finite | the shorter one without end |
| finite | finite | so many repetitions of it as come closest to the longer one |

and a caution says so if these do not come out even (`Fitted`).

Which part is the longer one is found by asking again with the parts swapped, if the first one is
shorter (`askSwapped`).  As durations stand in one row, this is done at most once.
-/

import Polyphony.Ensemble.Accompany
import Polyphony.Proofs.Duration.Ratio
import Polyphony.Proofs.Ensemble.Chain

namespace Polyphony
namespace Ensemble

open Duration (rounds)

variable {a b longer shorter : Piece} {f g : Fraction}

/-- The longer one of two parts, the first one if they are equally long. -/
def longerOf (a b : Piece) : Piece := if a.duration < b.duration then b else a

/-- The other one of two parts. -/
def shorterOf (a b : Piece) : Piece := if a.duration < b.duration then a else b

/-- The longer one is not shorter than the other one. -/
theorem not_longerOf_lt (a b : Piece) : ¬ (longerOf a b).duration < (shorterOf a b).duration := by
  unfold longerOf shorterOf
  split
  · next h => exact Duration.not_lt_of_lt h
  · next h => exact h

/-- One of two parts is too large exactly if the longer or the shorter one is. -/
theorem isOverflow_or_iff (a b : Piece) :
    (a.duration.isOverflow || b.duration.isOverflow) = true ↔
      (longerOf a b).duration = .overflow ∨ (shorterOf a b).duration = .overflow := by
  have hover : ∀ d : Duration, d.isOverflow = true ↔ d = .overflow := by
    intro d
    cases d with
    | overflow => exact iff_of_true rfl rfl
    | finite f => exact iff_of_false Bool.false_ne_true Duration.noConfusion
    | infinite => exact iff_of_false Bool.false_ne_true Duration.noConfusion
  rw [Bool.or_eq_true, hover, hover]
  unfold longerOf shorterOf
  split
  · exact or_comm
  · exact Iff.rfl

/-- Parts of different lengths can be told apart in either order. -/
theorem longerOf_comm (h : a.duration ≠ b.duration) :
    longerOf a b = longerOf b a ∧ shorterOf a b = shorterOf b a := by
  unfold longerOf shorterOf
  rcases Duration.lt_or_lt_of_ne h with hlt | hlt
  · simp only [if_pos hlt, if_neg (Duration.not_lt_of_lt hlt), and_self]
  · simp only [if_pos hlt, if_neg (Duration.not_lt_of_lt hlt), and_self]

/-- An accompaniment fits the shorter part to the longer one. -/
theorem accompany_eq_fit (a b : Piece) :
    accompany a b = if a.duration.isOverflow || b.duration.isOverflow then .error .partTooLong
      else fit (longerOf a b) (shorterOf a b) := by
  unfold accompany longerOf shorterOf
  by_cases h : a.duration < b.duration
  · simp only [if_pos h]
  · simp only [if_neg h]

/-- The parts are swapped if the first one is shorter, and asked about again; with the outcome
comes how often this was done. -/
def askSwapped (a b : Piece) : Nat × Except Refusal Accompaniment :=
  if a.duration.isOverflow || b.duration.isOverflow then (0, .error .partTooLong)
  else if a.duration < b.duration then ((askSwapped b a).1 + 1, (askSwapped b a).2)
  else (0, fit a b)
termination_by if a.duration < b.duration then 1 else 0
decreasing_by
  all_goals
    rw [if_neg (Duration.not_lt_of_lt ‹_›), if_pos ‹_›]
    exact Nat.one_pos

/-- Parts that were swapped are not swapped again. -/
theorem askSwapped_of_not_lt (h : ¬ a.duration < b.duration) :
    askSwapped a b = (0, accompany a b) := by
  rw [askSwapped, accompany, if_neg h, if_neg h]
  split
  · rfl
  · rfl

/-- Asking with the parts swapped is done at most once, and comes to the same. -/
theorem askSwapped_eq (a b : Piece) :
    (askSwapped a b).1 ≤ 1 ∧ (askSwapped a b).2 = accompany a b := by
  by_cases h : a.duration < b.duration
  · have hback := Duration.not_lt_of_lt h
    rw [askSwapped, accompany, if_pos h, if_pos h, askSwapped_of_not_lt hback]
    split
    · exact ⟨Nat.zero_le 1, rfl⟩
    · next hshort =>
      rw [accompany, Bool.or_comm, if_neg hshort, if_neg hback]
      exact ⟨le_rfl, rfl⟩
  · rw [askSwapped_of_not_lt h]
    exact ⟨Nat.zero_le 1, rfl⟩

/-- Lengths of which nothing can be made. -/
inductive Unfit (longer shorter : Duration) : Prop where
  /-- One of them is too large. -/
  | overflow (h : longer = .overflow ∨ shorter = .overflow)
  /-- Nothing fills a finite length. -/
  | empty {f g : Fraction} (hlonger : longer = .finite f) (hshorter : shorter = .finite g)
    (h : g.value = 0)
  /-- The shorter one goes into the longer one too often. -/
  | tooOften {f g : Fraction} (hlonger : longer = .finite f) (hshorter : shorter = .finite g)
    (hpos : 0 < g.value) (h : maxRepetitions < ⌊f.value / g.value + 1 / 2⌋₊)

/-- What is made of a longer and a shorter part. -/
inductive Fitted (longer shorter : Piece) : Accompaniment → Prop where
  /-- Both never end. -/
  | endless (hlonger : longer.duration = .infinite) (hshorter : shorter.duration = .infinite) :
    Fitted longer shorter ⟨.together longer shorter, none⟩
  /-- The longer one never ends. -/
  | looped (hlonger : longer.duration = .infinite) (hshorter : shorter.duration ≠ .infinite) :
    Fitted longer shorter ⟨.together longer (.forever shorter), none⟩
  /-- Both end: repetitions that miss the longer one by at most half of the shorter one, and a
  caution if they miss it. -/
  | filled {f g : Fraction} {count : Nat} {repeated : Piece}
    (hlonger : longer.duration = .finite f) (hshorter : shorter.duration = .finite g)
    (hpos : 1 ≤ count) (hround : count = ⌊f.value / g.value + 1 / 2⌋₊)
    (hclose : |count * g.value - f.value| ≤ g.value / 2)
    (hrepeated : repetitions shorter count = .ok repeated) :
    Fitted longer shorter ⟨.together longer repeated,
      if count * g.value - f.value = 0 then none
      else some ⟨longer.duration, shorter.duration, count⟩⟩

/-- Two parts that both end are fitted by as many repetitions as come closest. -/
theorem fill_eq (hlonger : longer.duration = .finite f) (hshorter : shorter.duration = .finite g)
    (hpos : 0 < g.value) (hle : g.value ≤ f.value)
    (hmax : rounds f.value g.value ≤ maxRepetitions) :
    fill longer shorter =
      .ok ⟨.together longer (chain .concat .identity (rounds f.value g.value - 1) shorter),
        if rounds f.value g.value * g.value - f.value = 0 then none
        else some ⟨longer.duration, shorter.duration, rounds f.value g.value⟩⟩ := by
  have hfits : rounds f.value g.value ≤ maxTerm := hmax.trans (by decide)
  have hcaution : cautionOf (.finite f) (.finite g) (rounds f.value g.value) =
      if rounds f.value g.value * g.value - f.value = 0 then none
      else some ⟨.finite f, .finite g, rounds f.value g.value⟩ := by
    simp only [cautionOf, Duration.isWholeMultiple_finite_iff hpos, sub_eq_zero]
  rw [fill, hlonger, hshorter, Duration.roundedRatio?_finite hpos, if_pos hfits]
  simp only [if_neg (Nat.not_lt.2 hmax), repetitions_eq_ok shorter (Duration.rounds_pos hpos hle),
    hcaution]

/-- Two parts that both end are refused if the shorter one is empty or goes in too often. -/
theorem exists_fill_eq_error_iff (hlonger : longer.duration = .finite f)
    (hshorter : shorter.duration = .finite g) (hle : g.value ≤ f.value) :
    (∃ refusal, fill longer shorter = .error refusal) ↔
      g.value = 0 ∨ 0 < g.value ∧ maxRepetitions < rounds f.value g.value := by
  rcases g.value_nonneg.eq_or_lt with hzero | hpos
  · have hnot : ¬ 0 < g.value := not_lt.2 hzero.ge
    refine iff_of_true ⟨.neverFills longer.duration, ?_⟩ (Or.inl hzero.symm)
    rw [fill, hlonger, hshorter, Duration.roundedRatio?_of_not_pos hnot]
  · simp only [hpos.ne', hpos, true_and, false_or]
    by_cases hmax : maxRepetitions < rounds f.value g.value
    · refine iff_of_true ?_ hmax
      rw [fill, hlonger, hshorter, Duration.roundedRatio?_finite hpos]
      by_cases hfits : rounds f.value g.value ≤ maxTerm
      · simp only [if_pos hfits, if_pos hmax]
        exact ⟨_, rfl⟩
      · simp only [if_neg hfits]
        exact ⟨_, rfl⟩
    · refine iff_of_false ?_ hmax
      rw [fill_eq hlonger hshorter hpos hle (Nat.not_lt.1 hmax)]
      rintro ⟨refusal, h⟩
      cases h

/-- Whatever does not overflow can be fitted to a part without end. -/
theorem not_unfit_infinite {d : Duration} (h : d ≠ .overflow) : ¬ Unfit .infinite d := by
  intro hunfit
  cases hunfit with
  | overflow hover => exact hover.elim Duration.noConfusion h
  | empty hlonger => cases hlonger
  | tooOften hlonger => cases hlonger

/-- Lengths that are both finite are unfit for a reason that lies in their worths. -/
theorem unfit_finite_iff : Unfit (.finite f) (.finite g) ↔
    g.value = 0 ∨ 0 < g.value ∧ maxRepetitions < rounds f.value g.value := by
  constructor
  · intro hunfit
    cases hunfit with
    | overflow hover => exact hover.elim Duration.noConfusion Duration.noConfusion
    | empty _ hshorter h =>
      obtain rfl := Duration.finite.inj hshorter
      exact Or.inl h
    | tooOften hlonger hshorter hpos h =>
      obtain rfl := Duration.finite.inj hlonger
      obtain rfl := Duration.finite.inj hshorter
      exact Or.inr ⟨hpos, h⟩
  · rintro (h | ⟨hpos, h⟩)
    · exact .empty rfl rfl h
    · exact .tooOften rfl rfl hpos h

/-- What becomes of two parts that are both finite. -/
theorem outcome_of_fill (hlonger : longer.duration = .finite f)
    (hshorter : shorter.duration = .finite g) (hle : g.value ≤ f.value) :
    ((∃ refusal, fill longer shorter = .error refusal) ↔
        Unfit longer.duration shorter.duration) ∧
      ∀ fitted, fill longer shorter = .ok fitted → Fitted longer shorter fitted := by
  have hrefused := exists_fill_eq_error_iff hlonger hshorter hle
  rw [hlonger, hshorter, unfit_finite_iff]
  refine ⟨hrefused, fun fitted h => ?_⟩
  have hfit : ¬ (g.value = 0 ∨ 0 < g.value ∧ maxRepetitions < rounds f.value g.value) := by
    rw [← hrefused, h]
    rintro ⟨refusal, hrefusal⟩
    cases hrefusal
  have hpos : 0 < g.value := g.value_nonneg.lt_of_ne' fun hzero => hfit (Or.inl hzero)
  have hmax : rounds f.value g.value ≤ maxRepetitions :=
    Nat.not_lt.1 fun hlt => hfit (Or.inr ⟨hpos, hlt⟩)
  rw [fill_eq hlonger hshorter hpos hle hmax] at h
  obtain rfl := Except.ok.inj h
  exact .filled hlonger hshorter (Duration.rounds_pos hpos hle) rfl
    (Duration.abs_rounds_mul_sub_le f.value_nonneg hpos)
    (repetitions_eq_ok shorter (Duration.rounds_pos hpos hle))

/-- What becomes of a longer and a shorter part of which none is too large. -/
theorem outcome_of_fit (hlonger : longer.duration ≠ .overflow)
    (hshorter : shorter.duration ≠ .overflow) (hle : ¬ longer.duration < shorter.duration) :
    ((∃ refusal, fit longer shorter = .error refusal) ↔
        Unfit longer.duration shorter.duration) ∧
      ∀ fitted, fit longer shorter = .ok fitted → Fitted longer shorter fitted := by
  cases hl : longer.duration with
  | overflow => exact absurd hl hlonger
  | infinite =>
    have hfit : fit longer shorter = .ok ⟨.together longer
        (if shorter.duration.isInfinite then shorter else .forever shorter), none⟩ := by
      rw [fit, hl]
      split <;> rfl
    rw [hfit]
    refine ⟨iff_of_false ?_ (not_unfit_infinite hshorter), fun fitted h => ?_⟩
    · rintro ⟨refusal, hrefusal⟩
      cases hrefusal
    · obtain rfl := Except.ok.inj h
      cases hs : shorter.duration with
      | overflow => exact absurd hs hshorter
      | infinite => exact .endless hl hs
      | finite g => exact .looped hl (hs ▸ Duration.noConfusion)
  | finite f =>
    cases hs : shorter.duration with
    | overflow => exact absurd hs hshorter
    | infinite => exact absurd (hl ▸ hs ▸ rfl) hle
    | finite g =>
      have hfit : fit longer shorter = fill longer shorter := by
        rw [fit, hl, hs]
        rfl
      rw [hl, hs, Duration.finite_lt_finite_iff_value, not_lt] at hle
      rw [hfit, ← hl, ← hs]
      exact outcome_of_fill hl hs hle

/-- **What becomes of two parts.**  Nothing does exactly if they are unfit for each other, and
else the shorter one is fitted to the longer one.  Asking with the parts swapped if the first one
is shorter comes to the same and is done at most once, and of parts that differ in length it does
not matter which one is named first. -/
theorem outcome_of_accompany (a b : Piece) :
    ((∃ refusal, accompany a b = .error refusal) ↔
        Unfit (longerOf a b).duration (shorterOf a b).duration) ∧
      (∀ fitted, accompany a b = .ok fitted → Fitted (longerOf a b) (shorterOf a b) fitted) ∧
      ((askSwapped a b).1 ≤ 1 ∧ (askSwapped a b).2 = accompany a b) ∧
      (a.duration ≠ b.duration → accompany a b = accompany b a) := by
  have houtcome : ((∃ refusal, accompany a b = .error refusal) ↔
        Unfit (longerOf a b).duration (shorterOf a b).duration) ∧
      ∀ fitted, accompany a b = .ok fitted → Fitted (longerOf a b) (shorterOf a b) fitted := by
    have hlarge := isOverflow_or_iff a b
    rw [accompany_eq_fit]
    split
    · next hover =>
      refine ⟨iff_of_true ⟨_, rfl⟩ (.overflow (hlarge.1 hover)), fun fitted h => ?_⟩
      cases h
    · next hover =>
      obtain ⟨hlonger, hshorter⟩ := not_or.1 (mt hlarge.2 hover)
      exact outcome_of_fit hlonger hshorter (not_longerOf_lt a b)
  refine ⟨houtcome.1, houtcome.2, askSwapped_eq a b, fun h => ?_⟩
  obtain ⟨hlonger, hshorter⟩ := longerOf_comm h
  rw [accompany_eq_fit, accompany_eq_fit, hlonger, hshorter, Bool.or_comm]

end Ensemble
end Polyphony
