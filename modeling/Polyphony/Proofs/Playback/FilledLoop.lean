/-
# A filled loop adds nothing

A loop is played until it fills the cap.  What fills the cap by itself is therefore played once,
and its loop leaves what it leaves (`Piece.cues_forever_of_filled`).  A loop fills the cap or
takes no ticks at all, so a loop around a loop is the inner one, whatever keeps that from being
repeated:

| the inner loop | its rounds | the rounds of the outer one |
| --- | --- | --- |
| has a body without length | none | one, if the cap is positive, of nothing |
| has a body of no ticks | one, if the cap is positive | one, if the cap is positive |
| has nothing to fill | none | none |
| fills the cap | as many as that takes | one |

Each line is one of equal ticks and equal cues (`Piece.cues_forever_forever`), and pieces with
these are played alike from any state, also where they cannot be played to the end.
-/

import Polyphony.Proofs.Duration.Zero
import Polyphony.Proofs.Playback.Repetition

namespace Polyphony

namespace Playback

/-- What fills the cap is played once. -/
theorem Pace.rounds_eq_one {pace : Pace} {ticks : Nat} (hcap : 0 < pace.cap)
    (hfilled : pace.cap ≤ ticks) : pace.rounds ticks = 1 := by
  rw [rounds, if_neg (by omega)]
  exact Nat.div_eq_of_lt_le (by omega) (by omega)

/-- Without a cap nothing is played. -/
theorem Pace.rounds_eq_zero {pace : Pace} (hcap : pace.cap = 0) (ticks : Nat) :
    pace.rounds ticks = 0 := by
  rw [rounds, hcap, Nat.zero_min, Nat.zero_add]
  split
  · rfl
  · exact Nat.div_eq_of_lt (by omega)

end Playback

namespace Piece

open Playback

variable {pace : Pace} {p : Piece}

/-- What takes ticks has a length. -/
theorem isZero_eq_false_of_ticks_pos (h : 0 < p.ticks pace) : p.duration.isZero = false := by
  rw [← Bool.not_eq_true]
  intro hzero
  rw [ticks_of_isZero hzero] at h
  exact Nat.lt_irrefl 0 h

/-- A loop around what fills the cap takes as long. -/
theorem ticks_forever_of_filled (hcap : 0 < pace.cap) (hfilled : pace.cap ≤ p.ticks pace) :
    (forever p).ticks pace = p.ticks pace := by
  have hzero := isZero_eq_false_of_ticks_pos (Nat.lt_of_lt_of_le hcap hfilled)
  rw [ticks_forever, hzero, if_neg Bool.false_ne_true, Pace.rounds_eq_one hcap hfilled,
    Nat.one_mul]

/-- A loop around what fills the cap plays the same. -/
theorem cues_forever_of_filled (hcap : 0 < pace.cap) (hfilled : pace.cap ≤ p.ticks pace)
    (s : Nat) : (forever p).cues pace s = p.cues pace s := by
  have hzero := isZero_eq_false_of_ticks_pos (Nat.lt_of_lt_of_le hcap hfilled)
  rw [cues, hzero, if_neg Bool.false_ne_true, Pace.rounds_eq_one hcap hfilled]
  simp

/-- A loop fills the cap, if it takes any ticks. -/
theorem cap_le_ticks_forever (h : 0 < (forever p).ticks pace) :
    0 < pace.cap ∧ pace.cap ≤ (forever p).ticks pace := by
  rw [ticks_forever] at h ⊢
  split at h
  · exact absurd h (Nat.lt_irrefl 0)
  · next hzero =>
    rw [if_neg hzero]
    refine ⟨Nat.pos_of_ne_zero fun hcap => ?_, ?_⟩
    · rw [Pace.rounds_eq_zero hcap, Nat.zero_mul] at h
      exact Nat.lt_irrefl 0 h
    · exact (pace.rounds_bounds (Nat.pos_of_mul_pos_left h)).1

/-- Without a cap no loop plays anything. -/
theorem cues_forever_of_no_cap (hcap : pace.cap = 0) (s : Nat) :
    (forever p).cues pace s = [] := by
  rw [cues, Pace.rounds_eq_zero hcap]
  split <;> rfl

/-- A loop around a loop takes as long. -/
theorem ticks_forever_forever (p : Piece) :
    (forever (forever p)).ticks pace = (forever p).ticks pace := by
  rcases Nat.eq_zero_or_pos ((forever p).ticks pace) with hnone | hpos
  · rw [ticks_forever, hnone, Nat.mul_zero]
    split <;> rfl
  · obtain ⟨hcap, hfilled⟩ := cap_le_ticks_forever hpos
    exact ticks_forever_of_filled hcap hfilled

/-- **A loop around a loop plays the same.** -/
theorem cues_forever_forever (p : Piece) (s : Nat) :
    (forever (forever p)).cues pace s = (forever p).cues pace s := by
  rcases Nat.eq_zero_or_pos pace.cap with hcap | hcap
  · rw [cues_forever_of_no_cap hcap, cues_forever_of_no_cap hcap]
  · rcases Nat.eq_zero_or_pos ((forever p).ticks pace) with hnone | hpos
    · -- The outer loop has no ticks to repeat and is left after one round.
      have hrounds : pace.rounds 0 = 1 := by
        rw [Pace.rounds, if_pos rfl]
        omega
      rw [cues, show (forever p).duration.isZero = false from rfl, if_neg Bool.false_ne_true,
        hnone, hrounds]
      simp
    · exact cues_forever_of_filled hcap (cap_le_ticks_forever hpos).2 s

end Piece

namespace Playback

/-- **A filled loop adds nothing.**  From any state and any tick, what goes through and takes as
many ticks as a loop has to fill has a loop that ends where it does and leaves the same events,
channels and failure.  A loop around a loop ends alike, with the same fault or at the same tick,
and leaves the same, whatever the body does and whether there is anything to fill or not. -/
theorem Pass.play_forever_filled (pass : Pass) (piece : Piece) (start : Tick) :
    (0 < pass.config.maxTicks → ∀ stop after, pass.play piece start = (.ok stop, after) →
        pass.config.maxTicks ≤ stop.toNat - start.toNat →
      ∃ looped, pass.play (.forever piece) start = (.ok stop, looped) ∧
        looped.tape = after.tape) ∧
      (pass.play (.forever (.forever piece)) start).1 = (pass.play (.forever piece) start).1 ∧
      (pass.play (.forever (.forever piece)) start).2.tape =
        (pass.play (.forever piece) start).2.tape := by
  refine ⟨fun hcap stop after h hfilled => ?_, ?_⟩
  · have hend := toNat_of_play h
    have hticks : pass.config.pace.cap ≤ piece.ticks pass.config.pace := by
      show pass.config.maxTicks ≤ _
      omega
    have hsame : (pass.play (.forever piece) start).1 = (pass.play piece start).1 ∧
        (pass.play (.forever piece) start).2.tape = (pass.play piece start).2.tape :=
      play_agree (Piece.ticks_forever_of_filled hcap hticks)
        (by rw [Piece.cues_forever_of_filled hcap hticks])
    rw [h] at hsame
    exact ⟨(pass.play (.forever piece) start).2, Prod.ext hsame.1 rfl, hsame.2⟩
  · exact play_agree (Piece.ticks_forever_forever piece) (by rw [Piece.cues_forever_forever])

/-- Two bass lines take eight of six ticks, and their loop does not begin again. -/
theorem play_forever_bassLines :
    0 < (Pass.new sixTicks).config.maxTicks ∧
      ∃ after, (Pass.new sixTicks).play (.concat bassLine bassLine) 1 = (.ok 9, after) ∧
        (Pass.new sixTicks).config.maxTicks ≤ (9 : Tick).toNat - (1 : Tick).toNat ∧
        ∃ looped, (Pass.new sixTicks).play (.forever (.concat bassLine bassLine)) 1 =
            (.ok 9, looped) ∧
          looped.tape = after.tape := by
  have hcap : 0 < (Pass.new sixTicks).config.maxTicks := by decide
  have hfilled : (Pass.new sixTicks).config.maxTicks ≤ (9 : Tick).toNat - (1 : Tick).toNat := by
    decide
  have hplay : ((Pass.new sixTicks).play (.concat bassLine bassLine) 1).1 = .ok 9 := by
    decide +kernel
  obtain ⟨hloop, -⟩ := Pass.play_forever_filled (Pass.new sixTicks) (.concat bassLine bassLine) 1
  exact ⟨hcap, _, Prod.ext hplay rfl, hfilled, hloop hcap 9 _ (Prod.ext hplay rfl) hfilled⟩

end Playback
end Polyphony
