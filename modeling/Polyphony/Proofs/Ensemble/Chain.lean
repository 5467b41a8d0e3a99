/-
# What series sound like

Two kinds of series are read off the piece that they start from:

| series | ticks | cues from `s` on |
| --- | --- | --- |
| `more + 1` repetitions | `more + 1` times those of the piece | those of the piece, each time |
| a round of `more + 1` voices | those of the piece and `more` pauses | see `ticks_chain_delay` |

A repetition starts where the one before ends.  A voice waits for one pause more than the
voice before, and each pause is cut down to whole ticks on its own.
-/

import Polyphony.Ensemble.Series
import Polyphony.Proofs.Playback.Timeline

namespace Polyphony
namespace Ensemble

open Playback

variable {pace : Pace}

/-- Repetitions take the ticks of the piece, once for each. -/
theorem ticks_chain_concat (more : Nat) (p : Piece) :
    (chain .concat .identity more p).ticks pace = (more + 1) * p.ticks pace := by
  induction more with
  | zero => rw [chain, Nat.zero_add, Nat.one_mul]
  | succ more ih =>
    rw [chain, Joining.join, Transform.apply, Piece.ticks, ih, Nat.succ_mul (more + 1),
      Nat.add_comm]

/-- Repetitions are played one after the other. -/
theorem cues_chain_concat (more : Nat) (p : Piece) (s : Nat) :
    (chain .concat .identity more p).cues pace s =
      (List.range (more + 1)).flatMap fun i => p.cues pace (s + i * p.ticks pace) := by
  induction more generalizing s with
  | zero => simp [chain]
  | succ more ih =>
    rw [chain, Joining.join, Transform.apply, Piece.cues, ih]
    exact (flatMap_rounds_succ (p.cues pace) s (p.ticks pace) (more + 1)).symm

/-- The last voice of a round enters after all pauses, and ends last. -/
theorem ticks_chain_delay (pause : Duration) (more : Nat) (p : Piece) :
    (chain .together (.compose .identity (.delay pause)) more p).ticks pace =
      more * pause.toTicks pace.ticksPerBeat + p.ticks pace := by
  induction more generalizing p with
  | zero => rw [chain, Nat.zero_mul, Nat.zero_add]
  | succ more ih =>
    rw [chain, Joining.join, Piece.ticks, ih]
    simp only [Transform.apply, Piece.delay, Piece.ticks]
    rw [Nat.succ_mul]
    omega

/-- Repeating a piece gives the chain of its repetitions. -/
theorem repetitions_eq_ok (p : Piece) {count : Nat} (h : 0 < count) :
    repetitions p count = .ok (chain .concat .identity (count - 1) p) := by
  obtain ⟨more, rfl⟩ := Nat.exists_eq_add_of_lt h
  rw [Nat.zero_add, Nat.add_sub_cancel]
  exact series_eq_ok p .concat .identity more

/-- A canon is the chain of its voices. -/
theorem canon_eq_ok (p : Piece) (pause : Duration) (transform : Transform) {count : Nat}
    (h : 0 < count) : canon p pause (some transform) count =
      .ok (chain .together (.compose transform (.delay pause)) (count - 1) p) := by
  obtain ⟨more, rfl⟩ := Nat.exists_eq_add_of_lt h
  rw [Nat.zero_add, Nat.add_sub_cancel]
  exact series_eq_ok p .together (.compose transform (.delay pause)) more

/-- A round is the chain of its voices. -/
theorem round_eq_ok (p : Piece) (pause : Duration) {count : Nat} (h : 0 < count) :
    round p pause count =
      .ok (chain .together (.compose .identity (.delay pause)) (count - 1) p) :=
  canon_eq_ok p pause .identity h

end Ensemble
end Polyphony
