/-
# Accompanying one piece by another

Two pieces are played together so that they end together: the shorter one is played
as often as fits the longer one best, to the nearest whole number with a half going
up.

| longer | shorter | played together with the longer one |
| --- | --- | --- |
| without end | without end | the shorter one |
| without end | finite | the shorter one without end |
| finite | finite | the shorter one, repeated |

If the shorter one does not go into the longer one exactly, a caution says so.
-/

import Polyphony.Duration.Ratio
import Polyphony.Ensemble.Series

namespace Polyphony
namespace Ensemble

/-- Most repetitions that are formed: the largest signed 32-bit number. -/
def maxRepetitions : Nat := 0x7FFFFFFF

/-- Two pieces that have been fitted to each other. -/
structure Accompaniment where
  /-- Both pieces together. -/
  piece : Piece
  /-- That they do not end together, if so. -/
  caution : Option Caution

/-- The caution that repeating `shorter` so often calls for. -/
def cautionOf (longer shorter : Duration) (count : Nat) : Option Caution :=
  if longer.isWholeMultiple shorter then none else some ⟨longer, shorter, count⟩

/-- Fits the shorter of two finite pieces to the longer one. -/
def fill (longer shorter : Piece) : Except Refusal Accompaniment :=
  match longer.duration.roundedRatio? shorter.duration with
  | none => .error (.neverFills longer.duration)
  | some count =>
    if maxRepetitions < count then .error (.tooManyRepetitions count)
    else
      match repetitions shorter count with
      | .error refusal => .error refusal
      | .ok repeated =>
        .ok ⟨.together longer repeated, cautionOf longer.duration shorter.duration count⟩

/-- Fits `shorter` to `longer`, which lasts at least as long. -/
def fit (longer shorter : Piece) : Except Refusal Accompaniment :=
  if shorter.duration.isInfinite then .ok ⟨.together longer shorter, none⟩
  else if longer.duration.isInfinite then .ok ⟨.together longer (.forever shorter), none⟩
  else fill longer shorter

/-- Plays two pieces together, fitting the shorter one to the longer one. -/
def accompany (a b : Piece) : Except Refusal Accompaniment :=
  if a.duration.isOverflow || b.duration.isOverflow then .error .partTooLong
  else if a.duration < b.duration then fit b a
  else fit a b

end Ensemble
end Polyphony
