/-
# What an ensemble cannot be formed with

A refusal says why no piece was formed.  A caution comes with a piece that was formed
and does not quite fit.
-/

import Polyphony.Duration.Text
import Polyphony.Failure

namespace Polyphony
namespace Ensemble

/-- Why an ensemble is not formed. -/
inductive Refusal where
  /-- Fewer than one voice or repetition. -/
  | countBelowOne (count : Int)
  /-- A series that is not told how to join its items or how to vary them. -/
  | seriesUnset
  /-- A canon that is not told how to vary its voices. -/
  | canonUnset
  /-- A part too long to be compared with the other one. -/
  | partTooLong
  /-- No 64-bit number of repetitions fills this many beats. -/
  | neverFills (beats : Duration)
  /-- More repetitions than can be formed. -/
  | tooManyRepetitions (count : Nat)
deriving DecidableEq

/-- Opens every line that an ensemble reports. -/
def reportHead : Text := Text.utf8 "[Combinators] "

namespace Refusal

/-- What sort of failure a refusal is. -/
def kind (_ : Refusal) : FailureKind := .badArgument

/-- The reason in words. -/
def reason : Refusal → Text
  | .countBelowOne count =>
    Text.utf8 "series: count must be >= 1 (got " ++ Decimal.ofInt count ++ Text.utf8 ")"
  | .seriesUnset => Text.utf8 "series: builder and filter must be set"
  | .canonUnset => Text.utf8 "canon: voice filter must be set"
  | .partTooLong => Text.utf8 "accompany: duration is too large to represent exactly"
  | .neverFills beats =>
    Text.utf8 "accompany: cannot repeat a zero-duration piece to fill " ++ beats.text ++
      Text.utf8 " beats"
  | .tooManyRepetitions count =>
    Text.utf8 "accompany: " ++ Decimal.digits count ++ Text.utf8 " repetitions is too many"

/-- The line that reports a refusal. -/
def line (r : Refusal) : Text := reportHead ++ r.reason ++ [Text.byte '\n']

end Refusal

/-- The accompaniment was repeated `count` times and does not end with the other part. -/
structure Caution where
  /-- Length of the longer part. -/
  longer : Duration
  /-- Length of the shorter part. -/
  shorter : Duration
  /-- How often the shorter part is played. -/
  count : Nat
deriving DecidableEq

namespace Caution

/-- The line that reports a caution. -/
def line (c : Caution) : Text :=
  reportHead ++ Text.utf8 "accompany: WARNING " ++ c.longer.text ++
    Text.utf8 " beats is not a whole multiple of " ++ c.shorter.text ++
    Text.utf8 " beats; repeating " ++ Decimal.digits c.count ++ Text.utf8 " times\n"

end Caution
end Ensemble
end Polyphony
