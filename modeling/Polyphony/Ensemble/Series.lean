/-
# Series of varied repetitions

A series starts with a piece, varies it from item to item by a transform, and joins
the items, either one after the other or all at once:

`chain j f 0 p = p` and `chain j f (n + 1) p = j p (chain j f n (f p))`.

Repetitions, counterpoint, canons and rounds are series.  A series of `count` items
needs a count of at least one, and someone who has a joining or a transform to choose
may leave it open, in which case no series is formed.  Composing transforms is a choice
even where parts of the composition are open (`Transform.ofParts`).
-/

import Polyphony.Ensemble.Refusal
import Polyphony.Piece.Basic

namespace Polyphony
namespace Ensemble

/-- How one item of a series is varied into the next. -/
inductive Transform where
  /-- Not at all. -/
  | identity
  /-- By a number of semitones. -/
  | transpose (shift : Int)
  /-- By a pause before it. -/
  | delay (pause : Duration)
  /-- By `first`, and the result by `second`. -/
  | compose (first second : Transform)
deriving DecidableEq

/-- The varied piece. -/
def Transform.apply : Transform → Piece → Piece
  | .identity, p => p
  | .transpose shift, p => p.transpose shift
  | .delay pause, p => p.delay pause
  | .compose first second, p => second.apply (first.apply p)

/-- A composition of two transforms that may be open.  An open one varies nothing. -/
def Transform.ofParts (first second : Option Transform) : Transform :=
  .compose (first.getD .identity) (second.getD .identity)

/-- How the items of a series are joined. -/
inductive Joining where
  /-- All at once. -/
  | together
  /-- One after the other. -/
  | concat
deriving DecidableEq

/-- Two pieces joined. -/
def Joining.join : Joining → Piece → Piece → Piece
  | .together, a, b => .together a b
  | .concat, a, b => .concat a b

/-- A piece and `more` variations of it, each varied from the one before. -/
def chain (joining : Joining) (transform : Transform) : (more : Nat) → Piece → Piece
  | 0, p => p
  | more + 1, p => joining.join p (chain joining transform more (transform.apply p))

/-- `count` items, the first one `p`. -/
def series (p : Piece) (joining : Option Joining) (transform : Option Transform) (count : Int) :
    Except Refusal Piece :=
  if count < 1 then .error (.countBelowOne count)
  else
    match joining, transform with
    | some joining, some transform => .ok (chain joining transform (count.toNat - 1) p)
    | _, _ => .error .seriesUnset

/-- A series is formed from the first item on: `count` items need `count - 1` variations. -/
theorem series_eq_ok (p : Piece) (joining : Joining) (transform : Transform) (more : Nat) :
    series p (some joining) (some transform) ((more : Int) + 1) =
      .ok (chain joining transform more p) := by
  have h₁ : ¬ (more : Int) + 1 < 1 := by omega
  have h₂ : ((more : Int) + 1).toNat - 1 = more := by omega
  simp only [series, h₁, if_false, h₂]

/-- `count` voices at once, each varied from the one before. -/
def counterpoint (p : Piece) (transform : Option Transform) (count : Int) : Except Refusal Piece :=
  series p (some .together) transform count

/-- `count` voices, each varied from the one before and `pause` later. -/
def canon (p : Piece) (pause : Duration) (transform : Option Transform) (count : Int) :
    Except Refusal Piece :=
  match transform with
  | some transform => counterpoint p (some (.compose transform (.delay pause))) count
  | none => .error .canonUnset

/-- `count` equal voices, each `pause` later than the one before. -/
def round (p : Piece) (pause : Duration) (count : Int) : Except Refusal Piece :=
  canon p pause (some .identity) count

/-- `count` repetitions, each varied from the one before. -/
def variations (p : Piece) (transform : Option Transform) (count : Int) : Except Refusal Piece :=
  series p (some .concat) transform count

/-- `count` equal repetitions. -/
def repetitions (p : Piece) (count : Int) : Except Refusal Piece :=
  variations p (some .identity) count

end Ensemble
end Polyphony
