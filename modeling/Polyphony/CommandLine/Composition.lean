/-
# The piece that is asked for

The score is read, shifted, repeated, made into a round and repeated without end, in
this order and as far as the options ask for it.  Instead of a score, a piece that
comes with the program can be asked for by its name.
-/

import Polyphony.CommandLine.Arguments
import Polyphony.Ensemble.Accompany
import Polyphony.Notation.Score

namespace Polyphony
namespace CommandLine

/-- Why there is no piece. -/
inductive Trouble where
  /-- A name that no piece of the program has. -/
  | unknownDemo (name : Text)
  /-- The score cannot be read, for a reason that was told. -/
  | misread (message : Text)
  /-- An ensemble that is not formed. -/
  | refused (r : Ensemble.Refusal)
deriving DecidableEq

/-- Opens every line that reports an error. -/
def errorHead : Text := Text.utf8 "Error: "

/-- The lines that report why there is no piece. -/
def Trouble.lines : Trouble → Text
  | .unknownDemo name => errorHead ++ Text.utf8 "unknown demo '" ++ name ++ Text.utf8 "'\n"
  | .misread message => errorHead ++ message ++ [Text.byte '\n']
  | .refused r => r.line ++ errorHead ++ Text.utf8 "invalid combinator arguments\n"

/-- Reads a score. -/
def readScore (score : Text) (instrument : Instrument) : Except Trouble Piece :=
  let parsed := Notation.readingOf score instrument
  if parsed.success then .ok parsed.piece else .error (.misread parsed.message)

theorem readScore_eq (score : Text) (instrument : Instrument) : readScore score instrument =
    (Notation.read score instrument).mapError fun e => .misread e.message := by
  rw [readScore, Notation.readingOf_eq]
  cases Notation.read score instrument <;> rfl

/-- The ground bass of Pachelbel's canon. -/
def groundBass : Text := Text.utf8 "D,2 A,,2 | B,,2 ^F,,2 | G,,2 D,,2 | G,,2 A,,2"

/-- The melody of Pachelbel's canon. -/
def canonMelody : Text :=
  Text.utf8 "^F'2 E'2 | D'2 ^C'2 | B2 A2 | B2 ^C'2 |" ++
  Text.utf8 "D'2 ^C'2 | B2 A2 | G2 ^F2 | G2 E2 |" ++
  Text.utf8 "D ^F A G | ^F D ^F E | D B, D A | G B A G |" ++
  Text.utf8 "^F D E ^C' | D' ^F' A' A | B G A ^F | D D' D3/2 .1/2 |"

/-- Pachelbel's canon: the ground bass of the cello, and then three violins that enter
every four measures with the same endless melody, accompanied by the bass. -/
def pachelbel : Except Trouble Piece := do
  let bass ← readScore groundBass .cello
  let melody ← readScore canonMelody .violin
  let voices ← (Ensemble.round (.forever melody) (.ofBeats 16) 3).mapError .refused
  let accompanied ← (Ensemble.accompany voices bass).mapError .refused
  return .concat bass accompanied.piece

/-- The piece of the program that has a name. -/
def demoPiece (name : Text) : Except Trouble Piece :=
  if name = Text.utf8 "pachelbel" then pachelbel else .error (.unknownDemo name)

/-- Repeats a piece `count` times; none leaves it as it is. -/
def repeated (count : Nat) (p : Piece) : Except Trouble Piece :=
  if count = 0 then .ok p else (Ensemble.repetitions p count).mapError .refused

/-- Makes a piece into a round of `voices`; none leaves it as it is. -/
def inRound (voices : Nat) (pause : Duration) (p : Piece) : Except Trouble Piece :=
  if voices = 0 then .ok p else (Ensemble.round p pause voices).mapError .refused

/-- Repeats a piece without end if asked to. -/
def looped (endless : Bool) (p : Piece) : Piece := if endless then .forever p else p

/-- The piece that a score is made into. -/
def Options.scorePiece (o : Options) : Except Trouble Piece := do
  let played ← readScore o.score o.instrument
  let several ← repeated o.repeats (played.transpose o.shift)
  let layered ← inRound o.voices o.pause several
  return looped o.endless layered

/-- The piece that the options ask for. -/
def Options.piece (o : Options) : Except Trouble Piece :=
  if o.demo = [] then o.scorePiece else demoPiece o.demo

end CommandLine
end Polyphony
