/-
# Running the program

A run is a function of the arguments: it gives an exit code and what is written to
either output.
-/

import Polyphony.CommandLine.Composition
import Polyphony.Piece.Text
import Polyphony.Playback.Recording
import Polyphony.Schedule.Json
import Polyphony.Schedule.Text

namespace Polyphony
namespace CommandLine

/-- What a run of the program leaves behind. -/
structure Outcome where
  /-- Exit code: `0` if all went well, else `1`. -/
  exit : Nat
  /-- Standard output. -/
  output : Text
  /-- Standard error. -/
  report : Text
deriving DecidableEq

/-- Several lines, each with its line end. -/
def linesOf (lines : List String) : Text := lines.flatMap fun s => Text.utf8 s ++ [Text.byte '\n']

/-- A default value at the end of a line of the usage. -/
def defaultOf (n : Nat) : Text := Text.utf8 " (default " ++ Decimal.digits n ++ Text.utf8 ")\n"

/-- How the program is used. -/
def usage : Text :=
  let config : Playback.Config := {}
  linesOf
    ["motet_cli - music notation to tick schedule compiler",
      "",
      "Usage: motet_cli [options] \"<notation>\"",
      "",
      "Options:",
      "  --instrument NAME  GM instrument (e.g. piano, violin, cello, church_organ)",
      "  --transpose N      Transpose by N semitones",
      "  --repeat N         Repeat the piece N times",
      "  --round N          Make an N-voice round",
      "  --delay BEATS      Entry delay between round voices (default 4)",
      "  --forever          Loop the piece (bounded by the playback cap)"] ++
  Text.utf8 "  --tpb N            Ticks per beat" ++ defaultOf config.ticksPerBeat.toNat ++
  Text.utf8 "  --bpm N            Beats per minute" ++ defaultOf config.beatsPerMinute.toNat ++
  Text.utf8 "  --channels N       Device channel capacity" ++ defaultOf config.channels.toNat ++
  Text.utf8 "  --minutes N        Playback cap for forever loops" ++
    defaultOf config.maxMinutes.toNat ++
  linesOf
    ["  --demo NAME        Built-in piece: pachelbel",
      "  --show             Print the composed piece before the schedule",
      "  --json             JSON output",
      "  --verbose          Trace channel allocation and loops",
      "  --help             Show this help",
      "",
      "Notation: C D E F G A B, _ flat, ^ sharp, ' up an octave, , down,",
      "          . rest, duration suffix n, /m or n/m beats, | bar (ignored)"]

/-- A piece and its length, as they are written before the schedule. -/
def showing (p : Piece) : Text :=
  Text.utf8 "Piece:    " ++ p.textBefore (Text.utf8 "\nDuration: ") ++ p.duration.text ++
    Text.utf8 " beats\n\n"

/-- A schedule as lines of text and the tick at which it ends. -/
def endingText (s : Schedule) (stop : Tick) : Text :=
  s.text ++ Text.utf8 "End tick: " ++ Decimal.digits stop.toNat ++ [Text.byte '\n']

/-- The schedule in the form that the options ask for. -/
def Options.write (o : Options) (s : Schedule) (stop : Tick) : Text :=
  if o.json then s.jsonText o.config.ticksPerBeat o.config.beatsPerMinute ++ [Text.byte '\n']
  else endingText s stop

/-- Plays a piece as the options ask for. -/
def Options.perform (o : Options) (p : Piece) : Outcome :=
  let shown := if o.showPiece then showing p else []
  let recording := Playback.record p o.config
  let told := Playback.Notice.lines recording.notices
  if recording.success then
    ⟨0, shown ++ o.write recording.schedule recording.endTick, told⟩
  else
    ⟨1, shown, told ++ errorHead ++ FailureKind.nameOf recording.failure? ++ Text.utf8 ": " ++
      recording.message ++ [Text.byte '\n']⟩

/-- Runs the program on its arguments. -/
def run (arguments : List Text) : Outcome :=
  match Options.read arguments with
  | .error .help => ⟨0, usage, []⟩
  | .error stop => ⟨1, [], errorHead ++ stop.reason ++ [Text.byte '\n']⟩
  | .ok o =>
    if o.score = [] ∧ o.demo = [] then ⟨1, usage, []⟩
    else
      match o.piece with
      | .error trouble => ⟨1, [], trouble.lines⟩
      | .ok p => o.perform p

end CommandLine
end Polyphony
