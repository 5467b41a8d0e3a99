/-
# Command line options

What the command line can ask for, and the arguments that ask for it.  A flag stands
alone and a setting takes the next argument as its value.

| setting | value |
| --- | --- |
| `--instrument` | name of an instrument |
| `--transpose` | `-127` to `127` |
| `--repeat`, `--round` | `1` to `1000` |
| `--delay` | length of a symbol |
| `--tpb` | `1` to `1000000` |
| `--bpm`, `--minutes` | `1` to `65535` |
| `--channels` | `1` to `16` |
| `--demo` | any |
-/

import Polyphony.Duration.Basic
import Polyphony.Instrument.Basic
import Polyphony.Playback.Config

namespace Polyphony
namespace CommandLine

/-- What the command line asks for. -/
structure Options where
  /-- The score; none if empty. -/
  score : Text := []
  /-- Name of a piece that comes with the program; no name if empty. -/
  demo : Text := []
  /-- Who plays the score. -/
  instrument : Instrument := .piano
  /-- Semitones by which the score is shifted. -/
  shift : Int := 0
  /-- Voices of a round; no round if zero. -/
  voices : Nat := 0
  /-- Pause between the voices of a round. -/
  pause : Duration := .ofBeats 4
  /-- Repetitions of the score; played as it is if zero. -/
  repeats : Nat := 0
  /-- Is the piece repeated without end? -/
  endless : Bool := false
  /-- Is the schedule written as JSON? -/
  json : Bool := false
  /-- Is the piece written before the schedule? -/
  showPiece : Bool := false
  /-- Settings of the playback. -/
  config : Playback.Config := {}
deriving DecidableEq

/-- A score with one word more, and a blank before it unless the score is empty. -/
def growScore (score word : Text) : Text :=
  if score = [] then word else score ++ Text.byte ' ' :: word

/-- The score of words: those from the first one on that is not empty, with a blank between them. -/
def joinWords (words : List Text) : Text :=
  [Text.byte ' '].intercalate (words.dropWhile fun word => word == [])

theorem intercalate_append_cons (a b : Text) (words : List Text) :
    [Text.byte ' '].intercalate ((a ++ Text.byte ' ' :: b) :: words) =
      [Text.byte ' '].intercalate (a :: b :: words) := by
  cases words with
  | nil => simp [List.intercalate]
  | cons word words => simp [List.intercalate]

/-- From a score that is not empty on, a blank is put before each word. -/
theorem foldl_growScore_of_ne_nil {score : Text} (hne : score ≠ []) (words : List Text) :
    words.foldl growScore score = [Text.byte ' '].intercalate (score :: words) := by
  induction words generalizing score with
  | nil => simp [List.intercalate]
  | cons word words ih =>
    rw [List.foldl_cons, growScore, if_neg hne, ih (List.append_ne_nil_of_left_ne_nil hne _),
      intercalate_append_cons]

/-- Words that make a score grow one by one are joined.  Empty words before the first other one
leave no trace. -/
theorem foldl_growScore (words : List Text) : words.foldl growScore [] = joinWords words := by
  induction words with
  | nil => rfl
  | cons word words ih =>
    cases word with
    | nil => exact ih
    | cons b word => exact foldl_growScore_of_ne_nil (List.cons_ne_nil b word) words

/-- Options that stand alone. -/
inductive Flag where
  /-- Repeat the piece without end. -/
  | endless
  /-- Write the piece before the schedule. -/
  | showPiece
  /-- Write the schedule as JSON. -/
  | json
  /-- Trace channels and repetitions. -/
  | verbose
deriving DecidableEq

namespace Flag

/-- All flags. -/
def all : List Flag := [.endless, .showPiece, .json, .verbose]

/-- The argument that a flag is. -/
def argument : Flag → Text
  | .endless => Text.utf8 "--forever"
  | .showPiece => Text.utf8 "--show"
  | .json => Text.utf8 "--json"
  | .verbose => Text.utf8 "--verbose"

/-- The flag that an argument is. -/
def ofArgument? (argument : Text) : Option Flag := all.find? fun f => f.argument == argument

/-- Every flag has an argument of its own. -/
theorem ofArgument?_flag (f : Flag) : ofArgument? f.argument = some f := by cases f <;> decide

/-- Options with a flag raised. -/
def raise : Flag → Options → Options
  | .endless, o => { o with endless := true }
  | .showPiece, o => { o with showPiece := true }
  | .json, o => { o with json := true }
  | .verbose, o => { o with config := { o.config with verbose := true } }

end Flag

/-- Settings whose value is a number. -/
inductive Quantity where
  /-- Semitones. -/
  | shift
  /-- Repetitions of the score. -/
  | repeats
  /-- Voices of a round. -/
  | voices
  /-- Ticks in a beat. -/
  | ticksPerBeat
  /-- Beats in a minute. -/
  | beatsPerMinute
  /-- Channels of the device. -/
  | channels
  /-- Minutes after which a piece without end is no longer repeated. -/
  | minutes
deriving DecidableEq

namespace Quantity

/-- The argument that names a quantity. -/
def argument : Quantity → Text
  | .shift => Text.utf8 "--transpose"
  | .repeats => Text.utf8 "--repeat"
  | .voices => Text.utf8 "--round"
  | .ticksPerBeat => Text.utf8 "--tpb"
  | .beatsPerMinute => Text.utf8 "--bpm"
  | .channels => Text.utf8 "--channels"
  | .minutes => Text.utf8 "--minutes"

/-- Smallest value. -/
def lowest : Quantity → Int
  | .shift => -127
  | _ => 1

/-- Largest value. -/
def highest : Quantity → Int
  | .shift => 127
  | .repeats => 1000
  | .voices => 1000
  | .ticksPerBeat => 1000000
  | .beatsPerMinute => 65535
  | .channels => Playback.maxChannels.toNat
  | .minutes => 65535

/-- Options with a quantity set. -/
def set (q : Quantity) (n : Int) (o : Options) : Options :=
  match q with
  | .shift => { o with shift := n }
  | .repeats => { o with repeats := n.toNat }
  | .voices => { o with voices := n.toNat }
  | .ticksPerBeat => { o with config := { o.config with ticksPerBeat := n.toNat.toUInt32 } }
  | .beatsPerMinute => { o with config := { o.config with beatsPerMinute := n.toNat.toUInt16 } }
  | .channels => { o with config := { o.config with channels := n.toNat.toUInt8 } }
  | .minutes => { o with config := { o.config with maxMinutes := n.toNat.toUInt16 } }

end Quantity

/-- Options that take a value. -/
inductive Setting where
  /-- Who plays the score. -/
  | instrument
  /-- Pause between the voices of a round. -/
  | pause
  /-- A piece that comes with the program. -/
  | demo
  /-- A number. -/
  | quantity (q : Quantity)
deriving DecidableEq

namespace Setting

/-- All settings. -/
def all : List Setting :=
  [.instrument, .quantity .shift, .quantity .repeats, .quantity .voices, .pause,
    .quantity .ticksPerBeat, .quantity .beatsPerMinute, .quantity .channels, .quantity .minutes,
    .demo]

/-- The argument that names a setting. -/
def argument : Setting → Text
  | .instrument => Text.utf8 "--instrument"
  | .pause => Text.utf8 "--delay"
  | .demo => Text.utf8 "--demo"
  | .quantity q => q.argument

/-- The setting that an argument names. -/
def ofArgument? (argument : Text) : Option Setting := all.find? fun s => s.argument == argument

/-- Every setting has an argument of its own. -/
theorem ofArgument?_argument (s : Setting) : ofArgument? s.argument = some s := by
  cases s with
  | instrument | pause | demo => decide
  | quantity q => cases q <;> decide

end Setting

end CommandLine
end Polyphony
