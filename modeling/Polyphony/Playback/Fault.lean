/-
# Why a piece cannot be played

A fault stops a playback with a kind of failure and a message.  The one exception is a mishap: a
machine that works out the key number or the name of a pitch may come to a number that does not
fit its words, and nothing is told of what it does then, so that there is neither a kind nor a
message.
-/

import Polyphony.Duration.Text
import Polyphony.Failure
import Polyphony.Instrument.Basic
import Polyphony.Pitch.Words
import Polyphony.Playback.Config

namespace Polyphony
namespace Playback

/-- The cause that stops a playback. -/
inductive Fault where
  /-- The settings are not valid. -/
  | badConfig (problem : ConfigProblem)
  /-- No key plays the pitch of this name and key number. -/
  | noKey (name : Text) (number : Int)
  /-- A length that is too large to be held exactly. -/
  | lengthOverflow
  /-- What starts here and lasts so long ends after the last tick. -/
  | pastLastTick (length : Duration) (start : Tick)
  /-- All channels are taken. -/
  | noChannel (capacity : UInt8) (instrument : Instrument)
  /-- A cause that was reported from outside. -/
  | reported (kind : FailureKind) (text : Text)
  /-- No telling what a machine does from here on. -/
  | mishap (cause : Pitch.Mishap)
deriving DecidableEq

namespace Fault

/-- What sort of failure a cause is, or the mishap that leaves this open. -/
def kind : Fault → Except Pitch.Mishap FailureKind
  | .badConfig _ => .ok .badConfig
  | .noKey .. => .ok .noteOutOfRange
  | .lengthOverflow => .ok .durationOverflow
  | .pastLastTick .. => .ok .scheduleTooLong
  | .noChannel .. => .ok .channelsExhausted
  | .reported kind _ => .ok kind
  | .mishap cause => .error cause

/-- The cause in words. -/
def message : Fault → Text
  | .badConfig problem => problem.text
  | .noKey name number =>
    Text.utf8 "note " ++ name ++ Text.utf8 " (MIDI " ++ Decimal.ofInt number ++
      Text.utf8 ") is outside the playable range"
  | .lengthOverflow => Text.utf8 "duration is too large to represent exactly"
  | .pastLastTick length start =>
    Text.utf8 "piece runs past tick " ++ Decimal.digits lastTick ++ Text.utf8 " (" ++
      length.text ++ Text.utf8 " beats starting at tick " ++ Decimal.digits start.toNat ++
      Text.utf8 ")"
  | .noChannel capacity instrument =>
    Text.utf8 "tried to use too many instruments: limited to " ++
      Decimal.digits capacity.toNat ++ Text.utf8 " (cannot place " ++ instrument.name ++
      Text.utf8 ")"
  | .reported _ text => text
  | .mishap _ => []

end Fault
end Playback
end Polyphony
