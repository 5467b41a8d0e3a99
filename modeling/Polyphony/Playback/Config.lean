/-
# Playback settings

Resolution and tempo, what the device offers, where the piece starts, and for how
long a piece without end is played.
-/

import Polyphony.Schedule.Event
import Polyphony.Text.Decimal

namespace Polyphony
namespace Playback

/-- Largest tick, the largest 32-bit number. -/
def lastTick : Nat := 0xFFFFFFFF

/-- Most channels a device can have. -/
def maxChannels : UInt8 := 16

/-- The settings of a playback. -/
structure Config where
  /-- Ticks in a beat. -/
  ticksPerBeat : Tick := 64
  /-- Beats in a minute. -/
  beatsPerMinute : UInt16 := 120
  /-- Channels of the device. -/
  channels : UInt8 := 16
  /-- Minutes after which a piece without end is no longer repeated. -/
  maxMinutes : UInt16 := 10
  /-- Tick at which the piece starts. -/
  start : Tick := 0
  /-- Are channels and repetitions traced? -/
  verbose : Bool := false
deriving DecidableEq, Inhabited

/-- What can be wrong with the settings. -/
inductive ConfigProblem where
  /-- No ticks in a beat. -/
  | noTicks
  /-- No beats in a minute. -/
  | noBeats
  /-- No channels, or more than a device can have. -/
  | channelCount
  /-- No time to play in. -/
  | noMinutes
deriving DecidableEq

/-- What is wrong, in words. -/
def ConfigProblem.text : ConfigProblem → Text
  | .noTicks => Text.utf8 "ticks per beat must be positive"
  | .noBeats => Text.utf8 "beats per minute must be positive"
  | .channelCount =>
    Text.utf8 "channel capacity must be between 1 and " ++ Decimal.digits maxChannels.toNat
  | .noMinutes => Text.utf8 "maximum playback minutes must be positive"

namespace Config

/-- The first thing that is wrong with the settings, if anything is. -/
def problem? (c : Config) : Option ConfigProblem :=
  if c.ticksPerBeat = 0 then some .noTicks
  else if c.beatsPerMinute = 0 then some .noBeats
  else if c.channels = 0 ∨ maxChannels < c.channels then some .channelCount
  else if c.maxMinutes = 0 then some .noMinutes
  else none

theorem problem?_eq_none_iff {c : Config} :
    c.problem? = none ↔ c.ticksPerBeat ≠ 0 ∧ c.beatsPerMinute ≠ 0 ∧
      (c.channels ≠ 0 ∧ c.channels ≤ maxChannels) ∧ c.maxMinutes ≠ 0 := by
  have h : c.channels ≠ 0 ∧ c.channels ≤ maxChannels ↔
      ¬ (c.channels = 0 ∨ maxChannels < c.channels) := by
    rw [not_or, UInt8.not_lt]
  rw [h]
  unfold problem?
  repeat' split
  all_goals simp_all

/-- Ticks that one piece without end may take: as many as the minutes last, but no
more than there are ticks. -/
def maxTicks (c : Config) : Nat :=
  min (c.ticksPerBeat.toNat * c.beatsPerMinute.toNat * c.maxMinutes.toNat) lastTick

theorem maxTicks_le (c : Config) : c.maxTicks ≤ lastTick := Nat.min_le_right ..

end Config
end Playback
end Polyphony
