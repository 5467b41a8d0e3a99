/-
# What a playback tells along the way

Notices say what was done and change nothing.  Channels taken and loops played are
traced on request; a loop that is not repeated is always told.

The rounds of a loop are shown as a 32-bit number with a sign, which is too small for some
counts of rounds (`shown`).
-/

import Polyphony.Duration.Text
import Polyphony.Instrument.Basic
import Polyphony.Schedule.Event

namespace Polyphony
namespace Playback

/-- Something worth telling. -/
inductive Notice where
  /-- An instrument got its channel. -/
  | channelTaken (channel : Channel) (instrument : Instrument)
  /-- The body of a loop takes less than a tick. -/
  | bodyTooShort (length : Duration)
  /-- A loop was played so often and took so many ticks. -/
  | loopPlayed (start : Tick) (rounds ticks : Nat)
deriving DecidableEq

namespace Notice

/-- What a count is shown as: itself if it is less than `2 ^ 31`, and else as much as
32 bits with a sign keep of it. -/
def shown (count : Nat) : Int := Int.bmod count 0x100000000

/-- A count is shown as itself as long as it fits. -/
theorem shown_eq_iff {count : Nat} : shown count = count ↔ count ≤ 0x7FFFFFFF := by
  unfold shown Int.bmod
  simp only
  split <;> omega

/-- The line of a notice, with its line end. -/
def line : Notice → Text
  | .channelTaken channel instrument =>
    Text.utf8 "[Compiler] channel " ++ Decimal.digits channel.toNat ++ Text.utf8 " <- " ++
      instrument.name ++ Text.utf8 " (program " ++ Decimal.digits instrument.program.toNat ++
      Text.utf8 ")\n"
  | .bodyTooShort length =>
    Text.utf8 "[Compiler] WARNING: forever body of " ++ length.text ++
      Text.utf8 " beats is shorter than one tick; not repeated\n"
  | .loopPlayed start rounds ticks =>
    Text.utf8 "[Compiler] forever at tick " ++ Decimal.digits start.toNat ++ Text.utf8 ": " ++
      Decimal.ofInt (shown rounds) ++ Text.utf8 " repetitions, " ++ Decimal.digits ticks ++
      Text.utf8 " ticks\n"

/-- The lines of several notices in order. -/
def lines (notices : List Notice) : Text := notices.flatMap line

end Notice
end Playback
end Polyphony
