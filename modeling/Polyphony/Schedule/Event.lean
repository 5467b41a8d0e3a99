/-
# Events

A playing device is told at which tick to press or release a key on which channel, or
to change the program of a channel.
-/

import Polyphony.Text

namespace Polyphony

/-- A point in time, counted in ticks from the start of the schedule. -/
abbrev Tick := UInt32

/-- A channel of a playing device. -/
abbrev Channel := UInt8

/-- What a device is told to do. -/
inductive EventKind where
  /-- Press a key. -/
  | noteOn
  /-- Release a key. -/
  | noteOff
  /-- Play the channel by another program from now on. -/
  | programChange
  /-- A number that no kind has. -/
  | unlisted (code : UInt8)
deriving DecidableEq

namespace EventKind

/-- The kind of a number. -/
def ofCode (code : UInt8) : EventKind :=
  match code with
  | 0 => .noteOn
  | 1 => .noteOff
  | 2 => .programChange
  | code => .unlisted code

/-- Name of a kind. -/
def name : EventKind → Text
  | .noteOn => Text.utf8 "NOTE_ON"
  | .noteOff => Text.utf8 "NOTE_OFF"
  | .programChange => Text.utf8 "PROGRAM_CHANGE"
  | .unlisted _ => Text.utf8 "UNKNOWN"

end EventKind

/-- One instruction to a device. -/
structure Event where
  /-- What to do. -/
  kind : EventKind
  /-- On which channel. -/
  channel : Channel
  /-- Key, or program of a program change. -/
  data : UInt8
  /-- When. -/
  tick : Tick
deriving DecidableEq

end Polyphony
