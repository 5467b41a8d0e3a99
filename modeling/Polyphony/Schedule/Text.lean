/-
# Schedules as lines of text

One line for each event in order, such as

`Event: NOTE_ON Pitch: 60 Channel: 0 Tick: 0`.
-/

import Polyphony.Schedule.Basic
import Polyphony.Text.Decimal

namespace Polyphony

/-- What the number of an event is called. -/
def EventKind.dataLabel : EventKind → Text
  | .programChange => Text.utf8 "Program"
  | _ => Text.utf8 "Pitch"

/-- The line of an event, with its line end. -/
def Event.line (e : Event) : Text :=
  Text.utf8 "Event: " ++ e.kind.name ++ Text.byte ' ' :: e.kind.dataLabel ++ Text.utf8 ": " ++
    Decimal.digits e.data.toNat ++ Text.utf8 " Channel: " ++ Decimal.digits e.channel.toNat ++
    Text.utf8 " Tick: " ++ Decimal.digits e.tick.toNat ++ [Text.byte '\n']

/-- A schedule as text. -/
def Schedule.text (s : Schedule) : Text := s.events.flatMap Event.line

end Polyphony
