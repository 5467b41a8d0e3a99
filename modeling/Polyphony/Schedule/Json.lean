/-
# Schedules as JSON

An object of the resolution, the tempo, the channels in their order, and the events
in theirs, written call by call.
-/

import Polyphony.Json.Call
import Polyphony.Schedule.Basic

namespace Polyphony

/-- The calls that write an event as an object. -/
def Event.jsonCalls (e : Event) : List Json.Call :=
  [.beginObject,
    .stringField (Text.utf8 "type") e.kind.name,
    .numberField (Text.utf8 "channel") e.channel.toNat,
    .numberField (Text.utf8 "data") e.data.toNat,
    .numberField (Text.utf8 "tick") e.tick.toNat,
    .endObject]

/-- The calls that write an entry of the channel table as an object. -/
def ChannelTable.entryCalls (e : Instrument × Channel) : List Json.Call :=
  [.beginObject,
    .stringField (Text.utf8 "instrument") e.1.name,
    .numberField (Text.utf8 "program") e.1.program.toNat,
    .numberField (Text.utf8 "channel") e.2.toNat,
    .endObject]

namespace Schedule

/-- The calls that write a schedule as an object, with the resolution and the tempo it is played
at. -/
def jsonCalls (s : Schedule) (ticksPerBeat : Tick) (beatsPerMinute : UInt16) : List Json.Call :=
  [.beginObject,
    .numberField (Text.utf8 "ticks_per_beat") ticksPerBeat.toNat,
    .numberField (Text.utf8 "bpm") beatsPerMinute.toNat,
    .key (Text.utf8 "channels"), .beginArray] ++
  s.channels.byChannel.flatMap ChannelTable.entryCalls ++
  [.endArray, .key (Text.utf8 "events"), .beginArray] ++
  s.events.flatMap Event.jsonCalls ++
  [.endArray, .endObject]

/-- A schedule as JSON text. -/
def jsonText (s : Schedule) (ticksPerBeat : Tick) (beatsPerMinute : UInt16) : Text :=
  (Json.Writer.empty.run (s.jsonCalls ticksPerBeat beatsPerMinute)).text

end Schedule
end Polyphony
