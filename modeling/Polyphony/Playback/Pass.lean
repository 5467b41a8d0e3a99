/-
# A playback under way

A pass collects what a piece turns into: the events in the order in which they are
emitted, and the channels of the instruments met so far.  An instrument takes the
next channel when it is first heard, and its program is set at tick `0`, before
anything is played on the channel.  Channels are never given away twice, also not
after the events so far have been taken out as a schedule.

The first fault is kept and every later one is dropped.
-/

import Polyphony.Playback.Fault
import Polyphony.Playback.Notice
import Polyphony.Schedule.Basic

namespace Polyphony
namespace Playback

/-- The state of a playback. -/
structure Pass where
  /-- The settings. -/
  config : Config
  /-- Events in the order in which they were emitted. -/
  events : Array Event
  /-- Channels of the instruments. -/
  channels : ChannelTable
  /-- The channel to be taken next. -/
  nextChannel : Channel
  /-- The first fault. -/
  fault : Option Fault
  /-- Last message that was reported without a fault. -/
  remark : Text
  /-- What there was to tell. -/
  notices : Array Notice

namespace Pass

/-- A pass before its first note. -/
def new (config : Config) : Pass := ⟨config, #[], .empty, 0, none, [], #[]⟩

/-- Has something gone wrong? -/
def failed (pass : Pass) : Bool := pass.fault.isSome

/-- What sort of thing has gone wrong, if anything has and it can be told. -/
def failure? (pass : Pass) : Option FailureKind := pass.fault.bind fun fault => fault.kind.toOption

/-- The first fault in words, or the last remark if there is none. -/
def message (pass : Pass) : Text :=
  match pass.fault with
  | some fault => fault.message
  | none => pass.remark

/-- Keeps a fault if it is the first one. -/
def fail (pass : Pass) (fault : Fault) : Pass :=
  { pass with fault := pass.fault.or (some fault) }

/-- Takes a report from outside.  Without a kind of failure it is a remark, for which
there is room until something has gone wrong. -/
def report (pass : Pass) (kind : Option FailureKind) (text : Text) : Pass :=
  match kind with
  | some kind => pass.fail (.reported kind text)
  | none => if pass.failed then pass else { pass with remark := text }

theorem fail_of_fault {pass : Pass} {first : Fault} (h : pass.fault = some first) (fault : Fault) :
    (pass.fail fault).fault = some first := by
  simp [fail, h]

theorem failed_fail (pass : Pass) (fault : Fault) : (pass.fail fault).failed = true := by
  simp [failed, fail]

/-- Emits an event. -/
def emit (pass : Pass) (event : Event) : Pass := { pass with events := pass.events.push event }

/-- Tells something. -/
def tell (pass : Pass) (notice : Notice) : Pass :=
  { pass with notices := pass.notices.push notice }

/-- Tells something if asked to. -/
def trace (pass : Pass) (notice : Notice) : Pass :=
  if pass.config.verbose then pass.tell notice else pass

/-- Gives an instrument the next channel. -/
def takeChannel (pass : Pass) (instrument : Instrument) : Pass :=
  let channel := pass.nextChannel
  let pass :=
    { pass with
      channels := pass.channels.insert instrument channel
      nextChannel := channel + 1 }
  (pass.emit ⟨.programChange, channel, instrument.program, 0⟩).trace
    (.channelTaken channel instrument)

/-- The channel of an instrument, which takes the next one if it has none yet. -/
def channelFor (pass : Pass) (instrument : Instrument) : Except Fault Channel × Pass :=
  match pass.channels.find? instrument with
  | some channel => (.ok channel, pass)
  | none =>
    if pass.config.channels ≤ pass.nextChannel then
      let fault := .noChannel pass.config.channels instrument
      (.error fault, pass.fail fault)
    else (.ok pass.nextChannel, pass.takeChannel instrument)

/-- Takes the events so far out as a schedule, with the channels given since the last
schedule was taken. -/
def take (pass : Pass) : Schedule × Pass :=
  (⟨Schedule.inTickOrder pass.events.toList, pass.channels⟩,
    { pass with events := #[], channels := .empty })

end Pass
end Playback
end Polyphony
