/-
# Playing a whole piece

A recording starts out as that of a piece that cannot be played: without events and channels, with
its end at tick `0`, and not a success.  Only the last step of a playback that gets through fills
it in.  What stops a playback before is put down as the fault, and nothing else is.
-/

import Polyphony.Playback.Play

namespace Polyphony
namespace Playback

/-- What came of playing a whole piece. -/
structure Recording where
  /-- The events in the order of their ticks, and the channels of the instruments. -/
  schedule : Schedule := .empty
  /-- The tick at which the piece ends. -/
  endTick : Tick := 0
  /-- Could the piece be played? -/
  success : Bool := false
  /-- What stopped the playback. -/
  fault : Option Fault := none
  /-- What there was to tell. -/
  notices : List Notice := []

namespace Recording

/-- What sort of thing went wrong, if anything did and it can be told. -/
def failure? (r : Recording) : Option FailureKind := r.fault.bind fun fault => fault.kind.toOption

/-- What went wrong in words, nothing if nothing did. -/
def message (r : Recording) : Text := (r.fault.map Fault.message).getD []

/-- What a recording holds: what stopped it, or else its schedule and its end. -/
def outcome (r : Recording) : Except Fault (Schedule × Tick) :=
  match r.fault with
  | some fault => .error fault
  | none => .ok (r.schedule, r.endTick)

end Recording

/-- Plays a whole piece, from the start tick of the settings on, if these are valid. -/
def record (piece : Piece) (config : Config) : Recording :=
  match config.problem? with
  | some problem => { fault := some (.badConfig problem) }
  | none =>
    match (Pass.new config).play piece config.start with
    | (.error _, pass) => { fault := pass.fault, notices := pass.notices.toList }
    | (.ok stop, pass) =>
      { schedule := pass.take.1
        endTick := stop
        success := true
        notices := pass.notices.toList }

end Playback
end Polyphony
