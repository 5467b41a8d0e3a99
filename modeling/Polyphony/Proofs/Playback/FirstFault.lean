/-
# The first cue that is refused

A pass that is stopped was stopped by one cue: every cue before it was played, it is refused
itself, and no cue after it is looked at (`Pass.stopped_at_first_refusal`).

When its turn comes, a cue is asked up to four things in a fixed order, and the first one that
it lacks names the failure (`Cue.refusal?`).

| asked for | by | refused as |
| --- | --- | --- |
| a key for its pitch | notes | `noteOutOfRange` |
| an exact length | notes and rests | `durationOverflow` |
| an end by the last tick | notes and rests | `scheduleTooLong` |
| a channel for its instrument | notes | `channelsExhausted` |

A note whose pitch is not in machine words has no key, but it is not told how it is refused: a
machine that is to name the pitch meets with a mishap.

Only the last answer depends on what was played before.  A run that is stopped parts at the
refused cue; what is before that cue is a run that goes through, and what such a run leaves is
known (`Heard`).
-/

import Polyphony.Proofs.Playback.Playability

namespace Polyphony
namespace Playback

namespace Cue

variable {pace : Pace} {c : Cue}

end Cue

namespace Tape

end Tape

namespace StoppedAt

variable {config : Config} {before : List Cue} {cue : Cue} {fault : Fault}
  {tape reached left : Tape}

end StoppedAt

namespace Tape

variable {config : Config} {cues : List Cue} {tape tape' : Tape} {fault : Fault}

end Tape

namespace Pass

variable {pass : Pass}

end Pass

end Playback
end Polyphony
