/-
# Moving on in time

Time is counted in ticks of 32 bits.  Whatever starts at a tick must end at one
(`tickAfter?`), so no tick is ever reached by wrapping around.
-/

import Polyphony.Duration.Ticks
import Polyphony.Playback.Fault

namespace Polyphony
namespace Playback

/-- The tick that lies `ticks` after `start`, if there is one. -/
@[inline]
def tickAfter? (start : Tick) (ticks : Nat) : Option Tick :=
  if start.toNat + ticks ≤ lastTick then some (start + ticks.toUInt32) else none

/-- Moving on never wraps around. -/
theorem tickAfter?_eq_some_iff {start stop : Tick} {ticks : Nat} :
    tickAfter? start ticks = some stop ↔ stop.toNat = start.toNat + ticks := by
  have hs := start.toNat_lt
  have he := stop.toNat_lt
  unfold tickAfter? lastTick
  split
  · rw [Option.some.injEq, ← UInt32.toNat_inj, UInt32.toNat_add, Nat.toUInt32,
      UInt32.toNat_ofNat', Nat.mod_eq_of_lt (show ticks < 2 ^ 32 by omega),
      Nat.mod_eq_of_lt (by omega)]
    exact eq_comm
  · simp only [reduceCtorEq, false_iff]
    omega

/-- The end of what starts at `start` and lasts `length`. -/
@[inline]
def endOf (config : Config) (start : Tick) (length : Duration) : Except Fault Tick :=
  if length.isOverflow then .error .lengthOverflow
  else
    match tickAfter? start (length.toTicks config.ticksPerBeat.toNat) with
    | some stop => .ok stop
    | none => .error (.pastLastTick length start)

end Playback
end Polyphony
