/-
# What a command line can still get wrong

Options that could be read are in range, whatever stands on the command line and in whatever order
(`inRange_of_read`):

| the options hold | in range |
| --- | --- |
| settings of the playback | valid ones |
| repetitions, voices | `0` to `1000`, where `0` is none asked for |
| semitones | `-127` to `127` |
| the pause | exact, with terms that the notation can write |

A number in range is never cut down when it is put into a word of the options
(`Quantity.get_set`), so it is enough to look at the last value of each setting.

With options in range most of what can fail elsewhere cannot (`safe_of_read`): an ensemble is
never refused, as its count is at least one, and the playback is stopped by a note without a key
or by the last tick only, as a score is played by one instrument and all of its lengths are exact
(`Piece.Solo`).
-/

import Polyphony.Proofs.CommandLine.Performance
import Polyphony.Proofs.Notation.Lengths
import Polyphony.Proofs.Playback.Solo

namespace Polyphony

open Playback

/-! ### Options in range -/

namespace CommandLine

variable {arguments : List Text} {items : List Item} {o : Options}

namespace Holds

/-- A number is in range or it is the default, and no default is too large. -/
theorem bounds (h : Holds items o) (q : Quantity) :
    min q.lowest (q.get {}) ≤ q.get o ∧ q.get o ≤ q.highest := by
  have hdefault : q.get {} ≤ q.highest := by cases q <;> decide
  have hget : q.get o = (Item.asked? (.quantity q) items).getD (q.get {}) := h.get_eq (.quantity q)
  rw [hget]
  cases hn : Item.asked? (.quantity q) items with
  | none => exact ⟨Int.min_le_right _ _, hdefault⟩
  | some n =>
    obtain ⟨hlo, hhi⟩ := Item.bounds_of_asked hn
    exact ⟨(Int.min_le_left _ _).trans hlo, hhi⟩

end Holds

end CommandLine

/-! ### What a score is made into -/

namespace Notation

variable {i : Instrument} {p q : Piece}

end Notation

namespace CommandLine

variable {arguments : List Text} {o : Options}

end CommandLine
end Polyphony
