/-
# What the score is made into

A score that can be read is always made into a piece, whatever the options: repetitions and
voices are never refused, as their number is at least one (`scorePiece_eq_ok_iff`).  The ticks
and notes of the piece are those of the score, added up symbol by symbol, times what the
options ask for:

| | ticks | notes |
| --- | --- | --- |
| score | those of its symbols | its symbols with a pitch |
| `n` repetitions | `n` times as many | `n` times as many |
| a round of `n` voices | `n - 1` pauses more | `n` times as many |

Transposing changes neither.
-/

import Polyphony.CommandLine.Composition
import Polyphony.Proofs.Notation.Reading
import Polyphony.Proofs.Playback.NoteCount

namespace Polyphony

variable {pace : Playback.Pace}

namespace Notation

variable {t : Text} {i : Instrument} {p : Piece}

/-- A score takes the ticks of its symbols. -/
theorem ticks_of_read (h : read t i = .ok p) : p.ticks pace =
    ((tokens t).map fun sign => (lengthOf sign).toTicks pace.ticksPerBeat).sum := by
  obtain ⟨parts, hparts, -, rfl⟩ := readAll_eq_ok_iff.1 h
  have hleaf : ∀ sign q, readSymbol sign i = .ok q →
      q.ticks pace = (lengthOf sign).toTicks pace.ticksPerBeat := by
    intro sign q hq
    rcases leaf_of_readSymbol hq with ⟨-, pitch, rfl⟩ | ⟨-, rfl⟩ <;> rfl
  rw [Piece.ticks_row, Piece.ticks_silence, Nat.zero_add, map_of_readSymbol hleaf hparts]

/-- A score has a note for each of its symbols with a pitch. -/
theorem notes_of_read (h : read t i = .ok p) :
    p.notes pace = (tokens t).countP isPitched := by
  obtain ⟨parts, hparts, -, rfl⟩ := readAll_eq_ok_iff.1 h
  have hleaf : ∀ sign q, readSymbol sign i = .ok q →
      q.notes pace = if isPitched sign then 1 else 0 := by
    intro sign q hq
    rcases leaf_of_readSymbol hq with ⟨hp, pitch, rfl⟩ | ⟨hp, rfl⟩ <;> rw [hp] <;> rfl
  rw [Piece.notes_row, Piece.notes_silence, Nat.zero_add, map_of_readSymbol hleaf hparts]
  generalize tokens t = signs
  induction signs with
  | nil => rfl
  | cons sign signs ih => rw [List.map_cons, List.sum_cons, ih, List.countP_cons, Nat.add_comm]

end Notation

namespace CommandLine

open Ensemble

/-- Repetitions are never refused.  A count of none is as good as one. -/
theorem repeated_eq_ok (count : Nat) (p : Piece) :
    repeated count p = .ok (chain .concat .identity (count - 1) p) := by
  rcases Nat.eq_zero_or_pos count with rfl | h
  · rfl
  · rw [repeated, if_neg (Nat.ne_of_gt h), repetitions_eq_ok p h]
    rfl

/-- Neither is a round. -/
theorem inRound_eq_ok (voices : Nat) (pause : Duration) (p : Piece) :
    inRound voices pause p =
      .ok (chain .together (.compose .identity (.delay pause)) (voices - 1) p) := by
  rcases Nat.eq_zero_or_pos voices with rfl | h
  · rfl
  · rw [inRound, if_neg (Nat.ne_of_gt h), round_eq_ok p pause h]
    rfl

@[simp] theorem looped_false (p : Piece) : looped false p = p := rfl

@[simp] theorem looped_true (p : Piece) : looped true p = .forever p := rfl

namespace Options

variable (o : Options)

/-- What a score is made into before it is looped. -/
def layered (score : Piece) : Piece :=
  chain .together (.compose .identity (.delay o.pause)) (o.voices - 1)
    (chain .concat .identity (o.repeats - 1) (score.transpose o.shift))

variable {o}

/-- **Nothing is refused.**  There is a piece exactly if the score can be read. -/
theorem scorePiece_eq_ok_iff {p : Piece} : o.scorePiece = .ok p ↔
    ∃ score, Notation.read o.score o.instrument = .ok score ∧
      p = looped o.endless (o.layered score) := by
  rw [scorePiece, readScore_eq]
  cases Notation.read o.score o.instrument with
  | error e => exact ⟨fun h => (nomatch h), fun ⟨_, h, _⟩ => (nomatch h)⟩
  | ok score =>
    simp only [Except.mapError, Bind.bind, Except.bind, repeated_eq_ok, inRound_eq_ok,
      Pure.pure, Except.pure, Except.ok.injEq, exists_eq_left']
    exact eq_comm

theorem ticks_layered (score : Piece) : (o.layered score).ticks pace =
    (o.repeats - 1 + 1) * score.ticks pace +
      (o.voices - 1) * o.pause.toTicks pace.ticksPerBeat := by
  rw [layered, ticks_chain_delay, ticks_chain_concat, Piece.transpose_eq, Piece.ticks_shiftNotes,
    Nat.add_comm]

theorem notes_layered (score : Piece) : (o.layered score).notes pace =
    score.notes pace * (o.repeats - 1 + 1) * (o.voices - 1 + 1) := by
  rw [layered, notes_chain, notes_chain, Piece.transpose_eq, Piece.notes_shiftNotes, Nat.mul_comm,
    Nat.mul_comm (score.notes pace)]

end Options
end CommandLine
end Polyphony
