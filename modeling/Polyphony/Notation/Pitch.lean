/-
# Reading pitches

A pitch is a letter with accidentals before it and octave marks behind it.  Each sign
shifts the pitch that is written without it: `^` up and `_` down by a semitone, `'` up
and `,` down by an octave.

| text | pitch |
| --- | --- |
| sign and then `t` | `t`, shifted by the accidental (`readPitch?_cons`) |
| `t` and then mark | `t`, shifted by the octave (`readPitch?_append_mark`) |

So it does not matter from which end the signs are taken off.
-/

import Polyphony.Pitch

namespace Polyphony
namespace Notation

/-- Semitones by which an octave mark shifts a pitch. -/
def markShift? (b : UInt8) : Option Int :=
  if b = Text.byte '\'' then some Pitch.octave
  else if b = Text.byte ',' then some (-Pitch.octave)
  else none

/-- Semitones by which an accidental shifts a pitch. -/
def accidentalShift? (b : UInt8) : Option Int :=
  if b = Text.byte '^' then some 1
  else if b = Text.byte '_' then some (-1)
  else none

/-- Reads a whole text as octave marks, which shift `p` one after the other. -/
def readMarks? (p : Pitch) : Text → Option Pitch
  | [] => some p
  | b :: behind =>
    match markShift? b with
    | some shift => readMarks? (p.transpose shift) behind
    | none => none

/-- Reads a whole text as a pitch. -/
def readPitch? : Text → Option Pitch
  | [] => none
  | b :: behind =>
    match accidentalShift? b with
    | some shift => (readPitch? behind).map (Pitch.transpose · shift)
    | none => (Pitch.ofLetter? b).bind (readMarks? · behind)

theorem readPitch?_cons {b : UInt8} {shift : Int} (h : accidentalShift? b = some shift)
    (t : Text) : readPitch? (b :: t) = (readPitch? t).map (Pitch.transpose · shift) := by
  rw [readPitch?, h]

theorem readMarks?_append_mark {b : UInt8} {shift : Int} (h : markShift? b = some shift)
    (p : Pitch) (t : Text) :
    readMarks? p (t ++ [b]) = (readMarks? p t).map (Pitch.transpose · shift) := by
  induction t generalizing p with
  | nil => simp [readMarks?, h]
  | cons c t ih =>
    rw [List.cons_append, readMarks?, readMarks?]
    cases markShift? c with
    | none => rfl
    | some s => exact ih (p.transpose s)

/-- An octave mark is neither an accidental nor a letter. -/
theorem readPitch?_mark {b : UInt8} {shift : Int} (h : markShift? b = some shift) :
    readPitch? [b] = none := by
  unfold markShift? at h
  split at h
  · next hb => rw [hb]; decide
  · split at h
    · next hb => rw [hb]; decide
    · simp at h

theorem readPitch?_append_mark {b : UInt8} {shift : Int} (h : markShift? b = some shift)
    (t : Text) : readPitch? (t ++ [b]) = (readPitch? t).map (Pitch.transpose · shift) := by
  induction t with
  | nil => exact readPitch?_mark h
  | cons c t ih =>
    rw [List.cons_append, readPitch?, readPitch?]
    cases accidentalShift? c with
    | none =>
      cases Pitch.ofLetter? c with
      | none => rfl
      | some p => exact readMarks?_append_mark h p t
    | some s =>
      simp only [ih, Option.map_map]
      congr 1
      funext p
      simp only [Function.comp, Pitch.transpose, Pitch.mk.injEq]
      omega

end Notation
end Polyphony
