/-
# Pieces

A piece of music is a note, a rest, or built from pieces: one after the other, both
at once, or one without end.

| piece | lasts |
| --- | --- |
| `note`, `rest` | as long as it says |
| `concat a b` | `a` and then `b` |
| `together a b` | the longer of the two |
| `forever a` | without end |

The length is kept with the piece when it is made, so asking a long piece for it, or one
whose parts are used many times over, takes no longer than asking a note.

Transposing a piece moves its notes and nothing else: its length stays
(`duration_transpose`) and shifts add up (`transpose_transpose`).
-/

import Polyphony.Duration.Order
import Polyphony.Instrument.Basic
import Polyphony.Pitch

namespace Polyphony

/-- A piece of music. -/
inductive Piece where
  /-- One pitch, sounded by an instrument. -/
  | note (length : Duration) (pitch : Pitch) (instrument : Instrument)
  /-- Silence. -/
  | rest (length : Duration)
  /-- `first`, and `second` when it has ended. -/
  | concat (first second : Piece)
  /-- Both from the same instant on. -/
  | together (top bottom : Piece)
  /-- `body` over and over again. -/
  | forever (body : Piece)
with
  /-- How long a piece lasts. -/
  @[computed_field] duration : Piece → Duration
    | .note length _ _ => length
    | .rest length => length
    | .concat first second => duration first + duration second
    | .together top bottom => max (duration top) (duration bottom)
    | .forever _ => .infinite
deriving Inhabited

namespace Piece

/-- The empty piece: a rest of no beats. -/
def silence : Piece := .rest .zero

/-- The five ways of making a piece. -/
inductive Kind where
  | note
  | rest
  | concat
  | together
  | forever
deriving DecidableEq

/-- All kinds, in the order of their numbers. -/
def Kind.all : List Kind := [.note, .rest, .concat, .together, .forever]

/-- Number of a kind. -/
def Kind.code : Kind → UInt8
  | .note => 0
  | .rest => 1
  | .concat => 2
  | .together => 3
  | .forever => 4

/-- The kind of a number. -/
def Kind.ofCode? (code : UInt8) : Option Kind := Kind.all[code.toNat]?

theorem Kind.ofCode?_code (k : Kind) : ofCode? k.code = some k := by cases k <;> rfl

/-- Name of a kind. -/
def Kind.name : Kind → Text
  | .note => Text.utf8 "Note"
  | .rest => Text.utf8 "Rest"
  | .concat => Text.utf8 "Concat"
  | .together => Text.utf8 "Together"
  | .forever => Text.utf8 "Forever"

/-- Name of the kind of a number, also where there is no such kind. -/
def Kind.nameOfCode (code : UInt8) : Text :=
  match ofCode? code with
  | some k => k.name
  | none => Text.utf8 "Unknown"

/-- How a piece was made. -/
def kind : Piece → Kind
  | .note .. => .note
  | .rest _ => .rest
  | .concat .. => .concat
  | .together .. => .together
  | .forever _ => .forever

/-- A piece with every note moved by `shift` semitones, whatever the shift. -/
def shiftNotes : Piece → Int → Piece
  | .note d p i, shift => .note d (p.transpose shift) i
  | .rest d, _ => .rest d
  | .concat a b, shift => .concat (a.shiftNotes shift) (b.shiftNotes shift)
  | .together a b, shift => .together (a.shiftNotes shift) (b.shiftNotes shift)
  | .forever a, shift => .forever (a.shiftNotes shift)

theorem duration_shiftNotes (p : Piece) (shift : Int) :
    (p.shiftNotes shift).duration = p.duration := by
  induction p with
  | note | rest | forever => rfl
  | concat a b iha ihb => simp only [shiftNotes, duration, iha, ihb]
  | together a b iha ihb => simp only [shiftNotes, duration, iha, ihb]

theorem shiftNotes_zero (p : Piece) : p.shiftNotes 0 = p := by
  induction p with
  | note d p i => simp [shiftNotes, Pitch.transpose]
  | rest => rfl
  | concat a b iha ihb => simp only [shiftNotes, iha, ihb]
  | together a b iha ihb => simp only [shiftNotes, iha, ihb]
  | forever a ih => simp only [shiftNotes, ih]

theorem shiftNotes_shiftNotes (p : Piece) (i j : Int) :
    (p.shiftNotes i).shiftNotes j = p.shiftNotes (i + j) := by
  induction p with
  | note d p k => simp [shiftNotes, Pitch.transpose, Int.add_assoc]
  | rest => rfl
  | concat a b iha ihb => simp only [shiftNotes, iha, ihb]
  | together a b iha ihb => simp only [shiftNotes, iha, ihb]
  | forever a ih => simp only [shiftNotes, ih]

/-- A piece `shift` semitones higher.  A shift by none leaves it as it is. -/
def transpose (p : Piece) (shift : Int) : Piece :=
  if shift = 0 then p else p.shiftNotes shift

theorem transpose_eq (p : Piece) (shift : Int) : p.transpose shift = p.shiftNotes shift := by
  unfold transpose
  split
  · next h => rw [h, shiftNotes_zero]
  · rfl

theorem transpose_zero (p : Piece) : p.transpose 0 = p := rfl

/-- Transposing keeps the length. -/
@[simp] theorem duration_transpose (p : Piece) (shift : Int) :
    (p.transpose shift).duration = p.duration := by
  rw [transpose_eq, duration_shiftNotes]

/-- Shifts add up. -/
theorem transpose_transpose (p : Piece) (i j : Int) :
    (p.transpose i).transpose j = p.transpose (i + j) := by
  simp only [transpose_eq, shiftNotes_shiftNotes]

theorem transpose_concat (a b : Piece) (shift : Int) :
    (concat a b).transpose shift = concat (a.transpose shift) (b.transpose shift) := by
  simp only [transpose_eq, shiftNotes]

theorem transpose_together (a b : Piece) (shift : Int) :
    (together a b).transpose shift = together (a.transpose shift) (b.transpose shift) := by
  simp only [transpose_eq, shiftNotes]

theorem transpose_forever (a : Piece) (shift : Int) :
    (forever a).transpose shift = forever (a.transpose shift) := by
  simp only [transpose_eq, shiftNotes]

/-- The piece after `pause` of silence. -/
def delay (p : Piece) (pause : Duration) : Piece := .concat (.rest pause) p

theorem transpose_delay (p : Piece) (pause : Duration) (shift : Int) :
    (p.delay pause).transpose shift = (p.transpose shift).delay pause := by
  rw [transpose_eq, transpose_eq]
  rfl

end Piece
end Polyphony
