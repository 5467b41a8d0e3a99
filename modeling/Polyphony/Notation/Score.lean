/-
# Reading a whole text

Blanks, line ends and bars all part one symbol from the next and mean nothing else.
The symbols of a text are joined in sequence behind an empty piece, from left to
right; the first symbol that cannot be read, or with which the piece gets too long,
is the one that is told.
-/

import Polyphony.Notation.Symbol

namespace Polyphony
namespace Notation

/-- Does a byte part two symbols? -/
def isDelimiter (b : UInt8) : Bool :=
  b == Text.byte ' ' || b == Text.byte '\t' || b == Text.byte '\n' || b == Text.byte '\r' ||
    b == 12 || b == 11 || b == Text.byte '|'

/-- The runs between the delimiters of a text, empty ones included.  There is one more
run than there are delimiters. -/
def runs : Text → List Text
  | [] => [[]]
  | b :: t =>
    if isDelimiter b then [] :: runs t
    else
      match runs t with
      | [] => [[b]]
      | run :: more => (b :: run) :: more

theorem runs_ne_nil (t : Text) : runs t ≠ [] := by
  cases t with
  | nil => simp [runs]
  | cons b t =>
    rw [runs]
    split
    · simp
    · split <;> simp

/-- The symbols of a text: its runs that are not empty. -/
def tokens (t : Text) : List Text := (runs t).filter fun run => run != []

theorem runs_append_delimiter (s t : Text) {c : UInt8} (h : isDelimiter c = true) :
    runs (s ++ c :: t) = runs s ++ runs t := by
  induction s with
  | nil => simp [runs, h]
  | cons b s ih =>
    rw [List.cons_append, runs, runs, ih]
    split
    · rfl
    · cases hs : runs s with
      | nil => exact absurd hs (runs_ne_nil s)
      | cons run more => rfl

/-- A delimiter parts the symbols of two texts. -/
theorem tokens_append_delimiter (s t : Text) {c : UInt8} (h : isDelimiter c = true) :
    tokens (s ++ c :: t) = tokens s ++ tokens t := by
  rw [tokens, runs_append_delimiter s t h, List.filter_append]; rfl

/-- Reads one more symbol and puts it behind `p`. -/
def readNext (instrument : Instrument) (p : Piece) (sign : Text) : Except Misreading Piece :=
  match readSymbol sign instrument with
  | .error e => .error e
  | .ok next =>
    let longer := Piece.concat p next
    if longer.duration.isOverflow then .error ⟨sign, .totalTooLarge⟩ else .ok longer

/-- Reads a list of symbols and puts them behind `p`. -/
def readAll (instrument : Instrument) : Piece → List Text → Except Misreading Piece
  | p, [] => .ok p
  | p, sign :: signs =>
    match readNext instrument p sign with
    | .error e => .error e
    | .ok p => readAll instrument p signs

/-- Reads a whole text for an instrument. -/
def read (t : Text) (instrument : Instrument) : Except Misreading Piece :=
  readAll instrument .silence (tokens t)

/-- Reads a list of symbols and puts them behind what has been read.  What came of the symbol that
cannot be read is what comes of them all, and so nothing is left of the symbols before it. -/
def readingBehind (instrument : Instrument) : Reading → List Text → Reading
  | read, [] => { read with success := true }
  | read, sign :: signs =>
    let symbol := readingOfSymbol sign instrument
    if symbol.success then
      let longer := { read with piece := .concat read.piece symbol.piece }
      if longer.piece.duration.isOverflow then .failed ⟨sign, .totalTooLarge⟩
      else readingBehind instrument longer signs
    else symbol

/-- What comes of reading a whole text for an instrument. -/
def readingOf (t : Text) (instrument : Instrument) : Reading :=
  readingBehind instrument {} (tokens t)

theorem readingBehind_eq (instrument : Instrument) (p : Piece) (signs : List Text) :
    readingBehind instrument { piece := p } signs = .ofExcept (readAll instrument p signs) := by
  induction signs generalizing p with
  | nil => rfl
  | cons sign signs ih =>
    rw [readingBehind, readAll, readNext]
    cases hread : readSymbol sign instrument with
    | error e =>
      have hsymbol : readingOfSymbol sign instrument = .failed e :=
        congrArg Reading.ofExcept hread
      rw [hsymbol]
      rfl
    | ok next =>
      have hsymbol : readingOfSymbol sign instrument = { piece := next, success := true } :=
        congrArg Reading.ofExcept hread
      simp only [hsymbol, if_true]
      by_cases hlong : (Piece.concat p next).duration.isOverflow = true
      · rw [if_pos hlong, if_pos hlong]
        rfl
      · rw [if_neg hlong, if_neg hlong]
        exact ih (.concat p next)

/-- A text that can be read leaves its piece, and any other one leaves its mistake alone. -/
theorem readingOf_eq (t : Text) (instrument : Instrument) :
    readingOf t instrument = .ofExcept (read t instrument) :=
  readingBehind_eq instrument .silence (tokens t)

end Notation
end Polyphony
