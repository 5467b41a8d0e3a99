/-
# Reading symbols

A symbol is a pitch or a point, and then a length: nothing, `n`, `n/m` or `/m` beats,
where a missing number is one.  The pitch ends at the first digit or stroke.  Of
several mistakes in a symbol the one found first is told: the length is read before
the pitch, and from left to right.
-/

import Polyphony.Failure
import Polyphony.Notation.Pitch
import Polyphony.Piece.Basic

namespace Polyphony
namespace Notation

/-- What can be wrong with a symbol. -/
inductive Mistake where
  /-- The number of beats is over the limit. -/
  | lengthTooLarge
  /-- No number after the stroke, or one over the limit. -/
  | numberExpected
  /-- Something behind the length. -/
  | strayCharacters
  /-- A length over zero. -/
  | zeroDenominator
  /-- What stands before the length is neither a pitch nor a point. -/
  | notAPitch
  /-- With this symbol the piece gets too long to be held exactly. -/
  | totalTooLarge
deriving DecidableEq

namespace Mistake

/-- What is wrong, in words. -/
def reason : Mistake → Text
  | .lengthTooLarge => Text.utf8 "duration is too large"
  | .numberExpected => Text.utf8 "expected a number after '/'"
  | .strayCharacters => Text.utf8 "unexpected characters after duration"
  | .zeroDenominator => Text.utf8 "duration denominator is zero"
  | .notAPitch => Text.utf8 "not a pitch or rest"
  | .totalTooLarge => Text.utf8 "total duration is too large to represent exactly"

/-- What sort of failure a mistake is. -/
def kind : Mistake → FailureKind
  | .totalTooLarge => .durationOverflow
  | _ => .badNotation

end Mistake

/-- A symbol that could not be read, and why. -/
structure Misreading where
  /-- The symbol at fault. -/
  sign : Text
  /-- What is wrong with it. -/
  mistake : Mistake
deriving DecidableEq

namespace Misreading

/-- What sort of failure this is. -/
def kind (e : Misreading) : FailureKind := e.mistake.kind

/-- The mistake in words, with the symbol at fault. -/
def message (e : Misreading) : Text :=
  Text.utf8 "couldn't understand '" ++ e.sign ++ Text.utf8 "': " ++ e.mistake.reason

end Misreading

/-- What came of reading a text.  It starts out as that of a text that has not been read: the empty
piece, and no success. -/
structure Reading where
  /-- The piece that was read. -/
  piece : Piece := .silence
  /-- Could the text be read? -/
  success : Bool := false
  /-- Why it could not. -/
  misreading : Option Misreading := none

namespace Reading

/-- What comes of a text that could not be read. -/
def failed (e : Misreading) : Reading := { misreading := some e }

/-- What comes of a text that is read as a piece, or not for a mistake. -/
def ofExcept : Except Misreading Piece → Reading
  | .error e => .failed e
  | .ok piece => { piece := piece, success := true }

/-- What sort of failure there was, if there was one. -/
def failure? (r : Reading) : Option FailureKind := r.misreading.map Misreading.kind

/-- The mistake in words, nothing if there was none. -/
def message (r : Reading) : Text := (r.misreading.map Misreading.message).getD []

/-- The symbol at fault, nothing if there was none. -/
def sign (r : Reading) : Text := (r.misreading.map Misreading.sign).getD []

end Reading

/-- Largest number in a length. -/
def maxLengthTerm : Nat := 1000000

/-- The number of a run of digits, if there are any and the number is not over the
limit. -/
def lengthTerm? (run : Text) : Option Nat :=
  if run = [] ∨ maxLengthTerm < Decimal.value run then none else some (Decimal.value run)

theorem lengthTerm?_le {run : Text} {n : Nat} (h : lengthTerm? run = some n) :
    n ≤ maxLengthTerm := by
  unfold lengthTerm? at h
  split at h
  · simp at h
  · rename_i hn
    obtain rfl := Option.some.inj h
    omega

/-- Reads the number of beats before the stroke, one if there is no digit; also what
stands behind it. -/
def readNumerator (t : Text) : Except Mistake (Nat × Text) :=
  match t.takeWhile Decimal.isDigit with
  | [] => .ok (1, t)
  | b :: run =>
    match lengthTerm? (b :: run) with
    | some n => .ok (n, t.dropWhile Decimal.isDigit)
    | none => .error .lengthTooLarge

/-- Reads the stroke and the number behind it, one if there is no stroke. -/
def readDenominator : Text → Except Mistake Nat
  | [] => .ok 1
  | b :: t =>
    if b = Text.byte '/' then
      match lengthTerm? (t.takeWhile Decimal.isDigit) with
      | none => .error .numberExpected
      | some n => if t.dropWhile Decimal.isDigit = [] then .ok n else .error .strayCharacters
    else .error .strayCharacters

/-- Reads a whole text as a length. -/
def readLength (t : Text) : Except Mistake Duration :=
  match readNumerator t with
  | .error mistake => .error mistake
  | .ok (num, behind) =>
    match readDenominator behind with
    | .error mistake => .error mistake
    | .ok den =>
      match Duration.ofFraction? num den with
      | some length => .ok length
      | none => .error .zeroDenominator

/-- Does a byte belong to the pitch of a symbol? -/
def inPitch (b : UInt8) : Bool := b != Text.byte '/' && !Decimal.isDigit b

/-- Reads a symbol for an instrument. -/
def readSymbol (t : Text) (instrument : Instrument) : Except Misreading Piece :=
  match readLength (t.dropWhile inPitch) with
  | .error mistake => .error ⟨t, mistake⟩
  | .ok length =>
    if t.takeWhile inPitch = [Text.byte '.'] then .ok (.rest length)
    else
      match readPitch? (t.takeWhile inPitch) with
      | some pitch => .ok (.note length pitch instrument)
      | none => .error ⟨t, .notAPitch⟩

/-- What comes of reading a symbol for an instrument. -/
def readingOfSymbol (t : Text) (instrument : Instrument) : Reading :=
  .ofExcept (readSymbol t instrument)

/-- A symbol is blamed for its own mistakes, none of which is the length of the piece. -/
theorem readSymbol_error {t : Text} {i : Instrument} {e : Misreading}
    (h : readSymbol t i = .error e) : e.sign = t := by
  unfold readSymbol at h
  split at h
  · obtain rfl := Except.error.inj h; rfl
  · split at h
    · simp at h
    · split at h
      · simp at h
      · obtain rfl := Except.error.inj h; rfl

end Notation
end Polyphony
