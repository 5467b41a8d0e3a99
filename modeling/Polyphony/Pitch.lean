/-
# Pitches

A pitch is a number of semitones above or below middle C.  The letters `A` to `G`
name the octave that starts at middle C, so `A` lies nine semitones above `C`.
Any number of semitones is a pitch; only a playing device limits the range, to the
keys `0` to `127` with middle C on key `60` (`key?`).  Key numbers and names are told here
without a limit; which of them 32 bits have is told in `Polyphony.Pitch.Words`.
-/

import Polyphony.Text.Decimal

namespace Polyphony

/-- A pitch, as its distance from middle C. -/
structure Pitch where
  /-- Semitones above middle C. -/
  semitones : Int
deriving DecidableEq, Inhabited

namespace Pitch

/-- Semitones in an octave. -/
def octave : Int := 12

/-- Semitones of the letters `A` to `G` above middle C. -/
def letterSemitones : Vector Int 7 := #v[9, 11, 0, 2, 4, 5, 7]

/-- The pitch of a capital letter from `A` to `G`. -/
def ofLetter? (letter : UInt8) : Option Pitch :=
  if Text.byte 'A' ≤ letter then
    (letterSemitones[(letter - Text.byte 'A').toNat]?).map Pitch.mk
  else none

/-- The pitch `shift` semitones higher. -/
def transpose (p : Pitch) (shift : Int) : Pitch := ⟨p.semitones + shift⟩

/-- Semitones from `other` up to `p`. -/
def difference (p other : Pitch) : Int := p.semitones - other.semitones

theorem transpose_difference (p other : Pitch) : other.transpose (p.difference other) = p := by
  obtain ⟨s⟩ := p
  simp only [transpose, difference, mk.injEq]
  omega

instance : LT Pitch := ⟨fun p q => p.semitones < q.semitones⟩

instance (p q : Pitch) : Decidable (p < q) :=
  inferInstanceAs (Decidable (p.semitones < q.semitones))

/-- Number of the key that plays this pitch, on a keyboard without ends. -/
def keyNumber (p : Pitch) : Int := p.semitones + 60

/-- The key that plays this pitch, if a device has it. -/
def key? (p : Pitch) : Option UInt8 :=
  if 0 ≤ p.keyNumber ∧ p.keyNumber ≤ 127 then some p.keyNumber.toNat.toUInt8 else none

theorem key?_eq_none_iff {p : Pitch} : p.key? = none ↔ p.keyNumber < 0 ∨ 127 < p.keyNumber := by
  unfold key?; split <;> simp <;> omega

theorem toNat_of_key? {p : Pitch} {key : UInt8} (h : p.key? = some key) :
    (key.toNat : Int) = p.keyNumber := by
  unfold key? at h
  split at h
  · rename_i hk
    obtain rfl := Option.some.inj h
    rw [Nat.toUInt8, UInt8.toNat_ofNat']
    omega
  · simp at h

/-- Spelling of the twelve pitches from middle C up; black keys are sharps. -/
def spellings : Vector String 12 :=
  #v["C", "^C", "D", "^D", "E", "F", "^F", "G", "^G", "A", "^A", "B"]

/-- Steps of a pitch above the `C` at or below it. -/
def step (p : Pitch) : Fin 12 := ⟨(p.semitones % 12).toNat, by omega⟩

/-- Octaves from middle C up to the `C` at or below a pitch. -/
def octaves (p : Pitch) : Int := p.semitones / 12

/-- Octave marks: `'` for each octave up, `,` for each octave down. -/
def octaveMarks (n : Int) : Text :=
  if 0 ≤ n then List.replicate n.toNat (Text.byte '\'')
  else List.replicate (-n).toNat (Text.byte ',')

/-- A pitch in notation, such as `C`, `^F'` or `A,,`. -/
def text (p : Pitch) : Text :=
  Text.utf8 spellings[p.step] ++ octaveMarks p.octaves

theorem semitones_eq (p : Pitch) : p.semitones = octave * p.octaves + (p.step.val : Int) := by
  simp only [octave, octaves, step]; omega

end Pitch
end Polyphony
