/-
# Pitches in machine words

A machine counts semitones in 32 bits, one of them for the sign, and it can happen to it that a
number does not fit them, or that it looks for an entry that a table does not have.  Nothing is
told of what such a machine does next (`Mishap`).

| semitones above middle C | key number | name |
| --- | --- | --- |
| `-0x80000000` to `-0x7FFFFFF4` | as it is | none, since an octave and the opposite do not fit |
| `-0x7FFFFFF3` to `0x7FFFFFC3` | as it is | as it is |
| `0x7FFFFFC4` to `0x7FFFFFFF` | none, since it does not fit | as it is |

The octave of a pitch is found by division, rounded down.  A machine's division rounds toward zero,
so below middle C it divides the opposite, rounded up, which takes a sum that is larger than the
opposite.  That sum is why the lowest pitches have no name (`spelled_eq`).
-/

import Polyphony.Pitch

namespace Polyphony
namespace Pitch

/-- What must not happen to a machine that works on pitches. -/
inductive Mishap where
  /-- A number that 32 bits do not hold. -/
  | wrapped
  /-- An entry that a table does not have. -/
  | noEntry
deriving DecidableEq

/-- Does a number fit 32 bits, one of them for the sign? -/
def Fits (n : Int) : Prop := -0x80000000 ≤ n ∧ n ≤ 0x7FFFFFFF

instance : DecidablePred Fits := fun n =>
  inferInstanceAs (Decidable (-0x80000000 ≤ n ∧ n ≤ 0x7FFFFFFF))

/-- The result of a step of arithmetic. -/
def checked (n : Int) : Except Mishap Int := if Fits n then .ok n else .error .wrapped

theorem checked_of_fits {n : Int} (h : Fits n) : checked n = .ok n := if_pos h

theorem checked_of_not_fits {n : Int} (h : ¬ Fits n) : checked n = .error .wrapped := if_neg h

/-! ### Key numbers -/

/-- Number of the key that plays so many semitones. -/
def numbered (semitones : Int) : Except Mishap Int := checked (semitones + 60)

/-! ### Names -/

/-- Octaves from middle C up to the `C` at or below so many semitones. -/
def wordOctaves (semitones : Int) : Except Mishap Int :=
  if 0 ≤ semitones then return semitones.tdiv octave
  else do
    let opposite ← checked (-semitones)
    let above ← checked (opposite + octave)
    let roundedUp ← checked (above - 1)
    checked (-(roundedUp.tdiv octave))

/-- The entry of the table of spellings. -/
def spellingAt (step : Int) : Except Mishap String :=
  if _h : 0 ≤ step ∧ step.toNat < 12 then return spellings[step.toNat] else throw .noEntry

/-- So many semitones in notation.  One of the two counts of marks is none. -/
def spelled (semitones : Int) : Except Mishap Text := do
  let octaves ← wordOctaves semitones
  let step ← checked (semitones - (← checked (octaves * octave)))
  return Text.utf8 (← spellingAt step) ++
    (List.replicate octaves.toNat (Text.byte '\'') ++
      List.replicate (-octaves).toNat (Text.byte ','))

/-- Are so many semitones written without a sum that wraps around? -/
def Spellable (semitones : Int) : Prop := -0x7FFFFFF3 ≤ semitones ∧ semitones ≤ 0x7FFFFFFF

instance : DecidablePred Spellable := fun n =>
  inferInstanceAs (Decidable (-0x7FFFFFF3 ≤ n ∧ n ≤ 0x7FFFFFFF))

variable {v : Int}

/-- The machine rounds octaves down. -/
theorem wordOctaves_eq (h : Spellable v) : wordOctaves v = .ok (v / 12) := by
  obtain ⟨hlow, hhigh⟩ := h
  rw [wordOctaves, octave]
  by_cases hsign : 0 ≤ v
  · rw [if_pos hsign, Int.tdiv_eq_ediv_of_nonneg hsign]
    rfl
  · have hopposite : Fits (-v) := ⟨by omega, by omega⟩
    have habove : Fits (-v + 12) := ⟨by omega, by omega⟩
    have hrounded : Fits (-v + 12 - 1) := ⟨by omega, by omega⟩
    have hquotient : -((-v + 12 - 1).tdiv 12) = v / 12 := by
      rw [Int.tdiv_eq_ediv_of_nonneg (by omega)]
      omega
    have hfits : Fits (v / 12) := ⟨by omega, by omega⟩
    simp only [if_neg hsign, checked_of_fits hopposite, checked_of_fits habove,
      checked_of_fits hrounded, bind, Except.bind, hquotient, checked_of_fits hfits]

/-- The sum that rounds up does not fit for the lowest pitches. -/
theorem wordOctaves_of_low (h : v < -0x7FFFFFF3) : wordOctaves v = .error .wrapped := by
  have hsign : ¬ 0 ≤ v := by omega
  have habove : ¬ Fits (-v + 12) := fun hf => by
    have hle := hf.2
    omega
  rw [wordOctaves, if_neg hsign, octave]
  by_cases hopposite : Fits (-v)
  · simp only [checked_of_fits hopposite, bind, Except.bind]
    rw [checked_of_not_fits habove]
  · rw [checked_of_not_fits hopposite]
    rfl

/-- The table has the entry that a pitch is written with. -/
theorem exists_spellingAt (p : Pitch) : ∃ spelling, spellingAt p.step.val = .ok spelling ∧
    p.text = Text.utf8 spelling ++ octaveMarks p.octaves := by
  have hstep : 0 ≤ (p.step.val : Int) ∧ (p.step.val : Int).toNat < 12 :=
    ⟨Int.natCast_nonneg _, by rw [Int.toNat_natCast]; exact p.step.isLt⟩
  refine ⟨spellings[p.step], ?_, rfl⟩
  rw [spellingAt, dif_pos hstep]
  simp only [Int.toNat_natCast]
  rfl

theorem octaveMarks_eq (n : Int) :
    octaveMarks n = List.replicate n.toNat (Text.byte '\'') ++
      List.replicate (-n).toNat (Text.byte ',') := by
  unfold octaveMarks
  split
  · next h => rw [Int.toNat_of_nonpos (by omega : -n ≤ 0), List.replicate_zero, List.append_nil]
  · next h => rw [Int.toNat_of_nonpos (by omega : n ≤ 0), List.replicate_zero, List.nil_append]

/-- What can be written is written as it is without a limit. -/
theorem spelled_of_spellable (h : Spellable v) : spelled v = .ok (Pitch.mk v).text := by
  obtain ⟨hlow, hhigh⟩ := h
  have hproduct : Fits (v / 12 * 12) := ⟨by omega, by omega⟩
  have hsum : v = 12 * (v / 12) + ((Pitch.mk v).step.val : Int) := (Pitch.mk v).semitones_eq
  have hstep : v - v / 12 * 12 = ((Pitch.mk v).step.val : Int) := by omega
  have hfits : Fits ((Pitch.mk v).step.val : Int) := ⟨by omega, by omega⟩
  obtain ⟨spelling, hentry, htext⟩ := exists_spellingAt (Pitch.mk v)
  simp only [spelled, wordOctaves_eq ⟨hlow, hhigh⟩, bind, Except.bind, octave,
    checked_of_fits hproduct, hstep, checked_of_fits hfits, hentry]
  rw [htext, octaveMarks_eq]
  rfl

theorem spelled_of_low (h : v < -0x7FFFFFF3) : spelled v = .error .wrapped := by
  rw [spelled, wordOctaves_of_low h]
  rfl

/-- The machine writes exactly those pitches, and as they are written, for which its arithmetic
does not wrap around. -/
theorem spelled_eq (h : Fits v) :
    spelled v = if Spellable v then .ok (Pitch.mk v).text else .error .wrapped := by
  split
  · next hspell => exact spelled_of_spellable hspell
  · next hspell => exact spelled_of_low (Int.not_le.1 fun hlow => hspell ⟨hlow, h.2⟩)

/-! ### Both -/

/-- Does a machine have both the key number and the name of a pitch? -/
def InWords (p : Pitch) : Prop := Spellable p.semitones ∧ Fits p.keyNumber

instance : DecidablePred InWords := fun p =>
  inferInstanceAs (Decidable (Spellable p.semitones ∧ Fits p.keyNumber))

variable {p : Pitch}

theorem inWords_iff : p.InWords ↔ -0x7FFFFFF3 ≤ p.semitones ∧ p.semitones ≤ 0x7FFFFFC3 := by
  unfold InWords Spellable Fits keyNumber
  omega

/-- Whatever has a key is in words. -/
theorem inWords_of_key (h : 0 ≤ p.keyNumber ∧ p.keyNumber ≤ 127) : p.InWords := by
  unfold keyNumber at h
  rw [inWords_iff]
  omega

/-- Of the pitches whose key number fits, only the lowest have no name. -/
theorem lt_of_not_inWords (hfits : Fits p.keyNumber) (h : ¬ p.InWords) :
    p.semitones < -0x7FFFFFF3 := by
  unfold Fits keyNumber at hfits
  rw [inWords_iff] at h
  omega

end Pitch
end Polyphony
