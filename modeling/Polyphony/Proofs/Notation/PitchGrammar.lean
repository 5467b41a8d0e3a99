/-
# The texts that are pitches

A pitch is a letter with accidentals before it and octave marks behind it, and sounds as far from
middle C as its letter and its signs say.

| part | texts | semitones |
| --- | --- | --- |
| accidentals | any number of `^` and `_` | `1` up for each `^`, `1` down for each `_` |
| letter (`Natural`) | one of `A` to `G` | those of the white keys from middle C up |
| marks | any number of `'` and `,` | `12` up for each `'`, `12` down for each `,` |

A pitch may also be read from its ends: a sign is taken off one of them, the rest is read, and the
sign shifts what was read, until there is no sign at either end and a letter must be left
(`readFrom`).  As long as there are signs at both ends it is open which one goes first.  It makes
no difference, and so whoever takes the marks off before the accidentals reads the same texts as
the same pitches as the reader, who goes from left to right.

A machine adds the shifts up in 32 bits.  On the way from the letter to the pitch no sum is above
the letter with the rising signs alone, nor below the letter with the falling ones alone, so these
two are all that has to fit (`FewSigns`), in whatever order the signs are taken off.
-/

import Polyphony.Notation.Pitch
import Polyphony.Pitch.Words
import Mathlib.Data.FinEnum
import Mathlib.Tactic.IntervalCases

namespace Polyphony

namespace Notation

/-! ### The grammar -/

/-- The letters and how far they are above middle C. -/
inductive Natural : UInt8 → Int → Prop where
  | c : Natural (Text.byte 'C') 0
  | d : Natural (Text.byte 'D') 2
  | e : Natural (Text.byte 'E') 4
  | f : Natural (Text.byte 'F') 5
  | g : Natural (Text.byte 'G') 7
  | a : Natural (Text.byte 'A') 9
  | b : Natural (Text.byte 'B') 11

/-- A text taken apart as a pitch. -/
structure PitchParts (s : Text) where
  /-- What stands before the letter. -/
  accidentals : Text
  /-- The letter. -/
  letter : UInt8
  /-- Semitones of the letter above middle C. -/
  offset : Int
  /-- What stands behind the letter. -/
  marks : Text
  append_eq : accidentals ++ letter :: marks = s
  accidental : ∀ b ∈ accidentals, b = Text.byte '^' ∨ b = Text.byte '_'
  natural : Natural letter offset
  mark : ∀ b ∈ marks, b = Text.byte '\'' ∨ b = Text.byte ','

/-- The semitones above middle C that a text stands for. -/
def PitchParts.semitones {s : Text} (a : PitchParts s) : Int :=
  a.offset + s.count (Text.byte '^') - s.count (Text.byte '_') +
    12 * (s.count (Text.byte '\'') - s.count (Text.byte ','))

/-- Semitones of all rising signs of a text. -/
def rise (t : Text) : Int := t.count (Text.byte '^') + 12 * t.count (Text.byte '\'')

/-- Semitones of all falling signs of a text. -/
def fall (t : Text) : Int := t.count (Text.byte '_') + 12 * t.count (Text.byte ',')

/-- Semitones of all signs of a text. -/
def netRise (t : Text) : Int := rise t - fall t

/-! ### Single signs -/

variable {s t rest : Text} {b : UInt8} {shift offset : Int}

theorem accidentalShift?_eq_some_iff : accidentalShift? b = some shift ↔
    b = Text.byte '^' ∧ shift = 1 ∨ b = Text.byte '_' ∧ shift = -1 := by
  have hne : Text.byte '_' ≠ Text.byte '^' := by decide
  rw [accidentalShift?]
  by_cases hup : b = Text.byte '^'
  · simp [hup, hne.symm, eq_comm]
  · by_cases hdown : b = Text.byte '_'
    · simp [hdown, hne, eq_comm]
    · simp [hup, hdown]

theorem markShift?_eq_some_iff : markShift? b = some shift ↔
    b = Text.byte '\'' ∧ shift = 12 ∨ b = Text.byte ',' ∧ shift = -12 := by
  have hne : Text.byte ',' ≠ Text.byte '\'' := by decide
  rw [markShift?, Pitch.octave]
  by_cases hup : b = Text.byte '\''
  · simp [hup, hne.symm, eq_comm]
  · by_cases hdown : b = Text.byte ','
    · simp [hdown, hne, eq_comm]
    · simp [hup, hdown]

theorem Natural.bounds (h : Natural b offset) :
    (65 ≤ b.toNat ∧ b.toNat ≤ 71) ∧ 0 ≤ offset ∧ offset ≤ 11 := by
  cases h <;> decide

/-- The letters are those of the table. -/
theorem ofLetter?_eq_some_iff {p : Pitch} :
    Pitch.ofLetter? b = some p ↔ Natural b p.semitones := by
  constructor
  · intro h
    rw [Pitch.ofLetter?] at h
    split at h
    · next hA =>
      obtain ⟨offset, hoffset, rfl⟩ := Option.map_eq_some_iff.1 h
      obtain ⟨hindex, -⟩ := Vector.getElem?_eq_some_iff.1 hoffset
      have hlow : 65 ≤ b.toNat := UInt8.le_iff_toNat_le.1 hA
      have hsub : (b - Text.byte 'A').toNat = b.toNat - 65 := UInt8.toNat_sub_of_le _ _ hA
      have hb : b = UInt8.ofNat b.toNat := UInt8.ofNat_toNat.symm
      rw [hsub] at hindex hoffset
      have hhigh : b.toNat < 72 := by omega
      generalize b.toNat = n at *
      subst hb
      interval_cases n <;> cases hoffset
      · exact .a
      · exact .b
      · exact .c
      · exact .d
      · exact .e
      · exact .f
      · exact .g
    · cases h
  · obtain ⟨semitones⟩ := p
    intro h
    cases h <;> rfl

theorem Natural.not_accidental (h : Natural b offset) : accidentalShift? b = none := by
  cases h <;> rfl

/-! ### Counting signs -/

theorem rise_append (s t : Text) : rise (s ++ t) = rise s + rise t := by
  simp only [rise, List.count_append]
  omega

theorem fall_append (s t : Text) : fall (s ++ t) = fall s + fall t := by
  simp only [fall, List.count_append]
  omega

theorem rise_nonneg (t : Text) : 0 ≤ rise t := by
  unfold rise
  omega

theorem fall_nonneg (t : Text) : 0 ≤ fall t := by
  unfold fall
  omega

theorem netRise_append (s t : Text) : netRise (s ++ t) = netRise s + netRise t := by
  simp only [netRise, rise_append, fall_append]
  omega

theorem netRise_cons (b : UInt8) (t : Text) : netRise (b :: t) = netRise [b] + netRise t :=
  netRise_append [b] t

/-- An accidental shifts by what it counts. -/
theorem netRise_accidental (h : accidentalShift? b = some shift) : netRise [b] = shift := by
  rcases accidentalShift?_eq_some_iff.1 h with ⟨rfl, rfl⟩ | ⟨rfl, rfl⟩ <;> decide

/-- An octave mark shifts by what it counts. -/
theorem netRise_mark (h : markShift? b = some shift) : netRise [b] = shift := by
  rcases markShift?_eq_some_iff.1 h with ⟨rfl, rfl⟩ | ⟨rfl, rfl⟩ <;> decide

/-- A letter is no sign. -/
theorem Natural.netRise_eq (h : Natural b offset) : netRise [b] = 0 := by
  cases h <;> decide

theorem PitchParts.semitones_eq (a : PitchParts s) : a.semitones = a.offset + netRise s := by
  unfold semitones netRise rise fall
  omega

/-! ### The texts that are read -/

theorem exists_accidentalShift? (h : b = Text.byte '^' ∨ b = Text.byte '_') :
    ∃ shift, accidentalShift? b = some shift := by
  rcases h with rfl | rfl
  · exact ⟨1, rfl⟩
  · exact ⟨-1, rfl⟩

theorem exists_markShift? (h : b = Text.byte '\'' ∨ b = Text.byte ',') :
    ∃ shift, markShift? b = some shift := by
  rcases h with rfl | rfl
  · exact ⟨12, rfl⟩
  · exact ⟨-12, rfl⟩

/-- Octave marks are read as their shifts. -/
theorem readMarks?_of_marks (h : ∀ b ∈ t, b = Text.byte '\'' ∨ b = Text.byte ',') (p : Pitch) :
    readMarks? p t = some ⟨p.semitones + netRise t⟩ := by
  induction t generalizing p with
  | nil => simp [readMarks?, netRise, rise, fall]
  | cons b t ih =>
    obtain ⟨hb, ht⟩ := List.forall_mem_cons.1 h
    obtain ⟨shift, hshift⟩ := exists_markShift? hb
    rw [readMarks?, hshift, netRise_cons, netRise_mark hshift, ← Int.add_assoc]
    exact ih ht _

/-- Nothing else is read behind a letter. -/
theorem marks_of_readMarks? {p q : Pitch} (h : readMarks? p t = some q) :
    ∀ b ∈ t, b = Text.byte '\'' ∨ b = Text.byte ',' := by
  induction t generalizing p with
  | nil => simp
  | cons b t ih =>
    rw [readMarks?] at h
    split at h
    · next hb =>
      exact List.forall_mem_cons.2 ⟨(markShift?_eq_some_iff.1 hb).imp And.left And.left, ih h⟩
    · cases h

namespace PitchParts

/-- A letter and marks behind it. -/
def ofLetter (hletter : Natural b offset)
    (hmarks : ∀ b ∈ t, b = Text.byte '\'' ∨ b = Text.byte ',') : PitchParts (b :: t) where
  accidentals := []
  letter := b
  offset := offset
  marks := t
  append_eq := rfl
  accidental := fun _ h => absurd h List.not_mem_nil
  natural := hletter
  mark := hmarks

/-- One more accidental. -/
def cons (a : PitchParts t) (h : accidentalShift? b = some shift) : PitchParts (b :: t) where
  accidentals := b :: a.accidentals
  letter := a.letter
  offset := a.offset
  marks := a.marks
  append_eq := congrArg (b :: ·) a.append_eq
  accidental := List.forall_mem_cons.2
    ⟨(accidentalShift?_eq_some_iff.1 h).imp And.left And.left, a.accidental⟩
  natural := a.natural
  mark := a.mark

/-- One more octave mark. -/
def concat (a : PitchParts t) (h : markShift? b = some shift) : PitchParts (t ++ [b]) where
  accidentals := a.accidentals
  letter := a.letter
  offset := a.offset
  marks := a.marks ++ [b]
  append_eq := (List.append_assoc ..).symm.trans (congrArg (· ++ [b]) a.append_eq)
  accidental := a.accidental
  natural := a.natural
  mark := List.forall_mem_append.2
    ⟨a.mark, List.forall_mem_singleton.2 ((markShift?_eq_some_iff.1 h).imp And.left And.left)⟩

/-- What can be taken apart is read, as what its letter and its signs say. -/
theorem read_eq (a : PitchParts s) : readPitch? s = some ⟨a.semitones⟩ := by
  rw [semitones_eq]
  obtain ⟨accidentals, letter, offset, marks, rfl, haccidentals, hletter, hmarks⟩ := a
  dsimp only
  induction accidentals with
  | nil =>
    have hread : Pitch.ofLetter? letter = some ⟨offset⟩ := ofLetter?_eq_some_iff.2 hletter
    rw [List.nil_append, readPitch?, hletter.not_accidental, hread, netRise_cons,
      hletter.netRise_eq, Int.zero_add]
    exact readMarks?_of_marks hmarks ⟨offset⟩
  | cons b accidentals ih =>
    obtain ⟨hb, haccidentals⟩ := List.forall_mem_cons.1 haccidentals
    obtain ⟨shift, hshift⟩ := exists_accidentalShift? hb
    rw [List.cons_append, readPitch?_cons hshift, ih haccidentals, netRise_cons,
      netRise_accidental hshift, Option.map_some, Pitch.transpose, Int.add_right_comm,
      ← Int.add_assoc]

/-- What is read can be taken apart. -/
theorem nonempty_of_read {p : Pitch} (h : readPitch? s = some p) : Nonempty (PitchParts s) := by
  induction s generalizing p with
  | nil => cases h
  | cons b s ih =>
    rw [readPitch?] at h
    split at h
    · next hshift =>
      obtain ⟨q, hq, -⟩ := Option.map_eq_some_iff.1 h
      exact (ih hq).map (cons · hshift)
    · obtain ⟨q, hletter, hmarks⟩ := Option.bind_eq_some_iff.1 h
      exact ⟨ofLetter (ofLetter?_eq_some_iff.1 hletter) (marks_of_readMarks? hmarks)⟩

end PitchParts

/-! ### Reading from the ends -/

/-- An end of a text. -/
inductive End where
  | front
  | back
deriving DecidableEq

/-- The end opposite to an end. -/
def End.other : End → End
  | .front => .back
  | .back => .front

/-- What is left of a text without the sign at one of its ends, and by how much that sign shifts a
pitch: an accidental in front, an octave mark at the back. -/
def takeOff? (t : Text) : End → Option (Text × Int)
  | .front => (t.head?.bind accidentalShift?).map (t.tail, ·)
  | .back => (t.getLast?.bind markShift?).map (t.dropLast, ·)

/-- Takes off the sign at one end, or at the other end if there is none at this one. -/
def takeOffFrom? (first : End) (t : Text) : Option (Text × Int) :=
  (takeOff? t first).or (takeOff? t first.other)

theorem takeOff?_front_eq_some_iff : takeOff? t .front = some (rest, shift) ↔
    ∃ b, t = b :: rest ∧ accidentalShift? b = some shift := by
  cases t with
  | nil => simp [takeOff?]
  | cons c t =>
    simp only [takeOff?, List.head?_cons, Option.bind_some, List.tail_cons, Option.map_eq_some_iff,
      Prod.mk.injEq, List.cons.injEq]
    constructor
    · rintro ⟨_, hc, rfl, rfl⟩
      exact ⟨c, ⟨rfl, rfl⟩, hc⟩
    · rintro ⟨_, ⟨rfl, rfl⟩, hc⟩
      exact ⟨shift, hc, rfl, rfl⟩

theorem takeOff?_back_eq_some_iff : takeOff? t .back = some (rest, shift) ↔
    ∃ b, t = rest ++ [b] ∧ markShift? b = some shift := by
  rcases List.eq_nil_or_concat t with rfl | ⟨t, c, rfl⟩
  · simp [takeOff?]
  · simp only [takeOff?, List.concat_eq_append, List.getLast?_concat, Option.bind_some,
      List.dropLast_concat, Option.map_eq_some_iff, Prod.mk.injEq, List.append_singleton_inj]
    constructor
    · rintro ⟨_, hc, rfl, rfl⟩
      exact ⟨c, ⟨rfl, rfl⟩, hc⟩
    · rintro ⟨_, ⟨rfl, rfl⟩, hc⟩
      exact ⟨shift, hc, rfl, rfl⟩

variable {e first : End}

theorem length_lt_of_takeOff? (h : takeOff? t e = some (rest, shift)) : rest.length < t.length := by
  cases e with
  | front =>
    obtain ⟨b, rfl, -⟩ := takeOff?_front_eq_some_iff.1 h
    exact Nat.lt_succ_self _
  | back =>
    obtain ⟨b, rfl, -⟩ := takeOff?_back_eq_some_iff.1 h
    rw [List.length_append]
    exact Nat.lt_succ_self _

/-- A sign that is taken off stands at one of the ends. -/
theorem exists_takeOff?_of_takeOffFrom? (h : takeOffFrom? first t = some (rest, shift)) :
    ∃ e, takeOff? t e = some (rest, shift) :=
  (Option.or_eq_some_iff.1 h).elim (⟨first, ·⟩) fun hother => ⟨first.other, hother.2⟩

/-- If no sign is taken off, there is none at either end. -/
theorem takeOff?_of_takeOffFrom?_eq_none (h : takeOffFrom? first t = none) (e : End) :
    takeOff? t e = none := by
  obtain ⟨hfirst, hother⟩ := Option.or_eq_none_iff.1 h
  cases first <;> cases e <;> assumption

/-- Reads a text without signs as a letter. -/
def readLetter? : Text → Option Pitch
  | [b] => Pitch.ofLetter? b
  | _ => none

/-- Reads a pitch in machine words from its ends.  `first` tells of each text at which end a sign
is looked for first. -/
def readFrom (first : Text → End) (t : Text) : Except Pitch.Mishap (Option Pitch) :=
  match _h : takeOffFrom? (first t) t with
  | none => return readLetter? t
  | some (rest, shift) => do
    match ← readFrom first rest with
    | none => return none
    | some p => return some ⟨← Pitch.checked (p.semitones + shift)⟩
termination_by t.length
decreasing_by
  obtain ⟨e, he⟩ := exists_takeOff?_of_takeOffFrom? _h
  exact length_lt_of_takeOff? he

/-- A text with a sign at an end is read as the rest is, shifted by the sign. -/
theorem readPitch?_of_takeOff? (h : takeOff? t e = some (rest, shift)) :
    readPitch? t = (readPitch? rest).map (Pitch.transpose · shift) := by
  cases e with
  | front =>
    obtain ⟨b, rfl, hb⟩ := takeOff?_front_eq_some_iff.1 h
    exact readPitch?_cons hb rest
  | back =>
    obtain ⟨b, rfl, hb⟩ := takeOff?_back_eq_some_iff.1 h
    exact readPitch?_append_mark hb rest

/-- A pitch without a sign at its ends is a letter. -/
theorem PitchParts.eq_letter (a : PitchParts t) (h : ∀ e, takeOff? t e = none) :
    t = [a.letter] := by
  obtain ⟨accidentals, letter, offset, marks, rfl, haccidentals, hletter, hmarks⟩ := a
  have hfront : accidentals = [] := by
    cases accidentals with
    | nil => rfl
    | cons b accidentals =>
      obtain ⟨shift, hb⟩ := exists_accidentalShift? (haccidentals b List.mem_cons_self)
      cases (h .front).symm.trans (takeOff?_front_eq_some_iff.2 ⟨b, rfl, hb⟩)
  have hback : marks = [] := by
    rcases List.eq_nil_or_concat marks with hnil | ⟨marks, b, rfl⟩
    · exact hnil
    · rw [List.concat_eq_append] at h hmarks
      obtain ⟨shift, hb⟩ :=
        exists_markShift? (hmarks b (List.mem_append_right _ List.mem_cons_self))
      have happend := (List.append_assoc accidentals (letter :: marks) [b]).symm
      cases (h .back).symm.trans (takeOff?_back_eq_some_iff.2 ⟨b, happend, hb⟩)
  subst hfront hback
  rfl

theorem readPitch?_singleton (b : UInt8) : readPitch? [b] = Pitch.ofLetter? b := by
  rw [readPitch?]
  split
  · next hb =>
    have hnone : Pitch.ofLetter? b = none := by
      cases hletter : Pitch.ofLetter? b with
      | none => rfl
      | some p => cases hb.symm.trans (ofLetter?_eq_some_iff.1 hletter).not_accidental
    rw [hnone]
    rfl
  · cases Pitch.ofLetter? b <;> rfl

/-- A text without a sign at its ends is read as a letter. -/
theorem readPitch?_of_no_sign (h : ∀ e, takeOff? t e = none) : readPitch? t = readLetter? t := by
  match t with
  | [] => rfl
  | [b] => exact readPitch?_singleton b
  | b :: c :: t =>
    cases hread : readPitch? (b :: c :: t) with
    | none => rfl
    | some p =>
      obtain ⟨a⟩ := PitchParts.nonempty_of_read hread
      cases (List.cons.inj (a.eq_letter h)).2

/-! ### Few enough signs -/

/-- Are there few enough signs for 32 bits?  What has to fit is the letter with all signs that rise,
and the letter with all signs that fall. -/
def FewSigns (s : Text) : Prop :=
  ∀ a : PitchParts s, Pitch.Fits (a.offset + rise s) ∧ Pitch.Fits (a.offset - fall s)

/-- The rest of a pitch has its letter, and no sign that the pitch does not have. -/
theorem exists_parts_of_takeOff? (h : takeOff? t e = some (rest, shift)) (a : PitchParts rest) :
    (∃ a' : PitchParts t, a'.offset = a.offset) ∧ rise rest ≤ rise t ∧ fall rest ≤ fall t := by
  cases e with
  | front =>
    obtain ⟨b, rfl, hb⟩ := takeOff?_front_eq_some_iff.1 h
    have hrise := rise_append [b] rest
    have hfall := fall_append [b] rest
    rw [List.singleton_append] at hrise hfall
    have hrise_nonneg := rise_nonneg [b]
    have hfall_nonneg := fall_nonneg [b]
    exact ⟨⟨a.cons hb, rfl⟩, by omega, by omega⟩
  | back =>
    obtain ⟨b, rfl, hb⟩ := takeOff?_back_eq_some_iff.1 h
    have hrise := rise_append rest [b]
    have hfall := fall_append rest [b]
    have hrise_nonneg := rise_nonneg [b]
    have hfall_nonneg := fall_nonneg [b]
    exact ⟨⟨a.concat hb, rfl⟩, by omega, by omega⟩

namespace FewSigns

/-- What is left of few signs are few. -/
theorem of_takeOff? (h : FewSigns t) (htake : takeOff? t e = some (rest, shift)) :
    FewSigns rest := by
  intro a
  obtain ⟨⟨a', hoffset⟩, hrise, hfall⟩ := exists_parts_of_takeOff? htake a
  obtain ⟨⟨-, htop⟩, ⟨hbottom, -⟩⟩ := h a'
  have hletter := a.natural.bounds.2
  have hrise_nonneg := rise_nonneg rest
  have hfall_nonneg := fall_nonneg rest
  unfold Pitch.Fits
  omega

/-- A pitch of few signs fits. -/
theorem fits {p : Pitch} (h : FewSigns s) (hread : readPitch? s = some p) :
    Pitch.Fits p.semitones := by
  obtain ⟨a⟩ := PitchParts.nonempty_of_read hread
  obtain rfl := Option.some.inj (a.read_eq.symm.trans hread)
  obtain ⟨⟨-, htop⟩, ⟨hbottom, -⟩⟩ := h a
  have hsemitones := a.semitones_eq
  have hrise := rise_nonneg s
  have hfall := fall_nonneg s
  unfold netRise at hsemitones
  unfold Pitch.Fits
  dsimp only
  omega

/-- A text of less than 128 mebibytes has few signs. -/
theorem of_length (h : s.length < 0x8000000) : FewSigns s := by
  intro a
  have hletter := a.natural.bounds.2
  have hup := List.count_le_length (a := Text.byte '^') (l := s)
  have hdown := List.count_le_length (a := Text.byte '_') (l := s)
  have hupMarks := List.count_le_length (a := Text.byte '\'') (l := s)
  have hdownMarks := List.count_le_length (a := Text.byte ',') (l := s)
  unfold rise fall Pitch.Fits
  omega

end FewSigns

/-- In whatever order the signs are taken off, a text is read as the same pitch. -/
theorem readFrom_eq (first : Text → End) (h : FewSigns s) :
    readFrom first s = .ok (readPitch? s) := by
  fun_induction readFrom first s with
  | case1 t htake =>
    rw [readPitch?_of_no_sign (takeOff?_of_takeOffFrom?_eq_none htake)]
    rfl
  | case2 t rest shift htake ih =>
    obtain ⟨e, he⟩ := exists_takeOff?_of_takeOffFrom? htake
    have hread := readPitch?_of_takeOff? he
    rw [ih (h.of_takeOff? he)]
    cases hrest : readPitch? rest with
    | none =>
      rw [hread, hrest]
      rfl
    | some p =>
      rw [hrest, Option.map_some] at hread
      have hfits : Pitch.Fits (p.semitones + shift) := h.fits hread
      simp only [hread, bind, Except.bind, Pitch.checked_of_fits hfits]
      rfl

/-! ### The pitches -/

/-- **Exactly the pitches are read.**  A text is read exactly if it is a letter with accidentals
before it and octave marks behind it, and as far from middle C as these say.  If it has few enough
signs, which every text of less than 128 mebibytes has, no sum wraps around while they are taken
off its ends, and it does not matter which end comes first. -/
theorem pitch_grammar (s : Text) :
    ((∃ p, readPitch? s = some p) ↔ Nonempty (PitchParts s)) ∧
      (∀ a : PitchParts s, readPitch? s = some ⟨a.semitones⟩) ∧
      (FewSigns s → ∀ first : Text → End, readFrom first s = .ok (readPitch? s)) ∧
      (s.length < 0x8000000 → FewSigns s) :=
  ⟨⟨fun ⟨_, hread⟩ => PitchParts.nonempty_of_read hread, fun ⟨a⟩ => ⟨_, a.read_eq⟩⟩,
    PitchParts.read_eq, fun hfew first => readFrom_eq first hfew, FewSigns.of_length⟩

/-- Signs at both ends: a semitone and an octave are taken back, and the first accidental and the
last mark are left. -/
theorem pitch_grammar_of_takenBack : ∃ a : PitchParts (Text.utf8 "^_^F',,"),
    a.semitones = -6 ∧ readPitch? (Text.utf8 "^_^F',,") = some ⟨-6⟩ ∧
      FewSigns (Text.utf8 "^_^F',,") ∧
      ∀ first, readFrom first (Text.utf8 "^_^F',,") = .ok (some ⟨-6⟩) := by
  let a : PitchParts (Text.utf8 "^_^F',,") :=
    ⟨Text.utf8 "^_^", Text.byte 'F', 5, Text.utf8 "',,", rfl, by decide +kernel, .f,
      by decide +kernel⟩
  have hvalue : a.semitones = -6 := by decide
  obtain ⟨-, hread, hfrom, hfew⟩ := pitch_grammar (Text.utf8 "^_^F',,")
  have hsigns := hfew (by decide)
  have hpitch := hread a
  rw [hvalue] at hpitch
  rw [hpitch] at hfrom
  exact ⟨a, hvalue, hpitch, hsigns, hfrom hsigns⟩

-- Signs on the wrong side of the letter, and a second letter.
example : readPitch? (Text.utf8 "'C") = none ∧ readPitch? (Text.utf8 "C^") = none ∧
    readPitch? (Text.utf8 "^CC'") = none := by
  decide

end Notation
end Polyphony
