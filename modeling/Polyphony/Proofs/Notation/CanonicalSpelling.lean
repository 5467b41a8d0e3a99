/-
# One spelling for each pitch

A pitch has many spellings, such as `^C`, `_D` and `^C',` for the black key above middle C, and is
written in one of them.

| key | spelling |
| --- | --- |
| white | its letter, and then marks of one kind |
| black | `^` and the letter of the white key below it, and then marks of one kind |

These are all the texts that are written (`canonical_iff`), and each is read as the pitch that it
was written for.  So reading a text and writing it again puts the one spelling of its pitch in its
place, a second time changes nothing, and two texts get the same spelling exactly if they are the
same pitch.

In 32 bits the lowest pitches have no spelling (`Pitch.spelled_eq`).  For all others nothing wraps
around, neither when they are written nor when they are read again.
-/

import Polyphony.Proofs.Notation.PitchGrammar
import Polyphony.Proofs.Notation.Spelling

namespace Polyphony

namespace Notation

/-! ### The spellings that are written -/

/-- The texts that pitches are written as. -/
inductive Canonical : Text → Prop where
  /-- A white key is written as its letter. -/
  | white {letter mark : UInt8} (hletter : letter ∈ Text.utf8 "ABCDEFG")
    (hmark : mark = Text.byte '\'' ∨ mark = Text.byte ',') (n : Nat) :
    Canonical (letter :: List.replicate n mark)
  /-- A black key is written as a sharp.  There is none between `B` and `C`, nor between `E` and
  `F`. -/
  | black {letter mark : UInt8} (hletter : letter ∈ Text.utf8 "ACDFG")
    (hmark : mark = Text.byte '\'' ∨ mark = Text.byte ',') (n : Nat) :
    Canonical (Text.byte '^' :: letter :: List.replicate n mark)

variable {s t : Text} {p q : Pitch} {mark : UInt8}

/-- A pitch is written as the one of its step in the octave of middle C, and then its octave. -/
theorem text_eq (step : Fin 12) (n : Int) :
    (Pitch.mk (12 * n + step.val)).text = (Pitch.mk step.val).text ++ Pitch.octaveMarks n := by
  have hmiddle : ∀ step : Fin 12,
      (Pitch.mk step.val).text = Text.utf8 Pitch.spellings[step] := by decide +kernel
  have hstep : (Pitch.mk (12 * n + step.val)).step = step := by
    apply Fin.ext
    simp only [Pitch.step]
    omega
  have hoctaves : (Pitch.mk (12 * n + step.val)).octaves = n := by
    simp only [Pitch.octaves]
    omega
  rw [hmiddle step]
  simp only [Pitch.text, hstep, hoctaves]

/-- Below middle C the octave mark is that of the `C` below. -/
example : [0, -1, -11, -12, -13].map (fun v => (Pitch.mk v).text) =
    ["C", "B,", "^C,", "C,", "B,,"].map Text.utf8 := by
  decide +kernel

/-- So many marks of one kind are those of an octave. -/
theorem exists_octaveMarks (hmark : mark = Text.byte '\'' ∨ mark = Text.byte ',') (n : Nat) :
    ∃ k, Pitch.octaveMarks k = List.replicate n mark := by
  rcases hmark with rfl | rfl
  · refine ⟨n, ?_⟩
    rw [Pitch.octaveMarks_eq, Int.toNat_natCast, Int.toNat_of_nonpos (by omega),
      List.replicate_zero, List.append_nil]
  · refine ⟨-n, ?_⟩
    rw [Pitch.octaveMarks_eq, Int.neg_neg, Int.toNat_natCast, Int.toNat_of_nonpos (by omega),
      List.replicate_zero, List.nil_append]

/-- The marks of an octave are of one kind. -/
theorem exists_replicate (k : Int) : ∃ mark n,
    (mark = Text.byte '\'' ∨ mark = Text.byte ',') ∧
      Pitch.octaveMarks k = List.replicate n mark := by
  unfold Pitch.octaveMarks
  split
  · exact ⟨_, _, Or.inl rfl, rfl⟩
  · exact ⟨_, _, Or.inr rfl, rfl⟩

/-- Exactly the canonical texts are written. -/
theorem canonical_iff : Canonical t ↔ ∃ p : Pitch, p.text = t := by
  constructor
  · have hwhite : ∀ letter ∈ Text.utf8 "ABCDEFG", ∃ step : Fin 12,
        (Pitch.mk step.val).text = [letter] := by decide +kernel
    have hblack : ∀ letter ∈ Text.utf8 "ACDFG", ∃ step : Fin 12,
        (Pitch.mk step.val).text = [Text.byte '^', letter] := by decide +kernel
    rintro (⟨hletter, hmark, n⟩ | ⟨hletter, hmark, n⟩)
    · obtain ⟨step, hstep⟩ := hwhite _ hletter
      obtain ⟨k, hk⟩ := exists_octaveMarks hmark n
      exact ⟨_, by rw [text_eq step k, hstep, hk]; rfl⟩
    · obtain ⟨step, hstep⟩ := hblack _ hletter
      obtain ⟨k, hk⟩ := exists_octaveMarks hmark n
      exact ⟨_, by rw [text_eq step k, hstep, hk]; rfl⟩
  · rintro ⟨p, rfl⟩
    have hspelling : ∀ step : Fin 12,
        (∃ letter ∈ Text.utf8 "ABCDEFG", Text.utf8 Pitch.spellings[step] = [letter]) ∨
          ∃ letter ∈ Text.utf8 "ACDFG",
            Text.utf8 Pitch.spellings[step] = [Text.byte '^', letter] := by decide +kernel
    obtain ⟨mark, n, hmark, hmarks⟩ := exists_replicate p.octaves
    rw [Pitch.text, hmarks]
    rcases hspelling p.step with ⟨letter, hletter, hstep⟩ | ⟨letter, hletter, hstep⟩
    · rw [hstep]
      exact .white hletter hmark n
    · rw [hstep]
      exact .black hletter hmark n

/-! ### Reading and writing again -/

/-- The spelling that a pitch is written with, of any spelling of it. -/
def respell? (s : Text) : Option Text := (readPitch? s).map Pitch.text

theorem text_injective : Function.Injective Pitch.text := by
  intro p q h
  have hread := readPitch?_text p
  rw [h, readPitch?_text] at hread
  exact (Option.some.inj hread).symm

theorem respell?_of_read (h : readPitch? s = some p) : respell? s = some p.text := by
  rw [respell?, h]
  rfl

/-- The texts that respelling leaves as they are are the canonical ones. -/
theorem respell?_eq_self_iff : respell? t = some t ↔ Canonical t := by
  rw [canonical_iff]
  constructor
  · intro h
    obtain ⟨p, -, hp⟩ := Option.map_eq_some_iff.1 h
    exact ⟨p, hp⟩
  · rintro ⟨p, rfl⟩
    exact respell?_of_read (readPitch?_text p)

/-- Two texts get the same spelling exactly if they are the same pitch. -/
theorem respell?_eq_iff (hs : readPitch? s = some p) (ht : readPitch? t = some q) :
    respell? s = respell? t ↔ p = q := by
  rw [respell?_of_read hs, respell?_of_read ht, Option.some.injEq, text_injective.eq_iff]

/-! ### In machine words -/

theorem rise_octaveMarks (n : Int) : rise (Pitch.octaveMarks n) = 12 * max n 0 := by
  simp +decide only [Pitch.octaveMarks_eq, rise, List.count_append, List.count_replicate, if_true,
    if_false]
  omega

theorem fall_octaveMarks (n : Int) : fall (Pitch.octaveMarks n) = 12 * max (-n) 0 := by
  simp +decide only [Pitch.octaveMarks_eq, fall, List.count_append, List.count_replicate, if_true,
    if_false]
  omega

/-- What can be written has few enough signs to be read again. -/
theorem fewSigns_text {v : Int} (h : Pitch.Spellable v) : FewSigns (Pitch.mk v).text := by
  intro a
  have hspelling : ∀ step : Fin 12, 0 ≤ rise (Text.utf8 Pitch.spellings[step]) ∧
      rise (Text.utf8 Pitch.spellings[step]) ≤ 1 ∧ fall (Text.utf8 Pitch.spellings[step]) = 0 := by
    decide +kernel
  obtain ⟨hsharp_nonneg, hsharp_le, hflat⟩ := hspelling (Pitch.mk v).step
  have hstep := (Pitch.mk v).step.isLt
  have hsum : v = 12 * (Pitch.mk v).octaves + ((Pitch.mk v).step.val : Int) :=
    (Pitch.mk v).semitones_eq
  have hvalue : a.offset + netRise (Pitch.mk v).text = v := by
    have hread := a.read_eq.symm.trans (readPitch?_text (Pitch.mk v))
    rw [← a.semitones_eq]
    exact congrArg Pitch.semitones (Option.some.inj hread)
  have hrise : rise (Pitch.mk v).text = rise (Text.utf8 Pitch.spellings[(Pitch.mk v).step]) +
      12 * max (Pitch.mk v).octaves 0 := by
    rw [Pitch.text, rise_append, rise_octaveMarks]
  have hfall : fall (Pitch.mk v).text = 12 * max (-(Pitch.mk v).octaves) 0 := by
    rw [Pitch.text, fall_append, hflat, fall_octaveMarks, Int.zero_add]
  obtain ⟨hlow, hhigh⟩ := h
  unfold netRise at hvalue
  unfold Pitch.Fits
  omega

/-- The spelling that a machine writes for a text. -/
def respelled (first : Text → End) (s : Text) : Except Pitch.Mishap (Option Text) := do
  match ← readFrom first s with
  | none => return none
  | some p => return some (← Pitch.spelled p.semitones)

theorem respelled_eq (first : Text → End) (hfew : FewSigns s)
    (hspell : ∀ p, readPitch? s = some p → Pitch.Spellable p.semitones) :
    respelled first s = .ok (respell? s) := by
  rw [respelled, readFrom_eq first hfew, respell?]
  cases hread : readPitch? s with
  | none => rfl
  | some p =>
    have hspelled := Pitch.spelled_eq (hfew.fits hread)
    rw [if_pos (hspell p hread)] at hspelled
    simp only [bind, Except.bind, hspelled]
    rfl

/-- What the spelling of pitches is held to. -/
structure SpelledCanonically : Prop where
  /-- The texts that are written are the canonical ones. -/
  canonical_iff : ∀ t, Canonical t ↔ ∃ p : Pitch, p.text = t
  /-- What is written is read as the pitch that it was written for. -/
  readPitch_text : ∀ p : Pitch, readPitch? p.text = some p
  /-- A text that is read is respelled as a text that is read, as the same pitch, and respelled as
  itself. -/
  respell : ∀ (s : Text) (p : Pitch), readPitch? s = some p →
    ∃ t, respell? s = some t ∧ readPitch? t = some p ∧ respell? t = some t
  /-- Only canonical texts are respelled as themselves. -/
  respell_eq_self_iff : ∀ t, respell? t = some t ↔ Canonical t
  /-- Two texts that are read get the same spelling exactly if they are the same pitch. -/
  respell_eq_iff : ∀ (s t : Text) (p q : Pitch), readPitch? s = some p → readPitch? t = some q →
    (respell? s = respell? t ↔ p = q)
  /-- The machine writes what is to be written, if its arithmetic goes through. -/
  spelled_eq : ∀ v : Int, Pitch.Fits v →
    Pitch.spelled v = if Pitch.Spellable v then .ok (Pitch.mk v).text else .error .wrapped
  /-- It reads again what it has written, from whatever end. -/
  readFrom_text : ∀ (first : Text → End) (v : Int), Pitch.Spellable v →
    readFrom first (Pitch.mk v).text = .ok (some ⟨v⟩)
  /-- It respells what is to be respelled. -/
  respelled_eq : ∀ (first : Text → End) (s : Text), FewSigns s →
    (∀ p, readPitch? s = some p → Pitch.Spellable p.semitones) →
    respelled first s = .ok (respell? s)

/-- **Each pitch has one spelling**, which is read as this pitch, and which every other spelling of
it is replaced by when it is read and written again. -/
theorem spelledCanonically : SpelledCanonically where
  canonical_iff _ := Notation.canonical_iff
  readPitch_text := readPitch?_text
  respell _ p hread := ⟨p.text, respell?_of_read hread, readPitch?_text p,
    respell?_of_read (readPitch?_text p)⟩
  respell_eq_self_iff _ := respell?_eq_self_iff
  respell_eq_iff _ _ _ _ := respell?_eq_iff
  spelled_eq _ := Pitch.spelled_eq
  readFrom_text first v hspell := by
    rw [readFrom_eq first (fewSigns_text hspell), readPitch?_text]
  respelled_eq first _ := Notation.respelled_eq first

/-- A flat in a high octave and back has the spelling of the sharp.  The lowest pitch that can be
written is written and read again, and the one below it is not written. -/
theorem spelledCanonically_of_flat :
    readPitch? (Text.utf8 "_D',") = some ⟨1⟩ ∧ readPitch? (Text.utf8 "^C") = some ⟨1⟩ ∧
      respell? (Text.utf8 "_D',") = respell? (Text.utf8 "^C") ∧
      (∃ t, respell? (Text.utf8 "_D',") = some t ∧ readPitch? t = some ⟨1⟩ ∧
        respell? t = some t) ∧
      Pitch.spelled (-0x7FFFFFF3) = .ok (Pitch.mk (-0x7FFFFFF3)).text ∧
      (∀ first, readFrom first (Pitch.mk (-0x7FFFFFF3)).text = .ok (some ⟨-0x7FFFFFF3⟩)) ∧
      Pitch.spelled (-0x7FFFFFF4) = .error .wrapped := by
  have hflat : readPitch? (Text.utf8 "_D',") = some ⟨1⟩ := by decide
  have hsharp : readPitch? (Text.utf8 "^C") = some ⟨1⟩ := by decide
  have hspellable : Pitch.Spellable (-0x7FFFFFF3) := by decide
  have hlowest := spelledCanonically.spelled_eq (-0x7FFFFFF3) (by decide)
  have hbelow := spelledCanonically.spelled_eq (-0x7FFFFFF4) (by decide)
  rw [if_pos hspellable] at hlowest
  rw [if_neg (by decide)] at hbelow
  exact ⟨hflat, hsharp, (spelledCanonically.respell_eq_iff _ _ _ _ hflat hsharp).2 rfl,
    spelledCanonically.respell _ _ hflat, hlowest,
    fun first => spelledCanonically.readFrom_text first _ hspellable, hbelow⟩

end Notation
end Polyphony
