/-
# The first mistake of a text

Words are read from left to right, and the first one at fault is told, with what is wrong with
it (`FirstMistake`).  Up to there the words stand for parts that fit (`Readable`).

| a word | is told as |
| --- | --- |
| that is no symbol | `badNotation` |
| that is one, and with it the running total of lengths is too large | `durationOverflow` |

A word is asked the second question only if it has passed the first, and each word both before
the next one is looked at.  So a text is read exactly if all of its words are readable, and else
the reading is its first mistake (`read_words`).
-/

import Polyphony.Proofs.Notation.Words

namespace Polyphony
namespace Notation

variable {i : Instrument}

/-! ### Mistakes in a symbol -/

theorem eq_of_readNumerator_error {t : Text} {mistake : Mistake}
    (h : readNumerator t = .error mistake) : mistake = .lengthTooLarge := by
  unfold readNumerator at h
  split at h
  · cases h
  · split at h
    · cases h
    · exact (Except.error.inj h).symm

theorem eq_of_readDenominator_error {t : Text} {mistake : Mistake}
    (h : readDenominator t = .error mistake) :
    mistake = .numberExpected ∨ mistake = .strayCharacters := by
  cases t with
  | nil => cases h
  | cons b t =>
    rw [readDenominator] at h
    split at h
    · split at h
      · exact Or.inl (Except.error.inj h).symm
      · split at h
        · cases h
        · exact Or.inr (Except.error.inj h).symm
    · exact Or.inr (Except.error.inj h).symm

/-- Whatever is wrong with a length is a matter of notation. -/
theorem kind_of_readLength_error {t : Text} {mistake : Mistake}
    (h : readLength t = .error mistake) : mistake.kind = .badNotation := by
  unfold readLength at h
  split at h
  · next e hnum =>
    obtain rfl := Except.error.inj h
    rw [eq_of_readNumerator_error hnum]
    rfl
  · split at h
    · next e hden =>
      obtain rfl := Except.error.inj h
      rcases eq_of_readDenominator_error hden with rfl | rfl <;> rfl
    · split at h
      · cases h
      · exact Except.error.inj h ▸ rfl

/-- Whatever is wrong with a symbol is a matter of notation. -/
theorem kind_of_readSymbol_error {sign : Text} {e : Misreading}
    (h : readSymbol sign i = .error e) : e.kind = .badNotation := by
  unfold readSymbol at h
  split at h
  · next mistake hlength =>
    obtain rfl := Except.error.inj h
    exact kind_of_readLength_error hlength
  · split at h
    · cases h
    · split at h
      · cases h
      · exact Except.error.inj h ▸ rfl

/-! ### Mistakes in a text -/

theorem readNext_eq_error_iff {p : Piece} {sign : Text} {e : Misreading} :
    readNext i p sign = .error e ↔ readSymbol sign i = .error e ∨
      ∃ part, readSymbol sign i = .ok part ∧
        (p.duration + part.duration).isOverflow = true ∧ e = ⟨sign, .totalTooLarge⟩ := by
  rw [readNext]
  cases readSymbol sign i with
  | error e' => simp
  | ok part =>
    simp only [reduceCtorEq, Except.ok.injEq, exists_eq_left', false_or]
    show (if (p.duration + part.duration).isOverflow = true then _ else _) = _ ↔ _
    split
    · next hlong => simp [hlong, eq_comm]
    · next hfits => simp [hfits]

/-- A reading that fails fails at one word, behind words that go through. -/
theorem exists_split_of_readAll {p : Piece} {words : List Text} {e : Misreading}
    (h : readAll i p words = .error e) : ∃ before word after q,
      words = before ++ word :: after ∧ readAll i p before = .ok q ∧
        readNext i q word = .error e := by
  induction words generalizing p with
  | nil => cases h
  | cons word words ih =>
    rw [readAll] at h
    cases hn : readNext i p word with
    | error e' =>
      rw [hn] at h
      exact ⟨[], word, words, p, rfl, rfl, hn.trans h⟩
    | ok q =>
      rw [hn] at h
      obtain ⟨before, word', after, r, rfl, hbefore, hword⟩ := ih h
      refine ⟨word :: before, word', after, r, rfl, ?_, hword⟩
      rw [readAll, hn]
      exact hbefore

/-- Words that are symbols and stand for parts, of which no running total of lengths is too
large. -/
structure Readable (i : Instrument) (words : List Text) (parts : List Piece) : Prop where
  parts_eq : words.map (readSymbol · i) = parts.map .ok
  fits : ∀ front, front <+: parts →
    (Duration.total (front.map Piece.duration)).isOverflow = false

/-- Words are read behind an empty piece exactly if they are readable. -/
theorem readAll_silence_eq_ok_iff {words : List Text} {r : Piece} :
    readAll i .silence words = .ok r ↔
      ∃ parts, Readable i words parts ∧ r = Piece.silence.row parts := by
  rw [readAll_eq_ok_iff]
  refine exists_congr fun parts => ?_
  constructor
  · rintro ⟨hparts, hfits, rfl⟩
    refine ⟨⟨hparts, fun front hf => ?_⟩, rfl⟩
    rcases List.eq_nil_or_concat front with rfl | ⟨_, _, rfl⟩
    · rfl
    · have hfront := hfits _ hf (by simp)
      rwa [Piece.duration_row] at hfront
  · rintro ⟨⟨hparts, hfits⟩, rfl⟩
    refine ⟨hparts, fun front hf _ => ?_, rfl⟩
    rw [Piece.duration_row]
    exact hfits front hf

/-- What is wrong with the first of some words that is at fault. -/
inductive FirstMistake (i : Instrument) : List Text → Misreading → Prop where
  /-- A word that is no symbol. -/
  | symbol {before after : List Text} {parts : List Piece} {e : Misreading}
    (hbefore : Readable i before parts) (h : readSymbol e.sign i = .error e)
    (hkind : e.kind = .badNotation) : FirstMistake i (before ++ e.sign :: after) e
  /-- A symbol with which the total is too large. -/
  | total {before after : List Text} {parts : List Piece} {part : Piece} {e : Misreading}
    (hbefore : Readable i before parts) (h : readSymbol e.sign i = .ok part)
    (hlong : (Duration.total ((parts ++ [part]).map Piece.duration)).isOverflow = true)
    (hmistake : e.mistake = .totalTooLarge) (hkind : e.kind = .durationOverflow) :
    FirstMistake i (before ++ e.sign :: after) e

theorem duration_row_add (parts : List Piece) (part : Piece) :
    (Piece.silence.row parts).duration + part.duration =
      Duration.total ((parts ++ [part]).map Piece.duration) := by
  rw [Piece.duration_row, Duration.total, List.map_append, List.foldl_append]
  rfl

/-- **The first mistake is the one that is told.** -/
theorem readAll_silence_eq_error_iff {words : List Text} {e : Misreading} :
    readAll i .silence words = .error e ↔ FirstMistake i words e := by
  constructor
  · intro h
    obtain ⟨before, word, after, q, rfl, hbefore, hword⟩ := exists_split_of_readAll h
    obtain ⟨parts, hreadable, rfl⟩ := readAll_silence_eq_ok_iff.1 hbefore
    rcases readNext_eq_error_iff.1 hword with hsymbol | ⟨part, hpart, hlong, rfl⟩
    · obtain rfl := readSymbol_error hsymbol
      exact .symbol hreadable hsymbol (kind_of_readSymbol_error hsymbol)
    · rw [duration_row_add] at hlong
      exact @FirstMistake.total i before after parts part ⟨word, .totalTooLarge⟩ hreadable hpart
        hlong rfl rfl
  · rintro (⟨hbefore, h, -⟩ | ⟨hbefore, h, hlong, hmistake, -⟩)
    · rw [readAll_append, readAll_silence_eq_ok_iff.2 ⟨_, hbefore, rfl⟩, Except.bind, readAll,
        readNext_eq_error_iff.2 (Or.inl h)]
    · have hnext := readNext_eq_error_iff.2
        (Or.inr ⟨_, h, (congrArg Duration.isOverflow (duration_row_add _ _)).trans hlong, rfl⟩)
      rw [readAll_append, readAll_silence_eq_ok_iff.2 ⟨_, hbefore, rfl⟩, Except.bind, readAll,
        hnext, ← hmistake]

/-- **Reading is telling words apart and adding them up.**  The words of a text are its runs
between delimiters.  A text is read exactly if they are readable, and it is then the row of their
parts behind an empty piece.  Else its first mistake is told, and the empty piece is left of all
that was read before.  A cursor that passes word after word comes to the same. -/
theorem read_words (t : Text) (i : Instrument) :
    AreRuns t (tokens t) ∧
      (∀ p, Notation.read t i = .ok p ↔ ∃ parts, Readable i (tokens t) parts ∧
        p = parts.foldl .concat (.rest .zero)) ∧
      (∀ e, Notation.read t i = .error e ↔ FirstMistake i (tokens t) e) ∧
      (∀ p, Notation.read t i = .ok p → readingOf t i = { piece := p, success := true }) ∧
      (∀ e, Notation.read t i = .error e →
        readingOf t i = { piece := .rest .zero, success := false, misreading := some e }) ∧
      (∀ t', tokens t' = tokens t → Notation.read t' i = Notation.read t i) ∧
      scan i (.rest .zero) t = Notation.read t i := by
  refine ⟨(spaced_tokens t).areRuns, fun p => readAll_silence_eq_ok_iff,
    fun e => readAll_silence_eq_error_iff, fun p h => ?_, fun e h => ?_, fun t' h => ?_,
    (spaced_tokens t).scan_eq i .silence⟩
  · rw [readingOf_eq, h]
    rfl
  · rw [readingOf_eq, h]
    rfl
  · rw [Notation.read, Notation.read, h]

end Notation
end Polyphony
