/-
# The texts that are symbols

A symbol is a head and a length right behind it.

| part | texts |
| --- | --- |
| head (`SpellsHead`) | a point, or whatever is read as a pitch |
| length (`SpellsLength`) | nothing, `n`, `n/m` or `/m`, with `1 ≤ m` |
| number (`Numeral`) | one or more digits, of a value within the limit |

The reader is not written along this table: it cuts a text at the first byte that is no part of
a pitch, whatever stands there, and looks then what the two pieces are.  That this comes to the
same rests on two facts about single bytes.  No pitch has a digit or a stroke in it
(`inPitch_of_readPitch?`), and every length starts with one (`SpellsLength.not_inPitch`).  So a
text is a symbol in at most one way, and the reader finds it (`readSymbol_grammar`).
-/

import Polyphony.Proofs.Duration.Order
import Polyphony.Proofs.Notation.NumbersInWords
import Polyphony.Proofs.Notation.PitchGrammar

namespace Polyphony
namespace Notation

open Decimal

/-! ### The grammar -/

/-- A run of digits, leading zeros and all, that stands for `n`. -/
structure Numeral (run : Text) (n : Nat) : Prop where
  ne_nil : run ≠ []
  isDigit : ∀ b ∈ run, isDigit b = true
  value_eq : value run = n
  le : n ≤ maxLengthTerm

/-- The texts of a length of `num / den` beats. -/
inductive SpellsLength : Text → Nat → Nat → Prop where
  /-- Nothing, for one beat. -/
  | beat : SpellsLength [] 1 1
  /-- A number of beats. -/
  | whole {run : Text} {n : Nat} (hn : Numeral run n) : SpellsLength run n 1
  /-- A part of one beat. -/
  | part {run : Text} {m : Nat} (hm : Numeral run m) (hpos : 1 ≤ m) :
    SpellsLength (Text.byte '/' :: run) 1 m
  /-- A number of parts of a beat. -/
  | parts {run run' : Text} {n m : Nat} (hn : Numeral run n) (hm : Numeral run' m)
    (hpos : 1 ≤ m) : SpellsLength (run ++ Text.byte '/' :: run') n m

/-- What may stand before a length, and what it makes of one. -/
inductive SpellsHead (i : Instrument) : Text → (Duration → Piece) → Prop where
  /-- A point, for a rest. -/
  | point : SpellsHead i [Text.byte '.'] .rest
  /-- A pitch, for a note. -/
  | pitch {t : Text} {p : Pitch} (h : readPitch? t = some p) : SpellsHead i t (.note · p i)

/-- A text taken apart as a symbol. -/
@[ext]
structure SymbolParts (i : Instrument) (s : Text) where
  /-- What stands before the length. -/
  head : Text
  /-- The length. -/
  length : Text
  /-- What the head makes of a length. -/
  make : Duration → Piece
  /-- Number of beats. -/
  num : Nat
  /-- Number of parts of a beat. -/
  den : Nat
  append_eq : head ++ length = s
  spellsHead : SpellsHead i head make
  spellsLength : SpellsLength length num den

/-! ### Numbers and lengths -/

theorem lengthTerm?_eq_some_iff {run : Text} (h : ∀ b ∈ run, isDigit b = true) {n : Nat} :
    lengthTerm? run = some n ↔ Numeral run n := by
  rw [lengthTerm?]
  constructor
  · intro hterm
    split at hterm
    · cases hterm
    · next hrun =>
      obtain ⟨hne, hle⟩ := not_or.1 hrun
      obtain rfl := Option.some.inj hterm
      exact ⟨hne, h, rfl, Nat.not_lt.1 hle⟩
  · rintro ⟨hne, -, rfl, hle⟩
    exact if_neg (not_or.2 ⟨hne, Nat.not_lt.2 hle⟩)

/-- A number that nothing follows is read to its end. -/
theorem Numeral.span {run : Text} {n : Nat} (h : Numeral run n) :
    run.takeWhile Decimal.isDigit = run ∧ run.dropWhile Decimal.isDigit = [] := by
  have hnothing : ∀ b ∈ ([] : Text).head?, Decimal.isDigit b = false := by simp
  have hspan := Text.takeWhile_dropWhile_append h.isDigit hnothing
  rwa [List.append_nil] at hspan

theorem isDigit_of_mem_takeWhile {t : Text} : ∀ b ∈ t.takeWhile isDigit, isDigit b = true :=
  List.all_eq_true.1 List.all_takeWhile

theorem readNumerator_eq_ok_iff {t behind : Text} {n : Nat} :
    readNumerator t = .ok (n, behind) ↔
      behind = t.dropWhile isDigit ∧
        (t.takeWhile isDigit = [] ∧ n = 1 ∨ Numeral (t.takeWhile isDigit) n) := by
  rw [readNumerator, ← lengthTerm?_eq_some_iff isDigit_of_mem_takeWhile]
  cases hrun : t.takeWhile isDigit with
  | nil =>
    have hdrop : t.dropWhile isDigit = t := by
      have happend := List.takeWhile_append_dropWhile (p := isDigit) (l := t)
      rwa [hrun, List.nil_append] at happend
    have hterm : lengthTerm? [] = none := rfl
    simp only [hdrop, hterm, Except.ok.injEq, Prod.mk.injEq, reduceCtorEq, or_false, true_and]
    exact ⟨fun h => ⟨h.2.symm, h.1.symm⟩, fun h => ⟨h.2.symm, h.1.symm⟩⟩
  | cons b run =>
    simp only [reduceCtorEq, false_and, false_or]
    cases lengthTerm? (b :: run) with
    | none => simp only [reduceCtorEq, and_false]
    | some k =>
      simp only [Except.ok.injEq, Prod.mk.injEq, Option.some.injEq]
      exact ⟨fun h => ⟨h.2.symm, h.1⟩, fun h => ⟨h.2, h.1.symm⟩⟩

theorem readDenominator_eq_ok_iff {t : Text} {m : Nat} :
    readDenominator t = .ok m ↔
      t = [] ∧ m = 1 ∨ ∃ run, t = Text.byte '/' :: run ∧ Numeral run m := by
  cases t with
  | nil =>
    constructor
    · rintro ⟨⟩
      exact Or.inl ⟨rfl, rfl⟩
    · rintro (⟨-, rfl⟩ | ⟨run, h, -⟩)
      · rfl
      · cases h
  | cons b t =>
    rw [readDenominator]
    constructor
    · intro h
      split at h
      · next hb =>
        split at h
        · cases h
        · next hterm =>
          split at h
          · next hbehind =>
            obtain rfl := Except.ok.inj h
            have hall : t.takeWhile isDigit = t := by
              have happend := List.takeWhile_append_dropWhile (p := isDigit) (l := t)
              rwa [hbehind, List.append_nil] at happend
            rw [lengthTerm?_eq_some_iff isDigit_of_mem_takeWhile, hall] at hterm
            exact Or.inr ⟨t, by rw [hb], hterm⟩
          · cases h
      · cases h
    · rintro (⟨h, -⟩ | ⟨run, h, hm⟩)
      · cases h
      · obtain ⟨rfl, rfl⟩ := List.cons.inj h
        obtain ⟨htake, hdrop⟩ := hm.span
        rw [if_pos rfl, htake, hdrop, (lengthTerm?_eq_some_iff hm.isDigit).2 hm]
        rfl

/-- A text spells a length exactly if it is read from the left as one of these numbers. -/
theorem spellsLength_iff {t : Text} {n m : Nat} :
    SpellsLength t n m ↔
      1 ≤ m ∧ ∃ behind, readNumerator t = .ok (n, behind) ∧ readDenominator behind = .ok m := by
  simp only [readNumerator_eq_ok_iff, readDenominator_eq_ok_iff]
  constructor
  · have hstroke (run : Text) : ∀ b ∈ (Text.byte '/' :: run).head?, isDigit b = false := by
      rintro b ⟨⟩
      rfl
    rintro (_ | hn | ⟨hm, hpos⟩ | ⟨hn, hm, hpos⟩)
    · exact ⟨le_rfl, [], by simp⟩
    · obtain ⟨htake, hdrop⟩ := hn.span
      exact ⟨le_rfl, [], ⟨hdrop.symm, Or.inr (htake.symm ▸ hn)⟩, Or.inl ⟨rfl, rfl⟩⟩
    · exact ⟨hpos, _, ⟨rfl, Or.inl ⟨rfl, rfl⟩⟩, Or.inr ⟨_, rfl, hm⟩⟩
    · obtain ⟨htake, hdrop⟩ := Text.takeWhile_dropWhile_append hn.isDigit (hstroke _)
      exact ⟨hpos, _, ⟨hdrop.symm, Or.inr (htake.symm ▸ hn)⟩, Or.inr ⟨_, rfl, hm⟩⟩
  · rintro ⟨hpos, behind, ⟨hbehind, hnum⟩, hden⟩
    have ht : t = t.takeWhile isDigit ++ behind := by
      rw [hbehind, List.takeWhile_append_dropWhile]
    rw [ht]
    rcases hnum with ⟨hrun, rfl⟩ | hn <;> rcases hden with ⟨rfl, rfl⟩ | ⟨run, rfl, hm⟩
    · rw [hrun]
      exact .beat
    · rw [hrun]
      exact .part hm hpos
    · rw [List.append_nil]
      exact .whole hn
    · exact .parts hn hm hpos

/-- A length is read exactly if it is spelt. -/
theorem readLength_eq_ok_iff {t : Text} {d : Duration} :
    readLength t = .ok d ↔
      ∃ n m, SpellsLength t n m ∧ Duration.ofFraction? n m = some d := by
  rw [readLength]
  constructor
  · intro h
    split at h
    · cases h
    · next n behind hnum =>
      split at h
      · cases h
      · next m hden =>
        split at h
        · next hlength =>
          obtain rfl := Except.ok.inj h
          have hpos : m ≠ 0 := fun hm => by
            rw [Duration.ofFraction?_eq_none_iff.2 hm] at hlength
            cases hlength
          exact ⟨n, m, spellsLength_iff.2 ⟨Nat.pos_of_ne_zero hpos, behind, hnum, hden⟩, hlength⟩
        · cases h
  · rintro ⟨n, m, hspells, hlength⟩
    obtain ⟨-, behind, hnum, hden⟩ := spellsLength_iff.1 hspells
    simp only [hnum, hden, hlength]

/-- The numbers of a length are told by its text. -/
theorem SpellsLength.unique {t : Text} {n m n' m' : Nat} (h : SpellsLength t n m)
    (h' : SpellsLength t n' m') : n = n' ∧ m = m' := by
  obtain ⟨-, behind, hnum, hden⟩ := spellsLength_iff.1 h
  obtain ⟨-, behind', hnum', hden'⟩ := spellsLength_iff.1 h'
  obtain ⟨rfl, rfl⟩ := Prod.mk.inj (Except.ok.inj (hnum.symm.trans hnum'))
  exact ⟨rfl, Except.ok.inj (hden.symm.trans hden')⟩

/-- Whatever is spelt can be held exactly. -/
theorem SpellsLength.exists_length {t : Text} {n m : Nat} (h : SpellsLength t n m) :
    ∃ f : Fraction, f.value = n / m ∧ readLength t = .ok (.finite f) := by
  obtain ⟨hpos, behind, hnum, hden⟩ := spellsLength_iff.1 h
  have hof : Duration.ofFraction? n m = some (.reduce n m hpos) := dif_pos hpos
  obtain ⟨f, hf, -, -⟩ := Duration.notated_of_ofFraction? (le_of_readNumerator hnum)
    (le_of_readDenominator hden) hof
  exact ⟨f, Duration.value_of_reduce hf, readLength_eq_ok_iff.2 ⟨n, m, h, hf ▸ hof⟩⟩

/-! ### Where the length starts -/

/-- A length starts with a digit or a stroke, if it is not empty. -/
theorem SpellsLength.not_inPitch {t : Text} {n m : Nat} (h : SpellsLength t n m) :
    ∀ b ∈ t.head?, inPitch b = false := by
  have hdigit {run : Text} {k : Nat} (hrun : Numeral run k) (behind : Text) :
      ∀ b ∈ (run ++ behind).head?, inPitch b = false := by
    cases run with
    | nil => exact absurd rfl hrun.ne_nil
    | cons c run =>
      rintro b ⟨⟩
      rw [inPitch, hrun.isDigit c List.mem_cons_self]
      exact Bool.and_false _
  cases h with
  | beat => simp
  | whole hn => simpa using hdigit hn []
  | part =>
    rintro b ⟨⟩
    rfl
  | parts hn => exact hdigit hn _

/-- No pitch has a digit or a stroke in it. -/
theorem inPitch_of_readPitch? {t : Text} {p : Pitch} (h : readPitch? t = some p) :
    ∀ b ∈ t, inPitch b = true := by
  obtain ⟨⟨accidentals, letter, offset, marks, rfl, haccidentals, hletter, hmarks⟩⟩ :=
    PitchParts.nonempty_of_read h
  have hinPitch : inPitch letter = true := by cases hletter <;> rfl
  refine List.forall_mem_append.2
    ⟨fun b hb => ?_, List.forall_mem_cons.2 ⟨hinPitch, fun b hb => ?_⟩⟩
  · rcases haccidentals b hb with rfl | rfl <;> rfl
  · rcases hmarks b hb with rfl | rfl <;> rfl

theorem SpellsHead.inPitch {i : Instrument} {t : Text} {make : Duration → Piece}
    (h : SpellsHead i t make) : ∀ b ∈ t, Notation.inPitch b = true := by
  cases h with
  | point => exact List.forall_mem_singleton.2 rfl
  | pitch h => exact inPitch_of_readPitch? h

/-- What a head makes of a length is told by its text. -/
theorem SpellsHead.unique {i : Instrument} {t : Text} {make make' : Duration → Piece}
    (h : SpellsHead i t make) (h' : SpellsHead i t make') : make = make' := by
  rcases h with _ | @⟨t, p, hp⟩ <;> rcases h' with _ | @⟨_, p', hp'⟩
  · rfl
  · cases hp'
  · cases hp
  · rw [Option.some.inj (hp.symm.trans hp')]

/-! ### The symbols -/

namespace SymbolParts

variable {i : Instrument} {s : Text}

/-- The reader cuts a symbol where its length starts. -/
theorem cut (a : SymbolParts i s) :
    s.takeWhile inPitch = a.head ∧ s.dropWhile inPitch = a.length := by
  have hcut := Text.takeWhile_dropWhile_append a.spellsHead.inPitch a.spellsLength.not_inPitch
  rwa [a.append_eq] at hcut

/-- A text can be taken apart in one way only. -/
theorem unique (a b : SymbolParts i s) : a = b := by
  have hhead : a.head = b.head := a.cut.1.symm.trans b.cut.1
  have hlength : a.length = b.length := a.cut.2.symm.trans b.cut.2
  have hmake : a.make = b.make := (hhead ▸ a.spellsHead).unique b.spellsHead
  obtain ⟨hnum, hden⟩ := (hlength ▸ a.spellsLength).unique b.spellsLength
  exact SymbolParts.ext hhead hlength hmake hnum hden

/-- What can be taken apart is read, as what it spells. -/
theorem exists_read (a : SymbolParts i s) :
    ∃ f : Fraction, f.value = a.num / a.den ∧ readSymbol s i = .ok (a.make (.finite f)) := by
  obtain ⟨f, hvalue, hread⟩ := a.spellsLength.exists_length
  refine ⟨f, hvalue, ?_⟩
  obtain ⟨htake, hdrop⟩ := a.cut
  rw [readSymbol, hdrop, hread, htake]
  obtain ⟨head, length, make, num, den, -, hhead, -⟩ := a
  cases hhead with
  | point => rfl
  | pitch hp =>
    have hpoint : head ≠ [Text.byte '.'] := by
      rintro rfl
      cases hp
    simp only [if_neg hpoint, hp]

/-- What is read can be taken apart. -/
theorem nonempty_of_read {p : Piece} (h : readSymbol s i = .ok p) :
    Nonempty (SymbolParts i s) := by
  rw [readSymbol] at h
  split at h
  · cases h
  · next d hlength =>
    obtain ⟨n, m, hspells, -⟩ := readLength_eq_ok_iff.1 hlength
    have hhead : ∃ make, SpellsHead i (s.takeWhile inPitch) make := by
      split at h
      · next hpoint => exact ⟨.rest, hpoint ▸ SpellsHead.point⟩
      · split at h
        · next hp => exact ⟨_, .pitch hp⟩
        · cases h
    obtain ⟨make, hmake⟩ := hhead
    exact ⟨_, _, make, n, m, List.takeWhile_append_dropWhile, hmake, hspells⟩

end SymbolParts

/-- **Exactly the symbols are read.**  A text is read exactly if it is a head and a length right
behind it, which it is in at most one way; it stands for what its head makes of exactly `num /
den` beats.  Every other text is told as bad notation, and the empty piece is left.  However long
the numbers are that stand in a text, no word wraps around while they are read. -/
theorem readSymbol_grammar (s : Text) (i : Instrument) :
    ((∃ p, readSymbol s i = .ok p) ↔ Nonempty (SymbolParts i s)) ∧
      (∀ a : SymbolParts i s, (∀ b : SymbolParts i s, b = a) ∧
        ∃ f : Fraction, f.value = a.num / a.den ∧
          readSymbol s i = .ok (a.make (.finite f)) ∧
          readingOfSymbol s i = { piece := a.make (.finite f), success := true }) ∧
      (IsEmpty (SymbolParts i s) → ∃ e, readSymbol s i = .error e ∧ e.sign = s ∧
        e.kind = .badNotation ∧
        readingOfSymbol s i = { piece := .rest .zero, success := false, misreading := some e }) ∧
      scanLength? (s.dropWhile inPitch) = some (readLength (s.dropWhile inPitch)) := by
  refine ⟨⟨fun ⟨p, hp⟩ => SymbolParts.nonempty_of_read hp, fun ⟨a⟩ => ?_⟩, fun a => ?_,
    fun hnone => ?_, scanLength?_eq _⟩
  · obtain ⟨f, -, hread⟩ := a.exists_read
    exact ⟨_, hread⟩
  · obtain ⟨f, hvalue, hread⟩ := a.exists_read
    exact ⟨fun b => b.unique a, f, hvalue, hread, congrArg Reading.ofExcept hread⟩
  · cases hread : readSymbol s i with
    | error e =>
      exact ⟨e, rfl, readSymbol_error hread, kind_of_readSymbol_error hread,
        congrArg Reading.ofExcept hread⟩
    | ok p => exact absurd (SymbolParts.nonempty_of_read hread) (not_nonempty_iff.2 hnone)

-- Half a beat, written with zeros and as short as it goes.
example (i : Instrument) :
    readSymbol (Text.utf8 "^C007/014") i = readSymbol (Text.utf8 "^C/2") i := by
  rfl

end Notation
end Polyphony
