/-
# Whole numbers read from text

A text spells a whole number if it is an optional single sign and one or more digits
(`SpellsInt`), and then it is read as that number as far as the number is in range, and no other
text is read at all (`reads_integers`).

The machine reads such a text by a conversion that is looser in each respect (`convert`): it skips
blanks, stops at the first byte that is no digit, and stops at the limit of its word if the number
is over it, of which it leaves a mark.  What makes up for this stands around it (`scanIn?`):

| the conversion | is kept from it by |
| --- | --- |
| skips blanks | the first byte, which must be a sign or a digit |
| takes no digits for nothing wrong | what is left, which must not be all |
| stops before what is no digit | what is left, which must be nothing |
| stops at the limit of the word | the mark |

The word takes one digit after the other and is compared with its limit before each of them, so it
never wraps around, however many digits there are (`foldl_push`).
-/

import Polyphony.Proofs.Notation.NumbersInWords
import Mathlib.Data.List.TakeWhile
import Mathlib.Data.Nat.Digits.Defs

namespace Polyphony
namespace Decimal

/-! ### What spells a number -/

/-- The number that digits stand for, the last one counting ones, the one before it tens, and so
on. -/
def worth (run : Text) : Nat := Nat.ofDigits 10 (run.map digitValue).reverse

/-- One or more digits. -/
structure IsRun (run : Text) : Prop where
  ne_nil : run ≠ []
  isDigit : ∀ b ∈ run, isDigit b = true

/-- The texts of a number: digits, with at most one sign before them. -/
inductive SpellsInt : Text → Int → Prop where
  | plain {run : Text} (h : IsRun run) : SpellsInt run (worth run)
  | plus {run : Text} (h : IsRun run) : SpellsInt (Text.byte '+' :: run) (worth run)
  | minus {run : Text} (h : IsRun run) : SpellsInt (Text.byte '-' :: run) (-(worth run : Int))

/-- Is a text negative, and what stands behind its sign if it has one? -/
def signOf : Text → Bool × Text
  | [] => (false, [])
  | b :: t =>
    if b = Text.byte '-' then (true, t)
    else if b = Text.byte '+' then (false, t)
    else (false, b :: t)

/-- A number with its sign. -/
def withSign (negative : Bool) (n : Nat) : Int := if negative then -(n : Int) else n

variable {t : Text} {v : Int}

theorem value_eq_worth (run : Text) : value run = worth run := by
  induction run using List.reverseRecOn with
  | nil => rfl
  | append_singleton run b ih =>
    rw [value_append_singleton, ih, worth, worth, List.map_append, List.map_singleton,
      List.reverse_append, List.reverse_singleton, List.singleton_append, Nat.ofDigits_cons]
    exact Nat.add_comm ..

theorem readNat?_eq_some_iff {n : Nat} : readNat? t = some n ↔ IsRun t ∧ n = worth t := by
  rw [readNat?, ← value_eq_worth]
  constructor
  · intro h
    split at h
    · next hrun =>
      exact ⟨⟨hrun.1, List.all_eq_true.1 hrun.2⟩, (Option.some.inj h).symm⟩
    · cases h
  · rintro ⟨⟨hne, hdigits⟩, rfl⟩
    exact if_pos ⟨hne, List.all_eq_true.2 hdigits⟩

/-- A sign is no digit, so a text spells a number in one way. -/
theorem spellsInt_iff :
    SpellsInt t v ↔ IsRun (signOf t).2 ∧ v = withSign (signOf t).1 (worth (signOf t).2) := by
  constructor
  · rintro (⟨⟨hne, hdigits⟩⟩ | h | h)
    · cases t with
      | nil => exact absurd rfl hne
      | cons b t =>
        have hb := hdigits b List.mem_cons_self
        have hminus : b ≠ Text.byte '-' := by
          rintro rfl
          cases hb
        have hplus : b ≠ Text.byte '+' := by
          rintro rfl
          cases hb
        rw [signOf, if_neg hminus, if_neg hplus]
        exact ⟨⟨hne, hdigits⟩, rfl⟩
    · exact ⟨h, rfl⟩
    · exact ⟨h, rfl⟩
  · rintro ⟨hrun, rfl⟩
    cases t with
    | nil => exact absurd rfl hrun.ne_nil
    | cons b t =>
      rw [signOf] at hrun ⊢
      by_cases hminus : b = Text.byte '-'
      · rw [if_pos hminus] at hrun ⊢
        subst hminus
        exact .minus hrun
      · rw [if_neg hminus] at hrun ⊢
        by_cases hplus : b = Text.byte '+'
        · rw [if_pos hplus] at hrun ⊢
          subst hplus
          exact .plus hrun
        · rw [if_neg hplus] at hrun ⊢
          exact .plain hrun

theorem readInt?_eq (t : Text) :
    readInt? t = ((readNat? (signOf t).2).map (withSign (signOf t).1)).filter fitsWord := by
  cases t with
  | nil => rfl
  | cons b t =>
    rw [readInt?, signOf]
    by_cases hminus : b = Text.byte '-'
    · rw [if_pos hminus, if_pos hminus]
      cases readNat? t <;> rfl
    · rw [if_neg hminus, if_neg hminus]
      by_cases hplus : b = Text.byte '+'
      · rw [if_pos hplus, if_pos hplus]
        cases readNat? t <;> rfl
      · rw [if_neg hplus, if_neg hplus]
        cases readNat? (b :: t) <;> rfl

theorem fitsWord_iff : fitsWord v = true ↔ -0x8000000000000000 ≤ v ∧ v ≤ 0x7FFFFFFFFFFFFFFF := by
  rw [fitsWord, Bool.and_eq_true, decide_eq_true_iff, decide_eq_true_iff]

/-- A text is read exactly if it spells a number that fits a word. -/
theorem readInt?_eq_some_iff : readInt? t = some v ↔
    SpellsInt t v ∧ -0x8000000000000000 ≤ v ∧ v ≤ 0x7FFFFFFFFFFFFFFF := by
  rw [readInt?_eq, Option.filter_eq_some_iff, fitsWord_iff, Option.map_eq_some_iff, spellsInt_iff]
  refine and_congr_left' ⟨?_, ?_⟩
  · rintro ⟨n, hn, rfl⟩
    obtain ⟨hrun, rfl⟩ := readNat?_eq_some_iff.1 hn
    exact ⟨hrun, rfl⟩
  · rintro ⟨hrun, rfl⟩
    exact ⟨_, readNat?_eq_some_iff.2 ⟨hrun, rfl⟩, rfl⟩

/-- A text is read exactly if what stands before its first zero byte spells a number in range. -/
theorem readIn?_eq_some_iff {lo hi : Int} : readIn? lo hi t = some v ↔
    SpellsInt t.beforeNul v ∧ (-0x8000000000000000 ≤ v ∧ v ≤ 0x7FFFFFFFFFFFFFFF) ∧
      lo ≤ v ∧ v ≤ hi := by
  rw [readIn?, Option.filter_eq_some_iff, readInt?_eq_some_iff, Bool.and_eq_true,
    decide_eq_true_iff, decide_eq_true_iff, and_assoc]

/-! ### The reading in a word -/

/-- A number that is being read, and whether it is over the limit. -/
structure Accumulator where
  /-- The number so far, or the limit if that is exceeded. -/
  word : UInt64
  /-- The mark of a number over the limit. -/
  tooLarge : Bool
deriving DecidableEq

/-- One digit more.  Nothing is multiplied before it is known to have room. -/
def Accumulator.push (limit : UInt64) (a : Accumulator) (b : UInt8) : Accumulator :=
  if a.tooLarge then a
  else if (limit - (digitValue b).toUInt64) / 10 < a.word then ⟨limit, true⟩
  else ⟨a.word * 10 + (digitValue b).toUInt64, false⟩

/-- What a conversion leaves. -/
structure Conversion where
  /-- The number, or what is closest to it in a word. -/
  number : Int64
  /-- Is it out of the range of a word? -/
  outOfRange : Bool
  /-- What the conversion has not taken. -/
  behind : Text
deriving DecidableEq

/-- A blank, or one of the other five bytes that stand for white space. -/
def isBlank (b : UInt8) : Bool := b == 32 || (9 ≤ b && b ≤ 13)

/-- How far from zero a word goes. -/
def wordLimit (negative : Bool) : UInt64 :=
  if negative then 0x8000000000000000 else 0x7FFFFFFFFFFFFFFF

/-- Converts the beginning of a text to a number.  Nothing is taken of a text that has no digits
behind its blanks and its sign. -/
def convert (t : Text) : Conversion :=
  let (negative, rest) := signOf (t.dropWhile isBlank)
  if rest.takeWhile isDigit = [] then ⟨0, false, t⟩
  else
    let a := (rest.takeWhile isDigit).foldl (Accumulator.push (wordLimit negative)) ⟨0, false⟩
    ⟨.ofInt (withSign negative a.word.toNat), a.tooLarge, rest.dropWhile isDigit⟩

/-- May a number start with the first byte of a text? -/
def startsInt : Text → Bool
  | [] => false
  | b :: _ => b == Text.byte '-' || b == Text.byte '+' || isDigit b

/-- Reads a number from `lo` to `hi` by converting what stands before the first zero byte. -/
def scanIn? (lo hi : Int64) (t : Text) : Option Int64 :=
  if startsInt t then
    let c := convert t.beforeNul
    if c.outOfRange ∨ c.behind = t.beforeNul ∨ c.behind ≠ [] then none
    else if c.number < lo ∨ hi < c.number then none
    else some c.number
  else none

open Notation (valueFrom digitValue_le le_valueFrom)

/-- A word takes one digit more exactly if there is room for it. -/
theorem push_eq {limit n : UInt64} {b : UInt8} (hlimit : 9 ≤ limit.toNat)
    (hb : isDigit b = true) :
    Accumulator.push limit ⟨n, false⟩ b =
      if 10 * n.toNat + digitValue b ≤ limit.toNat then
        ⟨(10 * n.toNat + digitValue b).toUInt64, false⟩
      else ⟨limit, true⟩ := by
  have hdigit := digitValue_le hb
  have hfits : (digitValue b).toUInt64.toNat = digitValue b :=
    toNat_toUInt64_of_le (hdigit.trans (by decide))
  have hle : (digitValue b).toUInt64 ≤ limit := by
    rw [UInt64.le_iff_toNat_le, hfits]
    exact hdigit.trans hlimit
  have hroom : (limit - (digitValue b).toUInt64) / 10 < n ↔
      ¬ 10 * n.toNat + digitValue b ≤ limit.toNat := by
    rw [UInt64.lt_iff_toNat_lt, UInt64.toNat_div, UInt64.toNat_sub_of_le _ _ hle, hfits]
    show (limit.toNat - digitValue b) / 10 < n.toNat ↔ _
    omega
  rw [Accumulator.push, if_neg Bool.false_ne_true]
  by_cases h : 10 * n.toNat + digitValue b ≤ limit.toNat
  · have hword : n * 10 + (digitValue b).toUInt64 = (10 * n.toNat + digitValue b).toUInt64 := by
      refine UInt64.toNat_inj.1 ?_
      rw [toNat_toUInt64_of_le (h.trans (toNat_le_maxTerm limit)), UInt64.toNat_add,
        UInt64.toNat_mul, hfits]
      have := limit.toNat_lt
      show (n.toNat * 10 % 18446744073709551616 + digitValue b) % 18446744073709551616 = _
      omega
    rw [if_neg (mt hroom.1 (not_not.2 h)), if_pos h, hword]
  · rw [if_pos (hroom.2 h), if_neg h]

/-- The mark stays. -/
theorem foldl_push_of_tooLarge (limit w : UInt64) (run : Text) :
    run.foldl (Accumulator.push limit) ⟨w, true⟩ = ⟨w, true⟩ := by
  induction run with
  | nil => rfl
  | cons b run ih => exact ih

/-- A word holds the number of the digits that it has been shown, as far as that is within its
limit, and else the limit and the mark. -/
theorem foldl_push {limit n : UInt64} (hlimit : 9 ≤ limit.toNat) (hn : n ≤ limit) {run : Text}
    (hrun : ∀ b ∈ run, isDigit b = true) :
    run.foldl (Accumulator.push limit) ⟨n, false⟩ =
      if valueFrom n.toNat run ≤ limit.toNat then ⟨(valueFrom n.toNat run).toUInt64, false⟩
      else ⟨limit, true⟩ := by
  induction run generalizing n with
  | nil =>
    rw [valueFrom, List.foldl_nil, List.foldl_nil, if_pos (UInt64.le_iff_toNat_le.1 hn),
      Nat.toUInt64, UInt64.ofNat_toNat]
  | cons b run ih =>
    obtain ⟨hb, hrest⟩ := List.forall_mem_cons.1 hrun
    have hvalue : valueFrom n.toNat (b :: run) = valueFrom (10 * n.toNat + digitValue b) run := rfl
    rw [List.foldl_cons, push_eq hlimit hb, hvalue]
    by_cases h : 10 * n.toNat + digitValue b ≤ limit.toNat
    · have hword : (10 * n.toNat + digitValue b).toUInt64.toNat = 10 * n.toNat + digitValue b :=
        toNat_toUInt64_of_le (h.trans (toNat_le_maxTerm limit))
      have hnext : (10 * n.toNat + digitValue b).toUInt64 ≤ limit := by
        rwa [UInt64.le_iff_toNat_le, hword]
      rw [if_pos h, ih hnext hrest, hword]
    · rw [if_neg h, foldl_push_of_tooLarge, if_neg]
      exact fun hle => h ((le_valueFrom _ _).trans hle)

/-- A number fits a word exactly if it is within the limit on its side of zero. -/
theorem worth_le_wordLimit_iff {negative : Bool} {n : Nat} : n ≤ (wordLimit negative).toNat ↔
    -0x8000000000000000 ≤ withSign negative n ∧ withSign negative n ≤ 0x7FFFFFFFFFFFFFFF := by
  cases negative with
  | false =>
    show n ≤ 0x7FFFFFFFFFFFFFFF ↔ -0x8000000000000000 ≤ (n : Int) ∧ (n : Int) ≤ 0x7FFFFFFFFFFFFFFF
    omega
  | true =>
    show n ≤ 0x8000000000000000 ↔ -0x8000000000000000 ≤ -(n : Int) ∧ -(n : Int) ≤ 0x7FFFFFFFFFFFFFFF
    omega

theorem toInt_bounds (w : Int64) : -0x8000000000000000 ≤ w.toInt ∧ w.toInt ≤ 0x7FFFFFFFFFFFFFFF :=
  ⟨w.le_toInt, Int.le_of_lt_add_one w.toInt_lt⟩

theorem toInt_ofInt (hv : -0x8000000000000000 ≤ v ∧ v ≤ 0x7FFFFFFFFFFFFFFF) :
    (Int64.ofInt v).toInt = v :=
  Int64.toInt_ofInt_of_le hv.1 (Int.lt_add_one_of_le hv.2)

/-- What is behind the sign is no more than the text. -/
theorem length_signOf_le (t : Text) : (signOf t).2.length ≤ t.length := by
  cases t with
  | nil => exact le_rfl
  | cons b t =>
    rw [signOf]
    split
    · exact Nat.le_succ _
    · split
      · exact Nat.le_succ _
      · exact le_rfl

/-- Blanks come before signs and digits among the bytes. -/
theorem not_isBlank_of_startsInt {b : UInt8} (h : startsInt (b :: t) = true) :
    ¬ isBlank b = true := by
  have hsign : 43 ≤ b.toNat := by
    rw [startsInt, Bool.or_eq_true, Bool.or_eq_true, beq_iff_eq, beq_iff_eq] at h
    rcases h with (rfl | rfl) | h
    · decide
    · decide
    · rw [isDigit, Bool.and_eq_true, decide_eq_true_iff, UInt8.le_iff_toNat_le] at h
      exact (show 43 ≤ 48 by decide).trans h.1
  rw [isBlank, Bool.or_eq_true, beq_iff_eq, Bool.and_eq_true, decide_eq_true_iff,
    decide_eq_true_iff, UInt8.le_iff_toNat_le, UInt8.le_iff_toNat_le]
  rintro (rfl | ⟨-, hle⟩)
  · exact absurd hsign (by decide)
  · exact absurd (hsign.trans hle) (by decide)

theorem dropWhile_isBlank (h : startsInt t = true) : t.dropWhile isBlank = t := by
  cases t with
  | nil => rfl
  | cons b t => exact List.dropWhile_cons_of_neg (not_isBlank_of_startsInt h)

/-- What is converted of a text that starts as a number does. -/
theorem convert_eq (h : startsInt t = true) :
    convert t =
      if (signOf t).2.takeWhile isDigit = [] then ⟨0, false, t⟩
      else if worth ((signOf t).2.takeWhile isDigit) ≤ (wordLimit (signOf t).1).toNat then
        ⟨.ofInt (withSign (signOf t).1 (worth ((signOf t).2.takeWhile isDigit))), false,
          (signOf t).2.dropWhile isDigit⟩
      else
        ⟨.ofInt (withSign (signOf t).1 (wordLimit (signOf t).1).toNat), true,
          (signOf t).2.dropWhile isDigit⟩ := by
  have hdigits : ∀ b ∈ (signOf t).2.takeWhile isDigit, isDigit b = true :=
    List.all_eq_true.1 List.all_takeWhile
  have hlimit : 9 ≤ (wordLimit (signOf t).1).toNat := by cases (signOf t).1 <;> decide
  have hvalue : valueFrom 0 ((signOf t).2.takeWhile isDigit) =
      worth ((signOf t).2.takeWhile isDigit) := value_eq_worth _
  simp only [convert, dropWhile_isBlank h, foldl_push hlimit UInt64.zero_le hdigits,
    UInt64.toNat_zero, hvalue]
  split
  · rfl
  · split
    · next hle => rw [toNat_toUInt64_of_le (hle.trans (toNat_le_maxTerm _))]
    · rfl

/-- A conversion that takes all of a text and leaves no mark has read what the text spells. -/
theorem convert_iff (h : startsInt t = true) {w : Int64} :
    (¬ ((convert t).outOfRange = true ∨ (convert t).behind = t ∨ (convert t).behind ≠ []) ∧
      (convert t).number = w) ↔ SpellsInt t w.toInt := by
  have hlength := length_signOf_le t
  rw [spellsInt_iff, convert_eq h]
  generalize (signOf t).1 = negative
  generalize (signOf t).2 = rest at hlength ⊢
  -- No digits, digits and nothing behind them, digits and something behind them.
  by_cases hnone : rest.takeWhile isDigit = []
  · have hrun : ¬ IsRun rest := by
      intro hrun
      rw [List.takeWhile_eq_self_iff.2 hrun.isDigit] at hnone
      exact hrun.ne_nil hnone
    rw [if_pos hnone]
    exact iff_of_false (fun h => h.1 (Or.inr (Or.inl rfl))) fun h => hrun h.1
  · rw [if_neg hnone]
    by_cases hbehind : rest.dropWhile isDigit = []
    · have hall := List.dropWhile_eq_nil_iff.1 hbehind
      have hrest : rest.takeWhile isDigit = rest := List.takeWhile_eq_self_iff.2 hall
      rw [hrest] at hnone
      have hrun : IsRun rest := ⟨hnone, hall⟩
      have hlonger : ([] : Text) ≠ t := by
        rintro rfl
        exact hnone (List.length_eq_zero_iff.1 (Nat.le_zero.1 hlength))
      rw [hrest, hbehind]
      by_cases hfits : worth rest ≤ (wordLimit negative).toNat
      · rw [if_pos hfits]
        simp only [Bool.false_eq_true, hlonger, ne_eq, not_true, or_self, not_false_eq_true,
          true_and, hrun]
        rw [← Int64.toInt_inj, toInt_ofInt (worth_le_wordLimit_iff.1 hfits), eq_comm]
      · rw [if_neg hfits]
        refine iff_of_false (fun h => h.1 (Or.inl rfl)) fun h => hfits ?_
        rw [worth_le_wordLimit_iff, ← h.2]
        exact toInt_bounds w
    · have hrun : ¬ IsRun rest := fun hrun => hbehind (List.dropWhile_eq_nil_iff.2 hrun.isDigit)
      refine iff_of_false (fun h => h.1 (Or.inr (Or.inr ?_))) fun h => hrun h.1
      split <;> exact hbehind

/-- A number starts with a sign or a digit, so no text without one of them spells any. -/
theorem startsInt_of_spellsInt (h : SpellsInt t v) : startsInt t = true := by
  obtain ⟨hne, hdigits⟩ | - | - := h
  · cases t with
    | nil => exact absurd rfl hne
    | cons b t => rw [startsInt, hdigits b List.mem_cons_self, Bool.or_true]
  · rfl
  · rfl

theorem beforeNul_cons {b : UInt8} (hb : b ≠ 0) (t : Text) :
    Text.beforeNul (b :: t) = b :: t.beforeNul :=
  List.takeWhile_cons_of_pos (bne_iff_ne.2 hb)

/-- A zero byte starts no number. -/
theorem startsInt_beforeNul (t : Text) : startsInt t.beforeNul = startsInt t := by
  cases t with
  | nil => rfl
  | cons b t =>
    by_cases hb : b = 0
    · subst hb
      rfl
    · rw [beforeNul_cons hb]
      rfl

/-- The machine reads a text exactly if what stands before its first zero byte spells a number in
range. -/
theorem scanIn?_eq_some_iff {lo hi w : Int64} :
    scanIn? lo hi t = some w ↔ SpellsInt t.beforeNul w.toInt ∧ lo ≤ w ∧ w ≤ hi := by
  rw [scanIn?]
  by_cases hstarts : startsInt t = true
  · have hbody : startsInt t.beforeNul = true := (startsInt_beforeNul t).trans hstarts
    rw [if_pos hstarts, ← convert_iff hbody]
    simp only
    by_cases hfails : (convert t.beforeNul).outOfRange = true ∨
        (convert t.beforeNul).behind = t.beforeNul ∨ (convert t.beforeNul).behind ≠ []
    · rw [if_pos hfails]
      exact iff_of_false (Option.some_ne_none w).symm fun h => h.1.1 hfails
    · rw [if_neg hfails, and_iff_right hfails]
      constructor
      · intro h
        split at h
        · cases h
        · next hrange =>
          obtain rfl := Option.some.inj h
          obtain ⟨hlo, hhi⟩ := not_or.1 hrange
          exact ⟨rfl, Int64.not_lt.1 hlo, Int64.not_lt.1 hhi⟩
      · rintro ⟨rfl, hlo, hhi⟩
        exact if_neg (not_or.2 ⟨Int64.not_lt.2 hlo, Int64.not_lt.2 hhi⟩)
  · rw [if_neg hstarts]
    refine iff_of_false (Option.some_ne_none w).symm fun h => hstarts ?_
    rw [← startsInt_beforeNul]
    exact startsInt_of_spellsInt h.1

/-- The machine reads what is read. -/
theorem scanIn?_eq (lo hi : Int64) (t : Text) :
    scanIn? lo hi t = (readIn? lo.toInt hi.toInt t).map Int64.ofInt := by
  refine Option.ext fun w => ?_
  rw [scanIn?_eq_some_iff, Option.map_eq_some_iff, Int64.le_iff_toInt_le, Int64.le_iff_toInt_le]
  constructor
  · rintro ⟨hspells, hrange⟩
    exact ⟨w.toInt, readIn?_eq_some_iff.2 ⟨hspells, toInt_bounds w, hrange⟩, w.ofInt_toInt⟩
  · rintro ⟨v, hv, rfl⟩
    obtain ⟨hspells, hfits, hrange⟩ := readIn?_eq_some_iff.1 hv
    rw [toInt_ofInt hfits]
    exact ⟨hspells, hrange⟩

/-! ### What is refused -/

/-- The bytes of a number: a sign or a digit, and then nothing but digits. -/
theorem SpellsInt.bytes {b : UInt8} (h : SpellsInt (Text.beforeNul (b :: t)) v) :
    (b = Text.byte '-' ∨ b = Text.byte '+' ∨ isDigit b = true) ∧
      (∀ c ∈ t.beforeNul, isDigit c = true) ∧ (t.beforeNul = [] → isDigit b = true) := by
  have hb : b ≠ 0 := by
    rintro rfl
    exact absurd (startsInt_of_spellsInt h) Bool.false_ne_true
  rw [beforeNul_cons hb] at h
  cases h with
  | plain h =>
    obtain ⟨hb, ht⟩ := List.forall_mem_cons.1 h.isDigit
    exact ⟨Or.inr (Or.inr hb), ht, fun _ => hb⟩
  | plus h => exact ⟨Or.inr (Or.inl rfl), h.isDigit, fun hnil => absurd hnil h.ne_nil⟩
  | minus h => exact ⟨Or.inl rfl, h.isDigit, fun hnil => absurd hnil h.ne_nil⟩

/-- A text spells at most one number. -/
theorem SpellsInt.unique {u : Int} (hu : SpellsInt t u) (hv : SpellsInt t v) : u = v :=
  (spellsInt_iff.1 hu).2.trans (spellsInt_iff.1 hv).2.symm

/-- What spells no number is not read. -/
theorem readIn?_eq_none {lo hi : Int} (h : ∀ v, ¬ SpellsInt t.beforeNul v) :
    readIn? lo hi t = none :=
  Option.eq_none_iff_forall_ne_some.2 fun v hv => h v (readIn?_eq_some_iff.1 hv).1

/-- How whole numbers are read from text. -/
structure ReadsIntegers : Prop where
  /-- A text is read in machine words exactly if what stands before its first zero byte spells a
  number in range, and as that number. -/
  scans_iff : ∀ (lo hi w : Int64) (t : Text),
    scanIn? lo hi t = some w ↔ SpellsInt t.beforeNul w.toInt ∧ lo ≤ w ∧ w ≤ hi
  /-- So it is without words, where the number must fit one. -/
  reads_iff : ∀ (lo hi v : Int) (t : Text), readIn? lo hi t = some v ↔
    SpellsInt t.beforeNul v ∧ (-0x8000000000000000 ≤ v ∧ v ≤ 0x7FFFFFFFFFFFFFFF) ∧ lo ≤ v ∧ v ≤ hi
  /-- Both read the same. -/
  scans_eq : ∀ (lo hi : Int64) (t : Text),
    scanIn? lo hi t = (readIn? lo.toInt hi.toInt t).map Int64.ofInt
  /-- Nothing but a sign or a digit may stand first, so no blank may. -/
  refuses_first : ∀ (lo hi : Int) (b : UInt8) (t : Text), b ≠ Text.byte '-' → b ≠ Text.byte '+' →
    isDigit b = false → readIn? lo hi (b :: t) = none
  /-- A sign is no number. -/
  refuses_lone : ∀ (lo hi : Int) (b : UInt8), isDigit b = false → readIn? lo hi [b] = none
  /-- Nothing but a digit may stand behind the first byte, neither another sign nor anything at the
  end. -/
  refuses_stray : ∀ (lo hi : Int) (b c : UInt8) (t : Text), c ∈ t.beforeNul → isDigit c = false →
    readIn? lo hi (b :: t) = none
  /-- A number that fits no word is refused, however it is written. -/
  refuses_beyond : ∀ (lo hi v : Int) (t : Text), SpellsInt t.beforeNul v →
    ¬ (-0x8000000000000000 ≤ v ∧ v ≤ 0x7FFFFFFFFFFFFFFF) → readIn? lo hi t = none

/-- **Exactly the whole numbers in range are read**, and each as the number that it spells. -/
theorem reads_integers : ReadsIntegers where
  scans_iff _ _ _ _ := scanIn?_eq_some_iff
  reads_iff _ _ _ _ := readIn?_eq_some_iff
  scans_eq := scanIn?_eq
  refuses_first _ _ _ _ hminus hplus hdigit := readIn?_eq_none fun _ h =>
    h.bytes.1.elim hminus fun h => h.elim hplus (Bool.eq_false_iff.1 hdigit)
  refuses_lone _ _ _ hdigit := readIn?_eq_none fun _ h =>
    Bool.eq_false_iff.1 hdigit (h.bytes.2.2 rfl)
  refuses_stray _ _ _ c _ hc hdigit := readIn?_eq_none fun _ h =>
    Bool.eq_false_iff.1 hdigit (h.bytes.2.1 c hc)
  refuses_beyond lo hi v t hspells hbeyond := by
    refine Option.eq_none_iff_forall_ne_some.2 fun u hu => hbeyond ?_
    obtain ⟨hu, hfits, -⟩ := readIn?_eq_some_iff.1 hu
    rwa [hu.unique hspells] at hfits

/-- The least number of a word is read, and no number below it. -/
example :
    scanIn? Int64.minValue 0 (Text.utf8 "-9223372036854775808") = some Int64.minValue ∧
      scanIn? Int64.minValue 0 (Text.utf8 "-9223372036854775809") = none := by
  decide +kernel

end Decimal
end Polyphony
