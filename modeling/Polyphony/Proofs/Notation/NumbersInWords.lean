/-
# Lengths read in machine words

A machine reads the numbers of a length digit by digit into a 64-bit word (`tally`), and gives a
number up as soon as it is over the limit of the notation.  So before each digit the word holds a
number within the limit, which has room for one digit more: however long a run of digits is, the
word never wraps around, and the length that is read is that of `readLength`
(`scanLength?_eq`).
-/

import Polyphony.Proofs.Duration.MachineWords
import Polyphony.Proofs.Notation.FirstMistake
import Polyphony.Proofs.Notation.Lengths

namespace Polyphony
namespace Notation

open Decimal

/-- How the reading of a number in a 64-bit word ends. -/
inductive Tally where
  /-- The word has wrapped around. -/
  | wrapped
  /-- The number is over the limit, whatever comes behind. -/
  | tooLarge
  /-- The number, and what stands behind its digits. -/
  | number (n : UInt64) (behind : Text)
deriving DecidableEq

/-- Reads on behind the digits of `n`. -/
def tally (n : UInt64) : Text → Tally
  | [] => .number n []
  | b :: t =>
    if isDigit b then
      if maxTerm < n.toNat * 10 + digitValue b then .wrapped
      else if maxLengthTerm.toUInt64 < n * 10 + (digitValue b).toUInt64 then .tooLarge
      else tally (n * 10 + (digitValue b).toUInt64) t
    else .number n (b :: t)

/-- Reads the number of beats before the stroke, one if there is no digit. -/
def scanNumerator : Text → Tally
  | [] => .number 1 []
  | b :: t => if isDigit b then tally 0 (b :: t) else .number 1 (b :: t)

/-- Reads the stroke and the number behind it, one if there is no stroke; nothing if the word
wraps around. -/
def scanDenominator? : Text → Option (Except Mistake UInt64)
  | [] => some (.ok 1)
  | b :: t =>
    if b = Text.byte '/' then
      if t.takeWhile isDigit = [] then some (.error .numberExpected)
      else
        match tally 0 t with
        | .wrapped => none
        | .tooLarge => some (.error .numberExpected)
        | .number n behind => some (if behind = [] then .ok n else .error .strayCharacters)
    else some (.error .strayCharacters)

/-- Reads a whole text as a length; nothing if a word wraps around. -/
def scanLength? (t : Text) : Option (Except Mistake Duration) :=
  match scanNumerator t with
  | .wrapped => none
  | .tooLarge => some (.error .lengthTooLarge)
  | .number num behind =>
    (scanDenominator? behind).map fun
      | .error mistake => .error mistake
      | .ok den =>
        match Duration.ofFraction? num.toNat den.toNat with
        | some length => .ok length
        | none => .error .zeroDenominator

theorem digitValue_le {b : UInt8} (h : isDigit b = true) : digitValue b ≤ 9 := by
  simp only [isDigit, Bool.and_eq_true, decide_eq_true_eq, UInt8.le_iff_toNat_le,
    UInt8.reduceToNat] at h
  rw [digitValue]
  omega

/-- The number that digits make behind those of `n`. -/
def valueFrom (n : Nat) (run : Text) : Nat := run.foldl (fun v b => 10 * v + digitValue b) n

theorem le_valueFrom (n : Nat) (run : Text) : n ≤ valueFrom n run := by
  induction run generalizing n with
  | nil => exact le_rfl
  | cons b run ih =>
    have hstep : n ≤ 10 * n + digitValue b := by omega
    exact hstep.trans (ih _)

/-- A number within the limit has room for one digit more in its word. -/
theorem toNat_push {n : UInt64} {d : Nat} (hn : n.toNat ≤ maxLengthTerm) (hd : d ≤ 9) :
    n.toNat * 10 + d ≤ maxTerm ∧ (n * 10 + d.toUInt64).toNat = 10 * n.toNat + d := by
  have hlimit : maxLengthTerm = 1000000 := rfl
  have hmax : maxTerm = 18446744073709551615 := rfl
  have hdigit : d.toUInt64.toNat = d := toNat_toUInt64_of_le (by omega)
  refine ⟨by omega, ?_⟩
  simp only [UInt64.toNat_add, UInt64.toNat_mul, hdigit, UInt64.reduceToNat]
  omega

/-- A word holds the number of the digits that it has been shown, as long as that is within the
limit. -/
theorem tally_eq {n : UInt64} (hn : n.toNat ≤ maxLengthTerm) (t : Text) :
    tally n t =
      if valueFrom n.toNat (t.takeWhile isDigit) ≤ maxLengthTerm then
        .number (valueFrom n.toNat (t.takeWhile isDigit)).toUInt64 (t.dropWhile isDigit)
      else .tooLarge := by
  induction t generalizing n with
  | nil =>
    rw [tally, List.takeWhile_nil, List.dropWhile_nil, valueFrom, List.foldl_nil, if_pos hn,
      Nat.toUInt64, UInt64.ofNat_toNat]
  | cons b t ih =>
    rw [tally]
    by_cases hb : isDigit b = true
    · obtain ⟨hfits, hpush⟩ := toNat_push hn (digitValue_le hb)
      have hvalue : valueFrom n.toNat ((b :: t).takeWhile isDigit) =
          valueFrom (10 * n.toNat + digitValue b) (t.takeWhile isDigit) := by
        rw [List.takeWhile_cons_of_pos hb]
        rfl
      rw [if_pos hb, if_neg (Nat.not_lt.2 hfits), hvalue, List.dropWhile_cons_of_pos hb]
      by_cases hlarge : maxLengthTerm.toUInt64 < n * 10 + (digitValue b).toUInt64
      · have hover : maxLengthTerm < 10 * n.toNat + digitValue b := by
          rwa [UInt64.lt_iff_toNat_lt, hpush] at hlarge
        rw [if_pos hlarge, if_neg]
        exact Nat.not_le.2 (hover.trans_le (le_valueFrom _ _))
      · have hwithin : (n * 10 + (digitValue b).toUInt64).toNat ≤ maxLengthTerm := by
          rwa [UInt64.lt_iff_toNat_lt, Nat.not_lt] at hlarge
        rw [if_neg hlarge, ih hwithin, hpush]
    · rw [if_neg hb, List.takeWhile_cons_of_neg hb, List.dropWhile_cons_of_neg hb, valueFrom,
        List.foldl_nil, if_pos hn, Nat.toUInt64, UInt64.ofNat_toNat]

/-- What is read of a run of digits in a word is what is read of it. -/
theorem tally_zero (t : Text) (h : t.takeWhile isDigit ≠ []) :
    tally 0 t =
      match lengthTerm? (t.takeWhile isDigit) with
      | some n => .number n.toUInt64 (t.dropWhile isDigit)
      | none => .tooLarge := by
  rw [tally_eq (Nat.zero_le _), lengthTerm?]
  by_cases hwithin : Decimal.value (t.takeWhile isDigit) ≤ maxLengthTerm
  · have hterm : ¬ (t.takeWhile isDigit = [] ∨
        maxLengthTerm < Decimal.value (t.takeWhile isDigit)) :=
      not_or.2 ⟨h, Nat.not_lt.2 hwithin⟩
    rw [if_neg hterm]
    exact if_pos hwithin
  · rw [if_pos (Or.inr (Nat.not_le.1 hwithin))]
    exact if_neg hwithin

theorem scanNumerator_eq (t : Text) :
    scanNumerator t =
      match readNumerator t with
      | .ok (n, behind) => .number n.toUInt64 behind
      | .error _ => .tooLarge := by
  cases t with
  | nil => rfl
  | cons b t =>
    rw [scanNumerator, readNumerator]
    by_cases hb : isDigit b = true
    · have hrun : (b :: t).takeWhile isDigit = b :: t.takeWhile isDigit :=
        List.takeWhile_cons_of_pos hb
      rw [if_pos hb, tally_zero _ (hrun ▸ List.cons_ne_nil _ _)]
      simp only [hrun]
      cases lengthTerm? (b :: t.takeWhile isDigit) <;> rfl
    · simp only [if_neg hb, List.takeWhile_cons_of_neg hb]
      rfl

theorem scanDenominator?_eq (t : Text) :
    scanDenominator? t =
      some (match readDenominator t with
        | .ok n => .ok n.toUInt64
        | .error mistake => .error mistake) := by
  cases t with
  | nil => rfl
  | cons b t =>
    rw [scanDenominator?, readDenominator]
    by_cases hb : b = Text.byte '/'
    · rw [if_pos hb, if_pos hb]
      by_cases hrun : t.takeWhile isDigit = []
      · rw [if_pos hrun, hrun]
        rfl
      · rw [if_neg hrun, tally_zero t hrun]
        cases lengthTerm? (t.takeWhile isDigit) with
        | none => rfl
        | some n =>
          by_cases hbehind : t.dropWhile isDigit = []
          · simp only [if_pos hbehind]
          · simp only [if_neg hbehind]
    · rw [if_neg hb, if_neg hb]

/-- **No word wraps around.**  However long the runs of digits of a text are, the length that is
read of it in machine words is the one that is read of it. -/
theorem scanLength?_eq (t : Text) : scanLength? t = some (readLength t) := by
  have hfits {n : Nat} (hn : n ≤ maxLengthTerm) : n.toUInt64.toNat = n :=
    toNat_toUInt64_of_le (hn.trans (by decide))
  rw [scanLength?, readLength, scanNumerator_eq]
  cases hnum : readNumerator t with
  | error mistake => rw [eq_of_readNumerator_error hnum]
  | ok read =>
    obtain ⟨num, behind⟩ := read
    simp only [scanDenominator?_eq, Option.map_some, hfits (le_of_readNumerator hnum)]
    cases hden : readDenominator behind with
    | error mistake => rfl
    | ok den =>
      cases hlength : Duration.ofFraction? num den <;>
        simp only [hfits (le_of_readDenominator hden), hlength]

end Notation
end Polyphony
