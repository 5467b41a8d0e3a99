/-
# Ratios of durations in machine words

How often one duration goes into another is told by a quotient of cross products and by what
remains of them.  Both products fit 128 bits.

| machine | duration |
| --- | --- |
| `Words.roundedRatio? a b` | `a.roundedRatio? b` |
| `Words.isWholeMultiple a b` | `a.isWholeMultiple b` |

Twice a remainder may not fit, so a half is told by comparing the remainder with what it lacks to
the divisor.  The divisor is a denominator times a numerator, and is zero only for a duration of no
beats, which is refused before anything is divided.  So no step ends in a trap.

What is answered is what the rationals say (`Duration.roundedRatio?_eq_some_iff`,
`Duration.isWholeMultiple_iff`).  A whole multiple need not have a ratio that can be held: `maxTerm`
beats are `maxTerm * maxTerm` times the shortest of all durations.
-/

import Polyphony.Proofs.Duration.Ratio
import Polyphony.Proofs.Duration.WordComparison

namespace Polyphony

namespace Words

/-- Does it last no beats? -/
def isZero (a : Words) : Bool := !a.infinite && !a.overflow && a.num == 0

/-- Is there no ratio of two durations? -/
def lacksRatio (longer shorter : Words) : Bool :=
  longer.infinite || shorter.infinite || longer.overflow || shorter.overflow || shorter.isZero

/-- Dividend and divisor of a ratio. -/
def ratioTerms (longer shorter : Words) : Except Trap (Nat × Nat) := do
  let p ← Wide.mul longer.num.toNat shorter.den.toNat
  let q ← Wide.mul longer.den.toNat shorter.num.toNat
  return (p, q)

/-- A quotient to the nearest whole number, a half going up. -/
def nearest (p q : Nat) : Except Trap Nat := do
  let quotient ← Wide.div p q
  let remainder ← Wide.rem p q
  if (← Wide.sub q remainder) ≤ remainder then Wide.add quotient 1 else return quotient

/-- How often one duration goes into another, to the nearest whole number. -/
def roundedRatio? (longer shorter : Words) : Except Trap (Option UInt64) :=
  if lacksRatio longer shorter then return none
  else do
    let (p, q) ← ratioTerms longer shorter
    let count ← nearest p q
    if maxTerm < count then return none else return some count.toUInt64

/-- Is one duration a whole number of times another? -/
def isWholeMultiple (longer shorter : Words) : Except Trap Bool :=
  if lacksRatio longer shorter then return false
  else do
    let (p, q) ← ratioTerms longer shorter
    return (← Wide.rem p q) == 0

open Duration

variable {a b : Duration} {p q : Nat}

/-- The machine refuses a ratio where there is none. -/
theorem lacksRatio_words (a b : Duration) :
    lacksRatio a.words b.words = (a.ratio? b).isNone := by
  cases a with
  | infinite => rfl
  | overflow => cases b <;> rfl
  | finite f =>
    cases b with
    | infinite => rfl
    | overflow => rfl
    | finite g =>
      have hzero : (finite g).words.num = 0 ↔ g.num = 0 := by
        rw [← toNat_num_words g, ← UInt64.toNat_inj, UInt64.toNat_zero]
      by_cases hg : g.num = 0
      · simp [lacksRatio, isZero, infinite_words, overflow_words, ratio?, hg, hzero]
      · simp [lacksRatio, isZero, infinite_words, overflow_words, ratio?, hg, hzero]

/-- Both terms of a ratio fit 128 bits. -/
theorem ratioTerms_words (h : a.ratio? b = some (p, q)) :
    ratioTerms a.words b.words = .ok (p, q) ∧ p < maxWide := by
  cases a with
  | infinite => cases h
  | overflow => cases h
  | finite f =>
    cases b with
    | infinite => cases h
    | overflow => cases h
    | finite g =>
      rw [ratio?] at h
      split at h
      · cases h
      · obtain ⟨rfl, rfl⟩ := Prod.mk.inj (Option.some.inj h)
        have hp : f.num * g.den ≤ maxWide := maxTerm_mul_le_maxWide f.num_le g.den_le
        have hq : f.den * g.num ≤ maxWide := maxTerm_mul_le_maxWide f.den_le g.num_le
        refine ⟨?_, (Nat.mul_le_mul f.num_le g.den_le).trans_lt (by decide)⟩
        simp only [ratioTerms, toNat_num_words, toNat_den_words, Wide.mul_of_le hp,
          Wide.mul_of_le hq, bind, Except.bind]
        rfl

/-- The machine rounds as it should. -/
theorem nearest_eq (hq : 0 < q) (hp : p < maxWide) :
    nearest p q = .ok (p / q + if q - p % q ≤ p % q then 1 else 0) := by
  have hnext : p / q + 1 ≤ maxWide := (Nat.succ_le_succ (Nat.div_le_self p q)).trans hp
  simp only [nearest, Wide.div_of_pos hq, Wide.rem_of_pos hq,
    Wide.sub_of_le (Nat.mod_lt p hq).le, bind, Except.bind]
  split
  · exact Wide.add_of_le hnext
  · rfl

/-- The machine tells the rounded ratio as it should. -/
theorem roundedRatio?_words (a b : Duration) :
    roundedRatio? a.words b.words = .ok ((a.roundedRatio? b).map Nat.toUInt64) := by
  rw [roundedRatio?, lacksRatio_words, Duration.roundedRatio?]
  rcases hratio : a.ratio? b with _ | ⟨p, q⟩
  · rfl
  · obtain ⟨hterms, hp⟩ := ratioTerms_words hratio
    simp only [Option.isNone_some, Bool.false_eq_true, if_false, hterms,
      nearest_eq (ratio?_den_pos hratio) hp, Option.bind_some, bind, Except.bind]
    by_cases hfits : p / q + (if q - p % q ≤ p % q then 1 else 0) ≤ maxTerm
    · rw [if_neg (Nat.not_lt.2 hfits), if_pos hfits]
      rfl
    · rw [if_pos (Nat.not_le.1 hfits), if_neg hfits]
      rfl

/-- The machine tells whole multiples as it should. -/
theorem isWholeMultiple_words (a b : Duration) :
    isWholeMultiple a.words b.words = .ok (a.isWholeMultiple b) := by
  rw [isWholeMultiple, lacksRatio_words, Duration.isWholeMultiple]
  rcases hratio : a.ratio? b with _ | ⟨p, q⟩
  · rfl
  · obtain ⟨hterms, -⟩ := ratioTerms_words hratio
    simp only [Option.isNone_some, Bool.false_eq_true, if_false, hterms,
      Wide.rem_of_pos (ratio?_den_pos hratio), bind, Except.bind]
    rfl

end Words

namespace Duration

/-- What ratios of durations are held to. -/
structure RatiosExact : Prop where
  /-- There is a rounded ratio exactly of two fractions of which the second one is not zero, if the
  quotient, a half going up, can be held.  It is that number. -/
  roundedRatio_iff : ∀ (a b : Duration) (count : Nat), a.roundedRatio? b = some count ↔
    ∃ f g, a = .finite f ∧ b = .finite g ∧ g.value ≠ 0 ∧
      (count : Int) = ⌊f.value / g.value + 1 / 2⌋ ∧ count ≤ maxTerm
  /-- A duration is a whole multiple exactly if both are fractions, the second one is not zero, and
  the first one is a natural number of times the second one. -/
  isWholeMultiple_iff : ∀ a b : Duration, a.isWholeMultiple b = true ↔
    ∃ f g, a = .finite f ∧ b = .finite g ∧ g.value ≠ 0 ∧ ∃ k : Nat, f.value = k * g.value
  /-- A whole multiple is so many times the other as the rounded ratio says. -/
  scale_eq : ∀ (a b : Duration) (count : Nat), a.isWholeMultiple b = true →
    a.roundedRatio? b = some count → b.scale count = a
  /-- Nothing wraps around in a rounded ratio, and nothing is divided by zero. -/
  roundedRatio_words : ∀ a b : Duration,
    a.words.roundedRatio? b.words = .ok ((a.roundedRatio? b).map Nat.toUInt64)
  /-- Nor does it in a test for whole multiples. -/
  isWholeMultiple_words : ∀ a b : Duration,
    a.words.isWholeMultiple b.words = .ok (a.isWholeMultiple b)
  /-- The machine finds that a whole multiple is equal to what the rounded ratio makes of the
  other. -/
  same_scale : ∀ (a b : Duration) (count : UInt64), a.words.isWholeMultiple b.words = .ok true →
    a.words.roundedRatio? b.words = .ok (some count) →
    ∃ w, b.words.scale count = .ok w ∧ w.same a.words = true

/-- **Ratios of durations are exact**, and no step on the way wraps around or divides by zero. -/
theorem ratios_exact : RatiosExact where
  roundedRatio_iff _ _ _ := roundedRatio?_eq_some_iff
  isWholeMultiple_iff _ _ := isWholeMultiple_iff
  scale_eq _ _ _ := scale_of_isWholeMultiple
  roundedRatio_words := Words.roundedRatio?_words
  isWholeMultiple_words := Words.isWholeMultiple_words
  same_scale a b count hmultiple hcount := by
    rw [Words.isWholeMultiple_words, Except.ok.injEq] at hmultiple
    rw [Words.roundedRatio?_words, Except.ok.injEq, Option.map_eq_some_iff] at hcount
    obtain ⟨n, hn, rfl⟩ := hcount
    have hfits : n ≤ maxTerm := by
      obtain ⟨-, -, -, -, -, -, hfits⟩ := roundedRatio?_eq_some_iff.1 hn
      exact hfits
    refine ⟨a.words, ?_, ?_⟩
    · rw [Words.scale_words, toNat_toUInt64_of_le hfits, scale_of_isWholeMultiple hmultiple hn]
    · rw [Words.same_words, BEq.rfl]

end Duration
end Polyphony
