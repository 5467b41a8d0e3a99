/-
# Durations in machine words

A machine keeps a duration in two 64-bit words and two marks (`Words`), and computes with
128-bit words in between.  Every step between is checked here: a product or a sum that wraps
around, a difference below zero and a division by zero are a `Trap`.

| machine | duration |
| --- | --- |
| `Words.reduced n m` | `reduce n m` |
| `Words.ofFraction? n m` | `ofFraction? n m` |
| `Words.add a b` | `a + b` |
| `Words.scale a n` | `a.scale n` |

No operation ends in a trap, and each leaves the words of its duration (`Words.add_words` and
so on).  So words that are obtained by them are those of a duration, and no others
(`Words.obtainable_iff`).

Only a sum can be too large for 128 bits.  It is refused before it is taken, and that it is
then too large for 64 bits also in lowest terms is `Fraction.not_fits_of_maxWide_lt`.
-/

import Polyphony.Proofs.Duration.Exactness
import Polyphony.Proofs.Duration.Zero

namespace Polyphony

/-- What must not happen in 128-bit arithmetic. -/
inductive Trap where
  /-- A result that 128 bits do not hold. -/
  | wrapped
  /-- A division by zero. -/
  | byZero
deriving DecidableEq

namespace Wide

/-- A sum of 128-bit words. -/
def add (a b : Nat) : Except Trap Nat := if a + b ≤ maxWide then .ok (a + b) else .error .wrapped

/-- A product of 128-bit words. -/
def mul (a b : Nat) : Except Trap Nat := if a * b ≤ maxWide then .ok (a * b) else .error .wrapped

/-- A difference of 128-bit words. -/
def sub (a b : Nat) : Except Trap Nat := if b ≤ a then .ok (a - b) else .error .wrapped

/-- A quotient of 128-bit words. -/
def div (a b : Nat) : Except Trap Nat := if b = 0 then .error .byZero else .ok (a / b)

/-- A remainder of 128-bit words. -/
def rem (a b : Nat) : Except Trap Nat := if b = 0 then .error .byZero else .ok (a % b)

variable {a b : Nat}

theorem add_of_le (h : a + b ≤ maxWide) : add a b = .ok (a + b) := if_pos h

theorem mul_of_le (h : a * b ≤ maxWide) : mul a b = .ok (a * b) := if_pos h

theorem sub_of_le (h : b ≤ a) : sub a b = .ok (a - b) := if_pos h

theorem div_of_pos (h : 0 < b) : div a b = .ok (a / b) := if_neg h.ne'

theorem rem_of_pos (h : 0 < b) : rem a b = .ok (a % b) := if_neg h.ne'

/-- The greatest common divisor, by division with remainder until nothing remains. -/
def euclid (a b : Nat) : Nat := if b = 0 then a else euclid b (a % b)
termination_by b
decreasing_by exact Nat.mod_lt _ (Nat.pos_of_ne_zero ‹_›)

theorem euclid_eq_gcd (a b : Nat) : euclid a b = a.gcd b := by
  fun_induction euclid a b with
  | case1 a => exact (Nat.gcd_zero_right a).symm
  | case2 a b hb ih => rw [ih, Nat.gcd_comm, ← Nat.gcd_rec, Nat.gcd_comm]

end Wide

/-- A duration as a machine keeps it. -/
structure Words where
  /-- Numerator. -/
  num : UInt64
  /-- Denominator. -/
  den : UInt64
  /-- Does it never end? -/
  infinite : Bool
  /-- Is it too large to be held? -/
  overflow : Bool
deriving DecidableEq

namespace Words

/-- No beats. -/
def zero : Words := ⟨0, 1, false, false⟩

/-- A whole number of beats. -/
def ofBeats (n : UInt64) : Words := ⟨n, 1, false, false⟩

/-- What never ends. -/
def infinity : Words := ⟨0, 1, true, false⟩

/-- What is too large. -/
def overflowed : Words := ⟨0, 1, false, true⟩

/-- A fraction of 128-bit words in lowest terms. -/
def reduced (num den : Nat) : Except Trap Words :=
  if num = 0 then return zero
  else do
    let divisor := Wide.euclid num den
    let num ← Wide.div num divisor
    let den ← Wide.div den divisor
    if maxTerm < num ∨ maxTerm < den then return overflowed
    return ⟨num.toUInt64, den.toUInt64, false, false⟩

/-- A fraction; there is none over zero. -/
def ofFraction? (num den : UInt64) : Except Trap (Option Words) :=
  if den = 0 then return none
  else do return some (← reduced num.toNat den.toNat)

/-- The numerators of two fractions over their least common denominator. -/
def terms (a b : Words) : Except Trap (Nat × Nat) := do
  let divisor := Wide.euclid a.den.toNat b.den.toNat
  let left ← Wide.mul a.num.toNat (← Wide.div b.den.toNat divisor)
  let right ← Wide.mul b.num.toNat (← Wide.div a.den.toNat divisor)
  return (left, right)

/-- Is a sum too large for 128 bits? -/
def exceeds (left right : Nat) : Except Trap Bool := do
  return (← Wide.sub maxWide right) < left

/-- One duration after the other. -/
def add (a b : Words) : Except Trap Words :=
  if a.infinite || b.infinite then return infinity
  else if a.overflow || b.overflow then return overflowed
  else do
    let (left, right) ← terms a b
    if ← exceeds left right then return overflowed
    let divisor := Wide.euclid a.den.toNat b.den.toNat
    let common ← Wide.mul (← Wide.div a.den.toNat divisor) b.den.toNat
    reduced (← Wide.add left right) common

/-- Is a sum refused before it is taken? -/
def endsEarly (a b : Words) : Except Trap Bool := do
  let (left, right) ← terms a b
  exceeds left right

/-- A duration `count` times over. -/
def scale (a : Words) (count : UInt64) : Except Trap Words :=
  if count = 0 then return zero
  else if a.infinite then return infinity
  else if a.overflow then return overflowed
  else do reduced (← Wide.mul a.num.toNat count.toNat) a.den.toNat

end Words

/-- A duration in machine words. -/
def Duration.words : Duration → Words
  | .finite f => ⟨f.num.toUInt64, f.den.toUInt64, false, false⟩
  | .overflow => .overflowed
  | .infinite => .infinity

theorem toNat_toUInt64_of_le {n : Nat} (h : n ≤ maxTerm) : n.toUInt64.toNat = n :=
  UInt64.toNat_ofNat_of_lt' (Nat.lt_succ_of_le h)

theorem toNat_le_maxTerm (n : UInt64) : n.toNat ≤ maxTerm := Nat.le_of_lt_succ n.toNat_lt

namespace Duration

theorem toNat_num_words (f : Fraction) : (finite f).words.num.toNat = f.num :=
  toNat_toUInt64_of_le f.num_le

theorem toNat_den_words (f : Fraction) : (finite f).words.den.toNat = f.den :=
  toNat_toUInt64_of_le f.den_le

theorem infinite_words (f : Fraction) : (finite f).words.infinite = false := rfl

theorem overflow_words (f : Fraction) : (finite f).words.overflow = false := rfl

theorem words_ofBeats (n : UInt64) : (ofBeats n.toNat).words = .ofBeats n := by
  have hwhole := reduce_fraction
    ⟨n.toNat, 1, Nat.one_pos, Nat.coprime_one_right _, toNat_le_maxTerm n, by decide⟩
  rw [ofBeats, hwhole, words, Words.ofBeats, Nat.toUInt64, UInt64.ofNat_toNat]
  rfl

/-- Different durations have different words. -/
theorem words_injective : Function.Injective words := by
  intro a b h
  cases a with
  | finite f =>
    cases b with
    | finite g =>
      have hnum := congrArg (fun w : Words => w.num.toNat) h
      have hden := congrArg (fun w : Words => w.den.toNat) h
      simp only [toNat_num_words, toNat_den_words] at hnum hden
      exact congrArg finite (Fraction.ext hnum hden)
    | overflow => cases congrArg Words.overflow h
    | infinite => cases congrArg Words.infinite h
  | overflow =>
    cases b with
    | overflow => rfl
    | finite g => cases congrArg Words.overflow h
    | infinite => cases congrArg Words.infinite h
  | infinite =>
    cases b with
    | infinite => rfl
    | finite g => cases congrArg Words.infinite h
    | overflow => cases congrArg Words.infinite h

end Duration

namespace Words

open Duration

theorem reduced_eq (num : Nat) {den : Nat} (h : 0 < den) :
    reduced num den = .ok (reduce num den h).words := by
  have hgcd : 0 < num.gcd den := Nat.gcd_pos_of_pos_right num h
  rw [reduced]
  by_cases hzero : num = 0
  · subst hzero
    have hreduce : reduce 0 den h = .zero := isZero_iff.1 ((isZero_reduce_iff h).2 rfl)
    rw [if_pos rfl, hreduce]
    rfl
  · rw [if_neg hzero]
    simp only [Wide.euclid_eq_gcd, Wide.div_of_pos hgcd, bind, Except.bind]
    by_cases hfits : num / num.gcd den ≤ maxTerm ∧ den / num.gcd den ≤ maxTerm
    · rw [if_neg (by omega), reduce, dif_pos hfits]
      rfl
    · rw [if_pos (by omega), reduce, dif_neg hfits]
      rfl

/-- The machine reduces a fraction as it should. -/
theorem ofFraction?_eq (num den : UInt64) :
    ofFraction? num den = .ok ((Duration.ofFraction? num.toNat den.toNat).map Duration.words) := by
  rw [ofFraction?, Duration.ofFraction?]
  by_cases hden : den = 0
  · subst hden
    rfl
  · have hpos : 0 < den.toNat := Nat.pos_of_ne_zero fun h => hden (UInt64.toNat_inj.1 h)
    rw [if_neg hden, dif_pos hpos, reduced_eq _ hpos]
    rfl

/-- A numerator over a common denominator fits 128 bits. -/
theorem num_mul_le_maxWide (f g : Fraction) (divisor : Nat) :
    f.num * (g.den / divisor) ≤ maxWide :=
  maxTerm_mul_le_maxWide f.num_le ((Nat.div_le_self ..).trans g.den_le)

theorem terms_words (f g : Fraction) : terms (finite f).words (finite g).words =
    .ok (f.num * (g.den / f.den.gcd g.den), g.num * (f.den / f.den.gcd g.den)) := by
  have hgcd : 0 < f.den.gcd g.den := Nat.gcd_pos_of_pos_left _ f.den_pos
  simp only [terms, toNat_num_words, toNat_den_words, Wide.euclid_eq_gcd, Wide.div_of_pos hgcd,
    Wide.mul_of_le (num_mul_le_maxWide _ _ _), bind, Except.bind]
  rfl

theorem exceeds_of_le {left right : Nat} (h : right ≤ maxWide) :
    exceeds left right = .ok (decide (maxWide < left + right)) := by
  have hiff : maxWide - right < left ↔ maxWide < left + right := by omega
  simp only [exceeds, Wide.sub_of_le h, bind, Except.bind, hiff]
  rfl

/-- A sum is refused before it is taken if it is too large for 128 bits over the least common
denominator. -/
theorem endsEarly_words (f g : Fraction) :
    endsEarly (finite f).words (finite g).words = .ok (decide (maxWide < f.sumNum g)) := by
  simp only [endsEarly, terms_words, bind, Except.bind]
  exact exceeds_of_le (num_mul_le_maxWide g f _)

/-- The machine adds fractions as it should. -/
theorem add_finite (f g : Fraction) :
    add (finite f).words (finite g).words = .ok (f.sum g).words := by
  have hgcd : 0 < f.den.gcd g.den := Nat.gcd_pos_of_pos_left _ f.den_pos
  have hcommon : f.den / f.den.gcd g.den * g.den ≤ maxWide :=
    maxTerm_mul_le_maxWide ((Nat.div_le_self ..).trans f.den_le) g.den_le
  simp only [add, infinite_words, overflow_words, Bool.or_self, Bool.false_eq_true, if_false,
    terms_words, exceeds_of_le (num_mul_le_maxWide g f _), toNat_den_words, Wide.euclid_eq_gcd,
    Wide.div_of_pos hgcd, Wide.mul_of_le hcommon, bind, Except.bind]
  by_cases hwide : maxWide < f.sumNum g
  · have hover : f.sum g = .overflow :=
      (f.holds_sum g).overflow_iff.2 (f.not_fits_of_maxWide_lt g hwide)
    rw [Fraction.sumNum] at hwide
    rw [hover, if_pos (decide_eq_true hwide)]
    rfl
  · rw [Fraction.sumNum] at hwide
    rw [if_neg (by rwa [decide_eq_true_iff]), Wide.add_of_le (Nat.not_lt.1 hwide)]
    exact reduced_eq _ (f.sumDen_pos g)

/-- The machine adds as it should. -/
theorem add_words (a b : Duration) : add a.words b.words = .ok (a + b).words := by
  cases a with
  | infinite =>
    rw [infinite_add]
    rfl
  | overflow => cases b <;> rfl
  | finite f =>
    cases b with
    | finite g => exact add_finite f g
    | overflow => rfl
    | infinite => rfl

/-- The machine multiplies as it should. -/
theorem scale_words (a : Duration) (count : UInt64) :
    scale a.words count = .ok (a.scale count.toNat).words := by
  by_cases hcount : count = 0
  · subst hcount
    rfl
  · have hnat : count.toNat ≠ 0 := fun h => hcount (UInt64.toNat_inj.1 h)
    rw [scale, if_neg hcount]
    cases a with
    | infinite =>
      rw [Duration.scale, if_neg hnat]
      rfl
    | overflow =>
      rw [Duration.scale, if_neg hnat]
      rfl
    | finite f =>
      have hproduct : f.num * count.toNat ≤ maxWide :=
        maxTerm_mul_le_maxWide f.num_le (toNat_le_maxTerm count)
      rw [Duration.scale, if_neg hnat]
      simp only [infinite_words, overflow_words, Bool.false_eq_true, if_false, toNat_num_words,
        toNat_den_words, Wide.mul_of_le hproduct, bind, Except.bind]
      exact reduced_eq _ f.den_pos

/-- What can be had of durations: the two that are given, and what comes of the operations. -/
inductive Obtainable : Words → Prop where
  | zero : Obtainable zero
  | ofBeats (n : UInt64) : Obtainable (ofBeats n)
  | infinity : Obtainable infinity
  | ofFraction {num den : UInt64} {w : Words} (h : ofFraction? num den = .ok (some w)) :
    Obtainable w
  | add {a b w : Words} (ha : Obtainable a) (hb : Obtainable b) (h : add a b = .ok w) :
    Obtainable w
  | scale {a w : Words} (count : UInt64) (ha : Obtainable a) (h : scale a count = .ok w) :
    Obtainable w

/-- Words that are obtained are those of a duration. -/
theorem Obtainable.exists_words {w : Words} (h : Obtainable w) :
    ∃ d : Duration, d.words = w := by
  induction h with
  | zero => exact ⟨.zero, rfl⟩
  | ofBeats n => exact ⟨.ofBeats n.toNat, words_ofBeats n⟩
  | infinity => exact ⟨.infinite, rfl⟩
  | ofFraction h =>
    rw [ofFraction?_eq, Except.ok.injEq] at h
    obtain ⟨d, -, hd⟩ := Option.map_eq_some_iff.1 h
    exact ⟨d, hd⟩
  | add _ _ h iha ihb =>
    obtain ⟨a, rfl⟩ := iha
    obtain ⟨b, rfl⟩ := ihb
    rw [add_words, Except.ok.injEq] at h
    exact ⟨a + b, h⟩
  | scale count _ h ih =>
    obtain ⟨a, rfl⟩ := ih
    rw [scale_words, Except.ok.injEq] at h
    exact ⟨a.scale count.toNat, h⟩

/-- The words of each duration can be obtained. -/
theorem obtainable_words (d : Duration) : Obtainable d.words := by
  cases d with
  | infinite => exact .infinity
  | overflow =>
    have hover : (Duration.ofBeats (0xFFFFFFFFFFFFFFFF : UInt64).toNat).scale (2 : UInt64).toNat =
        .overflow := by decide
    have hscale := scale_words (Duration.ofBeats (0xFFFFFFFFFFFFFFFF : UInt64).toNat) 2
    rw [words_ofBeats, hover] at hscale
    exact .scale 2 (.ofBeats _) hscale
  | finite f =>
    have hfraction := ofFraction?_eq (finite f).words.num (finite f).words.den
    rw [toNat_num_words, toNat_den_words, Duration.ofFraction?, dif_pos f.den_pos,
      reduce_fraction] at hfraction
    exact .ofFraction hfraction

theorem obtainable_iff {w : Words} : Obtainable w ↔ ∃ d : Duration, d.words = w :=
  ⟨Obtainable.exists_words, fun ⟨d, hd⟩ => hd ▸ obtainable_words d⟩

/-- What the words of a duration look like. -/
structure WellFormed (w : Words) : Prop where
  /-- A duration bears at most one of the marks. -/
  marks : w.infinite = false ∨ w.overflow = false
  /-- Without a mark it is a fraction. -/
  den_pos : w.infinite = false → w.overflow = false → 1 ≤ w.den.toNat
  /-- The fraction is in lowest terms. -/
  coprime : w.infinite = false → w.overflow = false → Nat.Coprime w.num.toNat w.den.toNat
  /-- Zero is zero over one. -/
  zero : w.infinite = false → w.overflow = false → w.num = 0 → w.den = 1

theorem wellFormed_words (d : Duration) : WellFormed d.words := by
  cases d with
  | infinite => exact ⟨.inr rfl, nofun, nofun, nofun⟩
  | overflow => exact ⟨.inl rfl, nofun, nofun, nofun⟩
  | finite f =>
    have hcoprime : Nat.Coprime (finite f).words.num.toNat (finite f).words.den.toNat := by
      rw [toNat_num_words, toNat_den_words]
      exact f.coprime
    refine ⟨.inl rfl, fun _ _ => ?_, fun _ _ => hcoprime, fun _ _ hzero => ?_⟩
    · rw [toNat_den_words]
      exact f.den_pos
    · rw [hzero, UInt64.toNat_zero, Nat.coprime_zero_left] at hcoprime
      exact UInt64.toNat_inj.1 hcoprime

end Words

/-- What the arithmetic of durations is held to. -/
structure Duration.ExactOrOverflow : Prop where
  /-- The operations yield the words of durations, and those of each. -/
  obtainable_iff : ∀ w : Words, w.Obtainable ↔ ∃ d : Duration, d.words = w
  /-- What the operations yield is infinite, too large or a fraction in lowest terms, and only
  one of these. -/
  wellFormed : ∀ w : Words, w.Obtainable → w.WellFormed
  /-- The words of a fraction are its terms. -/
  words_finite : ∀ f : Fraction, (finite f).words.infinite = false ∧
    (finite f).words.overflow = false ∧ (finite f).words.num.toNat = f.num ∧
    (finite f).words.den.toNat = f.den
  /-- Different durations have different words. -/
  words_injective : Function.Injective words
  /-- A fraction is exact or too large, and nothing wraps around on the way. -/
  ofFraction : ∀ num den : UInt64, 0 < den → ∃ d : Duration,
    Words.ofFraction? num den = .ok (some d.words) ∧
    Duration.ofFraction? num.toNat den.toNat = some d ∧ d.Holds (num.toNat / den.toNat)
  /-- Nothing wraps around in a sum. -/
  add_words : ∀ a b : Duration, a.words.add b.words = .ok (a + b).words
  /-- A sum of fractions is exact or too large. -/
  add : ∀ f g : Fraction, (finite f + finite g).Holds (f.value + g.value)
  /-- A sum that can be held is not refused before it is taken. -/
  not_endsEarly : ∀ f g : Fraction, Fits (f.value + g.value) →
    (finite f).words.endsEarly (finite g).words = .ok false
  /-- Nothing wraps around in a product. -/
  scale_words : ∀ (a : Duration) (count : UInt64),
    a.words.scale count = .ok (a.scale count.toNat).words
  /-- A multiple of a fraction is exact or too large. -/
  scale : ∀ (f : Fraction) (count : UInt64),
    ((finite f).scale count.toNat).Holds (f.value * count.toNat)
  /-- What never ends does not end with more of it. -/
  infinite_add : ∀ d : Duration, infinite + d = infinite ∧ d + infinite = infinite
  /-- What is too large stays so with more of it that ends. -/
  overflow_add : ∀ d : Duration, d ≠ infinite → overflow + d = overflow ∧ d + overflow = overflow
  /-- No times anything is nothing. -/
  scale_zero : ∀ d : Duration, d.scale 0 = .zero

namespace Duration

/-- **The arithmetic of durations is exact, or says that it is not.** -/
theorem exact_or_overflow : ExactOrOverflow where
  obtainable_iff _ := Words.obtainable_iff
  wellFormed w hw := by
    obtain ⟨d, rfl⟩ := hw.exists_words
    exact Words.wellFormed_words d
  words_finite f := ⟨infinite_words f, overflow_words f, toNat_num_words f, toNat_den_words f⟩
  words_injective := words_injective
  ofFraction num den hden := by
    have hpos : 0 < den.toNat := UInt64.lt_iff_toNat_lt.1 hden
    have hfraction : ofFraction? num.toNat den.toNat = some (reduce num.toNat den.toNat hpos) :=
      dif_pos hpos
    have hwords := Words.ofFraction?_eq num den
    rw [hfraction] at hwords
    exact ⟨_, hwords, hfraction, holds_ofFraction? hfraction⟩
  add_words := Words.add_words
  add f g := f.holds_sum g
  not_endsEarly f g hfits := by
    have hwide : ¬ maxWide < f.sumNum g := fun h => f.not_fits_of_maxWide_lt g h hfits
    rw [Words.endsEarly_words, decide_eq_false hwide]
  scale_words := Words.scale_words
  scale f count := holds_scale f count.toNat
  infinite_add d := ⟨Duration.infinite_add d, add_infinite d⟩
  overflow_add d hd := by
    cases d with
    | infinite => exact absurd rfl hd
    | finite f => exact ⟨rfl, rfl⟩
    | overflow => exact ⟨rfl, rfl⟩
  scale_zero _ := rfl

end Duration
end Polyphony
