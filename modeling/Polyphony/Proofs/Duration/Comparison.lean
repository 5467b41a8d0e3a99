/-
# Durations are totally ordered

Two tests tell how durations compare, and they share nothing: equality looks at marks and terms,
being shorter at marks and cross products.  That they fit together rests on lowest terms
(`Duration.rank_injective`): fractions of equal worth have equal terms, so two durations of which
neither is shorter are equal.

| machine | duration |
| --- | --- |
| `Words.same a b`, `Words.differs a b` | `a = b`, `a ≠ b` |
| `Words.less a b`, `Words.greater a b` | `a < b`, `b < a` |
| `Words.atMost a b`, `Words.atLeast a b` | `a ≤ b`, `b ≤ a` |
| `Words.longer a b` | `max a b` |

Durations are thus a linear order, in which `overflow` is above all fractions and `infinite` above
`overflow`, and the longer of two durations is their least upper bound.
-/

import Polyphony.Proofs.Duration.WordComparison

namespace Polyphony

/-! ### The order -/

namespace Duration

variable {a b : Duration}

theorem rank_le_rank_iff : a.rank ≤ b.rank ↔ a ≤ b := by
  rw [← not_lt, rank_lt_rank_iff]
  rfl

/-- Two durations of which neither is shorter are equal. -/
theorem eq_of_le_of_le (hab : a ≤ b) (hba : b ≤ a) : a = b :=
  rank_injective (le_antisymm (rank_le_rank_iff.2 hab) (rank_le_rank_iff.2 hba))

/-- It makes no difference which one of two equal durations is called the longer one. -/
theorem max_eq_of_le (a b : Duration) : max a b = if a ≤ b then b else a := by
  rw [max_def]
  by_cases hlt : a < b
  · have hle : a ≤ b := not_lt_of_lt hlt
    rw [if_pos hlt, if_pos hle]
  · rw [if_neg hlt]
    by_cases hle : a ≤ b
    · rw [if_pos hle]
      exact eq_of_le_of_le hle hlt
    · rw [if_neg hle]

instance : LinearOrder Duration where
  le_refl _ := rank_le_rank_iff.1 le_rfl
  le_trans _ _ _ hab hbc :=
    rank_le_rank_iff.1 ((rank_le_rank_iff.2 hab).trans (rank_le_rank_iff.2 hbc))
  le_antisymm _ _ := eq_of_le_of_le
  le_total a b := (le_total a.rank b.rank).imp rank_le_rank_iff.1 rank_le_rank_iff.1
  lt_iff_le_not_ge a b := by
    rw [← rank_lt_rank_iff, ← rank_le_rank_iff, ← rank_le_rank_iff, lt_iff_le_not_ge]
  toDecidableLE := inferInstance
  toDecidableEq := inferInstance
  max_def := max_eq_of_le

end Duration

/-! ### In machine words -/

namespace Words

/-- Do two durations differ? -/
def differs (a b : Words) : Bool := !same a b

/-- Is `a` strictly longer than `b`? -/
def greater (a b : Words) : Except Trap Bool := less b a

/-- Is `a` no longer than `b`? -/
def atMost (a b : Words) : Except Trap Bool := do return !(← less b a)

/-- Is `a` no shorter than `b`? -/
def atLeast (a b : Words) : Except Trap Bool := do return !(← less a b)

theorem differs_words (a b : Duration) : differs a.words b.words = decide (a ≠ b) := by
  rw [differs, same_words, decide_not]
  rfl

theorem greater_words (a b : Duration) : greater a.words b.words = .ok (decide (b < a)) :=
  less_words b a

theorem atMost_words (a b : Duration) : atMost a.words b.words = .ok (decide (a ≤ b)) := by
  simp only [atMost, less_words, bind, Except.bind, ← decide_not]
  rfl

theorem atLeast_words (a b : Duration) : atLeast a.words b.words = .ok (decide (b ≤ a)) :=
  atMost_words b a

/-- Nothing is obtained by taking the longer of two durations that could not be had without. -/
theorem Obtainable.longer {a b : Words} (ha : a.Obtainable) (hb : b.Obtainable) :
    ∃ w, Words.longer a b = .ok w ∧ w.Obtainable := by
  obtain ⟨d, rfl⟩ := ha.exists_words
  obtain ⟨e, rfl⟩ := hb.exists_words
  exact ⟨(max d e).words, longer_words d e, obtainable_words (max d e)⟩

end Words

namespace Duration

/-- What comparing durations is held to. -/
structure TotallyOrdered : Prop where
  /-- The operations yield the words of durations, and those of each. -/
  obtainable_iff : ∀ w : Words, w.Obtainable ↔ ∃ d : Duration, d.words = w
  /-- So does taking the longer of what they yield. -/
  obtainable_longer : ∀ v w : Words, v.Obtainable → w.Obtainable →
    ∃ u, v.longer w = .ok u ∧ u.Obtainable
  /-- The machine tells what is shorter, and no cross product wraps around. -/
  less_words : ∀ a b : Duration, a.words.less b.words = .ok (decide (a < b))
  /-- The machine tells what is equal. -/
  same_words : ∀ a b : Duration, a.words.same b.words = decide (a = b)
  /-- The other comparisons of the machine come from these two. -/
  derived_words : ∀ a b : Duration,
    a.words.differs b.words = decide (a ≠ b) ∧
    a.words.greater b.words = .ok (decide (b < a)) ∧
    a.words.atMost b.words = .ok (decide (a < b ∨ a = b)) ∧
    a.words.atLeast b.words = .ok (decide (b < a ∨ a = b))
  /-- The machine tells the longer one. -/
  longer_words : ∀ a b : Duration, a.words.longer b.words = .ok (max a b).words
  /-- Nothing is shorter than itself. -/
  irrefl : ∀ a : Duration, ¬ a < a
  /-- What is shorter than something shorter is shorter. -/
  trans : ∀ a b c : Duration, a < b → b < c → a < c
  /-- Of two durations one is shorter or they are equal, and only one of this is so. -/
  trichotomy : ∀ a b : Duration,
    (a < b ∧ a ≠ b ∧ ¬ b < a) ∨ (¬ a < b ∧ a = b ∧ ¬ b < a) ∨ (¬ a < b ∧ a ≠ b ∧ b < a)
  /-- Fractions are in the order of the rationals. -/
  finite_lt_finite : ∀ f g : Fraction, finite f < finite g ↔ f.value < g.value
  /-- Fractions are equal exactly if they are worth the same. -/
  finite_eq_finite : ∀ f g : Fraction, finite f = finite g ↔ f.value = g.value
  /-- What is too large is longer than each fraction, and what never ends is longer still. -/
  finite_lt_overflow : ∀ f : Fraction, finite f < overflow
  overflow_lt_infinite : overflow < infinite
  max_comm : ∀ a b : Duration, max a b = max b a
  max_assoc : ∀ a b c : Duration, max (max a b) c = max a (max b c)
  max_self : ∀ a : Duration, max a a = a
  /-- The longer of two durations is their least upper bound. -/
  isLUB_max : ∀ a b : Duration, IsLUB {a, b} (max a b)

/-- **Durations are totally ordered**, and the longer of two is their least upper bound. -/
theorem totallyOrdered : TotallyOrdered where
  obtainable_iff _ := Words.obtainable_iff
  obtainable_longer _ _ hv hw := hv.longer hw
  less_words := Words.less_words
  same_words := Words.same_words
  derived_words a b := by
    refine ⟨Words.differs_words a b, Words.greater_words a b, ?_, ?_⟩
    · rw [Words.atMost_words, decide_eq_decide.2 le_iff_lt_or_eq]
    · rw [Words.atLeast_words, decide_eq_decide.2 (le_iff_lt_or_eq.trans (or_congr_right eq_comm))]
  longer_words := Words.longer_words
  irrefl := lt_irrefl
  trans _ _ _ := lt_trans
  trichotomy a b := by
    rcases lt_trichotomy a b with hlt | heq | hlt
    · exact Or.inl ⟨hlt, hlt.ne, hlt.asymm⟩
    · exact Or.inr (Or.inl ⟨heq.not_lt, heq, heq.not_gt⟩)
    · exact Or.inr (Or.inr ⟨hlt.asymm, hlt.ne', hlt⟩)
  finite_lt_finite _ _ := finite_lt_finite_iff_value
  finite_eq_finite _ _ := by rw [finite.injEq, Fraction.value_injective.eq_iff]
  finite_lt_overflow := Duration.finite_lt_overflow
  overflow_lt_infinite := Duration.overflow_lt_infinite
  max_comm := max_comm
  max_assoc := max_assoc
  max_self := max_self
  isLUB_max _ _ := isLUB_pair

/-- The cross products of these do not fit 64 bits. -/
example : reduce (maxTerm - 1) maxTerm (by decide) < ofBeats 1 ∧
    ofBeats 1 < reduce maxTerm (maxTerm - 1) (by decide) := by
  decide +kernel

end Duration
end Polyphony
