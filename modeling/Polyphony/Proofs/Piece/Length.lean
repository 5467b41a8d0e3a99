/-
# What the length of a piece says

A piece keeps its length with it, and nothing else is asked about it: a loop looks there for
whether its body has any, an accompaniment for how often it goes into another.  So the length
must say what the tree does.

| the length is | the tree |
| --- | --- |
| infinite | has a loop, or an infinite leaf |
| zero | has no loop, and no leaf of any length |
| a number of beats | has a longest way through it that takes as many |
| `overflow` | has a `concat` of two lengths whose sum cannot be held |

The last two lines are for trees without loops whose leaves are numbers of beats.  No state hides
another one that it should not: what is infinite stays so with whatever it is put together with,
and `overflow` with all that ends (`add_eq_infinite_iff`, `add_eq_overflow_iff` and their kin for
`max`).  The induction over the tree is then one case for each constructor.
-/

import Polyphony.Proofs.Duration.Exactness
import Polyphony.Proofs.Duration.Zero

namespace Polyphony

namespace Duration

variable {a b : Duration} {f g : Fraction}

/-- Fractions are added to a fraction or are too much, and never without end. -/
theorem sum_ne_infinite (f g : Fraction) : f.sum g ≠ .infinite := by
  intro h
  have hholds := f.holds_sum g
  by_cases hfits : Fits (f.value + g.value)
  · obtain ⟨c, hc, -⟩ := hholds.exact hfits
    cases hc.symm.trans h
  · cases (hholds.overflow_iff.2 hfits).symm.trans h

/-- A sum never ends exactly if one of its parts does not. -/
theorem add_eq_infinite_iff : a + b = .infinite ↔ a = .infinite ∨ b = .infinite := by
  cases a with
  | infinite => simp
  | overflow =>
    cases b with
    | infinite => simp
    | overflow | finite => exact iff_of_false (fun h => by cases h) (by simp)
  | finite f =>
    cases b with
    | infinite => simp
    | overflow => exact iff_of_false (fun h => by cases h) (by simp)
    | finite g => exact iff_of_false (sum_ne_infinite f g) (by simp)

/-- A sum is too large exactly if both parts end, and one of them is too large or the parts can be
held and their sum cannot. -/
theorem add_eq_overflow_iff : a + b = .overflow ↔ (a ≠ .infinite ∧ b ≠ .infinite) ∧
    (a = .overflow ∨ b = .overflow ∨
      ∃ f g, a = .finite f ∧ b = .finite g ∧ ¬ Fits (f.value + g.value)) := by
  cases a with
  | infinite => simp
  | overflow =>
    cases b with
    | infinite => simp
    | overflow | finite => exact iff_of_true rfl (by simp)
  | finite f =>
    cases b with
    | infinite => simp
    | overflow => exact iff_of_true rfl (by simp)
    | finite g =>
      rw [finite_add_finite, (f.holds_sum g).overflow_iff]
      simp

theorem max_eq_left_or_right (a b : Duration) : max a b = a ∨ max a b = b := by
  rw [max_def]
  split
  · exact Or.inr rfl
  · exact Or.inl rfl

/-- The longer of two lengths never ends exactly if one of them does not. -/
theorem max_eq_infinite_iff : max a b = .infinite ↔ a = .infinite ∨ b = .infinite := by
  constructor
  · intro h
    rcases max_eq_left_or_right a b with hmax | hmax
    · exact Or.inl (hmax.symm.trans h)
    · exact Or.inr (hmax.symm.trans h)
  · rintro (rfl | rfl)
    · exact if_neg Bool.false_ne_true
    · rw [max_def]
      cases a with
      | infinite => exact if_neg Bool.false_ne_true
      | overflow => exact if_pos rfl
      | finite f => exact if_pos rfl

/-- The longer of two lengths is too large exactly if both end and one of them is too large. -/
theorem max_eq_overflow_iff : max a b = .overflow ↔
    (a ≠ .infinite ∧ b ≠ .infinite) ∧ (a = .overflow ∨ b = .overflow) := by
  constructor
  · intro h
    have hends : max a b ≠ .infinite := by
      rw [h]
      exact Duration.noConfusion
    rw [Ne, max_eq_infinite_iff, not_or] at hends
    refine ⟨hends, ?_⟩
    rcases max_eq_left_or_right a b with hmax | hmax
    · exact Or.inl (hmax.symm.trans h)
    · exact Or.inr (hmax.symm.trans h)
  · rintro ⟨⟨ha, hb⟩, rfl | rfl⟩
    · cases b with
      | infinite => exact absurd rfl hb
      | overflow => rfl
      | finite g => exact if_neg Bool.false_ne_true
    · cases a with
      | infinite => exact absurd rfl ha
      | overflow => rfl
      | finite f => exact if_pos rfl

/-- The beats of a length that is a number of them. -/
def beats : Duration → Rat
  | .finite f => f.value
  | .overflow => 0
  | .infinite => 0

end Duration

namespace Piece

/-- The lengths of all leaves, also of those that are never played. -/
def leafLengths : Piece → List Duration
  | .note d _ _ => [d]
  | .rest d => [d]
  | .concat a b => a.leafLengths ++ b.leafLengths
  | .together a b => a.leafLengths ++ b.leafLengths
  | .forever a => a.leafLengths

/-- A way through a piece, from leaf to leaf, and the beats that it takes.  No way leads out of a
loop. -/
inductive Way : Piece → Rat → Prop where
  | note (f : Fraction) (p : Pitch) (i : Instrument) : Way (.note (.finite f) p i) f.value
  | rest (f : Fraction) : Way (.rest (.finite f)) f.value
  | concat {a b : Piece} {x y : Rat} (ha : Way a x) (hb : Way b y) : Way (.concat a b) (x + y)
  | top {a b : Piece} {x : Rat} (ha : Way a x) : Way (.together a b) x
  | bottom {a b : Piece} {x : Rat} (hb : Way b x) : Way (.together a b) x

/-- The beats of the longest way through a piece without loops. -/
def longestWay : Piece → Rat
  | .note d _ _ => d.beats
  | .rest d => d.beats
  | .concat a b => a.longestWay + b.longestWay
  | .together a b => max a.longestWay b.longestWay
  | .forever a => a.longestWay

/-- `q.Inside p`: the piece `q` is `p` or a part of it. -/
inductive Inside (q : Piece) : Piece → Prop where
  | refl : Inside q q
  | first {a b : Piece} (h : Inside q a) : Inside q (.concat a b)
  | second {a b : Piece} (h : Inside q b) : Inside q (.concat a b)
  | top {a b : Piece} (h : Inside q a) : Inside q (.together a b)
  | bottom {a b : Piece} (h : Inside q b) : Inside q (.together a b)
  | body {a : Piece} (h : Inside q a) : Inside q (.forever a)

/-- Somewhere in a piece two lengths follow one another that can be held, and their sum cannot. -/
def Bursts (p : Piece) : Prop :=
  ∃ a b, Inside (.concat a b) p ∧ ∃ f g, a.duration = .finite f ∧ b.duration = .finite g ∧
    ¬ Duration.Fits (f.value + g.value)

/-- What the leaves of a piece are that is neither endless nor too large from the outset. -/
def HasExactLeaves (p : Piece) : Prop :=
  ∀ d ∈ p.leafLengths, d.isInfinite = false ∧ d.isOverflow = false

variable {p q : Piece}

/-- A length never ends exactly if there is a loop or a leaf that does not. -/
theorem duration_eq_infinite_iff :
    p.duration = .infinite ↔ p.isLoopFree = false ∨ .infinite ∈ p.leafLengths := by
  induction p with
  | note d pitch i => simp [duration, isLoopFree, leafLengths, eq_comm]
  | rest d => simp [duration, isLoopFree, leafLengths, eq_comm]
  | concat a b iha ihb =>
    rw [duration, Duration.add_eq_infinite_iff, iha, ihb, isLoopFree, leafLengths,
      Bool.and_eq_false_iff, List.mem_append]
    exact or_or_or_comm
  | together a b iha ihb =>
    rw [duration, Duration.max_eq_infinite_iff, iha, ihb, isLoopFree, leafLengths,
      Bool.and_eq_false_iff, List.mem_append]
    exact or_or_or_comm
  | forever a ih => exact iff_of_true rfl (Or.inl rfl)

/-- A length is zero exactly if there is no loop and no leaf has any. -/
theorem isZero_duration_iff :
    p.duration.isZero = true ↔ p.isLoopFree = true ∧ ∀ d ∈ p.leafLengths, d.isZero = true := by
  induction p with
  | note d pitch i => simp [duration, isLoopFree, leafLengths]
  | rest d => simp [duration, isLoopFree, leafLengths]
  | concat a b iha ihb =>
    rw [duration, Duration.isZero_add_iff, iha, ihb, isLoopFree, leafLengths, Bool.and_eq_true,
      List.forall_mem_append]
    exact and_and_and_comm
  | together a b iha ihb =>
    rw [duration, Duration.isZero_max_iff, iha, ihb, isLoopFree, leafLengths, Bool.and_eq_true,
      List.forall_mem_append]
    exact and_and_and_comm
  | forever a ih => exact iff_of_false Bool.false_ne_true fun h => Bool.false_ne_true h.1

/-- A number of beats is that of the longest way. -/
theorem value_eq_longestWay {f : Fraction} (h : p.duration = .finite f) :
    f.value = p.longestWay := by
  induction p generalizing f with
  | note d pitch i =>
    obtain rfl : d = .finite f := h
    rfl
  | rest d =>
    obtain rfl : d = .finite f := h
    rfl
  | concat a b iha ihb =>
    obtain ⟨fa, fb, ha, hb, hvalue⟩ := Duration.exists_of_add_eq_finite h
    rw [hvalue, iha ha, ihb hb, longestWay]
  | together a b iha ihb =>
    obtain ⟨fa, fb, ha, hb, hvalue⟩ := Duration.exists_of_max_eq_finite h
    rw [hvalue, iha ha, ihb hb, longestWay]
  | forever a ih => cases h

/-- What is too large makes all that ends too large which it is a part of. -/
theorem duration_eq_overflow_of_inside (h : q.Inside p) (hover : q.duration = .overflow)
    (hends : p.duration ≠ .infinite) : p.duration = .overflow := by
  induction h with
  | refl => exact hover
  | first _ ih =>
    rw [duration, Ne, Duration.add_eq_infinite_iff, not_or] at hends
    exact Duration.add_eq_overflow_iff.2 ⟨hends, Or.inl (ih hends.1)⟩
  | second _ ih =>
    rw [duration, Ne, Duration.add_eq_infinite_iff, not_or] at hends
    exact Duration.add_eq_overflow_iff.2 ⟨hends, Or.inr (Or.inl (ih hends.2))⟩
  | top _ ih =>
    rw [duration, Ne, Duration.max_eq_infinite_iff, not_or] at hends
    exact Duration.max_eq_overflow_iff.2 ⟨hends, Or.inl (ih hends.1)⟩
  | bottom _ ih =>
    rw [duration, Ne, Duration.max_eq_infinite_iff, not_or] at hends
    exact Duration.max_eq_overflow_iff.2 ⟨hends, Or.inr (ih hends.2)⟩
  | body => exact absurd rfl hends

/-- What bursts inside of a part bursts. -/
theorem Bursts.of_inside (h : q.Bursts) (hinside : ∀ r, Inside r q → Inside r p) : p.Bursts := by
  obtain ⟨a, b, hab, hsum⟩ := h
  exact ⟨a, b, hinside _ hab, hsum⟩

/-- Without leaves that are too large from the outset, a length is too large only because of a sum
that cannot be held. -/
theorem bursts_of_duration_eq_overflow (hleaves : ∀ d ∈ p.leafLengths, d.isOverflow = false)
    (h : p.duration = .overflow) : p.Bursts := by
  induction p with
  | note d pitch i =>
    obtain rfl : d = .overflow := h
    cases hleaves _ (List.mem_singleton_self _)
  | rest d =>
    obtain rfl : d = .overflow := h
    cases hleaves _ (List.mem_singleton_self _)
  | concat a b iha ihb =>
    obtain ⟨hla, hlb⟩ := List.forall_mem_append.1 hleaves
    obtain ⟨-, ha | hb | ⟨f, g, hf, hg, hsum⟩⟩ := Duration.add_eq_overflow_iff.1 h
    · exact (iha hla ha).of_inside fun _ hr => hr.first
    · exact (ihb hlb hb).of_inside fun _ hr => hr.second
    · exact ⟨a, b, .refl, f, g, hf, hg, hsum⟩
  | together a b iha ihb =>
    obtain ⟨hla, hlb⟩ := List.forall_mem_append.1 hleaves
    obtain ⟨-, ha | hb⟩ := Duration.max_eq_overflow_iff.1 h
    · exact (iha hla ha).of_inside fun _ hr => hr.top
    · exact (ihb hlb hb).of_inside fun _ hr => hr.bottom
  | forever a ih => cases h

/-- A sum that cannot be held makes the whole too large, if that ends. -/
theorem duration_eq_overflow_of_bursts (h : p.Bursts) (hends : p.duration ≠ .infinite) :
    p.duration = .overflow := by
  obtain ⟨a, b, hinside, f, g, ha, hb, hsum⟩ := h
  refine duration_eq_overflow_of_inside hinside ?_ hends
  rw [duration, ha, hb, Duration.finite_add_finite, (f.holds_sum g).overflow_iff]
  exact hsum

/-- The longest way is one of the ways, and none is longer. -/
theorem isGreatest_longestWay (hfree : p.isLoopFree = true) (hleaves : p.HasExactLeaves) :
    IsGreatest {x | p.Way x} p.longestWay := by
  induction p with
  | note d pitch i =>
    obtain ⟨hends, hexact⟩ := hleaves d (List.mem_singleton_self d)
    cases d with
    | finite f => exact ⟨.note f pitch i, fun x hx => by cases hx; rfl⟩
    | overflow => cases hexact
    | infinite => cases hends
  | rest d =>
    obtain ⟨hends, hexact⟩ := hleaves d (List.mem_singleton_self d)
    cases d with
    | finite f => exact ⟨.rest f, fun x hx => by cases hx; rfl⟩
    | overflow => cases hexact
    | infinite => cases hends
  | concat a b iha ihb =>
    obtain ⟨hfa, hfb⟩ := (Bool.and_eq_true ..).mp hfree
    obtain ⟨hla, hlb⟩ := List.forall_mem_append.1 hleaves
    obtain ⟨hwaya, hmaxa⟩ := iha hfa hla
    obtain ⟨hwayb, hmaxb⟩ := ihb hfb hlb
    refine ⟨hwaya.concat hwayb, fun x hx => ?_⟩
    cases hx with
    | concat hx hy => exact add_le_add (hmaxa hx) (hmaxb hy)
  | together a b iha ihb =>
    obtain ⟨hfa, hfb⟩ := (Bool.and_eq_true ..).mp hfree
    obtain ⟨hla, hlb⟩ := List.forall_mem_append.1 hleaves
    obtain ⟨hwaya, hmaxa⟩ := iha hfa hla
    obtain ⟨hwayb, hmaxb⟩ := ihb hfb hlb
    rw [longestWay]
    refine ⟨?_, fun x hx => ?_⟩
    · rcases max_choice a.longestWay b.longestWay with hmax | hmax
      · rw [hmax]; exact hwaya.top
      · rw [hmax]; exact hwayb.bottom
    · cases hx with
      | top hx => exact (hmaxa hx).trans (le_max_left ..)
      | bottom hx => exact (hmaxb hx).trans (le_max_right ..)
  | forever a ih => cases hfree

/-- Is `d` what the length of a piece has to be? -/
structure Measures (p : Piece) (d : Duration) : Prop where
  /-- It never ends exactly if there is a loop or a leaf that does not. -/
  infinite_iff : d.isInfinite = true ↔
    p.isLoopFree = false ∨ ∃ l ∈ p.leafLengths, l.isInfinite = true
  /-- It is zero exactly if there is no loop and no leaf has any length. -/
  zero_iff : d.isZero = true ↔ p.isLoopFree = true ∧ ∀ l ∈ p.leafLengths, l.isZero = true
  /-- Else it is too large, or exactly as long as the longest way through the piece. -/
  exact : p.isLoopFree = true → p.HasExactLeaves →
    d.isOverflow = true ∨ ∃ f, d = .finite f ∧ f.value = p.longestWay
  longest : p.isLoopFree = true → p.HasExactLeaves → IsGreatest {x | p.Way x} p.longestWay
  /-- It is too large exactly if somewhere in the piece two lengths that can be held have a sum
  that cannot. -/
  overflow_iff : p.isLoopFree = true → p.HasExactLeaves → (d.isOverflow = true ↔ p.Bursts)

end Piece

theorem Duration.isInfinite_iff {d : Duration} : d.isInfinite = true ↔ d = .infinite := by
  cases d <;> simp [isInfinite]

theorem Duration.isOverflow_iff {d : Duration} : d.isOverflow = true ↔ d = .overflow := by
  cases d <;> simp [isOverflow]

namespace Piece

variable {p q : Piece}

theorem HasExactLeaves.duration_ne_infinite (hleaves : p.HasExactLeaves)
    (hfree : p.isLoopFree = true) : p.duration ≠ .infinite := by
  intro h
  rcases duration_eq_infinite_iff.1 h with hloop | hleaf
  · exact Bool.false_ne_true (hloop.symm.trans hfree)
  · exact Bool.false_ne_true (hleaves _ hleaf).1.symm

/-- The length that is kept with a piece is what it has to be. -/
theorem measures_duration (p : Piece) : p.Measures p.duration where
  infinite_iff := by
    simp only [Duration.isInfinite_iff, duration_eq_infinite_iff, exists_eq_right]
  zero_iff := isZero_duration_iff
  exact hfree hleaves := by
    have hends := hleaves.duration_ne_infinite hfree
    cases h : p.duration with
    | infinite => exact absurd h hends
    | overflow => exact Or.inl rfl
    | finite f => exact Or.inr ⟨f, rfl, value_eq_longestWay h⟩
  longest := isGreatest_longestWay
  overflow_iff hfree hleaves := by
    rw [Duration.isOverflow_iff]
    exact ⟨bursts_of_duration_eq_overflow fun d hd => (hleaves d hd).2, fun h =>
      duration_eq_overflow_of_bursts h (hleaves.duration_ne_infinite hfree)⟩

section

variable (p) (shift : Int)

theorem isLoopFree_shiftNotes : (p.shiftNotes shift).isLoopFree = p.isLoopFree := by
  induction p with
  | note | rest | forever => rfl
  | concat a b iha ihb => rw [shiftNotes, isLoopFree, isLoopFree, iha, ihb]
  | together a b iha ihb => rw [shiftNotes, isLoopFree, isLoopFree, iha, ihb]

theorem leafLengths_shiftNotes : (p.shiftNotes shift).leafLengths = p.leafLengths := by
  induction p with
  | note | rest => rfl
  | concat a b iha ihb => rw [shiftNotes, leafLengths, leafLengths, iha, ihb]
  | together a b iha ihb => rw [shiftNotes, leafLengths, leafLengths, iha, ihb]
  | forever a ih => rw [shiftNotes, leafLengths, leafLengths, ih]

theorem longestWay_shiftNotes : (p.shiftNotes shift).longestWay = p.longestWay := by
  induction p with
  | note | rest => rfl
  | concat a b iha ihb => rw [shiftNotes, longestWay, longestWay, iha, ihb]
  | together a b iha ihb => rw [shiftNotes, longestWay, longestWay, iha, ihb]
  | forever a ih => rw [shiftNotes, longestWay, longestWay, ih]

end

/-- The parts of a transposed piece are its parts, transposed. -/
theorem Inside.shiftNotes (h : q.Inside p) (shift : Int) :
    (q.shiftNotes shift).Inside (p.shiftNotes shift) := by
  induction h with
  | refl => exact .refl
  | first _ ih => exact ih.first
  | second _ ih => exact ih.second
  | top _ ih => exact ih.top
  | bottom _ ih => exact ih.bottom
  | body _ ih => exact ih.body

theorem Bursts.shiftNotes (h : p.Bursts) (shift : Int) : (p.shiftNotes shift).Bursts := by
  obtain ⟨a, b, hinside, f, g, ha, hb, hsum⟩ := h
  exact ⟨a.shiftNotes shift, b.shiftNotes shift, hinside.shiftNotes shift, f, g,
    (a.duration_shiftNotes shift).trans ha, (b.duration_shiftNotes shift).trans hb, hsum⟩

theorem bursts_shiftNotes_iff (shift : Int) : (p.shiftNotes shift).Bursts ↔ p.Bursts := by
  refine ⟨fun h => ?_, fun h => h.shiftNotes shift⟩
  have hback := h.shiftNotes (-shift)
  rwa [shiftNotes_shiftNotes, add_neg_cancel, shiftNotes_zero] at hback

/-- **The length of a piece is never wrong.**  It says whether the piece ever ends, whether it lasts
at all, and how many beats its longest way takes, or else that a sum on the way is too large; and
so does the length of the transposed piece, of which the same is true. -/
theorem measures_transpose (p : Piece) (shift : Int) :
    p.Measures p.duration ∧ (p.transpose shift).duration = p.duration ∧
      (p.transpose shift).Measures p.duration ∧
      (p.transpose shift).isLoopFree = p.isLoopFree ∧
      (p.transpose shift).leafLengths = p.leafLengths ∧
      (p.transpose shift).longestWay = p.longestWay ∧
      ((p.transpose shift).Bursts ↔ p.Bursts) := by
  have htransposed := measures_duration (p.transpose shift)
  rw [duration_transpose] at htransposed
  refine ⟨measures_duration p, duration_transpose p shift, htransposed, ?_⟩
  rw [transpose_eq]
  exact ⟨isLoopFree_shiftNotes p shift, leafLengths_shiftNotes p shift,
    longestWay_shiftNotes p shift, bursts_shiftNotes_iff shift⟩

/-- A sum that is too large is not hidden by a longer rest at the same time, and not by what
follows. -/
example : (concat (together (concat (rest (.ofBeats maxTerm)) (rest (.ofBeats 1)))
    (rest (.ofBeats maxTerm))) (rest .zero)).duration = .overflow := by decide

end Piece
end Polyphony
