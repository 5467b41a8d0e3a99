/-
# Ensembles in another key

It makes no difference whether pieces are transposed before something is formed of them or after.

| formed of pieces in another key | is |
| --- | --- |
| a varied piece | the varied piece, in that key |
| a series, counterpoint, canon or round, repetitions | the same, in that key |
| an accompaniment | the same, in that key, with the same caution |
| nothing | nothing, for the same reason |

Varying commutes with transposing whatever the transform is made of (`apply_transpose`): shifts add
up in either order, and a pause has no pitch.  So each item of a series is the old one in the other
key, as each is varied from the one before (`chain_transpose`).  What becomes of two parts is told
by their lengths, which transposing keeps, so the shorter part stays the shorter one and is repeated
as often.
-/

import Polyphony.Ensemble.Accompany

namespace Polyphony
namespace Ensemble

/-- An accompaniment `shift` semitones higher. -/
def Accompaniment.transpose (x : Accompaniment) (shift : Int) : Accompaniment :=
  { x with piece := x.piece.transpose shift }

variable (shift : Int)

/-- A piece is varied in every key alike. -/
theorem apply_transpose (f : Transform) (p : Piece) :
    f.apply (p.transpose shift) = (f.apply p).transpose shift := by
  induction f generalizing p with
  | identity => rfl
  | transpose k => rw [Transform.apply, Transform.apply, Piece.transpose_transpose,
      Piece.transpose_transpose, Int.add_comm]
  | delay pause => rw [Transform.apply, Transform.apply, Piece.transpose_delay]
  | compose f g ihf ihg => rw [Transform.apply, Transform.apply, ihf, ihg]

theorem join_transpose (joining : Joining) (a b : Piece) :
    joining.join (a.transpose shift) (b.transpose shift) =
      (joining.join a b).transpose shift := by
  cases joining with
  | together => rw [Joining.join, Joining.join, Piece.transpose_together]
  | concat => rw [Joining.join, Joining.join, Piece.transpose_concat]

/-- Each item of a chain is the old one in the other key. -/
theorem chain_transpose (joining : Joining) (f : Transform) (more : Nat) (p : Piece) :
    chain joining f more (p.transpose shift) = (chain joining f more p).transpose shift := by
  induction more generalizing p with
  | zero => rfl
  | succ more ih => rw [chain, chain, apply_transpose, ih, join_transpose]

section

variable (p : Piece) (count : Int)

theorem series_transpose (joining : Option Joining) (f : Option Transform) :
    series (p.transpose shift) joining f count =
      (series p joining f count).map (·.transpose shift) := by
  unfold series
  split
  · rfl
  · cases joining with
    | none => rfl
    | some joining =>
      cases f with
      | none => rfl
      | some f => exact congrArg Except.ok (chain_transpose shift joining f _ p)

theorem canon_transpose (pause : Duration) (f : Option Transform) :
    canon (p.transpose shift) pause f count =
      (canon p pause f count).map (·.transpose shift) := by
  cases f with
  | none => rfl
  | some f =>
    exact series_transpose shift p count (some .together) (some (.compose f (.delay pause)))

/-- Something is formed of a piece exactly if there is at least one item. -/
theorem exists_series_eq_error_iff (joining : Joining) (f : Transform) :
    (∃ refusal, series p (some joining) (some f) count = .error refusal) ↔ count < 1 := by
  unfold series
  split
  · next h => exact iff_of_true ⟨_, rfl⟩ h
  · next h => exact iff_of_false (fun ⟨_, hrefusal⟩ => nomatch hrefusal) h

end

section

variable (a b longer shorter : Piece)

theorem fill_transpose : fill (longer.transpose shift) (shorter.transpose shift) =
    (fill longer shorter).map (·.transpose shift) := by
  have hrepeat := fun count : Int =>
    series_transpose shift shorter count (some .concat) (some .identity)
  unfold fill repetitions variations
  simp only [Piece.duration_transpose, hrepeat]
  cases longer.duration.roundedRatio? shorter.duration with
  | none => rfl
  | some count =>
    dsimp only
    split
    · rfl
    · cases series shorter (some .concat) (some .identity) count with
      | error refusal => rfl
      | ok repeated =>
        simp only [Except.map, Accompaniment.transpose, Piece.transpose_together]

theorem fit_transpose : fit (longer.transpose shift) (shorter.transpose shift) =
    (fit longer shorter).map (·.transpose shift) := by
  unfold fit
  simp only [Piece.duration_transpose, fill_transpose]
  split
  · simp only [Except.map, Accompaniment.transpose, Piece.transpose_together]
  split
  · simp only [Except.map, Accompaniment.transpose, Piece.transpose_together,
      Piece.transpose_forever]
  · rfl

theorem accompany_transpose : accompany (a.transpose shift) (b.transpose shift) =
    (accompany a b).map (·.transpose shift) := by
  unfold accompany
  simp only [Piece.duration_transpose, fit_transpose]
  split
  · rfl
  split
  · rfl
  · rfl

end

/-- What is done with an outcome does not change whether there is one. -/
theorem exists_map_eq_error_iff {α β : Type} {x : Except Refusal α} {f : α → β} :
    (∃ refusal, x.map f = .error refusal) ↔ ∃ refusal, x = .error refusal := by
  cases x with
  | error refusal => exact iff_of_true ⟨refusal, rfl⟩ ⟨refusal, rfl⟩
  | ok a => exact iff_of_false (fun ⟨_, h⟩ => nomatch h) (fun ⟨_, h⟩ => nomatch h)

/-- What is formed of pieces that are `shift` semitones higher. -/
structure FormedAlike (shift : Int) : Prop where
  delay_eq : ∀ (p : Piece) (pause : Duration),
    (p.transpose shift).delay pause = (p.delay pause).transpose shift
  /-- A varied piece. -/
  apply_eq : ∀ (f : Transform) (p : Piece),
    f.apply (p.transpose shift) = (f.apply p).transpose shift
  /-- A series, or the same refusal. -/
  series_eq : ∀ (p : Piece) (joining : Option Joining) (f : Option Transform) (count : Int),
    series (p.transpose shift) joining f count =
      (series p joining f count).map (·.transpose shift)
  /-- No series is formed in either key exactly if it is to have no items. -/
  no_series : ∀ (p : Piece) (joining : Joining) (f : Transform) (count : Int),
    ((∃ refusal, series (p.transpose shift) (some joining) (some f) count =
      .error refusal) ↔ count < 1) ∧
    ((∃ refusal, series p (some joining) (some f) count = .error refusal) ↔ count < 1)
  counterpoint_eq : ∀ (p : Piece) (f : Option Transform) (count : Int),
    counterpoint (p.transpose shift) f count = (counterpoint p f count).map (·.transpose shift)
  canon_eq : ∀ (p : Piece) (pause : Duration) (f : Option Transform) (count : Int),
    canon (p.transpose shift) pause f count = (canon p pause f count).map (·.transpose shift)
  round_eq : ∀ (p : Piece) (pause : Duration) (count : Int),
    round (p.transpose shift) pause count = (round p pause count).map (·.transpose shift)
  variations_eq : ∀ (p : Piece) (f : Option Transform) (count : Int),
    variations (p.transpose shift) f count = (variations p f count).map (·.transpose shift)
  repetitions_eq : ∀ (p : Piece) (count : Int),
    repetitions (p.transpose shift) count = (repetitions p count).map (·.transpose shift)
  /-- An accompaniment with its caution, or the same refusal. -/
  accompany_eq : ∀ a b : Piece, accompany (a.transpose shift) (b.transpose shift) =
    (accompany a b).map (·.transpose shift)
  /-- No accompaniment is formed in one key exactly if none is in the other. -/
  no_accompaniment : ∀ a b : Piece,
    (∃ refusal, accompany (a.transpose shift) (b.transpose shift) = .error refusal) ↔
      ∃ refusal, accompany a b = .error refusal

/-- **Transposing commutes with all that is formed of pieces**, whatever the shift. -/
theorem formed_alike (shift : Int) : FormedAlike shift where
  delay_eq p pause := (p.transpose_delay pause shift).symm
  apply_eq := apply_transpose shift
  series_eq p joining f count := series_transpose shift p count joining f
  no_series p joining f count :=
    ⟨exists_series_eq_error_iff _ count joining f, exists_series_eq_error_iff p count joining f⟩
  counterpoint_eq p f count := series_transpose shift p count (some .together) f
  canon_eq p pause f count := canon_transpose shift p count pause f
  round_eq p pause count := canon_transpose shift p count pause (some .identity)
  variations_eq p f count := series_transpose shift p count (some .concat) f
  repetitions_eq p count := series_transpose shift p count (some .concat) (some .identity)
  accompany_eq := accompany_transpose shift
  no_accompaniment a b := by rw [accompany_transpose, exists_map_eq_error_iff]

end Ensemble
end Polyphony
