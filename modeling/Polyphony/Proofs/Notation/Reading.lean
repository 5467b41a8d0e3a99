/-
# Reading symbol by symbol

A text goes through exactly if each of its symbols does by itself and no running total of
their lengths is too large; it is then the row of what its symbols stand for, behind an empty
piece (`readAll_eq_ok_iff`).

What a symbol stands for is seen from its two halves: it is a rest if there is a point before
the length, and else a note (`leaf_of_readSymbol`).
-/

import Polyphony.Notation.Score
import Polyphony.Proofs.Playback.Sequence

namespace Polyphony
namespace Notation

variable {i : Instrument}

theorem readNext_eq_ok_iff {p r : Piece} {sign : Text} : readNext i p sign = .ok r ↔
    ∃ part, readSymbol sign i = .ok part ∧ r = .concat p part ∧
      r.duration.isOverflow = false := by
  rw [readNext]
  cases readSymbol sign i with
  | error e => simp
  | ok part =>
    simp only [Except.ok.injEq, exists_eq_left']
    split
    · next h => simp only [reduceCtorEq, false_iff]; rintro ⟨rfl, h'⟩; simp [h] at h'
    · next h =>
      rw [Except.ok.injEq]
      constructor
      · rintro rfl
        exact ⟨rfl, by simpa using h⟩
      · exact fun h => h.1.symm

/-- **Reading is a fold.**  Symbols go through behind a piece exactly if each of them can be
read and no beginning of the row gets too long. -/
theorem readAll_eq_ok_iff {p r : Piece} {signs : List Text} : readAll i p signs = .ok r ↔
    ∃ parts, signs.map (readSymbol · i) = parts.map .ok ∧
      (∀ front, front <+: parts → front ≠ [] → (p.row front).duration.isOverflow = false) ∧
      r = p.row parts := by
  induction signs generalizing p with
  | nil =>
    rw [readAll, Except.ok.injEq]
    constructor
    · rintro rfl
      exact ⟨[], rfl, fun front hf hne => absurd (List.prefix_nil.1 hf) hne, rfl⟩
    · rintro ⟨parts, hparts, -, rfl⟩
      obtain rfl : parts = [] := List.map_eq_nil_iff.1 hparts.symm
      rfl
  | cons sign signs ih =>
    rw [readAll]
    constructor
    · intro h
      cases hn : readNext i p sign with
      | error e => rw [hn] at h; cases h
      | ok q =>
        rw [hn] at h
        obtain ⟨part, hpart, rfl, hshort⟩ := readNext_eq_ok_iff.1 hn
        obtain ⟨parts, hparts, hfront, rfl⟩ := ih.1 h
        refine ⟨part :: parts, ?_, ?_, rfl⟩
        · rw [List.map_cons, List.map_cons, hpart, hparts]
        · intro front hf hne
          cases front with
          | nil => exact absurd rfl hne
          | cons q front =>
            obtain ⟨rfl, hfront'⟩ := List.cons_prefix_cons.1 hf
            cases front with
            | nil => exact hshort
            | cons part front => exact hfront _ hfront' (List.cons_ne_nil part front)
    · rintro ⟨parts, hparts, hfront, rfl⟩
      cases parts with
      | nil => cases hparts
      | cons part parts =>
        rw [List.map_cons, List.map_cons, List.cons.injEq] at hparts
        have hshort := hfront [part] (List.prefix_append [part] parts) (List.cons_ne_nil part [])
        rw [readNext_eq_ok_iff.2 ⟨part, hparts.1, rfl, hshort⟩]
        refine ih.2 ⟨parts, hparts.2, fun front hf hne => ?_, rfl⟩
        exact hfront (part :: front) (List.cons_prefix_cons.2 ⟨rfl, hf⟩)
          (List.cons_ne_nil part front)

/-- What comes behind is read behind what came first, if that goes through. -/
theorem readAll_append (p : Piece) (front signs : List Text) : readAll i p (front ++ signs) =
    (readAll i p front).bind fun q => readAll i q signs := by
  induction front generalizing p with
  | nil => rfl
  | cons sign front ih =>
    rw [List.cons_append, readAll, readAll]
    cases readNext i p sign with
    | error e => rfl
    | ok q => exact ih q

/-! ### What a symbol stands for -/

/-- The length of a symbol. -/
def lengthOf (sign : Text) : Duration :=
  match readLength (sign.dropWhile inPitch) with
  | .ok length => length
  | .error _ => .zero

/-- Does a symbol have a pitch, and not a point, before its length? -/
def isPitched (sign : Text) : Bool := sign.takeWhile inPitch != [Text.byte '.']

/-- A symbol stands for a note or a rest of its length. -/
theorem leaf_of_readSymbol {sign : Text} {p : Piece} (h : readSymbol sign i = .ok p) :
    isPitched sign = true ∧ (∃ pitch, p = .note (lengthOf sign) pitch i) ∨
      isPitched sign = false ∧ p = .rest (lengthOf sign) := by
  unfold readSymbol at h
  cases hl : readLength (sign.dropWhile inPitch) with
  | error mistake => rw [hl] at h; cases h
  | ok length =>
    have hlength : lengthOf sign = length := by rw [lengthOf, hl]
    simp only [hl] at h
    rw [hlength]
    split at h
    · next hrest => exact Or.inr ⟨by simpa [isPitched] using hrest, (Except.ok.inj h).symm⟩
    · next hrest =>
      refine Or.inl ⟨by simpa [isPitched] using hrest, ?_⟩
      cases hp : readPitch? (sign.takeWhile inPitch) with
      | none => rw [hp] at h; cases h
      | some pitch =>
        rw [hp] at h
        exact ⟨pitch, (Except.ok.inj h).symm⟩

/-- What is known of the part of a symbol from the symbol alone. -/
theorem map_of_readSymbol {α : Type} {f : Piece → α} {g : Text → α}
    (h : ∀ sign p, readSymbol sign i = .ok p → f p = g sign) {signs : List Text}
    {parts : List Piece} (hparts : signs.map (readSymbol · i) = parts.map .ok) :
    parts.map f = signs.map g := by
  induction signs generalizing parts with
  | nil => rw [List.map_eq_nil_iff.1 hparts.symm]; rfl
  | cons sign signs ih =>
    cases parts with
    | nil => cases hparts
    | cons p parts =>
      rw [List.map_cons, List.map_cons, List.cons.injEq] at hparts
      rw [List.map_cons, List.map_cons, h sign p hparts.1, ih hparts.2]

end Notation
end Polyphony
