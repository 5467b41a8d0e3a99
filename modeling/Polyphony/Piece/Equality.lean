/-
# Equal pieces and their hashes

Two pieces are the same if they were made alike from the same parts: the comparison
walks both trees at once (`same_iff`).  The hash is a 64-bit number that is mixed
from the same data, so equal pieces hash alike.
-/

import Polyphony.Piece.Basic

namespace Polyphony

/-- A duration as a 64-bit number.  The two largest numbers mark `overflow` and
`infinite`. -/
def Duration.hashCode : Duration → UInt64
  | .finite f => f.num.toUInt64 * 31 + f.den.toUInt64
  | .overflow => 0xFFFFFFFFFFFFFFFE
  | .infinite => 0xFFFFFFFFFFFFFFFF

namespace Piece

/-- Do two pieces have the same tree?  Pieces that are not of one length are told apart
without a look at their parts. -/
def same (p q : Piece) : Bool :=
  p.duration == q.duration &&
    match p, q with
    | .note _ x i, .note _ y j => x == y && i == j
    | .rest _, .rest _ => true
    | .concat a b, .concat c d => same a c && same b d
    | .together a b, .together c d => same a c && same b d
    | .forever a, .forever b => same a b
    | _, _ => false

theorem same_refl (p : Piece) : same p p = true := by
  induction p <;> simp [same, *]

theorem eq_of_same {p q : Piece} (h : same p q = true) : p = q := by
  induction p generalizing q with
  | note => cases q <;> simp_all [same, duration]
  | rest => cases q <;> simp_all [same, duration]
  | concat a b iha ihb =>
    cases q <;> simp only [same, Bool.and_eq_true, Bool.and_false, Bool.false_eq_true] at h
    rw [iha h.2.1, ihb h.2.2]
  | together a b iha ihb =>
    cases q <;> simp only [same, Bool.and_eq_true, Bool.and_false, Bool.false_eq_true] at h
    rw [iha h.2.1, ihb h.2.2]
  | forever a ih =>
    cases q <;> simp only [same, Bool.and_eq_true, Bool.and_false, Bool.false_eq_true] at h
    rw [ih h.2]

/-- The comparison decides equality. -/
theorem same_iff {p q : Piece} : same p q = true ↔ p = q :=
  ⟨eq_of_same, fun h => h ▸ same_refl p⟩

/-- A piece equals itself, which is seen without a comparison. -/
instance : DecidableEq Piece := fun p q =>
  withPtrEqDecEq p q fun _ => decidable_of_iff _ same_iff

/-- Takes one more number into a hash. -/
def mix (code next : UInt64) : UInt64 := 31 * code + next

/-- The hash of a piece. -/
def hashCode (p : Piece) : UInt64 :=
  let start := mix 1 p.kind.code.toUInt64
  match p with
  | .note d p i =>
    mix (mix (mix start d.hashCode) (Int64.ofInt p.semitones).toUInt64) i.program.toUInt64
  | .rest d => mix start d.hashCode
  | .concat a b => mix (mix start a.hashCode) b.hashCode
  | .together a b => mix (mix start a.hashCode) b.hashCode
  | .forever a => mix start a.hashCode

instance : Hashable Piece := ⟨hashCode⟩

end Piece
end Polyphony
