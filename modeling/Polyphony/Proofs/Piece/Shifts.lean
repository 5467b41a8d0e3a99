/-
# The laws of transposing

Shifts act on pieces as the whole numbers do on any set: a shift by none leaves a piece as it is,
and two shifts one after the other are their sum.  So every shift can be taken back.

| `p` moved | is |
| --- | --- |
| by `0` | `p` |
| by `i` and then by `j` | `p` moved by `i + j` |
| by `i` and then by `-i` | `p` |
| by `i`, where `i ≠ j` | `p` moved by `j` exactly if `p` has no notes |
| by any shift | as long as `p` |

A machine returns a node as it is for a shift by none, and a rest for every shift, and builds all
else anew.  So a piece that was moved in two ways is in memory twice, or in parts twice, and the
laws hold of it up to `Node.same`.  They hold whenever the pieces were moved, and whatever was made
in between: what a transposed node shows is known (`Transposed.shows`), and nodes are compared as
the pieces are which they show.
-/

import Mathlib.Algebra.Group.Action.Defs
import Mathlib.Algebra.Group.Int.Defs
import Polyphony.Proofs.Piece.Length
import Polyphony.Proofs.Piece.Memory

namespace Polyphony

namespace Piece

variable {p a b : Piece} {i j : Int}

/-- Shifts act on pieces. -/
instance : AddAction Int Piece where
  vadd shift p := p.transpose shift
  zero_vadd := transpose_zero
  add_vadd i j p := by
    change p.transpose (i + j) = (p.transpose j).transpose i
    rw [transpose_transpose, add_comm]

/-- Every shift can be taken back. -/
theorem transpose_transpose_neg (p : Piece) (shift : Int) :
    (p.transpose shift).transpose (-shift) = p :=
  neg_vadd_vadd shift p

/-- There is a note in a piece. -/
def HasNote (p : Piece) : Prop := ∃ d x i, Inside (.note d x i) p

theorem hasNote_note (d : Duration) (x : Pitch) (i : Instrument) : (note d x i).HasNote :=
  ⟨d, x, i, .refl⟩

theorem not_hasNote_rest (d : Duration) : ¬ (rest d).HasNote :=
  fun ⟨_, _, _, h⟩ => nomatch h

theorem hasNote_concat_iff : (concat a b).HasNote ↔ a.HasNote ∨ b.HasNote := by
  constructor
  · rintro ⟨d, x, i, h⟩
    cases h with
    | first h => exact Or.inl ⟨d, x, i, h⟩
    | second h => exact Or.inr ⟨d, x, i, h⟩
  · rintro (⟨d, x, i, h⟩ | ⟨d, x, i, h⟩)
    · exact ⟨d, x, i, h.first⟩
    · exact ⟨d, x, i, h.second⟩

theorem hasNote_together_iff : (together a b).HasNote ↔ a.HasNote ∨ b.HasNote := by
  constructor
  · rintro ⟨d, x, i, h⟩
    cases h with
    | top h => exact Or.inl ⟨d, x, i, h⟩
    | bottom h => exact Or.inr ⟨d, x, i, h⟩
  · rintro (⟨d, x, i, h⟩ | ⟨d, x, i, h⟩)
    · exact ⟨d, x, i, h.top⟩
    · exact ⟨d, x, i, h.bottom⟩

theorem hasNote_forever_iff : (forever a).HasNote ↔ a.HasNote := by
  constructor
  · rintro ⟨d, x, i, h⟩
    cases h with
    | body h => exact ⟨d, x, i, h⟩
  · rintro ⟨d, x, i, h⟩
    exact ⟨d, x, i, h.body⟩

/-- Two shifts make the same of a piece exactly if there is nothing to be moved. -/
theorem shiftNotes_eq_iff (hshifts : i ≠ j) : p.shiftNotes i = p.shiftNotes j ↔ ¬ p.HasNote := by
  induction p with
  | note d x instrument =>
    refine iff_of_false (fun h => hshifts ?_) (not_not_intro (hasNote_note d x instrument))
    simpa [shiftNotes, Pitch.transpose] using h
  | rest d => exact iff_of_true rfl (not_hasNote_rest d)
  | concat a b iha ihb =>
    rw [hasNote_concat_iff, not_or, ← iha, ← ihb, shiftNotes, shiftNotes, concat.injEq]
  | together a b iha ihb =>
    rw [hasNote_together_iff, not_or, ← iha, ← ihb, shiftNotes, shiftNotes, together.injEq]
  | forever a ih => rw [hasNote_forever_iff, ← ih, shiftNotes, shiftNotes, forever.injEq]

theorem transpose_eq_iff (hshifts : i ≠ j) : p.transpose i = p.transpose j ↔ ¬ p.HasNote := by
  rw [transpose_eq, transpose_eq, shiftNotes_eq_iff hshifts]

/-- What transposing a piece is held to. -/
structure ShiftLaws (p : Piece) : Prop where
  zero : p.transpose 0 = p
  add : ∀ i j : Int, (p.transpose i).transpose j = p.transpose (i + j)
  neg : ∀ i : Int, (p.transpose i).transpose (-i) = p
  duration_eq : ∀ i : Int, (p.transpose i).duration = p.duration
  /-- Different shifts make different pieces exactly if there is a note. -/
  eq_iff : ∀ i j : Int, i ≠ j → (p.transpose i = p.transpose j ↔ ¬ p.HasNote)

theorem shiftLaws (p : Piece) : p.ShiftLaws where
  zero := p.transpose_zero
  add := p.transpose_transpose
  neg := p.transpose_transpose_neg
  duration_eq := p.duration_transpose
  eq_iff _ _ := transpose_eq_iff

end Piece

namespace Memory

variable {memory : Memory} {a b c : Node} {p : Piece} {shift : Int}

/-- `Transposed memory shift a b`: at some time `a` was transposed, and `b` was returned.  More may
have been made since. -/
def Transposed (memory : Memory) (shift : Int) (a b : Node) : Prop :=
  ∃ before after, Reached before ∧ a ∈ before ∧
    Making.transpose shift a before = .ok (b, after) ∧ after <+: memory

/-- Every node can be transposed next. -/
theorem Reached.exists_transposed (h : memory.Reached) (shift : Int) (ha : a ∈ memory) :
    ∃ b after, Making.transpose shift a memory = .ok (b, after) ∧ Reached after ∧
      Transposed after shift a b := by
  obtain ⟨p, hp⟩ := h.sound.shows a ha
  obtain ⟨b, after, hmake, -⟩ := Making.yields_transpose h.sound shift ha hp
  exact ⟨b, after, hmake, h.tail (.transpose shift ha hmake),
    memory, after, h, ha, hmake, List.prefix_rfl⟩

/-- Both nodes are in memory, and the second one shows the first one's piece, moved. -/
theorem Transposed.shows (h : memory.Transposed shift a b) (hp : a.Shows p) :
    a ∈ memory ∧ b ∈ memory ∧ b.Shows (p.transpose shift) := by
  obtain ⟨before, after, hreached, ha, hmake, hsince⟩ := h
  obtain ⟨c, last, hlast, hkept, -, hc, hshows⟩ :=
    Making.yields_transpose hreached.sound shift ha hp
  obtain ⟨rfl, rfl⟩ := Prod.mk.inj (Except.ok.inj (hmake.symm.trans hlast))
  exact ⟨(hkept.trans hsince).subset ha, hsince.subset hc, hshows⟩

/-- What was transposed shows a piece. -/
theorem Transposed.exists_shows (h : memory.Transposed shift a b) : ∃ p, a.Shows p := by
  obtain ⟨before, after, hreached, ha, -⟩ := h
  exact hreached.sound.shows a ha

/-- What transposing nodes is held to. -/
structure ShiftLaws (memory : Memory) : Prop where
  /-- The laws for the pieces that nodes show. -/
  piece : ∀ p : Piece, p.ShiftLaws
  shows : ∀ a ∈ memory, ∃! p, a.Shows p
  makeable : ∀ p, Makeable p
  /-- Every node can be transposed next. -/
  transposed : ∀ shift, ∀ a ∈ memory, ∃ b after,
    Making.transpose shift a memory = .ok (b, after) ∧ Reached after ∧ Transposed after shift a b
  /-- A shift by none returns the node itself, and takes no room. -/
  zero : ∀ a, Making.transpose 0 a memory = .ok (a, memory)
  /-- Two shifts one after the other are their sum. -/
  add : ∀ i j a b c d, memory.Transposed i a b → memory.Transposed j b c →
    memory.Transposed (i + j) a d → c.same d = true
  /-- A shift that is taken back changes nothing. -/
  neg : ∀ i a b c, memory.Transposed i a b → memory.Transposed (-i) b c → c.same a = true
  /-- The length that is found anew is the one that was kept. -/
  length_eq : ∀ i a b, memory.Transposed i a b → b.header.length = a.header.length
  /-- Different shifts make different pieces exactly if there is a note. -/
  same_iff : ∀ i j a b c p, i ≠ j → a.Shows p → memory.Transposed i a b →
    memory.Transposed j a c → (b.same c = true ↔ ¬ p.HasNote)

/-- **Transposing is an action of the shifts on pieces**, and two shifts act alike only on pieces
without notes. -/
theorem shift_laws (h : memory.Reached) : memory.ShiftLaws where
  piece := Piece.shiftLaws
  shows a ha := by
    obtain ⟨p, hp⟩ := h.sound.shows a ha
    exact ⟨p, hp, fun q hq => hq.unique hp⟩
  makeable := makeable
  transposed shift a ha := h.exists_transposed shift ha
  zero a := by
    rw [Making.transpose.eq_def, if_pos rfl]
    rfl
  add i j a b c d hab hbc had := by
    obtain ⟨p, hp⟩ := hab.exists_shows
    obtain ⟨-, -, hb⟩ := hab.shows hp
    obtain ⟨-, hcmem, hc⟩ := hbc.shows hb
    obtain ⟨-, hdmem, hd⟩ := had.shows hp
    rw [h.sound.same_iff hcmem hdmem hc hd, Piece.transpose_transpose]
  neg i a b c hab hbc := by
    obtain ⟨p, hp⟩ := hab.exists_shows
    obtain ⟨ha, -, hb⟩ := hab.shows hp
    obtain ⟨-, hcmem, hc⟩ := hbc.shows hb
    rw [h.sound.same_iff hcmem ha hc hp, Piece.transpose_transpose_neg]
  length_eq i a b hab := by
    obtain ⟨p, hp⟩ := hab.exists_shows
    obtain ⟨-, -, hb⟩ := hab.shows hp
    rw [hb.length_eq, hp.length_eq, Piece.duration_transpose]
  same_iff i j a b c p hshifts hp hab hac := by
    obtain ⟨-, hbmem, hb⟩ := hab.shows hp
    obtain ⟨-, hcmem, hc⟩ := hac.shows hp
    rw [h.sound.same_iff hbmem hcmem hb hc, Piece.transpose_eq_iff hshifts]

/-- A note without end, over and over again. -/
def loop (place : Nat) (semitones : Int) : Node :=
  .forever ⟨place + 1, .infinity⟩ (drone place semitones)

/-- A loop that is taken up a fifth and then a fourth is equal to the loop taken up an octave,
though both of its nodes are different ones. -/
theorem same_of_fifth_and_fourth :
    Reached [drone 0 0, loop 0 0, drone 2 7, loop 2 7, drone 4 12, loop 4 12, drone 6 12,
      loop 6 12] ∧ (loop 4 12).same (loop 6 12) = true := by
  have hnote : Reached [drone 0 0] := .tail .refl (.note ⟨0⟩ .piano .infinity rfl)
  have hloop : Reached [drone 0 0, loop 0 0] := hnote.tail (.forever (.head _) rfl)
  have hfifth : Reached [drone 0 0, loop 0 0, drone 2 7, loop 2 7] :=
    hloop.tail (.transpose 7 (List.mem_of_getElem? (i := 1) rfl) rfl)
  have hfourth : Reached [drone 0 0, loop 0 0, drone 2 7, loop 2 7, drone 4 12, loop 4 12] :=
    hfifth.tail (.transpose 5 (List.mem_of_getElem? (i := 3) rfl) rfl)
  have hoctave : Reached [drone 0 0, loop 0 0, drone 2 7, loop 2 7, drone 4 12, loop 4 12,
      drone 6 12, loop 6 12] :=
    hfourth.tail (.transpose 12 (List.mem_of_getElem? (i := 1) rfl) rfl)
  refine ⟨hoctave, (shift_laws hoctave).add 7 5 (loop 0 0) (loop 2 7) _ _ ?_ ?_ ?_⟩
  · exact ⟨_, _, hloop, List.mem_of_getElem? (i := 1) rfl, rfl, List.prefix_append _
      [drone 4 12, loop 4 12, drone 6 12, loop 6 12]⟩
  · exact ⟨_, _, hfifth, List.mem_of_getElem? (i := 3) rfl, rfl, List.prefix_append _
      [drone 6 12, loop 6 12]⟩
  · exact ⟨_, _, hfourth, List.mem_of_getElem? (i := 1) rfl, rfl, List.prefix_rfl⟩

end Memory
end Polyphony
