/-
# How far a piece drifts from its length

Two clocks tell when a piece ends.  One adds up lengths, which are exact, and cuts the sum down
to whole ticks; the other cuts every leaf down to whole ticks and adds up these.  The second is
never ahead, and it falls behind by less than a tick for each leaf that has been played in a row.

| piece | its ticks fall behind its length by less than |
| --- | --- |
| `note`, `rest` | one tick |
| `concat a b` | what `a` and what `b` fall behind, added |
| `together a b` | the larger of both |

So a piece falls behind by fewer ticks than it has leaves in its longest row
(`Piece.ticks_bounds`).  Cut down to whole ticks the length loses less than a tick itself, so the
two clocks are apart by one tick less than that (`Pass.drift_of_play`), and three thirds of a
beat at two ticks in a beat show that they can be.
-/

import Polyphony.Proofs.Playback.WholeTicks

namespace Polyphony

/-- The most leaves of a piece that follow one another.  A loop counts once. -/
def Piece.longestRow : Piece → Nat
  | .note .. => 1
  | .rest _ => 1
  | .concat a b => a.longestRow + b.longestRow
  | .together a b => max a.longestRow b.longestRow
  | .forever a => a.longestRow

/-- Less than a tick is lost of a length whose ticks can be counted. -/
theorem Duration.toTicks_bounds {ticksPerBeat : Nat} {f : Fraction}
    (hfits : (Duration.finite f).toTicks ticksPerBeat < maxTerm) :
    ((Duration.finite f).toTicks ticksPerBeat : Rat) ≤ f.value * ticksPerBeat ∧
      f.value * ticksPerBeat < (Duration.finite f).toTicks ticksPerBeat + 1 := by
  have hnonneg : 0 ≤ f.value * ticksPerBeat :=
    mul_nonneg (div_nonneg (Nat.cast_nonneg _) (Nat.cast_nonneg _)) (Nat.cast_nonneg _)
  rw [toTicks_finite] at hfits ⊢
  rw [Nat.min_eq_left (by omega)]
  exact ⟨Nat.floor_le hnonneg, Nat.lt_floor_add_one _⟩

namespace Piece

open Playback

variable {pace : Pace} {f : Fraction}

/-- A piece loses less than a tick of its length for each leaf in its longest row.  A piece of
finite length has no loop in it. -/
theorem ticks_bounds {p : Piece} (h : p.duration = .finite f) (hfits : p.ticks pace < maxTerm) :
    (p.ticks pace : Rat) ≤ f.value * pace.ticksPerBeat ∧
      f.value * pace.ticksPerBeat < p.ticks pace + p.longestRow := by
  induction p generalizing f with
  | note d pitch i =>
    obtain rfl : d = .finite f := h
    rw [longestRow, Nat.cast_one]
    exact Duration.toTicks_bounds hfits
  | rest d =>
    obtain rfl : d = .finite f := h
    rw [longestRow, Nat.cast_one]
    exact Duration.toTicks_bounds hfits
  | concat a b iha ihb =>
    obtain ⟨fa, fb, ha, hb, hvalue⟩ := Duration.exists_of_add_eq_finite h
    rw [ticks] at hfits ⊢
    obtain ⟨ha_le, ha_lt⟩ := iha ha (by omega)
    obtain ⟨hb_le, hb_lt⟩ := ihb hb (by omega)
    rw [longestRow, hvalue, add_mul]
    push_cast
    constructor <;> linarith
  | together a b iha ihb =>
    obtain ⟨fa, fb, ha, hb, hvalue⟩ := Duration.exists_of_max_eq_finite h
    rw [ticks] at hfits ⊢
    obtain ⟨ha_le, ha_lt⟩ := iha ha (by omega)
    obtain ⟨hb_le, hb_lt⟩ := ihb hb (by omega)
    rw [longestRow, hvalue, max_mul_of_nonneg _ _ (Nat.cast_nonneg _)]
    push_cast
    refine ⟨max_le_max ha_le hb_le, max_lt ?_ ?_⟩
    · exact ha_lt.trans_le (add_le_add (le_max_left ..) (le_max_left ..))
    · exact hb_lt.trans_le (add_le_add (le_max_right ..) (le_max_right ..))
  | forever => cases h

/-- Counted in whole ticks, a piece falls behind its length by less than its longest row. -/
theorem toTicks_duration_bounds {p : Piece} (h : p.duration = .finite f)
    (hfits : p.ticks pace < maxTerm) :
    p.ticks pace ≤ p.duration.toTicks pace.ticksPerBeat ∧
      p.duration.toTicks pace.ticksPerBeat < p.ticks pace + p.longestRow := by
  obtain ⟨hle, hlt⟩ := ticks_bounds h hfits
  rw [h, Duration.toTicks_finite]
  constructor
  · exact Nat.le_min.2 ⟨Nat.le_floor hle, hfits.le⟩
  · refine (Nat.min_le_left ..).trans_lt ((Nat.floor_lt ?_).2 ?_)
    · exact (Nat.cast_nonneg _).trans hle
    · exact_mod_cast hlt

end Piece

namespace Playback

namespace Pass

/-- **A piece drifts by less than a tick for each leaf in a row.**  It never ends after the ticks
of its length, and at most one tick less before that than leaves follow one another in it.  Where
every leaf takes whole ticks, it ends exactly where its length says. -/
theorem drift_of_play {pass pass' : Pass} {piece : Piece} {f : Fraction} {start stop : Tick}
    (hlength : piece.duration = .finite f) (h : pass.play piece start = (.ok stop, pass')) :
    (piece.duration.toTicks pass.config.ticksPerBeat.toNat : Int) - (piece.longestRow - 1) ≤
        (stop.toNat : Int) - start.toNat ∧
      (stop.toNat : Int) - start.toNat ≤
        piece.duration.toTicks pass.config.ticksPerBeat.toNat ∧
      ((∀ leaf ∈ piece.leaves, leaf.length.InWholeTicks pass.config.ticksPerBeat.toNat) →
        (stop.toNat : Rat) - start.toNat = f.value * pass.config.ticksPerBeat.toNat) := by
  obtain ⟨hle, hlt⟩ := Piece.toTicks_duration_bounds hlength (ticks_lt_of_play h)
  have hticks : pass.config.pace.ticksPerBeat = pass.config.ticksPerBeat.toNat := rfl
  have hend := toNat_of_play h
  rw [hticks] at hle hlt
  refine ⟨by omega, by omega, fun hleaves => ?_⟩
  rw [toNat_of_play_inWholeTicks hlength hleaves h, add_sub_cancel_left]

end Pass

/-- A beat in three thirds, over a bass that leaves after the first one. -/
def triplet : Piece :=
  let third := Duration.reduce 1 3 (Nat.succ_pos 2)
  .together (.note third ⟨-12⟩ .cello)
    (.concat (.note third ⟨0⟩ .violin) (.concat (.rest third) (.note third ⟨4⟩ .violin)))

/-- At two ticks in a beat no third takes a tick, so the piece ends where it starts, as far
behind its two ticks as it can.  At three ticks in a beat nothing is lost. -/
theorem drift_of_triplet :
    ∃ whole, triplet.duration = .finite whole ∧ whole.value = 1 ∧ triplet.longestRow = 3 ∧
      triplet.duration.toTicks 2 = 2 ∧
      ((Pass.new { ticksPerBeat := 2 }).play triplet 5).1 = .ok 5 ∧
      (2 : Int) - (3 - 1) ≤ (5 : Tick).toNat - (5 : Tick).toNat ∧
      (((5 : Tick).toNat : Int) - (5 : Tick).toNat) ≤ 2 ∧
      (∀ leaf ∈ triplet.leaves, leaf.length.InWholeTicks 3) ∧
      ((Pass.new { ticksPerBeat := 3 }).play triplet 5).1 = .ok 8 ∧
      ((8 : Tick).toNat : Rat) - (5 : Tick).toNat = whole.value * (3 : Tick).toNat := by
  have hwhole : triplet.duration = .finite ⟨1, 1, by decide, by decide, by decide, by decide⟩ := by
    decide +kernel
  have hrow : triplet.longestRow = 3 := by decide
  have hticks : triplet.duration.toTicks 2 = 2 := by decide +kernel
  have hcoarse : ((Pass.new { ticksPerBeat := 2 }).play triplet 5).1 = .ok 5 := by decide +kernel
  have hfine : ((Pass.new { ticksPerBeat := 3 }).play triplet 5).1 = .ok 8 := by decide +kernel
  have hleaves : ∀ leaf ∈ triplet.leaves, leaf.length.InWholeTicks 3 := by decide +kernel
  obtain ⟨hle, hge, -⟩ := Pass.drift_of_play hwhole (Prod.ext hcoarse rfl)
  obtain ⟨-, -, hexact⟩ := Pass.drift_of_play hwhole (Prod.ext hfine rfl)
  have hresolution : (Pass.new { ticksPerBeat := 2 }).config.ticksPerBeat.toNat = 2 := rfl
  rw [hresolution, hticks] at hle hge
  rw [hrow] at hle
  exact ⟨_, hwhole, by norm_num [Fraction.value], hrow, hticks, hcoarse, hle, hge, hleaves, hfine,
    hexact hleaves⟩

end Playback
end Polyphony
