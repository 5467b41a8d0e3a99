/-
# Pieces in whole ticks

Each leaf is cut down to whole ticks on its own, so a piece can end before its length says.
Where no leaf has a broken tick to lose, it ends exactly where its length says
(`Pass.toNat_of_play_inWholeTicks`).  The length is a rational number of beats, put together
from the leaves by exact sums and maxima; the ticks are put together from the ticks of the
leaves the same way, so the two differ by the factor from beats to ticks in every part of the
piece.

A count of ticks that stops at the largest 64-bit number is no exact one.  It is beyond the
last tick, so what goes through never has one.
-/

import Polyphony.Proofs.Duration.Value
import Polyphony.Proofs.Playback.Tape

namespace Polyphony

/-- A finite length that takes a whole number of ticks. -/
def Duration.InWholeTicks (ticksPerBeat : Nat) (d : Duration) : Prop :=
  ∃ f, d = .finite f ∧ ∃ n : Nat, f.value * ticksPerBeat = n

namespace Duration

theorem inWholeTicks_finite_iff {ticksPerBeat : Nat} {f : Fraction} :
    (Duration.finite f).InWholeTicks ticksPerBeat ↔ f.den ∣ f.num * ticksPerBeat := by
  have hvalue : ∀ n : Nat, f.value * ticksPerBeat = n ↔ f.num * ticksPerBeat = f.den * n := by
    intro n
    rw [Fraction.value, div_mul_eq_mul_div, div_eq_iff f.den_ne_zero, mul_comm (n : Rat)]
    exact_mod_cast Iff.rfl
  constructor
  · rintro ⟨_, hf, n, hn⟩
    obtain rfl := Duration.finite.inj hf
    exact ⟨n, (hvalue n).1 hn⟩
  · rintro ⟨n, hn⟩
    exact ⟨f, rfl, n, (hvalue n).2 hn⟩

instance (ticksPerBeat : Nat) (d : Duration) : Decidable (d.InWholeTicks ticksPerBeat) :=
  match d with
  | .finite f => decidable_of_iff (f.den ∣ f.num * ticksPerBeat) inWholeTicks_finite_iff.symm
  | .overflow => isFalse fun ⟨_, h, _⟩ => Duration.noConfusion h
  | .infinite => isFalse fun ⟨_, h, _⟩ => Duration.noConfusion h

/-- Nothing is lost of whole ticks that can be counted. -/
theorem InWholeTicks.toTicks_eq {ticksPerBeat : Nat} {f : Fraction}
    (h : (Duration.finite f).InWholeTicks ticksPerBeat)
    (hfits : (Duration.finite f).toTicks ticksPerBeat < maxTerm) :
    ((Duration.finite f).toTicks ticksPerBeat : Rat) = f.value * ticksPerBeat := by
  obtain ⟨_, hf, n, hn⟩ := h
  obtain rfl := Duration.finite.inj hf
  rw [toTicks_finite, hn, Nat.floor_natCast] at hfits ⊢
  rw [Nat.min_eq_left (by omega)]

end Duration

namespace Piece

open Playback

variable {pace : Pace} {f : Fraction}

/-- A piece whose leaves are in whole ticks takes the ticks that its length says.  A piece of
finite length has no loop in it. -/
theorem ticks_eq_value {p : Piece} (h : p.duration = .finite f)
    (hleaves : ∀ leaf ∈ p.leaves, leaf.length.InWholeTicks pace.ticksPerBeat)
    (hfits : p.ticks pace < maxTerm) : (p.ticks pace : Rat) = f.value * pace.ticksPerBeat := by
  induction p generalizing f with
  | note d pitch i =>
    obtain rfl : d = .finite f := h
    exact Duration.InWholeTicks.toTicks_eq (hleaves _ (List.mem_singleton_self _)) hfits
  | rest d =>
    obtain rfl : d = .finite f := h
    exact Duration.InWholeTicks.toTicks_eq (hleaves _ (List.mem_singleton_self _)) hfits
  | concat a b iha ihb =>
    obtain ⟨fa, fb, ha, hb, hvalue⟩ := Duration.exists_of_add_eq_finite h
    rw [ticks] at hfits ⊢
    have hta := iha ha (fun l hl => hleaves l (List.mem_append_left _ hl)) (by omega)
    have htb := ihb hb (fun l hl => hleaves l (List.mem_append_right _ hl)) (by omega)
    rw [Nat.cast_add, hta, htb, hvalue, add_mul]
  | together a b iha ihb =>
    obtain ⟨fa, fb, ha, hb, hvalue⟩ := Duration.exists_of_max_eq_finite h
    rw [ticks] at hfits ⊢
    have hta := iha ha (fun l hl => hleaves l (List.mem_append_left _ hl)) (by omega)
    have htb := ihb hb (fun l hl => hleaves l (List.mem_append_right _ hl)) (by omega)
    rw [Nat.cast_max, hta, htb, hvalue, max_mul_of_nonneg _ _ (Nat.cast_nonneg _)]
  | forever => cases h

end Piece

namespace Playback.Pass

/-- What goes through takes fewer ticks than can be counted. -/
theorem ticks_lt_of_play {pass pass' : Pass} {piece : Piece} {start stop : Tick}
    (h : pass.play piece start = (.ok stop, pass')) :
    piece.ticks pass.config.pace < maxTerm := by
  have hend := toNat_of_play h
  have hlast := stop.toNat_lt
  unfold maxTerm
  omega

/-- **A piece in whole ticks ends where its length says.** -/
theorem toNat_of_play_inWholeTicks {pass pass' : Pass} {piece : Piece} {f : Fraction}
    {start stop : Tick} (hlength : piece.duration = .finite f)
    (hleaves : ∀ leaf ∈ piece.leaves, leaf.length.InWholeTicks pass.config.ticksPerBeat.toNat)
    (h : pass.play piece start = (.ok stop, pass')) :
    (stop.toNat : Rat) = start.toNat + f.value * pass.config.ticksPerBeat.toNat := by
  have hticks : (piece.ticks pass.config.pace : Rat) = _ :=
    Piece.ticks_eq_value hlength hleaves (ticks_lt_of_play h)
  rw [toNat_of_play h, Nat.cast_add, hticks]
  rfl

end Playback.Pass
end Polyphony
