/-
# Two parts that end together

Where one length goes into another a whole number of times, an accompaniment is the longer part
and so many repetitions of the shorter one, and no caution comes with it
(`accompany_eq_ok`).

Nothing that plays the two parts compares their ends.  That they are the same is a fact about
three kinds of numbers: a ratio of lengths that is taken exactly, the ticks that the leaves are
cut down to one by one, and a number of repetitions.  They agree as soon as no leaf has a
broken tick to lose.  How the sum of the repeated lengths is held plays no part in it, as only
leaves are ever played.
-/

import Polyphony.Ensemble.Accompany
import Polyphony.Proofs.Ensemble.Chain
import Polyphony.Proofs.Playback.WholeTicks

namespace Polyphony
namespace Ensemble

open Playback

variable {longer shorter : Piece} {count : Nat}

/-- A part that goes into the longer one a whole number of times is repeated so often, and no
caution is called for. -/
theorem accompany_eq_ok (hle : shorter.duration ≤ longer.duration)
    (hmultiple : longer.duration.isWholeMultiple shorter.duration = true)
    (hcount : longer.duration.roundedRatio? shorter.duration = some count)
    (hmax : count ≤ maxRepetitions) {repeated : Piece}
    (hrepeated : repetitions shorter count = .ok repeated) :
    accompany longer shorter = .ok ⟨.together longer repeated, none⟩ := by
  obtain ⟨f, g, hf, hg, -⟩ := Duration.value_eq_mul_of_isWholeMultiple hmultiple hcount
  have hfill : fill longer shorter = .ok ⟨.together longer repeated, none⟩ := by
    simp only [fill, hcount, if_neg (Nat.not_lt.2 hmax), hrepeated, cautionOf, hmultiple, if_true]
  have hnot : ¬ longer.duration < shorter.duration := hle
  have hfit : fit longer shorter = .ok ⟨.together longer repeated, none⟩ := by
    rw [fit, hf, hg]
    exact hfill
  rw [accompany, if_neg hnot, hfit, hf, hg]
  rfl

/-- The repetitions take the ticks of the longer part. -/
theorem ticks_repeated {pace : Pace} {whole : Fraction} (hwhole : longer.duration = .finite whole)
    (hmultiple : longer.duration.isWholeMultiple shorter.duration = true)
    (hcount : longer.duration.roundedRatio? shorter.duration = some count) (hpos : 0 < count)
    (hleaves : ∀ leaf ∈ shorter.leaves, leaf.length.InWholeTicks pace.ticksPerBeat)
    (hfits : (chain .concat .identity (count - 1) shorter).ticks pace < maxTerm) :
    ((chain .concat .identity (count - 1) shorter).ticks pace : Rat) =
      whole.value * pace.ticksPerBeat := by
  obtain ⟨f, part, hf, hpart, -, hvalue⟩ :=
    Duration.value_eq_mul_of_isWholeMultiple hmultiple hcount
  obtain rfl : whole = f := Duration.finite.inj (hwhole.symm.trans hf)
  rw [ticks_chain_concat, Nat.sub_add_cancel hpos] at hfits ⊢
  have hshorter : shorter.ticks pace < maxTerm :=
    (Nat.le_mul_of_pos_left _ hpos).trans_lt hfits
  rw [Nat.cast_mul, Piece.ticks_eq_value hpart hleaves hshorter, hvalue, mul_assoc]

/-- **Two parts end together.**  If the length of `shorter` goes into that of `longer` a whole
number of times, and not too often, their accompaniment is `longer` together with so many
repetitions of `shorter`.  At every resolution at which the leaves of both parts take whole
ticks, and from every tick, whatever pass plays `longer` to its end and whatever pass plays the
repetitions to theirs, both end at the same tick, and it is as far from the start as `longer`
is long.  A multiple is taken of finite lengths only, and no loop has one. -/
theorem parts_end_together {whole : Fraction} (hwhole : longer.duration = .finite whole)
    (hle : shorter.duration ≤ longer.duration)
    (hmultiple : longer.duration.isWholeMultiple shorter.duration = true)
    (hcount : longer.duration.roundedRatio? shorter.duration = some count)
    (hmax : count ≤ maxRepetitions) :
    ∃ repeated, repetitions shorter count = .ok repeated ∧
      accompany longer shorter = .ok ⟨.together longer repeated, none⟩ ∧
      ∀ (pass pass' : Pass) (start stop stop' : Tick),
        pass'.config.ticksPerBeat = pass.config.ticksPerBeat →
        (∀ leaf ∈ longer.leaves ++ shorter.leaves,
          leaf.length.InWholeTicks pass.config.ticksPerBeat.toNat) →
        (pass.play longer start).1 = .ok stop → (pass'.play repeated start).1 = .ok stop' →
        stop' = stop ∧
          (stop.toNat : Rat) = start.toNat + whole.value * pass.config.ticksPerBeat.toNat := by
  have hpos := Duration.pos_of_isWholeMultiple hle hmultiple hcount
  have hrepeated := repetitions_eq_ok shorter hpos
  refine ⟨_, hrepeated, accompany_eq_ok hle hmultiple hcount hmax hrepeated, ?_⟩
  intro pass pass' start stop stop' hbeat hleaves hstop hstop'
  have hplay : pass.play longer start = (.ok stop, _) := Prod.ext hstop rfl
  have hplay' : pass'.play _ start = (.ok stop', _) := Prod.ext hstop' rfl
  have hend := Pass.toNat_of_play_inWholeTicks hwhole
    (fun leaf hleaf => hleaves leaf (List.mem_append_left _ hleaf)) hplay
  have hrest : ∀ leaf ∈ shorter.leaves,
      leaf.length.InWholeTicks pass'.config.pace.ticksPerBeat := by
    intro leaf hleaf
    change leaf.length.InWholeTicks pass'.config.ticksPerBeat.toNat
    rw [hbeat]
    exact hleaves leaf (List.mem_append_right _ hleaf)
  have hticks := ticks_repeated hwhole hmultiple hcount hpos hrest (Pass.ticks_lt_of_play hplay')
  have hend' : (stop'.toNat : Rat) =
      start.toNat + whole.value * pass.config.ticksPerBeat.toNat := by
    rw [Pass.toNat_of_play hplay', Nat.cast_add, hticks, ← hbeat]
    rfl
  exact ⟨UInt32.toNat_inj.1 (Nat.cast_injective (hend'.trans hend.symm)), hend⟩

/-- A note and the rest of two beats, over a rest as long. -/
def longNote : Piece :=
  .together
    (.concat (.note (.reduce 1 3 (by decide)) ⟨12⟩ .violin) (.rest (.reduce 5 3 (by decide))))
    (.rest (.ofBeats 2))

/-- Half a beat, which goes into it four times. -/
def pulse : Piece :=
  .concat (.note (.reduce 1 6 (by decide)) ⟨-12⟩ .cello) (.rest (.reduce 1 3 (by decide)))

/-- At six ticks in a beat, the shortest leaf is a tick and two beats are twelve. -/
theorem parts_end_together_pulse :
    ∃ whole, longNote.duration = .finite whole ∧ whole.value = 2 ∧
      pulse.duration ≤ longNote.duration ∧
      longNote.duration.isWholeMultiple pulse.duration = true ∧
      longNote.duration.roundedRatio? pulse.duration = some 4 ∧ 4 ≤ maxRepetitions ∧
      (∀ leaf ∈ longNote.leaves ++ pulse.leaves, leaf.length.InWholeTicks 6) ∧
      ∃ repeated, repetitions pulse 4 = .ok repeated ∧
        accompany longNote pulse = .ok ⟨.together longNote repeated, none⟩ ∧
        ((Pass.new { ticksPerBeat := 6 }).play longNote 5).1 = .ok 17 ∧
        ((Pass.new { ticksPerBeat := 6, channels := 1 }).play repeated 5).1 = .ok 17 ∧
        ((17 : Tick).toNat : Rat) = (5 : Tick).toNat + whole.value * (6 : Tick).toNat := by
  have hwhole : longNote.duration = .finite ⟨2, 1, by decide, by decide, by decide, by decide⟩ := by
    decide +kernel
  have hle : pulse.duration ≤ longNote.duration := by decide +kernel
  have hmultiple : longNote.duration.isWholeMultiple pulse.duration = true := by decide +kernel
  have hcount : longNote.duration.roundedRatio? pulse.duration = some 4 := by decide +kernel
  have hleaves : ∀ leaf ∈ longNote.leaves ++ pulse.leaves, leaf.length.InWholeTicks 6 := by
    decide +kernel
  have hlong : ((Pass.new { ticksPerBeat := 6 }).play longNote 5).1 = .ok 17 := by decide +kernel
  obtain ⟨repeated, hrepeated, haccompany, hends⟩ :=
    parts_end_together hwhole hle hmultiple hcount (by decide)
  obtain rfl : chain .concat .identity 3 pulse = repeated := Except.ok.inj hrepeated
  have hshort : ((Pass.new { ticksPerBeat := 6, channels := 1 }).play
      (chain .concat .identity 3 pulse) 5).1 = .ok 17 := by decide +kernel
  obtain ⟨-, hend⟩ := hends (Pass.new { ticksPerBeat := 6 })
    (Pass.new { ticksPerBeat := 6, channels := 1 }) 5 17 17 rfl hleaves hlong hshort
  exact ⟨_, hwhole, by norm_num [Fraction.value], hle, hmultiple, hcount, by decide, hleaves, _,
    hrepeated, haccompany, hlong, hshort, hend⟩

end Ensemble
end Polyphony
