/-
# Sequences may be regrouped

For the ear `concat` is associative and has silence of no length as its unit, wherever in a
piece it stands (`Piece.Regrouped`).  Pieces that differ by nothing else are played alike from
any state (`Pass.play_regrouped`), although not all that is known of them is the same:

| of a piece | when it is regrouped |
| --- | --- |
| its ticks | stay |
| whether its length is zero | stays |
| its length | may grow too large, or fit again |
| its cues | gain or lose silences |

Lengths are added up in the order of the nesting, and a sum that grew too large stays so.  A
loop does not ask how long its body is, though, but only whether it has any length, and a sum
is zero in one order exactly if it is in all others.

As the cues are not the same, it is runs of them that are compared (`Alike`).  A silence leaves
nothing on a tape if it is due by the last tick, and it is, where all before it went through
(`Tape.add_ticks_le_of_run`).
-/

import Polyphony.Proofs.Duration.Zero
import Polyphony.Proofs.Playback.Sequence

namespace Polyphony

/-- Pieces that differ by the nesting of `concat`s and by silences of no length in them, at
any places. -/
inductive Piece.Regrouped : Piece → Piece → Prop where
  | refl (p : Piece) : Regrouped p p
  | symm {p q : Piece} (h : Regrouped p q) : Regrouped q p
  | trans {p q r : Piece} (h : Regrouped p q) (h' : Regrouped q r) : Regrouped p r
  | assoc (a b c : Piece) : Regrouped (.concat (.concat a b) c) (.concat a (.concat b c))
  | silence_concat (p : Piece) : Regrouped (.concat silence p) p
  | concat_silence (p : Piece) : Regrouped (.concat p silence) p
  | concat {a a' b b' : Piece} (ha : Regrouped a a') (hb : Regrouped b b') :
    Regrouped (.concat a b) (.concat a' b')
  | together {a a' b b' : Piece} (ha : Regrouped a a') (hb : Regrouped b b') :
    Regrouped (.together a b) (.together a' b')
  | forever {a a' : Piece} (ha : Regrouped a a') : Regrouped (.forever a) (.forever a')

namespace Playback

namespace Tape

variable {pace : Pace} {capacity : UInt8} {tape tape' : Tape}

/-- Runs that agree are continued alike by cues that agree on what is left where the first ones
go through. -/
theorem run_append_congr {xs xs' ys ys' : List Cue}
    (hx : run pace capacity xs tape = run pace capacity xs' tape)
    (hy : ∀ reached, run pace capacity xs tape = (none, reached) →
      run pace capacity ys reached = run pace capacity ys' reached) :
    run pace capacity (xs ++ ys) tape = run pace capacity (xs' ++ ys') tape := by
  rcases h : run pace capacity xs tape with ⟨_ | fault, reached⟩
  · rw [run_append h, run_append (hx.symm.trans h)]
    exact hy reached h
  · rw [run_append_of_fault h, run_append_of_fault (hx.symm.trans h)]

/-- A piece whose cues go through ends by the last tick. -/
theorem add_ticks_le_of_run {p : Piece} {s : Nat} (hs : s ≤ lastTick)
    (h : run pace capacity (p.cues pace s) tape = (none, tape')) :
    s + p.ticks pace ≤ lastTick := by
  refine (Piece.add_ticks_le_iff hs).2 fun c hc => ?_
  exact (Cue.fault?_eq_none_iff.1 ((heard_of_run h).1 c hc)).2.2

end Tape

/-- Pieces that take the same ticks and leave the same on any tape, from any tick on. -/
structure Alike (pace : Pace) (p q : Piece) : Prop where
  isZero_iff : p.duration.isZero = true ↔ q.duration.isZero = true
  ticks_eq : p.ticks pace = q.ticks pace
  run_eq : ∀ {s : Nat}, s ≤ lastTick → ∀ (capacity : UInt8) (tape : Tape),
    Tape.run pace capacity (p.cues pace s) tape = Tape.run pace capacity (q.cues pace s) tape

namespace Alike

variable {pace : Pace} {p q r a a' b b' : Piece}

theorem refl (p : Piece) : Alike pace p p := ⟨Iff.rfl, rfl, fun _ _ _ => rfl⟩

theorem symm (h : Alike pace p q) : Alike pace q p where
  isZero_iff := h.isZero_iff.symm
  ticks_eq := h.ticks_eq.symm
  run_eq hs capacity tape := (h.run_eq hs capacity tape).symm

theorem trans (h : Alike pace p q) (h' : Alike pace q r) : Alike pace p r where
  isZero_iff := h.isZero_iff.trans h'.isZero_iff
  ticks_eq := h.ticks_eq.trans h'.ticks_eq
  run_eq hs capacity tape := (h.run_eq hs capacity tape).trans (h'.run_eq hs capacity tape)

theorem assoc (a b c : Piece) :
    Alike pace (.concat (.concat a b) c) (.concat a (.concat b c)) where
  isZero_iff := by simp only [Piece.duration, Duration.isZero_add_iff, and_assoc]
  ticks_eq := by simp only [Piece.ticks, Nat.add_assoc]
  run_eq _ _ _ := by simp only [Piece.cues, Piece.ticks, List.append_assoc, Nat.add_assoc]

theorem silence_concat (p : Piece) : Alike pace (.concat .silence p) p where
  isZero_iff := by
    simp only [Piece.duration, Duration.isZero_add_iff]
    exact and_iff_right rfl
  ticks_eq := by rw [Piece.ticks, Piece.ticks_silence, Nat.zero_add]
  run_eq hs _ tape := by
    rw [Piece.cues, Piece.ticks_silence, Nat.add_zero]
    exact Tape.run_silence hs _ tape

theorem concat_silence (p : Piece) : Alike pace (.concat p .silence) p where
  isZero_iff := by
    simp only [Piece.duration, Duration.isZero_add_iff]
    exact and_iff_left rfl
  ticks_eq := by rw [Piece.ticks, Piece.ticks_silence, Nat.add_zero]
  run_eq {s} hs capacity tape := by
    rw [Piece.cues, ← List.append_nil (p.cues pace s), List.append_assoc]
    refine Tape.run_append_congr rfl fun reached h => ?_
    exact Tape.run_silence (Tape.add_ticks_le_of_run hs h) [] reached

theorem concat (ha : Alike pace a a') (hb : Alike pace b b') :
    Alike pace (.concat a b) (.concat a' b') where
  isZero_iff := by
    simp only [Piece.duration, Duration.isZero_add_iff, ha.isZero_iff, hb.isZero_iff]
  ticks_eq := by rw [Piece.ticks, Piece.ticks, ha.ticks_eq, hb.ticks_eq]
  run_eq hs capacity tape := by
    rw [Piece.cues, Piece.cues, ← ha.ticks_eq]
    exact Tape.run_append_congr (ha.run_eq hs capacity tape) fun reached h =>
      hb.run_eq (Tape.add_ticks_le_of_run hs h) capacity reached

theorem together (ha : Alike pace a a') (hb : Alike pace b b') :
    Alike pace (.together a b) (.together a' b') where
  isZero_iff := by
    simp only [Piece.duration, Duration.isZero_max_iff, ha.isZero_iff, hb.isZero_iff]
  ticks_eq := by rw [Piece.ticks, Piece.ticks, ha.ticks_eq, hb.ticks_eq]
  run_eq hs capacity tape := by
    rw [Piece.cues, Piece.cues]
    exact Tape.run_append_congr (ha.run_eq hs capacity tape) fun reached _ =>
      hb.run_eq hs capacity reached

/-- Rounds of bodies that leave the same leave the same. -/
theorem run_rounds_eq (h : Alike pace a a') (count : Nat) {s : Nat} (hs : s ≤ lastTick)
    (capacity : UInt8) (tape : Tape) :
    Tape.run pace capacity ((List.range count).flatMap fun i =>
        a.cues pace (s + i * a.ticks pace)) tape =
      Tape.run pace capacity ((List.range count).flatMap fun i =>
        a'.cues pace (s + i * a.ticks pace)) tape := by
  induction count generalizing s tape with
  | zero => rfl
  | succ count ih =>
    rw [flatMap_rounds_succ (a.cues pace), flatMap_rounds_succ (a'.cues pace)]
    exact Tape.run_append_congr (h.run_eq hs capacity tape) fun reached hr =>
      ih (Tape.add_ticks_le_of_run hs hr) reached

theorem forever (h : Alike pace a a') : Alike pace (.forever a) (.forever a') where
  isZero_iff := Iff.rfl
  ticks_eq := by simp only [Piece.ticks_forever, h.isZero_iff, h.ticks_eq]
  run_eq hs capacity tape := by
    rw [Piece.cues, Piece.cues, ← h.ticks_eq]
    simp only [h.isZero_iff]
    split
    · rfl
    · exact h.run_rounds_eq _ hs capacity tape

/-- Alike pieces end alike and leave the same. -/
theorem play_eq (pass : Pass) (h : Alike pass.config.pace p q) (start : Tick) :
    (pass.play p start).1 = (pass.play q start).1 ∧
      (pass.play p start).2.tape = (pass.play q start).2.tape :=
  Pass.play_agree h.ticks_eq (h.run_eq (Nat.le_of_lt_succ start.toNat_lt) _ _)

end Alike

end Playback

namespace Piece.Regrouped

open Playback

variable {p q : Piece}

/-- **Regrouped pieces are alike.** -/
theorem alike {pace : Pace} (h : p.Regrouped q) : Alike pace p q := by
  induction h with
  | refl p => exact .refl p
  | symm _ ih => exact ih.symm
  | trans _ _ ih ih' => exact ih.trans ih'
  | assoc a b c => exact .assoc a b c
  | silence_concat p => exact .silence_concat p
  | concat_silence p => exact .concat_silence p
  | concat _ _ iha ihb => exact iha.concat ihb
  | together _ _ iha ihb => exact iha.together ihb
  | forever _ ih => exact ih.forever

end Piece.Regrouped

namespace Playback

/-- **Sequences may be regrouped.**  From any state and any tick, pieces that differ by the
nesting of `concat`s and by silences in them end alike, with the same fault or at the same
tick, and leave the same events, channels and failure. -/
theorem Pass.play_regrouped {p q : Piece} (h : p.Regrouped q) (pass : Pass) (start : Tick) :
    (pass.play p start).1 = (pass.play q start).1 ∧
      (pass.play p start).2.events = (pass.play q start).2.events ∧
      (pass.play p start).2.channels = (pass.play q start).2.channels ∧
      (pass.play p start).2.nextChannel = (pass.play q start).2.nextChannel ∧
      (pass.play p start).2.failure? = (pass.play q start).2.failure? ∧
      (pass.play p start).2.message = (pass.play q start).2.message := by
  obtain ⟨hout, htape⟩ := h.alike.play_eq pass start
  have hfault : (pass.play p start).2.fault = (pass.play q start).2.fault :=
    congrArg Tape.fault htape
  have hremark : (pass.play p start).2.remark = (pass.play q start).2.remark :=
    congrArg Tape.remark htape
  refine ⟨hout, ?_, congrArg Tape.channels htape, congrArg Tape.nextChannel htape, ?_, ?_⟩
  · exact Array.toList_inj.1 (congrArg Tape.events htape)
  · rw [failure?, failure?, hfault]
  · rw [message, message, hfault, hremark]

/-- Two grace notes and the rest of a beat.  The notes last no tick, and the sum of their
lengths is too fine to be held, while the second one and the rest are a beat. -/
def graceNotes : Piece :=
  .concat
    (.concat (.note (.reduce 1 10000000000 (by decide)) ⟨-12⟩ .cello)
      (.note (.reduce 1 10000000001 (by decide)) ⟨0⟩ .violin))
    (.rest (.reduce 10000000000 10000000001 (by decide)))

/-- The same, grouped from the right and behind a silence. -/
def graceNotesRegrouped : Piece :=
  .concat .silence
    (.concat (.note (.reduce 1 10000000000 (by decide)) ⟨-12⟩ .cello)
      (.concat (.note (.reduce 1 10000000001 (by decide)) ⟨0⟩ .violin)
        (.rest (.reduce 10000000000 10000000001 (by decide)))))

/-- One grouping is too long to be held and the other is not, and their loops are alike. -/
theorem Pass.play_regrouped_graceNotes :
    (Piece.forever graceNotes).Regrouped (.forever graceNotesRegrouped) ∧
      graceNotes.duration.isOverflow = true ∧ graceNotesRegrouped.duration.isOverflow = false ∧
      ((Pass.new sixTicks).play (.forever graceNotes) 1).1 = .ok 7 ∧
      ((Pass.new sixTicks).play (.forever graceNotesRegrouped) 1).1 = .ok 7 ∧
      ((Pass.new sixTicks).play (.forever graceNotes) 1).2.events =
        ((Pass.new sixTicks).play (.forever graceNotesRegrouped) 1).2.events := by
  have hgroup : (Piece.forever graceNotes).Regrouped (.forever graceNotesRegrouped) :=
    .forever ((Piece.Regrouped.assoc _ _ _).trans (.symm (.silence_concat _)))
  obtain ⟨hout, hevents, -⟩ := Pass.play_regrouped hgroup (Pass.new sixTicks) 1
  have hplay : ((Pass.new sixTicks).play (.forever graceNotes) 1).1 = .ok 7 := by
    decide +kernel
  exact ⟨hgroup, by decide +kernel, by decide +kernel, hplay, hout.symm.trans hplay, hevents⟩

end Playback
end Polyphony
