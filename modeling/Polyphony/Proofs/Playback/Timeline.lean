/-
# Pieces as time lines

What a piece sounds like, said without playing it: over ticks without an upper end, and
with nothing that can go wrong.

| piece | ticks | spans from `s` on |
| --- | --- | --- |
| `note d p i` | the whole ticks of `d` | one, for as long as the note |
| `rest d` | the whole ticks of `d` | none |
| `concat a b` | those of both, added | those of `a`, and those of `b` from the end of `a` on |
| `together a b` | those of the longer one | those of `a` and then those of `b`, from `s` on |
| `forever a` | those of all rounds | those of `a`, once for each round |

A loop has as many rounds as it takes to fill the cap (`Pace.rounds`), and none at all
if its body has no length.

`Piece.cues` is the same walk that keeps every leaf, rests included, so that a leaf that
cannot be played is still seen.  A cue never starts before its piece nor ends after it
(`stop_le_of_mem_cues`), and a piece that takes time has a cue that ends with it
(`exists_cue_stop_eq`): a piece fits below a tick exactly if all of its cues do.
-/

import Polyphony.Duration.Ticks
import Polyphony.Piece.Basic
import Polyphony.Playback.Config
import Mathlib.Data.List.Basic

namespace Polyphony
namespace Playback

/-- What the ticks of a piece depend on. -/
structure Pace where
  /-- Ticks in a beat. -/
  ticksPerBeat : Nat
  /-- Ticks that a loop has to fill. -/
  cap : Nat

/-- The pace that settings ask for. -/
def Config.pace (c : Config) : Pace := ⟨c.ticksPerBeat.toNat, c.maxTicks⟩

/-- How often a body of so many ticks is played until the cap is filled.  A body of no
ticks is played once, if there is anything to fill. -/
def Pace.rounds (pace : Pace) (ticks : Nat) : Nat :=
  if ticks = 0 then min pace.cap 1 else (pace.cap + ticks - 1) / ticks

/-- The rounds fill the cap, and without the last one they would not. -/
theorem Pace.rounds_bounds (pace : Pace) {ticks : Nat} (h : 0 < ticks) :
    pace.cap ≤ pace.rounds ticks * ticks ∧ pace.rounds ticks * ticks < pace.cap + ticks := by
  have hr : pace.rounds ticks = (pace.cap + ticks - 1) / ticks := if_neg (by omega)
  have hdiv := Nat.div_add_mod (pace.cap + ticks - 1) ticks
  have hmod := Nat.mod_lt (pace.cap + ticks - 1) h
  rw [hr, Nat.mul_comm]
  omega

theorem Pace.rounds_pos {pace : Pace} (h : 0 < pace.cap) (ticks : Nat) :
    0 < pace.rounds ticks := by
  rcases Nat.eq_zero_or_pos ticks with rfl | ht
  · simp only [rounds, if_true]
    omega
  · have hb := (pace.rounds_bounds ht).1
    by_contra hn
    rw [Nat.eq_zero_of_not_pos hn, Nat.zero_mul] at hb
    omega

/-- Rounds that start `ticks` apart are the first one and those that start with the second. -/
theorem flatMap_rounds_succ {α : Type} (f : Nat → List α) (start ticks k : Nat) :
    (List.range (k + 1)).flatMap (fun i => f (start + i * ticks)) =
      f start ++ (List.range k).flatMap fun i => f (start + ticks + i * ticks) := by
  rw [List.range_succ_eq_map, List.flatMap_cons, Nat.zero_mul, Nat.add_zero, List.flatMap_map]
  simp only [Nat.succ_mul, Nat.add_assoc, Nat.add_comm ticks]

theorem Config.pace_cap_pos {c : Config} (h : c.problem? = none) : 0 < c.pace.cap := by
  obtain ⟨ht, hb, -, hm⟩ := Config.problem?_eq_none_iff.1 h
  have ht' : 0 < c.ticksPerBeat.toNat := UInt32.lt_iff_toNat_lt.1 (UInt32.pos_iff_ne_zero.2 ht)
  have hb' : 0 < c.beatsPerMinute.toNat :=
    UInt16.lt_iff_toNat_lt.1 (UInt16.pos_iff_ne_zero.2 hb)
  have hm' : 0 < c.maxMinutes.toNat := UInt16.lt_iff_toNat_lt.1 (UInt16.pos_iff_ne_zero.2 hm)
  exact Nat.lt_min.2 ⟨Nat.mul_pos (Nat.mul_pos ht' hb') hm', by decide⟩

/-- A stretch of time in which an instrument holds a key down.  Neither ticks nor keys
are bounded. -/
structure Span where
  /-- Tick at which the key is pressed. -/
  start : Nat
  /-- Tick at which it is released. -/
  stop : Nat
  /-- Number of the key. -/
  key : Int
  /-- Who plays it. -/
  instrument : Instrument
deriving DecidableEq

/-- A leaf of a piece. -/
structure Leaf where
  /-- How long it lasts. -/
  length : Duration
  /-- What is heard in it, if it is not a rest. -/
  sound : Option (Pitch × Instrument)

/-- A leaf and when it is due. -/
structure Cue extends Leaf where
  /-- Tick at which it starts. -/
  start : Nat

namespace Cue

/-- Tick at which a cue ends. -/
def stop (pace : Pace) (c : Cue) : Nat := c.start + c.length.toTicks pace.ticksPerBeat

/-- What is heard of a cue. -/
def span? (pace : Pace) (c : Cue) : Option Span :=
  c.sound.map fun (pitch, instrument) => ⟨c.start, c.stop pace, pitch.keyNumber, instrument⟩

end Cue
end Playback

namespace Piece

open Playback

/-- Ticks that a piece takes. -/
def ticks (pace : Pace) : Piece → Nat
  | .note d _ _ => d.toTicks pace.ticksPerBeat
  | .rest d => d.toTicks pace.ticksPerBeat
  | .concat a b => a.ticks pace + b.ticks pace
  | .together a b => max (a.ticks pace) (b.ticks pace)
  | .forever a =>
    if a.duration.isZero = true ∨ a.ticks pace = 0 then 0
    else pace.rounds (a.ticks pace) * a.ticks pace

/-- Is there no loop in a piece? -/
def isLoopFree : Piece → Bool
  | .note .. => true
  | .rest _ => true
  | .concat a b => a.isLoopFree && b.isLoopFree
  | .together a b => a.isLoopFree && b.isLoopFree
  | .forever _ => false

/-- What is heard of a piece that starts at a tick. -/
def spans (pace : Pace) : Piece → Nat → List Span
  | .note d p i, s => [⟨s, s + d.toTicks pace.ticksPerBeat, p.keyNumber, i⟩]
  | .rest _, _ => []
  | .concat a b, s => a.spans pace s ++ b.spans pace (s + a.ticks pace)
  | .together a b, s => a.spans pace s ++ b.spans pace s
  | .forever a, s =>
    if a.duration.isZero then []
    else if a.ticks pace = 0 then a.spans pace s
    else (List.range (pace.rounds (a.ticks pace))).flatMap fun i =>
      a.spans pace (s + i * a.ticks pace)

/-- All leaves of a piece that starts at a tick, in the order in which they are played. -/
def cues (pace : Pace) : Piece → Nat → List Cue
  | .note d p i, s => [{ length := d, sound := some (p, i), start := s }]
  | .rest d, s => [{ length := d, sound := none, start := s }]
  | .concat a b, s => a.cues pace s ++ b.cues pace (s + a.ticks pace)
  | .together a b, s => a.cues pace s ++ b.cues pace s
  | .forever a, s =>
    if a.duration.isZero then []
    else (List.range (pace.rounds (a.ticks pace))).flatMap fun i =>
      a.cues pace (s + i * a.ticks pace)

/-- The leaves that are ever played: all but those in a loop whose body has no length. -/
def leaves : Piece → List Leaf
  | .note d p i => [⟨d, some (p, i)⟩]
  | .rest d => [⟨d, none⟩]
  | .concat a b => a.leaves ++ b.leaves
  | .together a b => a.leaves ++ b.leaves
  | .forever a => if a.duration.isZero then [] else a.leaves

/-- The instruments that are ever heard. -/
def instruments (p : Piece) : List Instrument :=
  p.leaves.filterMap fun l => l.sound.map Prod.snd

variable {pace : Pace}

/-- What is heard of a piece is heard of its cues. -/
theorem spans_eq_filterMap (h : 0 < pace.cap) (p : Piece) (s : Nat) :
    p.spans pace s = (p.cues pace s).filterMap (Cue.span? pace) := by
  induction p generalizing s with
  | note d p i => rfl
  | rest d => rfl
  | concat a b iha ihb => rw [spans, cues, List.filterMap_append, iha, ihb]
  | together a b iha ihb => rw [spans, cues, List.filterMap_append, iha, ihb]
  | forever a ih =>
    rw [spans, cues]
    split
    · rfl
    · split
      · next h0 =>
        have hr : pace.rounds 0 = 1 := by
          rw [Pace.rounds, if_pos rfl]
          omega
        simp [h0, hr, ih]
      · simp only [List.filterMap_flatMap, ih]

/-- A body of no ticks needs no case of its own. -/
theorem ticks_forever (a : Piece) : (forever a).ticks pace =
    if a.duration.isZero then 0 else pace.rounds (a.ticks pace) * a.ticks pace := by
  rw [ticks]
  by_cases hz : a.duration.isZero <;> by_cases h0 : a.ticks pace = 0 <;> simp [hz, h0]

/-- The leaves of the cues are the leaves that are ever played. -/
theorem mem_leaves_iff (h : 0 < pace.cap) (p : Piece) (s : Nat) (l : Leaf) :
    l ∈ p.leaves ↔ ∃ c ∈ p.cues pace s, c.toLeaf = l := by
  induction p generalizing s with
  | note d p i => simp [leaves, cues, eq_comm]
  | rest d => simp [leaves, cues, eq_comm]
  | concat a b iha ihb =>
    rw [leaves, cues, List.mem_append, iha s, ihb (s + a.ticks pace)]
    simp only [List.mem_append, or_and_right, exists_or]
  | together a b iha ihb =>
    rw [leaves, cues, List.mem_append, iha s, ihb s]
    simp only [List.mem_append, or_and_right, exists_or]
  | forever a ih =>
    rw [leaves, cues]
    split
    · simp
    · simp only [List.mem_flatMap, List.mem_range]
      constructor
      · intro hl
        obtain ⟨c, hc, rfl⟩ := (ih (s + 0 * a.ticks pace)).1 hl
        exact ⟨c, ⟨0, Pace.rounds_pos h _, hc⟩, rfl⟩
      · rintro ⟨c, ⟨i, -, hc⟩, rfl⟩
        exact (ih (s + i * a.ticks pace)).2 ⟨c, hc, rfl⟩

/-- A cue never starts before its piece. -/
theorem start_le_of_mem_cues {p : Piece} {s : Nat} {c : Cue} (hc : c ∈ p.cues pace s) :
    s ≤ c.start := by
  induction p generalizing s with
  | note d p i => exact (List.mem_singleton.1 hc) ▸ Nat.le_refl _
  | rest d => exact (List.mem_singleton.1 hc) ▸ Nat.le_refl _
  | concat a b iha ihb =>
    rcases List.mem_append.1 hc with hc | hc
    · exact iha hc
    · exact Nat.le_of_add_right_le (ihb hc)
  | together a b iha ihb =>
    rcases List.mem_append.1 hc with hc | hc
    · exact iha hc
    · exact ihb hc
  | forever a ih =>
    rw [cues] at hc
    split at hc
    · exact absurd hc List.not_mem_nil
    · obtain ⟨i, -, hc⟩ := List.mem_flatMap.1 hc
      exact Nat.le_of_add_right_le (ih hc)

/-- A cue never ends after its piece. -/
theorem stop_le_of_mem_cues {p : Piece} {s : Nat} {c : Cue} (hc : c ∈ p.cues pace s) :
    c.stop pace ≤ s + p.ticks pace := by
  induction p generalizing s with
  | note d p i => exact (List.mem_singleton.1 hc) ▸ Nat.le_refl _
  | rest d => exact (List.mem_singleton.1 hc) ▸ Nat.le_refl _
  | concat a b iha ihb =>
    rw [ticks]
    rcases List.mem_append.1 hc with hc | hc
    · have := iha hc
      omega
    · have := ihb hc
      omega
  | together a b iha ihb =>
    rw [ticks]
    rcases List.mem_append.1 hc with hc | hc
    · have := iha hc
      omega
    · have := ihb hc
      omega
  | forever a ih =>
    rw [cues] at hc
    rw [ticks_forever]
    split at hc
    · exact absurd hc List.not_mem_nil
    · next hz =>
      obtain ⟨i, hi, hc⟩ := List.mem_flatMap.1 hc
      have hi' : (i + 1) * a.ticks pace ≤ pace.rounds (a.ticks pace) * a.ticks pace :=
        Nat.mul_le_mul_right _ (List.mem_range.1 hi)
      have := ih hc
      rw [Nat.add_mul, Nat.one_mul] at hi'
      rw [if_neg hz]
      omega

/-- A span stays within its piece. -/
theorem bounds_of_mem_spans (h : 0 < pace.cap) {p : Piece} {s : Nat} {span : Span}
    (hs : span ∈ p.spans pace s) : s ≤ span.start ∧ span.stop ≤ s + p.ticks pace := by
  rw [spans_eq_filterMap h] at hs
  obtain ⟨c, hc, hs⟩ := List.mem_filterMap.1 hs
  obtain ⟨_, -, rfl⟩ := Option.map_eq_some_iff.1 hs
  exact ⟨start_le_of_mem_cues hc, stop_le_of_mem_cues hc⟩

/-- A piece that takes time has a cue that ends with it. -/
theorem exists_cue_stop_eq {p : Piece} (s : Nat) (h : 0 < p.ticks pace) :
    ∃ c ∈ p.cues pace s, c.stop pace = s + p.ticks pace := by
  induction p generalizing s with
  | note d p i => exact ⟨_, List.mem_singleton_self _, rfl⟩
  | rest d => exact ⟨_, List.mem_singleton_self _, rfl⟩
  | concat a b iha ihb =>
    rw [ticks] at h ⊢
    rcases Nat.eq_zero_or_pos (b.ticks pace) with hb | hb
    · obtain ⟨c, hc, he⟩ := iha s (by omega)
      exact ⟨c, List.mem_append_left _ hc, by omega⟩
    · obtain ⟨c, hc, he⟩ := ihb (s + a.ticks pace) hb
      exact ⟨c, List.mem_append_right _ hc, by omega⟩
  | together a b iha ihb =>
    rw [ticks] at h ⊢
    rcases Nat.le_total (a.ticks pace) (b.ticks pace) with hab | hab
    · obtain ⟨c, hc, he⟩ := ihb s (by omega)
      exact ⟨c, List.mem_append_right _ hc, by omega⟩
    · obtain ⟨c, hc, he⟩ := iha s (by omega)
      exact ⟨c, List.mem_append_left _ hc, by omega⟩
  | forever a ih =>
    rw [ticks_forever] at h ⊢
    rw [cues]
    split at h
    · exact absurd h (Nat.lt_irrefl 0)
    · next hz =>
      have ha := Nat.pos_of_mul_pos_left h
      have hr := Nat.pos_of_mul_pos_right h
      obtain ⟨c, hc, he⟩ := ih (s + (pace.rounds (a.ticks pace) - 1) * a.ticks pace) ha
      have hm : (pace.rounds (a.ticks pace) - 1) * a.ticks pace + a.ticks pace =
          pace.rounds (a.ticks pace) * a.ticks pace := by
        rw [← Nat.succ_mul, Nat.succ_eq_add_one, Nat.sub_add_cancel (Nat.succ_le_of_lt hr)]
      rw [if_neg hz, if_neg hz]
      exact ⟨c, List.mem_flatMap.2 ⟨_, List.mem_range.2 (by omega), hc⟩, by omega⟩

/-- A piece ends by a tick exactly if all of its cues do. -/
theorem add_ticks_le_iff {p : Piece} {s last : Nat} (hs : s ≤ last) :
    s + p.ticks pace ≤ last ↔ ∀ c ∈ p.cues pace s, c.stop pace ≤ last := by
  constructor
  · intro h c hc
    exact Nat.le_trans (stop_le_of_mem_cues hc) h
  · intro h
    rcases Nat.eq_zero_or_pos (p.ticks pace) with h0 | h0
    · omega
    · obtain ⟨c, hc, he⟩ := exists_cue_stop_eq s h0
      exact he ▸ h c hc

end Piece
end Polyphony
