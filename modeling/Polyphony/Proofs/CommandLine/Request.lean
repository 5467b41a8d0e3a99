/-
# What a command line asks for

From the items of a command line alone one can say how many ticks and notes it asks for,
without reading the score as a piece and without playing it:

| | ticks | notes |
| --- | --- | --- |
| score | those of its symbols, each cut down to whole ticks | its symbols with a pitch |
| all voices | `repeats` scores, `voices - 1` pauses | `repeats * voices` times as many |

The options that are read ask for the same (`metBy_of_read`).  A setting without a value has
its default, and one repetition is as good as none.
-/

import Mathlib.Algebra.Ring.Nat
import Polyphony.Notation.Score
import Polyphony.Proofs.CommandLine.Reading
import Polyphony.Proofs.Notation.Reading

namespace Polyphony
namespace CommandLine

open Playback

/-- What a command line asks for, as far as ticks and notes depend on it. -/
structure Request where
  /-- The symbols of the score. -/
  signs : List Text
  /-- Repetitions of the score. -/
  repeats : Nat
  /-- Voices of the round. -/
  voices : Nat
  /-- Pause between the voices. -/
  pause : Duration
  /-- Is the piece repeated without end? -/
  endless : Bool
  /-- Ticks in a beat. -/
  ticksPerBeat : Nat
  /-- Beats in a minute. -/
  beatsPerMinute : Nat
  /-- Minutes that a piece without end has to fill. -/
  minutes : Nat

namespace Request

/-- The request of a command line.  Unless it says otherwise there is one repetition and one
voice, and the voices of a round are four beats apart. -/
def ofArguments (arguments : List Text) : Request :=
  let items := Item.ofArguments arguments
  { signs := (items.filterMap Item.word?).flatMap Notation.tokens
    repeats := ((Item.asked? (.quantity .repeats) items).getD 1).toNat
    voices := ((Item.asked? (.quantity .voices) items).getD 1).toNat
    pause := (Item.asked? .pause items).getD (.ofBeats 4)
    endless := decide (.flag .endless ∈ items)
    ticksPerBeat := ((Item.asked? (.quantity .ticksPerBeat) items).getD 64).toNat
    beatsPerMinute := ((Item.asked? (.quantity .beatsPerMinute) items).getD 120).toNat
    minutes := ((Item.asked? (.quantity .minutes) items).getD 10).toNat }

/-- Ticks of the score. -/
def scoreTicks (r : Request) : Nat :=
  (r.signs.map fun sign => (Notation.lengthOf sign).toTicks r.ticksPerBeat).sum

/-- Notes of the score. -/
def scoreNotes (r : Request) : Nat := r.signs.countP Notation.isPitched

/-- Ticks until the last voice ends. -/
def ticks (r : Request) : Nat :=
  r.repeats * r.scoreTicks + (r.voices - 1) * r.pause.toTicks r.ticksPerBeat

/-- Notes of all voices. -/
def notes (r : Request) : Nat := r.scoreNotes * r.repeats * r.voices

/-- Ticks that a piece without end has to fill. -/
def cap (r : Request) : Nat := min (r.ticksPerBeat * r.beatsPerMinute * r.minutes) lastTick

/-- Rounds that it takes to fill them. -/
def rounds (r : Request) : Nat := (r.cap + r.ticks - 1) / r.ticks

/-- Options ask for the same. -/
structure MetBy (r : Request) (o : Options) : Prop where
  signs : Notation.tokens o.score = r.signs
  repeats : o.repeats - 1 + 1 = r.repeats
  voices : o.voices - 1 + 1 = r.voices
  pause : o.pause = r.pause
  endless : o.endless = r.endless
  pace : o.config.pace = ⟨r.ticksPerBeat, r.cap⟩
  start : o.config.start = 0

end Request

variable {arguments : List Text} {o : Options}

/-- A score that grows by a word grows by the symbols of the word. -/
theorem tokens_growScore (score word : Text) :
    Notation.tokens (growScore score word) = Notation.tokens score ++ Notation.tokens word := by
  unfold growScore
  split
  · next h =>
    subst h
    rfl
  · exact Notation.tokens_append_delimiter score word (by decide)

/-- A score has the symbols of its words. -/
theorem tokens_foldl_growScore (words : List Text) (score : Text) :
    Notation.tokens (words.foldl growScore score) =
      Notation.tokens score ++ words.flatMap Notation.tokens := by
  induction words generalizing score with
  | nil => exact (List.append_nil _).symm
  | cons word words ih =>
    rw [List.foldl_cons, ih, tokens_growScore, List.flatMap_cons, List.append_assoc]

/-- A count that is left at zero unless one in range is asked for. -/
theorem sub_one_add_one_eq {count : Nat} {q : Quantity} {items : List Item}
    (hq : q.lowest = 1) (h : (count : Int) = (Item.asked? (.quantity q) items).getD (0 : Int)) :
    count - 1 + 1 = ((Item.asked? (.quantity q) items).getD (1 : Int)).toNat := by
  cases hn : Item.asked? (.quantity q) items with
  | none =>
    rw [hn] at h
    obtain rfl : count = 0 := Int.ofNat.inj h
    rfl
  | some n =>
    rw [hn] at h
    have hcount : (count : Int) = n := h
    have hlo : q.lowest ≤ n := (Item.bounds_of_asked hn).1
    show count - 1 + 1 = n.toNat
    omega

/-- **Options that are read ask for the same as the command line.** -/
theorem metBy_of_read (h : Options.read arguments = .ok o) :
    (Request.ofArguments arguments).MetBy o := by
  have hh := holds_of_read h
  have hnumber : ∀ {n : Nat} {z : Int}, (n : Int) = z → n = z.toNat := by omega
  have hticks := hnumber (hh.get_eq (.quantity .ticksPerBeat))
  have hbeats := hnumber (hh.get_eq (.quantity .beatsPerMinute))
  have hminutes := hnumber (hh.get_eq (.quantity .minutes))
  refine ⟨?_, ?_, ?_, hh.get_eq .pause, ?_, ?_, hh.start⟩
  · rw [hh.score, tokens_foldl_growScore]
    rfl
  · exact sub_one_add_one_eq rfl (hh.get_eq (.quantity .repeats))
  · exact sub_one_add_one_eq rfl (hh.get_eq (.quantity .voices))
  · rw [Bool.eq_iff_iff]
    exact (hh.flags .endless).trans decide_eq_true_iff.symm
  · rw [Config.pace, Config.maxTicks, hticks, hbeats, hminutes]
    rfl

end CommandLine
end Polyphony
