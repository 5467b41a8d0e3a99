/-
# One voice

A piece in which nothing sounds at once with anything else is played by pressing and releasing
one key after the other (`alternating_of_record`), also where one note begins in the very tick
in which another ends, and where a note takes no tick at all.

| | because |
| --- | --- |
| of two spans, the first ends before the second begins, or with it | every part of the piece starts where the last one ended |
| the emitted notes never fall in tick | a span begins before it ends, or with it |
| the schedule has the notes as they were emitted | putting events in the order of their ticks moves none of those |

The program changes are emitted among the notes and stand first in the schedule.  They pass the
notes by and leave their order as it is.
-/

import Polyphony.Proofs.Playback.Playability
import Polyphony.Proofs.Schedule.TickOrder

namespace Polyphony

/-- Does nothing in a piece sound at once with anything else? -/
def Piece.isOneVoice : Piece → Bool
  | .note .. => true
  | .rest _ => true
  | .concat a b => a.isOneVoice && b.isOneVoice
  | .together .. => false
  | .forever a => a.isOneVoice

/-- Events that press a key and release it on the same channel before anything else happens,
over and over. -/
def Alternating : List Event → Prop
  | [] => True
  | [_] => False
  | on :: off :: events =>
    (on.kind = .noteOn ∧ off.kind = .noteOff ∧ off.channel = on.channel ∧ off.data = on.data) ∧
      Alternating events

namespace Piece

open Playback

variable {pace : Pace}

/-- In one voice no span begins before an earlier one has ended. -/
theorem pairwise_spans (hcap : 0 < pace.cap) {p : Piece} (h : p.isOneVoice = true) (s : Nat) :
    (p.spans pace s).Pairwise fun x y => x.stop ≤ y.start := by
  induction p generalizing s with
  | note d pitch i => exact List.pairwise_singleton _ _
  | rest d => exact List.Pairwise.nil
  | concat a b iha ihb =>
    obtain ⟨ha, hb⟩ := (Bool.and_eq_true ..).mp h
    refine List.pairwise_append.2 ⟨iha ha s, ihb hb _, fun x hx y hy => ?_⟩
    exact (bounds_of_mem_spans hcap hx).2.trans (bounds_of_mem_spans hcap hy).1
  | together => cases h
  | forever a ih =>
    rw [spans]
    split
    · exact List.Pairwise.nil
    · split
      · exact ih h s
      · refine List.pairwise_flatMap.2 ⟨fun i _ => ih h _, List.pairwise_lt_range.imp ?_⟩
        intro i j hij x hx y hy
        have hround : (i + 1) * a.ticks pace ≤ j * a.ticks pace := Nat.mul_le_mul_right _ hij
        have hstop := (bounds_of_mem_spans hcap hx).2
        have hstart := (bounds_of_mem_spans hcap hy).1
        rw [Nat.add_mul, Nat.one_mul] at hround
        omega

end Piece

namespace Playback

/-- The events of spans that follow one another never fall in tick. -/
theorem pairwise_tick_of_pairwise_spans {spans : List Span} (hfits : ∀ span ∈ spans, span.Fits)
    (h : spans.Pairwise fun x y => x.stop ≤ y.start) (channelOf : Instrument → Channel) :
    (spans.flatMap fun span => span.events (channelOf span.instrument)).Pairwise
      fun a b => a.tick ≤ b.tick := by
  refine List.pairwise_flatMap.2 ⟨fun span hspan => ?_, h.imp_of_mem ?_⟩
  · have hf := hfits span hspan
    refine List.pairwise_pair.2 (UInt32.le_iff_toNat_le.2 ?_)
    rw [hf.toNat_start, hf.toNat_stop]
    exact hf.start_le
  · intro x y hx hy hxy a ha b hb
    have hstop := ((hfits x hx).bounds_of_mem_events ha).2.2
    have hstart := ((hfits y hy).bounds_of_mem_events hb).2.1
    exact UInt32.le_iff_toNat_le.2 (hstop.trans (hxy.trans hstart))

theorem alternating_flatMap_events (spans : List Span) (channelOf : Instrument → Channel) :
    Alternating (spans.flatMap fun span => span.events (channelOf span.instrument)) := by
  induction spans with
  | nil => trivial
  | cons span spans ih => exact ⟨⟨rfl, rfl, rfl, rfl⟩, ih⟩

namespace Rendition

variable {channels : ChannelTable} {events : List Event} {spans : List Span}

/-- What is emitted for spans are notes and program changes. -/
theorem isNote_iff_ne_programChange (h : Rendition spans channels events) {e : Event}
    (he : e ∈ events) : e.isNote = true ↔ e.kind ≠ .programChange := by
  rw [h.events_eq] at he
  rcases mem_transcript.1 he with ⟨span, -, he⟩ | ⟨i, -, rfl⟩
  · have hnote := (isNote_of_mem_events he).2
    refine iff_of_true (Event.isNote_iff.2 hnote) fun hprogram => ?_
    rw [hprogram] at hnote
    simp at hnote
  · exact iff_of_false Bool.false_ne_true fun hne => hne rfl

/-- The notes of spans that follow one another stay as they were emitted when all events are put
in the order of their ticks. -/
theorem notes_inTickOrder (h : Rendition spans channels events)
    (hspans : spans.Pairwise fun x y => x.stop ≤ y.start) :
    (Schedule.inTickOrder events).filter (fun e => e.kind ≠ .programChange) =
      spans.flatMap fun span => span.events (channels.channelOf span.instrument) := by
  have hnotes : (Schedule.inTickOrder events).filter (fun e => e.kind ≠ .programChange) =
      (Schedule.inTickOrder events).filter Event.isNote := by
    refine List.filter_congr fun e he => ?_
    have hiff := h.isNote_iff_ne_programChange ((Schedule.inTickOrder_perm events).mem_iff.1 he)
    exact Bool.eq_iff_iff.2 (decide_eq_true_iff.trans hiff.symm)
  have hticks : (events.filter Event.isNote).Pairwise fun a b => a.tick ≤ b.tick := by
    rw [h.notes_eq]
    exact pairwise_tick_of_pairwise_spans h.fits hspans _
  rw [hnotes, Schedule.filter_inTickOrder hticks, h.notes_eq]

end Rendition

/-- **One voice never overlaps itself.**  What a device is told of a piece in one voice, besides
the programs, is to press a key and then to release it, again and again, once for each note of
the piece and in the order of the piece. -/
theorem alternating_of_record {piece : Piece} {config : Config} {schedule : Schedule}
    {stop : Tick} (hvoice : piece.isOneVoice = true)
    (h : (record piece config).outcome = .ok (schedule, stop)) :
    Alternating (schedule.events.filter fun e => e.kind ≠ .programChange) ∧
      schedule.events.filter (fun e => e.kind ≠ .programChange) =
        (piece.spans config.pace config.start.toNat).flatMap fun span =>
          span.events (schedule.channels.channelOf span.instrument) := by
  obtain ⟨hconfig, pass, hplay, rfl⟩ := outcome_eq_ok_iff.1 h
  have hspans := Piece.pairwise_spans (Config.pace_cap_pos hconfig) hvoice config.start.toNat
  have hnotes : pass.take.1.events.filter (fun e => e.kind ≠ .programChange) = _ :=
    (Pass.rendition_of_fresh hconfig hplay).notes_inTickOrder hspans
  refine ⟨?_, hnotes⟩
  rw [hnotes]
  exact alternating_flatMap_events _ _

/-- A violin begins where it ends, and a cello goes over to the next note on the same key. -/
def ostinato : Piece :=
  .concat (.note .zero ⟨0⟩ .violin)
    (.forever (.concat (.note (.ofBeats 1) ⟨-12⟩ .cello) (.note (.ofBeats 1) ⟨-12⟩ .cello)))

/-- The bass is played twice, so there are five notes, and four of them meet on one key. -/
theorem alternating_of_ostinato : ostinato.isOneVoice = true ∧
    (record ostinato sixTicks).outcome = .ok ((record ostinato sixTicks).schedule, 9) ∧
    (ostinato.spans sixTicks.pace 1).map Span.key = [60, 48, 48, 48, 48] ∧
    Alternating
      ((record ostinato sixTicks).schedule.events.filter fun e => e.kind ≠ .programChange) ∧
    (record ostinato sixTicks).schedule.events.filter (fun e => e.kind ≠ .programChange) =
      (ostinato.spans sixTicks.pace 1).flatMap fun span =>
        span.events ((record ostinato sixTicks).schedule.channels.channelOf span.instrument) := by
  have hvoice : ostinato.isOneVoice = true := by decide
  have hrecord : (record ostinato sixTicks).outcome =
      .ok ((record ostinato sixTicks).schedule, 9) :=
    outcome_of_play (by decide) (by decide +kernel)
  exact ⟨hvoice, hrecord, by decide +kernel, alternating_of_record hvoice hrecord⟩

end Playback
end Polyphony
