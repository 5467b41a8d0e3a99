/-
# How many notes are played

`Piece.notes` counts the notes of a piece, those of a loop once for each round.  A recorded
schedule presses and releases that many keys (`count_of_record`) and ends after the ticks of
its piece (`toNat_of_record`).

A count does not see where notes are put or how high they are, so every item of a series has
the notes of the first one (`notes_chain`).
-/

import Polyphony.Proofs.Ensemble.Chain
import Polyphony.Proofs.Playback.Playability
import Polyphony.Proofs.Playback.Sequence

namespace Polyphony

open Playback

variable {pace : Pace}

namespace Piece

/-- Notes that are played in a piece. -/
def notes (pace : Pace) : Piece → Nat
  | .note .. => 1
  | .rest _ => 0
  | .concat a b => a.notes pace + b.notes pace
  | .together a b => a.notes pace + b.notes pace
  | .forever a =>
    if a.duration.isZero then 0
    else if a.ticks pace = 0 then a.notes pace
    else pace.rounds (a.ticks pace) * a.notes pace

@[simp] theorem notes_silence : silence.notes pace = 0 := rfl

/-- A span is heard for each note. -/
theorem length_spans (p : Piece) (s : Nat) : (p.spans pace s).length = p.notes pace := by
  induction p generalizing s with
  | note => rfl
  | rest => rfl
  | concat a b iha ihb => rw [spans, notes, List.length_append, iha, ihb]
  | together a b iha ihb => rw [spans, notes, List.length_append, iha, ihb]
  | forever a ih =>
    rw [spans, notes]
    split
    · rfl
    · split
      · exact ih s
      · rw [List.length_flatMap]
        simp only [ih, List.map_const', List.length_range, List.sum_replicate_nat]

theorem notes_row (p : Piece) (ps : List Piece) :
    (p.row ps).notes pace = p.notes pace + (ps.map (notes pace)).sum := by
  induction ps generalizing p with
  | nil => rfl
  | cons q ps ih =>
    have h := ih (.concat p q)
    rw [notes] at h
    rw [List.map_cons, List.sum_cons, ← Nat.add_assoc, ← h]
    rfl

theorem ticks_shiftNotes (p : Piece) (shift : Int) :
    (p.shiftNotes shift).ticks pace = p.ticks pace := by
  induction p with
  | note | rest => rfl
  | concat a b iha ihb => rw [shiftNotes, ticks, ticks, iha, ihb]
  | together a b iha ihb => rw [shiftNotes, ticks, ticks, iha, ihb]
  | forever a ih => rw [shiftNotes, ticks, ticks, duration_shiftNotes, ih]

theorem notes_shiftNotes (p : Piece) (shift : Int) :
    (p.shiftNotes shift).notes pace = p.notes pace := by
  induction p with
  | note | rest => rfl
  | concat a b iha ihb => rw [shiftNotes, notes, notes, iha, ihb]
  | together a b iha ihb => rw [shiftNotes, notes, notes, iha, ihb]
  | forever a ih => rw [shiftNotes, notes, notes, duration_shiftNotes, ticks_shiftNotes, ih]

end Piece

namespace Ensemble

/-- A transform neither adds nor drops a note. -/
theorem Transform.notes_apply (f : Transform) (p : Piece) :
    (f.apply p).notes pace = p.notes pace := by
  induction f generalizing p with
  | identity => rfl
  | transpose shift => rw [apply, Piece.transpose_eq, Piece.notes_shiftNotes]
  | delay pause => exact Nat.zero_add _
  | compose first second ihf ihs => rw [apply, ihs, ihf]

/-- A series has the notes of its first item once for each item. -/
theorem notes_chain (joining : Joining) (f : Transform) (more : Nat) (p : Piece) :
    (chain joining f more p).notes pace = (more + 1) * p.notes pace := by
  induction more generalizing p with
  | zero => rw [chain, Nat.zero_add, Nat.one_mul]
  | succ more ih =>
    have hjoin : ∀ a b, (joining.join a b).notes pace = a.notes pace + b.notes pace := by
      cases joining <;> intro a b <;> rfl
    rw [chain, hjoin, ih, f.notes_apply, Nat.succ_mul (more + 1), Nat.add_comm]

end Ensemble

namespace Playback

/-- A kind of event that a key takes part in comes once for each span. -/
theorem Rendition.countP_kind {spans : List Span} {channels : ChannelTable}
    {events : List Event} (h : Rendition spans channels events) {kind : EventKind}
    (hkind : kind = .noteOn ∨ kind = .noteOff) :
    (events.countP fun e => e.kind == kind) = spans.length := by
  have hspan : ∀ span : Span, ((span.events (channels.channelOf span.instrument)).countP
      fun e => e.kind == kind) = 1 := by
    intro span
    rcases hkind with rfl | rfl <;> rfl
  have hnote : ∀ e ∈ events, (e.kind == kind) = true ↔
      ((e.kind == kind) && e.isNote) = true := by
    intro e _
    simp only [Bool.and_eq_true, beq_iff_eq, Event.isNote_iff, iff_self_and]
    rintro rfl
    exact hkind
  rw [List.countP_congr hnote, ← List.countP_filter, h.notes_eq, List.countP_flatMap]
  simp only [Function.comp_def, hspan, List.map_const', List.sum_replicate_nat, Nat.mul_one]

variable {piece : Piece} {config : Config} {schedule : Schedule} {stop : Tick}

/-- A schedule presses and releases a key for each note of its piece. -/
theorem count_of_record (h : (record piece config).outcome = .ok (schedule, stop))
    {kind : EventKind} (hkind : kind = .noteOn ∨ kind = .noteOff) :
    schedule.count kind = piece.notes config.pace := by
  obtain ⟨hconfig, pass, hplay, rfl⟩ := outcome_eq_ok_iff.1 h
  have hr := Pass.rendition_of_fresh hconfig hplay
  rw [← piece.length_spans config.start.toNat, ← hr.countP_kind hkind]
  exact (Schedule.inTickOrder_perm _).countP_eq _

/-- A schedule ends after the ticks of its piece. -/
theorem toNat_of_record (h : (record piece config).outcome = .ok (schedule, stop)) :
    stop.toNat = config.start.toNat + piece.ticks config.pace := by
  obtain ⟨-, pass, hplay, -⟩ := outcome_eq_ok_iff.1 h
  exact Pass.toNat_of_play hplay

/-- Without a note there is nothing to be emitted. -/
theorem events_of_record (h : (record piece config).outcome = .ok (schedule, stop))
    (hnotes : piece.notes config.pace = 0) : schedule.events = [] := by
  obtain ⟨hconfig, pass, hplay, rfl⟩ := outcome_eq_ok_iff.1 h
  have hspans : piece.spans config.pace config.start.toNat = [] := by
    rw [← List.length_eq_zero_iff, Piece.length_spans, hnotes]
  have hevents := (Pass.rendition_of_fresh hconfig hplay).events_eq
  rw [hspans] at hevents
  show Schedule.inTickOrder pass.events.toList = []
  rw [hevents]
  exact List.mergeSort_nil

end Playback
end Polyphony
