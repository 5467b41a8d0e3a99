/-
# What a command line plays

When a run goes through, its schedule ends where the command line asks for it and has as many
notes (`performance_of_run`).  A request takes `r.ticks` ticks and has `r.notes` notes, as long
as it is played once:

| the piece is | the schedule ends at | it has |
| --- | --- | --- |
| played once | `r.ticks` | `r.notes` notes |
| looped, with a tick or more | `r.rounds * r.ticks` | `r.rounds * r.notes` notes |
| looped, with no tick | `0` | `r.notes` notes |
| looped, of no beats at all | `0` | no events |

The four cases are those of a loop: a body of no ticks fills no cap however often it is played,
so it is played once, and a body of no beats is not played at all.
-/

import Polyphony.CommandLine.Run
import Polyphony.Proofs.CommandLine.Composition
import Polyphony.Proofs.CommandLine.Request
import Polyphony.Proofs.Duration.Zero

namespace Polyphony
namespace CommandLine

open Playback

variable {arguments : List Text} {o : Options} {schedule : Schedule} {stop : Tick}

/-- A piece that is performed has been recorded. -/
theorem exists_record_of_perform {p : Piece} (h : (o.perform p).exit = 0) : ∃ schedule stop,
    (record p o.config).outcome = .ok (schedule, stop) ∧
      (o.perform p).output =
        (if o.showPiece then showing p else []) ++ o.write schedule stop := by
  rcases success_record p o.config with ⟨hsuccess, hfault⟩ | ⟨fault, notices, hrecord⟩
  · refine ⟨_, _, by rw [Recording.outcome, hfault], ?_⟩
    rw [Options.perform]
    simp only [if_pos hsuccess]
  · rw [Options.perform] at h
    simp only [hrecord, Bool.false_eq_true, if_false] at h
    cases h

/-- A run that goes through performs the piece that the options ask for. -/
theorem exists_perform_of_run (hhelp : Options.read arguments ≠ .error .help)
    (hexit : (run arguments).exit = 0) : ∃ o p,
      Options.read arguments = .ok o ∧ o.piece = .ok p ∧ run arguments = o.perform p := by
  cases hread : Options.read arguments with
  | error cause =>
    rw [run, hread] at hexit
    rw [hread] at hhelp
    cases cause with
    | help => exact absurd rfl hhelp
    | _ => cases hexit
  | ok o =>
    rw [run, hread] at hexit ⊢
    have hscore : ¬ (o.score = [] ∧ o.demo = []) := by
      intro h
      simp only [if_pos h] at hexit
      cases hexit
    simp only [if_neg hscore] at hexit ⊢
    cases hpiece : o.piece with
    | error trouble =>
      rw [hpiece] at hexit
      cases hexit
    | ok p => exact ⟨o, p, rfl, hpiece, rfl⟩

/-- A schedule presses and releases a key so many times. -/
structure Sounds (schedule : Schedule) (count : Nat) : Prop where
  pressed : schedule.count .noteOn = count
  released : schedule.count .noteOff = count

/-- A schedule is what a request asks for.  Here `body` is the piece before it is repeated
without end. -/
structure Performance (r : Request) (body : Piece) (schedule : Schedule) (stop : Tick) :
    Prop where
  once : r.endless = false → stop.toNat = r.ticks ∧ Sounds schedule r.notes
  filled : r.endless = true → 0 < r.ticks →
    stop.toNat = r.rounds * r.ticks ∧ Sounds schedule (r.rounds * r.notes)
  instant : r.endless = true → r.ticks = 0 → body.duration.isZero = false →
    stop.toNat = 0 ∧ Sounds schedule r.notes
  silent : r.endless = true → body.duration.isZero = true →
    stop.toNat = 0 ∧ schedule.events = []

/-- A piece with the ticks and notes of a request is played as the request asks. -/
theorem performance_of_record {r : Request} {body : Piece} (hmet : r.MetBy o)
    (hticks : body.ticks o.config.pace = r.ticks) (hnotes : body.notes o.config.pace = r.notes)
    (h : (record (looped o.endless body) o.config).outcome = .ok (schedule, stop)) :
    Performance r body schedule stop := by
  have hstop : stop.toNat = (looped o.endless body).ticks o.config.pace := by
    rw [toNat_of_record h, hmet.start]
    exact Nat.zero_add _
  have hsounds : ∀ n, (looped o.endless body).notes o.config.pace = n → Sounds schedule n :=
    fun n hn =>
      ⟨(count_of_record h (Or.inl rfl)).trans hn, (count_of_record h (Or.inr rfl)).trans hn⟩
  have hrounds : 0 < r.ticks → o.config.pace.rounds r.ticks = r.rounds := by
    intro hpos
    rw [hmet.pace]
    exact if_neg (Nat.ne_of_gt hpos)
  rw [hmet.endless] at h hstop hsounds
  refine ⟨fun hr => ?_, fun hr hpos => ?_, fun hr hzero hlength => ?_, fun hr hlength => ?_⟩
  · rw [hr, looped_false] at hstop hsounds
    exact ⟨hstop.trans hticks, hsounds _ hnotes⟩
  · rw [hr, looped_true] at hstop hsounds
    have hlength : ¬ body.duration.isZero = true := by
      intro hz
      rw [← hticks, Piece.ticks_of_isZero hz] at hpos
      exact Nat.lt_irrefl 0 hpos
    refine ⟨hstop.trans ?_, hsounds _ ?_⟩
    · rw [Piece.ticks_forever, if_neg hlength, hticks, hrounds hpos]
    · rw [Piece.notes, if_neg hlength, hticks, if_neg (Nat.ne_of_gt hpos), hrounds hpos, hnotes]
  · rw [hr, looped_true] at hstop hsounds
    rw [hzero] at hticks
    refine ⟨hstop.trans ?_, hsounds _ ?_⟩
    · rw [Piece.ticks_forever, hticks, Nat.mul_zero, ite_self]
    · rw [Piece.notes, hlength, if_neg Bool.false_ne_true, if_pos hticks, hnotes]
  · rw [hr, looped_true] at h hstop
    refine ⟨hstop.trans ?_, events_of_record h ?_⟩
    · rw [Piece.ticks_forever, if_pos hlength]
    · rw [Piece.notes, if_pos hlength]

/-- **What a command line plays.**  A run that goes through, and plays no piece of the program's
own, plays the score as often, in as many voices and for as long as its arguments ask for. -/
theorem performance_of_run (hdemo : Text.utf8 "--demo" ∉ arguments)
    (hhelp : Options.read arguments ≠ .error .help) (hexit : (run arguments).exit = 0) :
    ∃ o body schedule stop, Options.read arguments = .ok o ∧
      o.piece = .ok (looped o.endless body) ∧
      (record (looped o.endless body) o.config).outcome = .ok (schedule, stop) ∧
      (run arguments).output = (if o.showPiece then showing (looped o.endless body) else []) ++
        o.write schedule stop ∧
      Performance (.ofArguments arguments) body schedule stop := by
  obtain ⟨o, p, hread, hpiece, hrun⟩ := exists_perform_of_run hhelp hexit
  rw [hrun] at hexit ⊢
  obtain ⟨schedule, stop, hrecord, houtput⟩ := exists_record_of_perform hexit
  have hname : o.demo = [] := by
    have hget : o.demo = (Item.asked? .demo (Item.ofArguments arguments)).getD [] :=
      (holds_of_read hread).get_eq .demo
    rw [hget, Item.asked?, Item.lastValue?_eq_none hdemo]
    rfl
  have hmade := hpiece
  rw [Options.piece, if_pos hname] at hmade
  obtain ⟨score, hscore, rfl⟩ := Options.scorePiece_eq_ok_iff.1 hmade
  have hmet := metBy_of_read hread
  have hvoices : o.voices - 1 = (Request.ofArguments arguments).voices - 1 := by
    rw [← hmet.voices, Nat.add_sub_cancel]
  refine ⟨o, o.layered score, schedule, stop, hread, hpiece, hrecord, houtput,
    performance_of_record hmet ?_ ?_ hrecord⟩
  · rw [Options.ticks_layered, Notation.ticks_of_read hscore, hmet.signs, hmet.repeats, hvoices,
      hmet.pause, hmet.pace]
    rfl
  · rw [Options.notes_layered, Notation.notes_of_read hscore, hmet.signs, hmet.repeats,
      hmet.voices]
    rfl

/-- Two voices of a bar that is played twice, looped: a round takes seventeen ticks, twenty are
to be filled, so there are two rounds of twelve notes. -/
def loopedRound : List Text :=
  [Text.utf8 "C D/2", Text.utf8 "--repeat", Text.utf8 "2", Text.utf8 ".1 E",
    Text.utf8 "--round", Text.utf8 "3", Text.utf8 "--round", Text.utf8 "2",
    Text.utf8 "--delay", Text.utf8 "3/2", Text.utf8 "--forever", Text.utf8 "--tpb",
    Text.utf8 "2", Text.utf8 "--bpm", Text.utf8 "10", Text.utf8 "--minutes", Text.utf8 "1"]

theorem performance_of_loopedRound :
    Text.utf8 "--demo" ∉ loopedRound ∧ Options.read loopedRound ≠ .error .help ∧
      (run loopedRound).exit = 0 ∧
      ∃ o body schedule stop, Options.read loopedRound = .ok o ∧
        (record (.forever body) o.config).outcome = .ok (schedule, stop) ∧
        stop.toNat = 34 ∧ Sounds schedule 24 := by
  have hdemo : Text.utf8 "--demo" ∉ loopedRound := by decide
  have hhelp : Options.read loopedRound ≠ .error .help := by decide +kernel
  have hexit : (run loopedRound).exit = 0 := by decide +kernel
  have hendless : (Request.ofArguments loopedRound).endless = true := by decide +kernel
  have hticks : (Request.ofArguments loopedRound).ticks = 17 := by decide +kernel
  have hnotes : (Request.ofArguments loopedRound).notes = 12 := by decide +kernel
  have hrounds : (Request.ofArguments loopedRound).rounds = 2 := by decide +kernel
  obtain ⟨o, body, schedule, stop, hread, -, hrecord, -, hperformance⟩ :=
    performance_of_run hdemo hhelp hexit
  rw [(metBy_of_read hread).endless, hendless] at hrecord
  obtain ⟨hstop, hsounds⟩ := hperformance.filled hendless (hticks ▸ by decide)
  rw [hrounds, hticks] at hstop
  rw [hrounds, hnotes] at hsounds
  exact ⟨hdemo, hhelp, hexit, o, body, schedule, stop, hread, hrecord, hstop, hsounds⟩

end CommandLine
end Polyphony
