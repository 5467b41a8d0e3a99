/-
# Calls of a pass

A pass can be asked for five things (`Call`), in any order and as often as one likes: also
after it has failed, and after its schedule has been taken.

What a call emits is told by the same call on a pass without events (`Pass.emission`), so it
cannot be confused with what was there before.  That this is what comes in at the end of the
events, and that nothing else happens to them, is `Pass.events_serve`: no call looks at the
events, so they can be put in front of a tape before it is played on or after
(`Tape.run_after`).
-/

import Polyphony.Proofs.Playback.Tape

namespace Polyphony
namespace Playback

/-- What a pass can be asked for. -/
inductive Call where
  /-- The channel of an instrument. -/
  | channelFor (instrument : Instrument)
  /-- To emit an event. -/
  | emit (event : Event)
  /-- To take a report of a failure or, without a kind, a remark. -/
  | report (kind : Option FailureKind) (text : Text)
  /-- To play a piece. -/
  | play (piece : Piece) (start : Tick)
  /-- The schedule. -/
  | take

namespace Tape

variable {pace : Pace} {capacity : UInt8}

/-- A tape with earlier events in front. -/
def after (log : List Event) (tape : Tape) : Tape := { tape with events := log ++ tape.events }

theorem fail_after (log : List Event) (tape : Tape) (fault : Fault) :
    (tape.after log).fail fault = (tape.fail fault).after log := rfl

theorem emit_after (log : List Event) (tape : Tape) (events : List Event) :
    (tape.after log).emit events = (tape.emit events).after log := by
  simp only [emit, after, List.append_assoc]

theorem takeChannel_after (log : List Event) (tape : Tape) (i : Instrument) :
    (tape.after log).takeChannel i = (tape.takeChannel i).after log := by
  simp only [takeChannel, after, List.append_assoc]

theorem channelFor_after (log : List Event) (tape : Tape) (i : Instrument) :
    (tape.after log).channelFor capacity i =
      ((tape.channelFor capacity i).1, (tape.channelFor capacity i).2.after log) := by
  have hchannels : (tape.after log).channels = tape.channels := rfl
  have hnext : (tape.after log).nextChannel = tape.nextChannel := rfl
  rw [channelFor, channelFor, hchannels, hnext]
  cases tape.channels.find? i with
  | some channel => rfl
  | none =>
    by_cases hcap : capacity ≤ tape.nextChannel
    · simp only [if_pos hcap, fail_after]
    · simp only [if_neg hcap, takeChannel_after]

/-- A cue does not look at the events. -/
theorem play_after (log : List Event) (tape : Tape) (cue : Cue) :
    (tape.after log).play pace capacity cue =
      ((tape.play pace capacity cue).1, (tape.play pace capacity cue).2.after log) := by
  rw [play, play]
  cases cue.fault? pace with
  | some fault => rfl
  | none =>
    cases cue.span? pace with
    | none => rfl
    | some span =>
      simp only [channelFor_after]
      rcases tape.channelFor capacity span.instrument with ⟨fault | channel, reached⟩
      · rfl
      · simp only [emit_after]

/-- Cues leave behind earlier events what they leave without them. -/
theorem run_after (log : List Event) (cues : List Cue) (tape : Tape) :
    run pace capacity cues (tape.after log) =
      ((run pace capacity cues tape).1, (run pace capacity cues tape).2.after log) := by
  induction cues generalizing tape with
  | nil => rfl
  | cons cue cues ih =>
    rw [run, run, play_after]
    rcases tape.play pace capacity cue with ⟨_ | fault, reached⟩
    · exact ih reached
    · rfl

end Tape

namespace Pass

variable {pass : Pass} {call : Call}

/-- A pass after a call. -/
def serve (pass : Pass) : Call → Pass
  | .channelFor instrument => (pass.channelFor instrument).2
  | .emit event => pass.emit event
  | .report kind text => pass.report kind text
  | .play piece start => (pass.play piece start).2
  | .take => pass.take.2

/-- A pass after some calls. -/
def serveAll (pass : Pass) (calls : List Call) : Pass := calls.foldl serve pass

theorem config_serve (pass : Pass) (call : Call) : (pass.serve call).config = pass.config := by
  cases call with
  | channelFor instrument => exact config_channelFor pass instrument
  | emit event => rfl
  | report kind text =>
    cases kind with
    | some kind => rfl
    | none =>
      rw [serve, report]
      split <;> rfl
  | play piece start => exact (follows_play pass piece start).config_eq
  | take => rfl

theorem config_serveAll (pass : Pass) (calls : List Call) :
    (pass.serveAll calls).config = pass.config := by
  induction calls generalizing pass with
  | nil => rfl
  | cons call calls ih => exact (ih (pass.serve call)).trans (config_serve pass call)

/-! ### What a call emits -/

/-- A pass whose events have been thrown away. -/
def cleared (pass : Pass) : Pass := { pass with events := #[] }

/-- The events that a call emits. -/
def emission (pass : Pass) (call : Call) : List Event :=
  (pass.cleared.serve call).events.toList

theorem tape_eq_after (pass : Pass) : pass.tape = pass.cleared.tape.after pass.events.toList := by
  simp [tape, cleared, Tape.after]

/-- All but the call for the schedule do the same whatever has been emitted before. -/
theorem tape_serve (pass : Pass) (h : call ≠ .take) :
    (pass.serve call).tape = (pass.cleared.serve call).tape.after pass.events.toList := by
  have htape := pass.tape_eq_after
  cases call with
  | channelFor i =>
    have hwhole := tape_channelFor pass i
    rw [htape, Tape.channelFor_after] at hwhole
    have hcleared := tape_channelFor pass.cleared i
    exact (Prod.mk.inj hwhole).2.symm.trans
      (congrArg (fun out => Tape.after pass.events.toList out.2) hcleared)
  | emit event =>
    rw [serve, serve, tape_emit, tape_emit, htape, Tape.emit_after]
  | report kind text =>
    cases kind with
    | some kind => exact congrArg (Tape.fail · _) htape
    | none =>
      rw [serve, serve, report, report]
      cases hfailed : pass.failed with
      | true =>
        have hcleared : pass.cleared.failed = true := hfailed
        simpa only [hcleared, if_true] using htape
      | false =>
        have hcleared : pass.cleared.failed = false := hfailed
        simp only [hcleared, Bool.false_eq_true, if_false]
        exact congrArg (fun tape : Tape => { tape with remark := text }) htape
  | play piece start =>
    have hwhole := (follows_play pass piece start).run_eq
    rw [htape, Tape.run_after] at hwhole
    have hcleared := (follows_play pass.cleared piece start).run_eq
    exact (Prod.mk.inj hwhole).2.symm.trans
      (congrArg (fun out => Tape.after pass.events.toList out.2) hcleared)
  | take => exact absurd rfl h

/-- What a call emits comes in at the end of the events. -/
theorem events_serve (pass : Pass) (h : call ≠ .take) :
    (pass.serve call).events.toList = pass.events.toList ++ pass.emission call :=
  congrArg Tape.events (tape_serve pass h)

end Pass

end Playback
end Polyphony
