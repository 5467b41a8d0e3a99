/-
# Nothing gets lost between schedules

A pass gives out its schedule as often as one likes, and starts over each time without events
and with an empty table.  Books are kept beside it (`Books`), which note what every call emits
and which channels it gives, and are closed whenever a schedule is taken.

| in the books | on the pass |
| --- | --- |
| the open stretch | the events and the table |
| a closed stretch | the schedule that was taken then |
| all stretches together | all that was ever emitted |
-/

import Polyphony.Proofs.Playback.Session
import Polyphony.Proofs.Schedule.TickOrder

namespace Polyphony
namespace Playback

namespace Pass

variable {pass : Pass} {call : Call}

/-- The events that calls emit, also those that have been taken since. -/
def emissions : Pass → List Call → List Event
  | _, [] => []
  | pass, call :: calls => pass.emission call ++ (pass.serve call).emissions calls

/-- What a call gives comes in at the end of the table. -/
theorem entries_serve (pass : Pass) (h : call ≠ .take) :
    (pass.serve call).channels.entries = pass.channels.entries ++ pass.granted call :=
  (grown_serve pass h).1.entries_eq

theorem emission_emit (pass : Pass) (event : Event) : pass.emission (.emit event) = [event] := rfl

theorem emission_report (pass : Pass) (kind : Option FailureKind) (text : Text) :
    pass.emission (.report kind text) = [] := by
  cases kind with
  | some kind => rfl
  | none =>
    rw [emission, serve, report]
    split <;> rfl

/-- Who asks for a channel is announced if he gets a new one. -/
theorem emission_channelFor (pass : Pass) (i : Instrument) :
    pass.emission (.channelFor i) = (pass.granted (.channelFor i)).map announcement := by
  obtain ⟨given, hgrown⟩ := pass.tape.exists_grown_channelFor pass.config.channels i
  rw [tape_channelFor] at hgrown
  obtain ⟨hgranted, hemission⟩ :=
    granted_and_emission_of_grown (nofun : Call.channelFor i ≠ .take) hgrown
  rw [hemission, hgranted]

/-- A piece emits the transcript of the cues that it gets through, which are all of them unless
it is stopped. -/
theorem emission_play (pass : Pass) (piece : Piece) (start : Tick) :
    ∃ heard, heard <+: piece.cues pass.config.pace start.toNat ∧
      ((∃ stop, (pass.play piece start).1 = .ok stop) →
        heard = piece.cues pass.config.pace start.toNat) ∧
      pass.emission (.play piece start) =
        transcript (pass.serve (.play piece start)).channels.channelOf pass.channels.instruments
          (heard.filterMap (Cue.span? pass.config.pace)) := by
  have hchannels : (pass.serve (.play piece start)).channels =
      (pass.cleared.play piece start).2.tape.channels :=
    congrArg Tape.channels (tape_serve pass (nofun : Call.play piece start ≠ .take))
  have hcleared := (follows_play pass.cleared piece start).run_eq
  rw [hchannels]
  rcases hrun : Tape.run pass.config.pace pass.config.channels
    (piece.cues pass.config.pace start.toNat) pass.cleared.tape with ⟨_ | fault, reached⟩
  · obtain rfl := (Prod.mk.inj (hrun.symm.trans hcleared)).2
    exact ⟨_, List.prefix_rfl, fun _ => rfl, (Tape.heard_of_run hrun).2.events_eq⟩
  · obtain ⟨heard, cue, rest, reached', hcues, hheard, hplay⟩ := Tape.exists_split_of_run hrun
    obtain ⟨hfault, hreached⟩ := Prod.mk.inj (hrun.symm.trans hcleared)
    refine ⟨heard, ⟨_, hcues.symm⟩, fun ⟨stop, hstop⟩ => ?_, ?_⟩
    · have hwhole := (follows_play pass piece start).run_eq
      rw [tape_eq_after, Tape.run_after, hstop] at hwhole
      cases congrArg Prod.fst (hwhole.symm.trans (by rw [hrun]))
    · rw [← hreached, Tape.eq_fail_of_play hplay]
      have hevents : pass.emission (.play piece start) = reached'.events :=
        congrArg Tape.events (hreached.symm.trans (Tape.eq_fail_of_play hplay))
      exact hevents.trans (Tape.heard_of_run hheard).2.events_eq

end Pass

/-- What calls have emitted, and which entries they have added to the table. -/
structure Stretch where
  /-- The events in the order in which they were emitted. -/
  emitted : List Event
  /-- The entries in the order in which channels were given. -/
  granted : List (Instrument × Channel)

/-- The stretch in which nothing has happened. -/
def Stretch.empty : Stretch := ⟨[], []⟩

/-- A schedule that was made of a stretch. -/
structure Stretch.IsIn (stretch : Stretch) (s : Schedule) : Prop where
  /-- Ticks never fall. -/
  sorted : s.events.Pairwise fun a b => a.tick ≤ b.tick
  /-- No event is missing, and none has come in. -/
  perm : s.events.Perm stretch.emitted
  /-- Events of one tick stand as they were emitted. -/
  stable : ∀ t : Tick, s.events.filter (fun e => e.tick = t) =
    stretch.emitted.filter fun e => e.tick = t
  /-- The table holds the channels that were given. -/
  entries_eq : s.channels.entries = stretch.granted

/-- What has happened on a pass, parted where schedules were taken. -/
structure Books where
  /-- The schedules that were taken, each with the stretch since the one before it. -/
  closed : List (Schedule × Stretch)
  /-- What has happened since the last schedule. -/
  current : Stretch

namespace Books

/-- The books of a pass before it is asked for anything. -/
def new : Books := ⟨[], .empty⟩

/-- The books after one more call. -/
def enter (books : Books) (pass : Pass) : Call → Books
  | .take => ⟨books.closed ++ [(pass.take.1, books.current)], .empty⟩
  | call =>
    { books with
      current :=
        ⟨books.current.emitted ++ pass.emission call,
          books.current.granted ++ pass.granted call⟩ }

/-- The books after some calls. -/
def enterAll : Books → Pass → List Call → Books
  | books, _, [] => books
  | books, pass, call :: calls => (books.enter pass call).enterAll (pass.serve call) calls

/-- All events in the books. -/
def emitted (books : Books) : List Event :=
  (books.closed.flatMap fun entry => entry.2.emitted) ++ books.current.emitted

/-- All events that the taken schedules hold. -/
def scheduled (books : Books) : List Event := books.closed.flatMap fun entry => entry.1.events

theorem enter_of_ne_take (books : Books) (pass : Pass) {call : Call} (h : call ≠ .take) :
    books.enter pass call = ⟨books.closed, books.current.emitted ++ pass.emission call,
      books.current.granted ++ pass.granted call⟩ := by
  cases call with
  | take => exact absurd rfl h
  | _ => rfl

/-- No call is entered without what it emitted. -/
theorem emitted_enter (books : Books) (pass : Pass) (call : Call) :
    (books.enter pass call).emitted = books.emitted ++ pass.emission call := by
  by_cases htake : call = .take
  · subst htake
    simp only [enter, emitted, List.flatMap_append, List.flatMap_singleton, Stretch.empty]
    rfl
  · rw [enter_of_ne_take _ _ htake, emitted, emitted, List.append_assoc]

theorem emitted_enterAll (books : Books) (pass : Pass) (calls : List Call) :
    (books.enterAll pass calls).emitted = books.emitted ++ pass.emissions calls := by
  induction calls generalizing books pass with
  | nil => exact (List.append_nil _).symm
  | cons call calls ih => rw [enterAll, ih, emitted_enter, Pass.emissions, List.append_assoc]

end Books

/-- The schedule of a pass is that of a stretch if its events and its table are. -/
theorem Stretch.isIn_take {stretch : Stretch} {pass : Pass}
    (hevents : pass.events.toList = stretch.emitted)
    (hentries : pass.channels.entries = stretch.granted) : stretch.IsIn pass.take.1 where
  sorted := Schedule.inTickOrder_pairwise _
  perm := hevents ▸ Schedule.inTickOrder_perm _
  stable t := hevents ▸ Schedule.filter_tick_inTickOrder _ t
  entries_eq := hentries

/-- The books of a pass are in order. -/
structure Balanced (pass : Pass) (books : Books) : Prop where
  events_eq : pass.events.toList = books.current.emitted
  entries_eq : pass.channels.entries = books.current.granted
  closed : ∀ entry ∈ books.closed, entry.2.IsIn entry.1

namespace Balanced

variable {pass : Pass} {books : Books}

theorem new (config : Config) : Balanced (Pass.new config) .new where
  events_eq := rfl
  entries_eq := rfl
  closed _ h := absurd h List.not_mem_nil

/-- **One call** keeps books in order. -/
theorem serve (h : Balanced pass books) (call : Call) :
    Balanced (pass.serve call) (books.enter pass call) := by
  by_cases htake : call = .take
  · subst htake
    refine ⟨rfl, rfl, fun entry hentry => ?_⟩
    obtain hold | hnew := List.mem_append.1 hentry
    · exact h.closed entry hold
    · rw [List.mem_singleton.1 hnew]
      exact Stretch.isIn_take h.events_eq h.entries_eq
  · rw [Books.enter_of_ne_take _ _ htake]
    exact ⟨by rw [Pass.events_serve pass htake, h.events_eq],
      by rw [Pass.entries_serve pass htake, h.entries_eq], h.closed⟩

theorem serveAll (h : Balanced pass books) (calls : List Call) :
    Balanced (pass.serveAll calls) (books.enterAll pass calls) := by
  induction calls generalizing pass books with
  | nil => exact h
  | cons call calls ih => exact ih (h.serve call)

/-- The taken schedules together hold what the closed stretches do. -/
theorem scheduled_perm (h : Balanced pass books) :
    books.scheduled.Perm (books.closed.flatMap fun entry => entry.2.emitted) :=
  List.Perm.flatMap_left _ fun entry hentry => (h.closed entry hentry).perm

end Balanced

/-- What holds of a pass whenever it is looked at, if `books` were kept and `emissions` is what
has been emitted so far. -/
structure Accounted (pass : Pass) (books : Books) (emissions : List Event) : Prop where
  /-- Each schedule holds, in the order of ticks, the events since the one before it, and the
  channels given since then. -/
  schedules : ∀ entry ∈ books.closed, entry.2.IsIn entry.1
  /-- The events of a pass are those since the last schedule. -/
  events_eq : pass.events.toList = books.current.emitted
  /-- The table of a pass holds the channels given since the last schedule. -/
  entries_eq : pass.channels.entries = books.current.granted
  /-- Who takes the schedule leaves neither events nor channels. -/
  emptied : (pass.serve .take).events = #[] ∧ (pass.serve .take).channels = .empty
  /-- Schedules and remaining events hold each emitted event once. -/
  once : (books.scheduled ++ pass.events.toList).Perm emissions
  /-- What is asked to be emitted is. -/
  emit : ∀ event, pass.emission (.emit event) = [event]
  /-- A report emits nothing. -/
  report : ∀ kind text, pass.emission (.report kind text) = []
  /-- A channel is announced when it is given. -/
  channelFor : ∀ i, pass.emission (.channelFor i) =
    (pass.granted (.channelFor i)).map announcement
  /-- A piece emits what it gets through, also if it is stopped. -/
  play : ∀ piece start, ∃ heard, heard <+: piece.cues pass.config.pace start.toNat ∧
    ((∃ stop, (pass.play piece start).1 = .ok stop) →
      heard = piece.cues pass.config.pace start.toNat) ∧
    pass.emission (.play piece start) =
      transcript (pass.serve (.play piece start)).channels.channelOf pass.channels.instruments
        (heard.filterMap (Cue.span? pass.config.pace))
  /-- The channels that are given are those by which the count goes up. -/
  given : ∀ call, (pass.granted call).map (fun e => e.2.toNat) =
      List.range' pass.nextChannel.toNat (pass.granted call).length ∧
    (pass.serve call).nextChannel.toNat = pass.nextChannel.toNat + (pass.granted call).length

/-- **Taking schedules neither loses nor doubles an event**, whatever a pass is asked for in
between. -/
theorem accounted_of_calls (config : Config) (calls : List Call) :
    Accounted ((Pass.new config).serveAll calls) (Books.new.enterAll (Pass.new config) calls)
      ((Pass.new config).emissions calls) := by
  have hbalanced := (Balanced.new config).serveAll calls
  have hemitted := Books.new.emitted_enterAll (Pass.new config) calls
  refine
    { schedules := hbalanced.closed
      events_eq := hbalanced.events_eq
      entries_eq := hbalanced.entries_eq
      emptied := ⟨rfl, rfl⟩
      once := ?_
      emit := Pass.emission_emit _
      report := Pass.emission_report _
      channelFor := Pass.emission_channelFor _
      play := Pass.emission_play _
      given := fun call => ?_ }
  · have hperm := hbalanced.scheduled_perm.append_right
      (Books.new.enterAll (Pass.new config) calls).current.emitted
    rw [hbalanced.events_eq]
    exact hperm.trans (.of_eq hemitted)
  · by_cases htake : call = .take
    · subst htake
      have hnone : Pass.granted ((Pass.new config).serveAll calls) .take = [] := List.drop_nil
      rw [hnone]
      exact ⟨rfl, rfl⟩
    · have hgrown := (Pass.grown_serve ((Pass.new config).serveAll calls) htake).1
      exact ⟨hgrown.numbers_eq, hgrown.nextChannel_eq⟩

/-- A piece that is stopped for want of a second channel leaves what came before it. -/
example : (Pass.new { channels := 1 }).emission (.play
    (.concat (.note (.ofBeats 1) ⟨0⟩ .violin) (.note (.ofBeats 1) ⟨0⟩ .cello)) 7) =
    [⟨.programChange, 0, 40, 0⟩, ⟨.noteOn, 0, 60, 7⟩, ⟨.noteOff, 0, 60, 71⟩] := by decide

end Playback
end Polyphony
