/-
# Playing a piece is playing its cues

A pass without its settings and notices is a `Tape`: the events so far, the channels,
and the first fault.  A tape plays cues one by one and stops at the first that cannot
be played (`Tape.run`); there is no tree, no loop and no cursor to it.

`Pass.follows_play` ties the two: from any state, `Pass.play` leaves on the tape what
the cues of the piece leave there, stops with the same fault or with none, and where
it goes through it ends after exactly the ticks of the piece.  The loop is the one case
with work in it.  Its cursor stands at a whole number of bodies after its start, so what
is left to play is the cues of the rounds that are left (`Pass.follows_loop`).
-/

import Polyphony.Playback.Play
import Polyphony.Proofs.Playback.Timeline

namespace Polyphony
namespace Playback

/-- What a pass has put together, without its settings and notices. -/
structure Tape where
  /-- Events in the order in which they were emitted. -/
  events : List Event
  /-- Channels of the instruments. -/
  channels : ChannelTable
  /-- The channel to be taken next. -/
  nextChannel : Channel
  /-- The first fault. -/
  fault : Option Fault
  /-- Last message that was reported without a fault. -/
  remark : Text

/-- The tape of a pass. -/
def Pass.tape (pass : Pass) : Tape :=
  ⟨pass.events.toList, pass.channels, pass.nextChannel, pass.fault, pass.remark⟩

namespace Cue

/-- The fault of a pitch that no key plays. -/
def keyFault? (c : Cue) : Option Fault :=
  match c.sound with
  | some (pitch, _) => if pitch.key?.isSome then none else some (keyFault pitch)
  | none => none

/-- The fault of a length that is not exact, or that ends too late. -/
def lengthFault? (pace : Pace) (c : Cue) : Option Fault :=
  if c.length.isOverflow then some .lengthOverflow
  else if lastTick < c.stop pace then some (.pastLastTick c.length c.start.toUInt32)
  else none

/-- What is wrong with a cue, if anything is.  The key is looked at first. -/
def fault? (pace : Pace) (c : Cue) : Option Fault := c.keyFault?.or (c.lengthFault? pace)

end Cue

/-- The two events of a span on a channel. -/
def Span.events (channel : Channel) (span : Span) : List Event :=
  [⟨.noteOn, channel, span.key.toNat.toUInt8, span.start.toUInt32⟩,
    ⟨.noteOff, channel, span.key.toNat.toUInt8, span.stop.toUInt32⟩]

namespace Tape

/-- Keeps a fault if it is the first one. -/
def fail (tape : Tape) (fault : Fault) : Tape := { tape with fault := tape.fault.or (some fault) }

/-- Emits events. -/
def emit (tape : Tape) (events : List Event) : Tape :=
  { tape with events := tape.events ++ events }

/-- Gives an instrument the next channel. -/
def takeChannel (tape : Tape) (instrument : Instrument) : Tape :=
  { tape with
    events := tape.events ++ [⟨.programChange, tape.nextChannel, instrument.program, 0⟩]
    channels := tape.channels.insert instrument tape.nextChannel
    nextChannel := tape.nextChannel + 1 }

/-- The channel of an instrument, which takes the next one if it has none yet. -/
def channelFor (capacity : UInt8) (tape : Tape) (instrument : Instrument) :
    Except Fault Channel × Tape :=
  match tape.channels.find? instrument with
  | some channel => (.ok channel, tape)
  | none =>
    if capacity ≤ tape.nextChannel then
      (.error (.noChannel capacity instrument), tape.fail (.noChannel capacity instrument))
    else (.ok tape.nextChannel, tape.takeChannel instrument)

/-- Plays one cue and tells what stopped it, if anything did. -/
def play (pace : Pace) (capacity : UInt8) (tape : Tape) (cue : Cue) : Option Fault × Tape :=
  match cue.fault? pace with
  | some fault => (some fault, tape.fail fault)
  | none =>
    match cue.span? pace with
    | none => (none, tape)
    | some span =>
      match tape.channelFor capacity span.instrument with
      | (.error fault, tape) => (some fault, tape)
      | (.ok channel, tape) => (none, tape.emit (span.events channel))

/-- All that playing a cue can do to a tape. -/
inductive Step (pace : Pace) (capacity : UInt8) (tape : Tape) (cue : Cue) :
    Option Fault × Tape → Prop
  /-- The cue is at fault. -/
  | fault {fault : Fault} (hf : cue.fault? pace = some fault) :
    Step pace capacity tape cue (some fault, tape.fail fault)
  /-- The cue is a rest. -/
  | rest (hf : cue.fault? pace = none) (hs : cue.span? pace = none) :
    Step pace capacity tape cue (none, tape)
  /-- The instrument has its channel. -/
  | known {span : Span} {channel : Channel} (hf : cue.fault? pace = none)
    (hs : cue.span? pace = some span)
    (hc : tape.channels.find? span.instrument = some channel) :
    Step pace capacity tape cue (none, tape.emit (span.events channel))
  /-- The instrument gets its channel. -/
  | new {span : Span} (hf : cue.fault? pace = none) (hs : cue.span? pace = some span)
    (hc : tape.channels.find? span.instrument = none) (hcap : tape.nextChannel < capacity) :
    Step pace capacity tape cue
      (none, (tape.takeChannel span.instrument).emit (span.events tape.nextChannel))
  /-- There is no channel left for the instrument. -/
  | full {span : Span} (hf : cue.fault? pace = none) (hs : cue.span? pace = some span)
    (hc : tape.channels.find? span.instrument = none) (hcap : capacity ≤ tape.nextChannel) :
    Step pace capacity tape cue (some (.noChannel capacity span.instrument),
      tape.fail (.noChannel capacity span.instrument))

theorem step_play (pace : Pace) (capacity : UInt8) (tape : Tape) (cue : Cue) :
    Step pace capacity tape cue (tape.play pace capacity cue) := by
  unfold play
  cases hf : cue.fault? pace with
  | some fault => exact .fault hf
  | none =>
    cases hs : cue.span? pace with
    | none => exact .rest hf hs
    | some span =>
      simp only [channelFor]
      cases hc : tape.channels.find? span.instrument with
      | some channel => exact .known hf hs hc
      | none =>
        by_cases hcap : capacity ≤ tape.nextChannel
        · simp only [if_pos hcap]
          exact .full hf hs hc hcap
        · simp only [if_neg hcap]
          exact .new hf hs hc (UInt8.not_le.1 hcap)

/-- A cue that is refused leaves nothing but its fault. -/
theorem eq_fail_of_play {pace : Pace} {capacity : UInt8} {tape tape' : Tape} {cue : Cue}
    {fault : Fault} (h : tape.play pace capacity cue = (some fault, tape')) :
    tape' = tape.fail fault := by
  have hstep := step_play pace capacity tape cue
  rw [h] at hstep
  cases hstep with
  | fault => rfl
  | full => rfl

/-- Plays cues in order until one cannot be played. -/
def run (pace : Pace) (capacity : UInt8) : List Cue → Tape → Option Fault × Tape
  | [], tape => (none, tape)
  | cue :: cues, tape =>
    match tape.play pace capacity cue with
    | (some fault, tape) => (some fault, tape)
    | (none, tape) => run pace capacity cues tape

variable {pace : Pace} {capacity : UInt8}

theorem emit_emit (tape : Tape) (xs ys : List Event) :
    (tape.emit xs).emit ys = tape.emit (xs ++ ys) := by
  simp [emit]

theorem run_append_of_fault {xs : List Cue} {tape tape' : Tape} {fault : Fault}
    (h : run pace capacity xs tape = (some fault, tape')) (ys : List Cue) :
    run pace capacity (xs ++ ys) tape = (some fault, tape') := by
  induction xs generalizing tape with
  | nil => simp [run] at h
  | cons c xs ih =>
    rw [List.cons_append]
    rw [run] at h ⊢
    split at h
    · exact h
    · exact ih h

theorem run_append {xs : List Cue} {tape tape' : Tape}
    (h : run pace capacity xs tape = (none, tape')) (ys : List Cue) :
    run pace capacity (xs ++ ys) tape = run pace capacity ys tape' := by
  induction xs generalizing tape with
  | nil =>
    obtain rfl : tape = tape' := congrArg Prod.snd h
    rfl
  | cons c xs ih =>
    rw [List.cons_append]
    rw [run] at h ⊢
    split at h
    · simp at h
    · exact ih h

/-- A run that goes through goes through up to any of its cues. -/
theorem exists_run_of_append {xs ys : List Cue} {tape tape' : Tape}
    (h : run pace capacity (xs ++ ys) tape = (none, tape')) :
    ∃ reached, run pace capacity xs tape = (none, reached) ∧
      run pace capacity ys reached = (none, tape') := by
  rcases hx : run pace capacity xs tape with ⟨_ | fault, reached⟩
  · exact ⟨reached, rfl, (run_append hx ys).symm.trans h⟩
  · have hstop := (run_append_of_fault hx ys).symm.trans h
    cases hstop

/-- A run that is stopped goes through up to the cue that stops it. -/
theorem exists_split_of_run {cues : List Cue} {tape tape' : Tape} {fault : Fault}
    (h : run pace capacity cues tape = (some fault, tape')) :
    ∃ before cue rest reached, cues = before ++ cue :: rest ∧
      run pace capacity before tape = (none, reached) ∧
      reached.play pace capacity cue = (some fault, tape') := by
  induction cues generalizing tape with
  | nil => cases h
  | cons cue cues ih =>
    rw [run] at h
    rcases hp : tape.play pace capacity cue with ⟨_ | fault', next⟩ <;> rw [hp] at h
    · obtain ⟨before, cue', rest, reached, rfl, hrun, hplay⟩ := ih h
      refine ⟨cue :: before, cue', rest, reached, rfl, ?_, hplay⟩
      rw [run, hp]
      exact hrun
    · cases h
      exact ⟨[], cue, cues, tape, rfl, rfl, hp⟩

end Tape

/-- The fault of a result, if it is one. -/
def fault? {α : Type} : Except Fault α → Option Fault
  | .ok _ => none
  | .error fault => some fault

/-- What comes `out` of a pass with these settings is what these cues put on its tape; if
nothing stopped it, it ends at `stop`. -/
structure Follows (config : Config) (cues : List Cue) (stop : Nat) (pass : Pass)
    (out : Except Fault Tick × Pass) : Prop where
  run_eq : Tape.run config.pace config.channels cues pass.tape = (fault? out.1, out.2.tape)
  config_eq : out.2.config = config
  stop_eq : ∀ tick, out.1 = .ok tick → tick.toNat = stop

namespace Follows

variable {config : Config} {xs ys : List Cue} {m n : Nat} {pass pass' : Pass}

/-- What is stopped ends nowhere. -/
theorem of_error {fault : Fault}
    (hrun : Tape.run config.pace config.channels xs pass.tape = (some fault, pass'.tape))
    (hc : pass'.config = config) : Follows config xs m pass (.error fault, pass') where
  run_eq := hrun
  config_eq := hc
  stop_eq _ ht := nomatch ht

/-- A fault leaves the rest unplayed. -/
theorem append_of_error {fault : Fault} (h : Follows config xs m pass (.error fault, pass')) :
    Follows config (xs ++ ys) n pass (.error fault, pass') :=
  of_error (Tape.run_append_of_fault h.run_eq ys) h.config_eq

/-- What goes through is followed by the rest. -/
theorem append {middle : Tick} {out : Except Fault Tick × Pass}
    (h : Follows config xs m pass (.ok middle, pass')) (h' : Follows config ys n pass' out) :
    Follows config (xs ++ ys) n pass out where
  run_eq := (Tape.run_append h.run_eq ys).trans h'.run_eq
  config_eq := h'.config_eq
  stop_eq := h'.stop_eq

/-- Nothing but settings and tape counts. -/
theorem of_tape_eq {stop : Tick} {pass'' : Pass}
    (h : Follows config xs m pass (.ok stop, pass')) (ht : pass''.tape = pass'.tape)
    (hc : pass''.config = pass'.config) : Follows config xs m pass (.ok stop, pass'') where
  run_eq := h.run_eq.trans (congrArg (none, ·) ht.symm)
  config_eq := hc.trans h.config_eq
  stop_eq := h.stop_eq

/-- Cues that leave the same leave it whichever piece they are the cues of, and whatever the
settings are. -/
theorem agree {config' : Config} {out out' : Except Fault Tick × Pass}
    (hrun : Tape.run config.pace config.channels xs pass.tape =
      Tape.run config'.pace config'.channels ys pass'.tape)
    (h : Follows config xs m pass out) (h' : Follows config' ys m pass' out') :
    out.1 = out'.1 ∧ out.2.tape = out'.2.tape := by
  rw [h.run_eq, h'.run_eq, Prod.mk.injEq] at hrun
  refine ⟨?_, hrun.2⟩
  rcases out with ⟨fault | stop, pass₁⟩ <;> rcases out' with ⟨fault' | stop', pass₂⟩
  · exact congrArg Except.error (Option.some.inj hrun.1)
  · cases hrun.1
  · cases hrun.1
  · have hstop := (h.stop_eq stop rfl).trans (h'.stop_eq stop' rfl).symm
    rw [UInt32.toNat_inj.1 hstop]

/-- Nothing to play. -/
theorem nil (hc : pass.config = config) (start : Tick) :
    Follows config [] start.toNat pass (.ok start, pass) where
  run_eq := rfl
  config_eq := hc
  stop_eq _ ht := by rw [Except.ok.inj ht]

end Follows

namespace Pass

@[simp] theorem tape_trace (pass : Pass) (notice : Notice) :
    (pass.trace notice).tape = pass.tape := by
  unfold trace
  split <;> rfl

@[simp] theorem config_trace (pass : Pass) (notice : Notice) :
    (pass.trace notice).config = pass.config := by
  unfold trace
  split <;> rfl

@[simp] theorem tape_fail (pass : Pass) (fault : Fault) :
    (pass.fail fault).tape = pass.tape.fail fault := rfl

@[simp] theorem tape_emit (pass : Pass) (event : Event) :
    (pass.emit event).tape = pass.tape.emit [event] := by
  simp [tape, emit, Tape.emit]

@[simp] theorem tape_takeChannel (pass : Pass) (instrument : Instrument) :
    (pass.takeChannel instrument).tape = pass.tape.takeChannel instrument := by
  unfold takeChannel
  rw [tape_trace, tape_emit]
  rfl

theorem config_takeChannel (pass : Pass) (instrument : Instrument) :
    (pass.takeChannel instrument).config = pass.config := by
  simp [takeChannel, emit]

/-- Channels are given out on the tape. -/
theorem tape_channelFor (pass : Pass) (instrument : Instrument) :
    pass.tape.channelFor pass.config.channels instrument =
      ((pass.channelFor instrument).1, (pass.channelFor instrument).2.tape) := by
  rw [Tape.channelFor, channelFor]
  show (match pass.channels.find? instrument with | some channel => _ | none => _) = _
  cases pass.channels.find? instrument with
  | some channel => rfl
  | none =>
    show (if pass.config.channels ≤ pass.nextChannel then _ else _) = _
    by_cases h : pass.config.channels ≤ pass.nextChannel
    · simp only [if_pos h, tape_fail]
    · simp only [if_neg h, tape_takeChannel]
      rfl

theorem config_channelFor (pass : Pass) (instrument : Instrument) :
    (pass.channelFor instrument).2.config = pass.config := by
  unfold channelFor
  split
  · rfl
  · split
    · rfl
    · exact config_takeChannel pass instrument

end Pass

/-- The end of a cue is reached exactly if its length is not at fault. -/
theorem endOf_cases (config : Config) (c : Cue) {start : Tick} (h : c.start = start.toNat) :
    (∃ fault, c.lengthFault? config.pace = some fault ∧
        endOf config start c.length = .error fault) ∨
      c.lengthFault? config.pace = none ∧
        ∃ stop, endOf config start c.length = .ok stop ∧ stop.toNat = c.stop config.pace := by
  rw [Cue.lengthFault?, endOf, Cue.stop, h]
  by_cases ho : c.length.isOverflow
  · exact Or.inl ⟨_, if_pos ho, if_pos ho⟩
  · rw [if_neg ho, if_neg ho]
    cases ht : tickAfter? start (c.length.toTicks config.ticksPerBeat.toNat) with
    | some stop =>
      have hs := tickAfter?_eq_some_iff.1 ht
      have hl := stop.toNat_lt
      refine Or.inr ⟨if_neg ?_, stop, rfl, hs⟩
      show ¬ lastTick < start.toNat + c.length.toTicks config.ticksPerBeat.toNat
      rw [← hs]
      unfold lastTick
      omega
    | none =>
      have hlt : lastTick < start.toNat + c.length.toTicks config.ticksPerBeat.toNat := by
        by_contra hn
        rw [tickAfter?, if_pos (Nat.not_lt.1 hn)] at ht
        exact absurd ht (Option.some_ne_none _)
      refine Or.inl ⟨_, if_pos hlt, ?_⟩
      simp

theorem toNat_max (a b : Tick) : (max a b).toNat = max a.toNat b.toNat := by
  show (if a ≤ b then b else a).toNat = _
  split
  · next h => exact (Nat.max_eq_right (UInt32.le_iff_toNat_le.1 h)).symm
  · next h =>
    rw [UInt32.not_le, UInt32.lt_iff_toNat_lt] at h
    exact (Nat.max_eq_left (Nat.le_of_lt h)).symm

/-- Where ticks and keys have numbers, a span loses nothing in its events. -/
theorem span_events_eq {pitch : Pitch} {key : UInt8} (hk : pitch.key? = some key)
    {start stop : Tick} {n : Nat} (hs : stop.toNat = n) (channel : Channel) (i : Instrument) :
    Span.events channel ⟨start.toNat, n, pitch.keyNumber, i⟩ =
      [⟨.noteOn, channel, key, start⟩] ++ [⟨.noteOff, channel, key, stop⟩] := by
  have hkey : pitch.keyNumber.toNat.toUInt8 = key := by
    rw [← Pitch.toNat_of_key? hk, Int.toNat_natCast]
    exact UInt8.ofNat_toNat
  subst hs
  simp [Span.events, hkey]

/-- A cue at fault stops the pass. -/
theorem Follows.of_fault {pass : Pass} {cue : Cue} {fault : Fault} {n : Nat}
    (h : cue.fault? pass.config.pace = some fault) :
    Follows pass.config [cue] n pass (.error fault, pass.fail fault) := by
  refine .of_error ?_ rfl
  rw [Tape.run, Tape.play, h]
  rfl

namespace Pass

variable {config : Config} {pass : Pass}

theorem follows_playRest (hc : pass.config = config) (length : Duration) (start : Tick) :
    Follows config [{ length, sound := none, start := start.toNat }]
      (start.toNat + length.toTicks config.pace.ticksPerBeat) pass
      (pass.playRest length start) := by
  subst hc
  rw [playRest]
  obtain ⟨fault, hf, he⟩ | ⟨hf, stop, he, hs⟩ :=
    endOf_cases pass.config { length, sound := none, start := start.toNat } rfl
  · rw [he]
    refine .of_fault ?_
    rw [Cue.fault?, hf]
    rfl
  · rw [he]
    refine ⟨?_, rfl, fun _ ht => Except.ok.inj ht ▸ hs⟩
    rw [Tape.run, Tape.play, Cue.fault?, hf]
    rfl

theorem follows_playNote (hc : pass.config = config) (length : Duration) (pitch : Pitch)
    (instrument : Instrument) (start : Tick) :
    Follows config [{ length, sound := some (pitch, instrument), start := start.toNat }]
      (start.toNat + length.toTicks config.pace.ticksPerBeat) pass
      (pass.playNote length pitch instrument start) := by
  subst hc
  rw [playNote, keyAndEnd, keyOf_eq]
  cases hk : pitch.key? with
  | none =>
    refine .of_fault ?_
    simp only [Cue.fault?, Cue.keyFault?, hk]
    rfl
  | some key =>
    obtain ⟨fault, hf, he⟩ | ⟨hf, stop, he, hs⟩ := endOf_cases pass.config
      { length, sound := some (pitch, instrument), start := start.toNat } rfl
    · rw [he]
      refine .of_fault ?_
      simp only [Cue.fault?, Cue.keyFault?, hk, hf]
      rfl
    · simp only [he]
      have hplay : Cue.fault? pass.config.pace
          { length, sound := some (pitch, instrument), start := start.toNat } = none := by
        rw [Cue.fault?, hf]
        simp [Cue.keyFault?, hk]
      have htape := tape_channelFor pass instrument
      have hconfig := config_channelFor pass instrument
      rcases hch : pass.channelFor instrument with ⟨fault | channel, pass'⟩ <;>
        rw [hch] at htape hconfig
      · refine .of_error ?_ hconfig
        simp only [Tape.run, Tape.play, hplay, Cue.span?, Option.map_some, htape]
      · refine ⟨?_, hconfig, fun _ ht => Except.ok.inj ht ▸ hs⟩
        simp only [Tape.run, Tape.play, hplay, Cue.span?, Option.map_some, htape, tape_emit,
          Tape.emit_emit, fault?]
        rw [← span_events_eq hk hs channel instrument]

/-- The cues of the rounds that are left.  With `k` bodies still to go, the cursor is
`k` bodies short of the first whole number of them that fills the cap. -/
theorem follows_loop {body : Tick → Pass → Except Fault Tick × Pass} {xs : Nat → List Cue}
    {ticks : Nat} (hpos : 0 < ticks)
    (hbody : ∀ (cursor : Tick) (pass : Pass), pass.config = config →
      Follows config (xs cursor.toNat) (cursor.toNat + ticks) pass (body cursor pass))
    (length : Duration) (start : Tick) {cap : Nat} (k : Nat) {cursor : Tick} (rounds : Nat)
    (hc : pass.config = config) (hs : start.toNat ≤ cursor.toNat)
    (hle : cap ≤ cursor.toNat - start.toNat + k * ticks)
    (hlt : cursor.toNat - start.toNat + k * ticks < cap + ticks) :
    Follows config ((List.range k).flatMap fun i => xs (cursor.toNat + i * ticks))
      (cursor.toNat + k * ticks) pass (loop body length cap start cursor rounds pass) := by
  induction k generalizing cursor rounds pass with
  | zero =>
    rw [loop, if_neg (by omega), Nat.zero_mul]
    exact (Follows.nil hc cursor).of_tape_eq (tape_trace ..) (config_trace ..)
  | succ k ih =>
    rw [Nat.succ_mul] at hle hlt
    have hfirst := hbody cursor pass hc
    rw [loop, if_pos (by omega), flatMap_rounds_succ]
    rcases hb : body cursor pass with ⟨fault | stop, pass'⟩ <;> rw [hb] at hfirst
    · exact hfirst.append_of_error
    · have hstop := hfirst.stop_eq stop rfl
      have hlt' : cursor < stop := UInt32.lt_iff_toNat_lt.2 (by omega)
      simp only [if_pos hlt']
      refine hfirst.append ?_
      have hih := ih (rounds + 1) hfirst.config_eq (show start.toNat ≤ stop.toNat by omega)
        (by omega) (by omega)
      rw [hstop] at hih
      rwa [Nat.succ_mul, Nat.add_comm (k * ticks), ← Nat.add_assoc]

/-- A body of no ticks is played once, if at all. -/
theorem follows_loop_of_ticks_eq_zero {body : Tick → Pass → Except Fault Tick × Pass}
    {xs : List Cue} {start : Tick} (hc : pass.config = config)
    (hbody : Follows config xs start.toNat pass (body start pass)) (length : Duration)
    (cap : Nat) :
    Follows config ((List.range (min cap 1)).flatMap fun _ => xs) start.toNat pass
      (loop body length cap start start 0 pass) := by
  rw [loop, Nat.sub_self]
  split
  · next hcap =>
    rw [Nat.min_eq_right hcap]
    show Follows config (xs ++ []) _ _ _
    rw [List.append_nil]
    rcases hb : body start pass with ⟨fault | stop, pass'⟩ <;> rw [hb] at hbody
    · exact hbody
    · obtain rfl : stop = start := UInt32.toNat_inj.1 (hbody.stop_eq stop rfl)
      simp only [if_neg (UInt32.lt_irrefl stop)]
      exact hbody.of_tape_eq (tape_trace ..) (config_trace ..)
  · next hcap =>
    rw [Nat.eq_zero_of_not_pos hcap]
    exact (Follows.nil hc start).of_tape_eq (tape_trace ..) (config_trace ..)

theorem follows_play_of_config (hc : pass.config = config) (piece : Piece) (start : Tick) :
    Follows config (piece.cues config.pace start.toNat)
      (start.toNat + piece.ticks config.pace) pass (pass.play piece start) := by
  induction piece generalizing start pass with
  | note length pitch instrument =>
    rw [play]
    exact follows_playNote hc length pitch instrument start
  | rest length =>
    rw [play]
    exact follows_playRest hc length start
  | concat a b iha ihb =>
    rw [play, Piece.cues, Piece.ticks, ← Nat.add_assoc]
    have ha := iha hc start
    rcases hp : pass.play a start with ⟨fault | middle, pass'⟩ <;> rw [hp] at ha
    · exact ha.append_of_error
    · have hb := ihb ha.config_eq middle
      rw [ha.stop_eq middle rfl] at hb
      exact ha.append hb
  | together a b iha ihb =>
    rw [play, Piece.cues, Piece.ticks]
    have ha := iha hc start
    rcases hp : pass.play a start with ⟨fault | topEnd, pass'⟩ <;> rw [hp] at ha
    · exact ha.append_of_error
    · have hb := ihb ha.config_eq start
      rcases hp' : pass'.play b start with ⟨fault | bottomEnd, pass''⟩ <;> rw [hp'] at hb
      · simp only [hp']
        exact ha.append (.of_error hb.run_eq hb.config_eq)
      · simp only [hp']
        refine ha.append ⟨hb.run_eq, hb.config_eq, fun _ ht => ?_⟩
        have htop := ha.stop_eq topEnd rfl
        have hbottom := hb.stop_eq bottomEnd rfl
        rw [← Except.ok.inj ht, toNat_max]
        omega
  | forever a ih =>
    rw [play_forever_eq, Piece.cues, Piece.ticks_forever]
    split
    · exact Follows.nil hc start
    · rcases Nat.eq_zero_or_pos (a.ticks config.pace) with h0 | h0
      · have hbody := ih hc start
        rw [h0, Nat.add_zero] at hbody
        rw [hc, h0]
        simp only [Pace.rounds, if_true, Nat.mul_zero, Nat.add_zero]
        exact follows_loop_of_ticks_eq_zero hc hbody a.duration config.maxTicks
      · have hb := config.pace.rounds_bounds h0
        rw [hc]
        refine follows_loop h0 (fun cursor _ hc => ih hc cursor) a.duration start
          (config.pace.rounds (a.ticks config.pace)) 0 hc (Nat.le_refl _) ?_ ?_
        · rw [Nat.sub_self, Nat.zero_add]
          exact hb.1
        · rw [Nat.sub_self, Nat.zero_add]
          exact hb.2

/-- **Playing a piece is playing its cues.**  From any state and any tick, a piece
leaves on the tape what its cues leave there one after the other, stops with the fault
that stops them, and otherwise ends after the ticks of the piece. -/
theorem follows_play (pass : Pass) (piece : Piece) (start : Tick) :
    Follows pass.config (piece.cues pass.config.pace start.toNat)
      (start.toNat + piece.ticks pass.config.pace) pass (pass.play piece start) :=
  follows_play_of_config rfl piece start

/-- A piece that goes through ends after its ticks. -/
theorem toNat_of_play {pass' : Pass} {piece : Piece} {start stop : Tick}
    (h : pass.play piece start = (.ok stop, pass')) :
    stop.toNat = start.toNat + piece.ticks pass.config.pace :=
  (follows_play pass piece start).stop_eq stop (by rw [h])

/-- Pieces of as many ticks whose cues leave the same end alike and leave the same. -/
theorem play_agree {p q : Piece} {start : Tick}
    (hticks : p.ticks pass.config.pace = q.ticks pass.config.pace)
    (hrun : Tape.run pass.config.pace pass.config.channels (p.cues pass.config.pace start.toNat)
        pass.tape =
      Tape.run pass.config.pace pass.config.channels (q.cues pass.config.pace start.toNat)
        pass.tape) :
    (pass.play p start).1 = (pass.play q start).1 ∧
      (pass.play p start).2.tape = (pass.play q start).2.tape := by
  have hq := follows_play pass q start
  rw [← hticks] at hq
  exact (follows_play pass p start).agree hrun hq

end Pass

end Playback
end Polyphony
