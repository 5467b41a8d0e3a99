/-
# Playing later

A piece that goes through goes through at any later tick as well, as long as it still ends
by the last one, and turns into the same events, each note as many ticks later
(`Pass.play_later`).  Program changes stay at tick `0`.

Every check of a length looks at the tick where the length starts, so this is not a
matter of one case at a time.  Three facts carry it:

* the cues of a piece move with its start (`Piece.cues_add`), the rounds of its loops
  included, and none of them ends after the piece;
* a cue that is not at fault is not at fault later, unless it ends too late
  (`Cue.fault?_later`);
* who needs a channel, and which, is settled by the order of the spans alone
  (`newcomers_map`).
-/

import Polyphony.Proofs.Playback.Emission

namespace Polyphony

/-- An event, `k` ticks later if it is a note. -/
def Event.later (k : Nat) (e : Event) : Event :=
  if e.isNote then { e with tick := e.tick + k.toUInt32 } else e

namespace Playback

/-- A cue that is due `k` ticks later. -/
def Cue.later (k : Nat) (c : Cue) : Cue := { c with start := c.start + k }

/-- A span `k` ticks later. -/
def Span.later (k : Nat) (span : Span) : Span :=
  { span with start := span.start + k, stop := span.stop + k }

end Playback

namespace Piece

open Playback

variable {pace : Pace}

/-- The cues of a piece move with its start. -/
theorem cues_add (p : Piece) (s k : Nat) :
    p.cues pace (s + k) = (p.cues pace s).map (Cue.later k) := by
  induction p generalizing s with
  | note d p i => rfl
  | rest d => rfl
  | concat a b iha ihb =>
    rw [cues, cues, List.map_append, iha, ← ihb, Nat.add_right_comm]
  | together a b iha ihb => rw [cues, cues, List.map_append, iha, ihb]
  | forever a ih =>
    rw [cues, cues]
    split
    · rfl
    · rw [List.map_flatMap]
      congr 1
      funext i
      rw [← ih, Nat.add_right_comm]

end Piece

namespace Playback

open ChannelTable

variable {pace : Pace} {k : Nat}

/-- What is heard of a cue moves with it. -/
theorem Cue.span?_later (c : Cue) : (c.later k).span? pace = (c.span? pace).map (Span.later k) := by
  rw [span?, span?, Option.map_map]
  congr 1
  funext sound
  simp only [Function.comp, Cue.later, Span.later, Cue.stop, Nat.add_right_comm]

theorem filterMap_span?_later (cues : List Cue) :
    (cues.map (Cue.later k)).filterMap (Cue.span? pace) =
      (cues.filterMap (Cue.span? pace)).map (Span.later k) :=
  filterMap_span?_map Cue.span?_later cues

/-- A cue that is not at fault is not at fault later, unless it ends too late. -/
theorem Cue.fault?_later {c : Cue} (h : c.fault? pace = none)
    (hk : c.stop pace + k ≤ lastTick) : (c.later k).fault? pace = none := by
  obtain ⟨hkey, hlength, -⟩ := fault?_eq_none_iff.1 h
  refine fault?_eq_none_iff.2 ⟨hkey, hlength, ?_⟩
  show c.start + k + _ ≤ lastTick
  rw [Nat.add_right_comm]
  exact hk

theorem Span.events_later (channel : Channel) (span : Span) :
    (span.later k).events channel = (span.events channel).map (Event.later k) := by
  simp only [events, Span.later, List.map_cons, List.map_nil, Event.later, Event.isNote,
    Nat.toUInt32, UInt32.ofNat_add]
  rfl

/-- Spans turn into notes within them and into program changes at tick `0`. -/
theorem note_or_programChange_of_mem_transcript {channelOf : Instrument → Channel}
    {known : List Instrument} {spans : List Span} {last : Nat}
    (hf : ∀ span ∈ spans, span.Fits ∧ span.stop ≤ last) {e : Event}
    (he : e ∈ transcript channelOf known spans) :
    (e.isNote = true ∧ e.tick.toNat ≤ last) ∨ (e.kind = .programChange ∧ e.tick = 0) := by
  rcases mem_transcript.1 he with ⟨span, hspan, he⟩ | ⟨i, -, rfl⟩
  · obtain ⟨hfits, hlast⟩ := hf span hspan
    have hstop := (hfits.bounds_of_mem_events he).2.2
    exact Or.inl ⟨Event.isNote_iff.2 (isNote_of_mem_events he).2, hstop.trans hlast⟩
  · exact Or.inr ⟨rfl, rfl⟩

/-- Two tapes that differ by when the spans were heard that were put on them last. -/
theorem Heard.later {capacity : UInt8} {spans : List Span} {tape tape₁ tape₂ : Tape}
    (h : Heard capacity spans tape tape₁)
    (hlater : Heard capacity (spans.map (Span.later k)) tape tape₂) :
    tape₂.channels = tape₁.channels ∧ tape₂.nextChannel = tape₁.nextChannel ∧
      tape₂.fault = tape₁.fault ∧ tape₂.remark = tape₁.remark ∧
      tape₁.events = tape.events ++
        transcript tape₁.channels.channelOf tape.channels.instruments spans ∧
      tape₂.events = tape.events ++
        (transcript tape₁.channels.channelOf tape.channels.instruments spans).map
          (Event.later k) :=
  h.map (f := Span.later k) (g := Event.later k) (fun _ => rfl) (fun _ _ => rfl)
    (fun span _ channel => span.events_later channel) hlater

/-- Cues that go through and end `k` ticks before the last one go through `k` ticks later. -/
theorem Tape.exists_run_later {capacity : UInt8} {cues : List Cue} {tape tape₁ : Tape}
    (h : run pace capacity cues tape = (none, tape₁))
    (hk : ∀ cue ∈ cues, cue.stop pace + k ≤ lastTick) :
    ∃ tape₂, run pace capacity (cues.map (Cue.later k)) tape = (none, tape₂) := by
  have hf := ((run_eq_none_iff cues tape).1 (congrArg Prod.fst h)).1
  exact exists_run_map Cue.span?_later (fun _ => rfl)
    (fun cue hcue => Cue.fault?_later (hf cue hcue) (hk cue hcue)) h

namespace Pass

/-- `late` is what `after` is, but `pass` was played on `k` ticks later. -/
structure Late (k : Nat) (pass after late : Pass) : Prop where
  channels_eq : late.channels = after.channels
  nextChannel_eq : late.nextChannel = after.nextChannel
  fault_eq : late.fault = after.fault
  remark_eq : late.remark = after.remark
  /-- What is emitted are notes, each of them `k` ticks later in `late` and not beyond the
  last tick, and program changes at tick `0`. -/
  events_eq : ∃ emitted, after.events.toList = pass.events.toList ++ emitted ∧
    late.events.toList = pass.events.toList ++ emitted.map (Event.later k) ∧
    ∀ e ∈ emitted, (e.isNote = true ∧ e.tick.toNat + k ≤ lastTick) ∨
      (e.kind = .programChange ∧ e.tick = 0)

/-- A tick moves by `k` if there is such a tick. -/
theorem toNat_add_of_le {t : Tick} (h : t.toNat + k ≤ lastTick) :
    (t + k.toUInt32).toNat = t.toNat + k := by
  have hk : tickAfter? t k = some (t + k.toUInt32) := if_pos h
  exact tickAfter?_eq_some_iff.1 hk

/-- **Playing later.**  From any state of a pass, a piece that goes through from `start` to
`stop` goes through `k` ticks later, if `stop` is not within `k` ticks of the last one, and
leaves the same but for the ticks of its notes. -/
theorem play_later {pass after : Pass} {piece : Piece} {start stop : Tick}
    (h : pass.play piece start = (.ok stop, after)) (hk : stop.toNat + k ≤ lastTick) :
    (start + k.toUInt32).toNat = start.toNat + k ∧ (stop + k.toUInt32).toNat = stop.toNat + k ∧
      ∃ late, pass.play piece (start + k.toUInt32) = (.ok (stop + k.toUInt32), late) ∧
        Late k pass after late := by
  have hend := toNat_of_play h
  have hstart : (start + k.toUInt32).toNat = start.toNat + k := toNat_add_of_le (by omega)
  have hstop : (stop + k.toUInt32).toNat = stop.toNat + k := toNat_add_of_le hk
  have hcues : ∀ cue ∈ piece.cues pass.config.pace start.toNat,
      cue.stop pass.config.pace + k ≤ lastTick := by
    intro cue hcue
    have := Piece.stop_le_of_mem_cues hcue
    omega
  have hrun := (follows_play pass piece start).run_eq
  rw [h] at hrun
  obtain ⟨tape, hrun'⟩ := Tape.exists_run_later hrun hcues
  obtain ⟨hf, hheard⟩ := Tape.heard_of_run hrun
  have hlate := (Tape.heard_of_run hrun').2
  rw [filterMap_span?_later] at hlate
  obtain ⟨hch, hnext, hfault, hremark, hevents, hevents'⟩ := hheard.later hlate
  have hfollows := follows_play pass piece (start + k.toUInt32)
  rw [hstart, Piece.cues_add] at hfollows
  rcases hp : pass.play piece (start + k.toUInt32) with ⟨fault | stop', late⟩ <;>
    rw [hp] at hfollows <;> have heq := hfollows.run_eq.symm.trans hrun'
  · cases heq
  · obtain rfl : late.tape = tape := congrArg Prod.snd heq
    have hstop' : stop' = stop + k.toUInt32 := by
      rw [← UInt32.toNat_inj, hfollows.stop_eq stop' rfl, hstop, hend]
      omega
    refine ⟨hstart, hstop, late, by rw [hstop'], hch, hnext, hfault, hremark, _, hevents,
      hevents', fun e he => ?_⟩
    refine (note_or_programChange_of_mem_transcript (fun span hspan => ?_) he).imp_left
      fun hnote => ⟨hnote.1, Nat.le_trans (Nat.add_le_add_right hnote.2 k) hk⟩
    obtain ⟨cue, hcue, hs⟩ := List.mem_filterMap.1 hspan
    have hle := Piece.stop_le_of_mem_cues hcue
    refine ⟨Cue.fits_of_span? (hf cue hcue) hs, ?_⟩
    obtain ⟨_, -, rfl⟩ := Option.map_eq_some_iff.1 hs
    show cue.stop pass.config.pace ≤ stop.toNat
    omega

end Pass

/-- The violin and the looped bass, six ticks later. -/
theorem play_later_groundBass :
    ((Pass.new sixTicks).play groundBass 1).1 = .ok 9 ∧
      ((Pass.new sixTicks).play groundBass 7).1 = .ok 15 ∧
      Pass.Late 6 (Pass.new sixTicks) ((Pass.new sixTicks).play groundBass 1).2
        ((Pass.new sixTicks).play groundBass 7).2 := by
  have h : ((Pass.new sixTicks).play groundBass 1).1 = .ok 9 := by decide +kernel
  have hplay : (Pass.new sixTicks).play groundBass 1 =
      (.ok 9, ((Pass.new sixTicks).play groundBass 1).2) := Prod.ext h rfl
  have hk : (9 : Tick).toNat + 6 ≤ lastTick := by decide
  obtain ⟨-, -, late, hlater, hlate⟩ := Pass.play_later hplay hk
  have hlater' : (Pass.new sixTicks).play groundBass 7 = (.ok 15, late) := hlater
  rw [hlater']
  exact ⟨h, rfl, hlate⟩

end Playback
end Polyphony
