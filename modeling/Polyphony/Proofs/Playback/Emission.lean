/-
# What a fresh pass emits

A piece that goes through on a fresh pass has emitted exactly its spans
(`Pass.rendition_of_play`): the note events are one pair for each span, in the order of
the spans, and the instruments are on the channels `0`, `1`, `2`, … in the order in which
they are first heard.  The only other events are the program changes, each of them right
before the first pair of its instrument.

The spans are read off the piece by `Piece.spans`, which knows no pass, no fault and no
last tick.
-/

import Polyphony.Proofs.Playback.Channels

namespace Polyphony

/-- Is it a key that an event presses or releases? -/
def Event.isNote (e : Event) : Bool := e.kind == .noteOn || e.kind == .noteOff

theorem Event.isNote_iff {e : Event} :
    e.isNote = true ↔ e.kind = .noteOn ∨ e.kind = .noteOff := by
  simp [isNote]

namespace Playback

open ChannelTable

/-- A span that has a tick and a key for its events. -/
structure Span.Fits (span : Span) : Prop where
  start_le : span.start ≤ span.stop
  stop_le : span.stop ≤ lastTick
  key_nonneg : 0 ≤ span.key
  key_le : span.key ≤ 127

namespace Span.Fits

variable {span : Span}

theorem toNat_start (h : span.Fits) : span.start.toUInt32.toNat = span.start :=
  UInt32.toNat_ofNat_of_lt' (Nat.lt_succ_of_le (Nat.le_trans h.start_le h.stop_le))

theorem toNat_stop (h : span.Fits) : span.stop.toUInt32.toNat = span.stop :=
  UInt32.toNat_ofNat_of_lt' (Nat.lt_succ_of_le h.stop_le)

theorem toNat_key (h : span.Fits) : (span.key.toNat.toUInt8.toNat : Int) = span.key := by
  have hlo := h.key_nonneg
  have hhi := h.key_le
  rw [Nat.toUInt8, UInt8.toNat_ofNat']
  omega

/-- The events of a span lie within it and carry its key. -/
theorem bounds_of_mem_events (h : span.Fits) {c : Channel} {e : Event} (he : e ∈ span.events c) :
    (e.data.toNat : Int) = span.key ∧ span.start ≤ e.tick.toNat ∧ e.tick.toNat ≤ span.stop := by
  simp only [Span.events, List.mem_cons, List.not_mem_nil, or_false] at he
  rcases he with rfl | rfl
  · exact ⟨h.toNat_key, h.toNat_start.ge, h.toNat_start.trans_le h.start_le⟩
  · exact ⟨h.toNat_key, h.start_le.trans h.toNat_stop.ge, h.toNat_stop.le⟩

end Span.Fits

/-- These channels and events are what becomes of spans. -/
structure Rendition (spans : List Span) (channels : ChannelTable) (events : List Event) :
    Prop where
  /-- No tick and no key is too large for an event, so none is cut down in it. -/
  fits : ∀ span ∈ spans, span.Fits
  /-- Instruments stand in the order in which they are first heard. -/
  instruments_eq : channels.instruments = (spans.map Span.instrument).eraseDups
  /-- Their channels are the numbers from `0` on. -/
  numbers_eq : channels.numbers = List.range channels.entries.length
  /-- A key is pressed and released once for each span. -/
  notes_eq : events.filter Event.isNote =
    spans.flatMap fun span => span.events (channels.channelOf span.instrument)
  /-- Besides there is a program change before the first span of each instrument. -/
  events_eq : events = transcript channels.channelOf [] spans

theorem filter_isNote_transcript (channelOf : Instrument → Channel) (known : List Instrument)
    (spans : List Span) : (transcript channelOf known spans).filter Event.isNote =
      spans.flatMap fun span => span.events (channelOf span.instrument) := by
  induction spans generalizing known with
  | nil => rfl
  | cons span spans ih =>
    have hspan : (span.events (channelOf span.instrument)).filter Event.isNote =
        span.events (channelOf span.instrument) := rfl
    rw [transcript, List.flatMap_cons]
    split
    · rw [List.filter_append, hspan, ih]
    · rw [List.filter_cons_of_neg (by simp [Event.isNote]), List.filter_append, hspan, ih]

/-- The program change of an instrument. -/
def announce (channelOf : Instrument → Channel) (i : Instrument) : Event :=
  ⟨.programChange, channelOf i, i.program, 0⟩

/-- An event of a transcript belongs to a span or announces a newcomer. -/
theorem mem_transcript {channelOf : Instrument → Channel} {known : List Instrument}
    {spans : List Span} {e : Event} : e ∈ transcript channelOf known spans ↔
    (∃ span ∈ spans, e ∈ span.events (channelOf span.instrument)) ∨
      ∃ i ∈ newcomers known spans, e = announce channelOf i := by
  induction spans generalizing known with
  | nil => simp [transcript, newcomers]
  | cons span spans ih =>
    rw [transcript, newcomers]
    split
    · rw [List.mem_append, ih]
      simp only [List.mem_cons, exists_eq_or_imp, or_assoc]
    · rw [List.mem_cons, List.mem_append, ih]
      simp only [List.mem_cons, exists_eq_or_imp, announce]
      constructor
      · rintro (h | h | h | h)
        · exact Or.inr (Or.inl h)
        · exact Or.inl (Or.inl h)
        · exact Or.inl (Or.inr h)
        · exact Or.inr (Or.inr h)
      · rintro ((h | h) | h | h)
        · exact Or.inr (Or.inl h)
        · exact Or.inr (Or.inr (Or.inl h))
        · exact Or.inl h
        · exact Or.inr (Or.inr (Or.inr h))

theorem isNote_of_mem_events {span : Span} {c : Channel} {e : Event} (h : e ∈ span.events c) :
    e.channel = c ∧ (e.kind = .noteOn ∨ e.kind = .noteOff) := by
  simp only [Span.events, List.mem_cons, List.not_mem_nil, or_false] at h
  rcases h with rfl | rfl
  · exact ⟨rfl, Or.inl rfl⟩
  · exact ⟨rfl, Or.inr rfl⟩

/-- A cue has a key if its pitch, where it has one, lies on the keyboard. -/
theorem Cue.keyFault?_eq_none_iff {c : Cue} : c.keyFault? = none ↔
    ∀ pitch instrument, c.sound = some (pitch, instrument) →
      0 ≤ pitch.keyNumber ∧ pitch.keyNumber ≤ 127 := by
  unfold keyFault?
  split
  · next pitch instrument hs =>
    have hk : pitch.key?.isSome = true ↔ 0 ≤ pitch.keyNumber ∧ pitch.keyNumber ≤ 127 := by
      rw [Option.isSome_iff_ne_none, ne_eq, Pitch.key?_eq_none_iff]
      omega
    simp [hs, ← hk, Option.isSome_iff_ne_none]
  · next hs => simp [hs]

/-- What is not wrong with a cue that can be played. -/
theorem Cue.fault?_eq_none_iff {pace : Pace} {c : Cue} : c.fault? pace = none ↔
    (∀ pitch instrument, c.sound = some (pitch, instrument) →
      0 ≤ pitch.keyNumber ∧ pitch.keyNumber ≤ 127) ∧
    c.length.isOverflow = false ∧ c.stop pace ≤ lastTick := by
  have hlength : c.lengthFault? pace = none ↔
      c.length.isOverflow = false ∧ c.stop pace ≤ lastTick := by
    unfold lengthFault?
    split
    · next h => simp [h]
    · next h =>
      split
      · next hl => simp [hl]
      · next hl => simp [h, Nat.not_lt.1 hl]
  rw [fault?, Option.or_eq_none_iff, keyFault?_eq_none_iff, hlength]

/-- A cue that can be played fits into its events. -/
theorem Cue.fits_of_span? {pace : Pace} {c : Cue} {span : Span} (hf : c.fault? pace = none)
    (hs : c.span? pace = some span) : span.Fits := by
  obtain ⟨hkey, -, hstop⟩ := fault?_eq_none_iff.1 hf
  obtain ⟨⟨pitch, instrument⟩, hsound, rfl⟩ := Option.map_eq_some_iff.1 hs
  exact ⟨Nat.le_add_right _ _, hstop, (hkey _ _ hsound).1, (hkey _ _ hsound).2⟩

namespace Pass

variable {pass : Pass} {piece : Piece} {config : Config} {start stop : Tick}

/-- From a fresh pass a piece leaves the rendition of its spans. -/
theorem rendition_of_fresh (hconfig : config.problem? = none)
    (h : (new config).play piece start = (.ok stop, pass)) :
    Rendition (piece.spans config.pace start.toNat) pass.channels pass.events.toList := by
  have hcap := Config.pace_cap_pos hconfig
  obtain ⟨hf, hh⟩ := heard_of_play hcap h
  have hinstruments : pass.channels.instruments =
      newcomers [] (piece.spans config.pace start.toNat) := hh.instruments_eq
  have hlength : pass.channels.entries.length =
      (newcomers [] (piece.spans config.pace start.toNat)).length := by
    rw [← hinstruments, instruments, List.length_map]
  have hfits : ∀ span ∈ piece.spans config.pace start.toNat, span.Fits := by
    intro span hs
    rw [Piece.spans_eq_filterMap hcap] at hs
    obtain ⟨c, hc, hs⟩ := List.mem_filterMap.1 hs
    exact Cue.fits_of_span? (hf c hc) hs
  refine ⟨hfits, ?_, ?_, ?_, hh.events_eq⟩
  · rw [hinstruments, newcomers_nil]
  · rw [hlength, List.range_eq_range']
    exact hh.numbers_eq
  · rw [show pass.events.toList = transcript _ _ _ from hh.events_eq]
    exact filter_isNote_transcript ..

/-- **A pass emits the spans of its piece.**  A piece that goes through on a fresh pass
ends after its ticks and leaves the rendition of its spans. -/
theorem rendition_of_play (hconfig : config.problem? = none)
    (h : (new config).play piece start = (.ok stop, pass)) :
    stop.toNat = start.toNat + piece.ticks config.pace ∧
      Rendition (piece.spans config.pace start.toNat) pass.channels pass.events.toList :=
  ⟨toNat_of_play h, rendition_of_fresh hconfig h⟩

end Pass

/-- A violin over a bass that is looped.  Both voices hold the same key on one channel at
a time, and one of the notes lasts no tick. -/
def groundBass : Piece :=
  .together
    (.concat (.rest (.ofBeats 1))
      (.concat (.note .zero ⟨0⟩ .violin) (.note (.ofBeats 2) ⟨0⟩ .violin)))
    (.forever (.concat (.note (.ofBeats 1) ⟨-12⟩ .cello) (.note (.ofBeats 1) ⟨0⟩ .violin)))

/-- Settings under which a loop fills six ticks. -/
def sixTicks : Config := { ticksPerBeat := 2, beatsPerMinute := 3, maxMinutes := 1, start := 1 }

/-- The bass is played twice, so the piece ends eight ticks after its start. -/
theorem rendition_of_groundBass :
    sixTicks.problem? = none ∧ ((Pass.new sixTicks).play groundBass 1).1 = .ok 9 ∧
      (9 : Tick).toNat = (1 : Tick).toNat + groundBass.ticks sixTicks.pace ∧
      Rendition (groundBass.spans sixTicks.pace 1)
        ((Pass.new sixTicks).play groundBass 1).2.channels
        ((Pass.new sixTicks).play groundBass 1).2.events.toList := by
  have hconfig : sixTicks.problem? = none := by decide
  have h : ((Pass.new sixTicks).play groundBass 1).1 = .ok 9 := by decide +kernel
  exact ⟨hconfig, h, Pass.rendition_of_play hconfig (Prod.ext h rfl)⟩

end Playback
end Polyphony
