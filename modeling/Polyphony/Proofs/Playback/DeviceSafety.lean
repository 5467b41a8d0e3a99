/-
# Schedules are safe for a device

What a device relies on (`DeviceSafe`): ticks never fall; the channels are the first
numbers, one for each instrument that is heard; notes stay within the keys, the channels
and the time of the piece; and a channel is set to its program once, before anything is
played on it.

The last point is where emitting and sorting meet.  A program change is emitted when its
instrument is first heard, however late, and stamped with tick `0`.  Among the emitted
events it stands before all others of its channel (`pairwise_transcript`).  Sorting keeps
that: what stands before a program change in the schedule has tick `0` as well, so it
stood before it all along.
-/

import Polyphony.Proofs.Playback.Playability
import Polyphony.Proofs.Schedule.TickOrder

namespace Polyphony
namespace Playback

open ChannelTable

/-- What a device relies on when it is given a schedule of a piece that plays `used` from
tick `first` to tick `last`. -/
structure DeviceSafe (used : List Instrument) (capacity : Nat) (first last : Tick)
    (s : Schedule) : Prop where
  /-- Ticks never fall. -/
  sorted : s.events.Pairwise fun a b => a.tick ≤ b.tick
  /-- There are no more channels than the device has. -/
  length_le : s.channels.entries.length ≤ capacity
  /-- Who is heard has a channel, and nobody else. -/
  mem_used_iff : ∀ i, i ∈ used ↔ ∃ c, s.channels.find? i = some c
  /-- The channels are the numbers from `0` on. -/
  lt_length_iff : ∀ c : Channel,
    c.toNat < s.channels.entries.length ↔ ∃ i, s.channels.find? i = some c
  /-- No two instruments share a channel. -/
  injective : ∀ i j c, s.channels.find? i = some c → s.channels.find? j = some c → i = j
  /-- Notes stay within the keys, the channels and the time of the piece. -/
  notes : ∀ e ∈ s.events, e.kind = .noteOn ∨ e.kind = .noteOff →
    e.data ≤ 127 ∧ e.channel.toNat < s.channels.entries.length ∧ first ≤ e.tick ∧ e.tick ≤ last
  /-- The first event of a channel sets its program, at tick `0`, and all others are notes. -/
  programs : ∀ i c, s.channels.find? i = some c → ∃ before after,
    s.events = before ++ ⟨.programChange, c, i.program, 0⟩ :: after ∧
      (∀ e ∈ before, e.channel ≠ c) ∧
      ∀ e ∈ after, e.channel = c → e.kind = .noteOn ∨ e.kind = .noteOff

section

variable {channelOf : Instrument → Channel} {known : List Instrument} {spans : List Span}

/-- A program change of a transcript announces a newcomer. -/
theorem eq_announce_of_mem_transcript {e : Event} (h : e ∈ transcript channelOf known spans)
    (hk : e.kind = .programChange) : ∃ i ∈ newcomers known spans, e = announce channelOf i := by
  refine (mem_transcript.1 h).resolve_left ?_
  rintro ⟨span, -, he⟩
  rcases (isNote_of_mem_events he).2 with h | h <;> rw [hk] at h <;> cases h

/-- **Programs are set first.**  In a transcript with one channel for each instrument no
event of a channel stands before its program change. -/
theorem pairwise_transcript (hinj : Set.InjOn channelOf
      {i | i ∈ known ∨ ∃ span ∈ spans, span.instrument = i}) :
    (transcript channelOf known spans).Pairwise
      fun a b => b.kind = .programChange → a.channel ≠ b.channel := by
  induction spans generalizing known with
  | nil => exact List.Pairwise.nil
  | cons span spans ih =>
    have hpair : (span.events (channelOf span.instrument)).Pairwise
        fun a b => b.kind = .programChange → a.channel ≠ b.channel := by
      simp [Span.events]
    -- A program change further on is that of another instrument.
    have hlater : ∀ known', span.instrument ∈ known' → ∀ b ∈ transcript channelOf known' spans,
        b.kind = .programChange → channelOf span.instrument ≠ b.channel := by
      intro known' hmem b hb hk heq
      obtain ⟨i, hi, rfl⟩ := eq_announce_of_mem_transcript hb hk
      obtain ⟨hnot, span', hspan', rfl⟩ := mem_newcomers_iff.1 hi
      have hsame := hinj (Or.inr ⟨span, List.mem_cons_self .., rfl⟩)
        (Or.inr ⟨span', List.mem_cons_of_mem _ hspan', rfl⟩) heq
      exact hnot (hsame ▸ hmem)
    have hrest : ∀ known', span.instrument ∈ known' →
        (∀ i ∈ known', i ∈ known ∨ i = span.instrument) →
        (span.events (channelOf span.instrument) ++
          transcript channelOf known' spans).Pairwise
          fun a b => b.kind = .programChange → a.channel ≠ b.channel := by
      intro known' hmem hsub
      refine List.pairwise_append.2 ⟨hpair, ih (hinj.mono ?_), fun a ha b hb hk => ?_⟩
      · rintro i (hi | ⟨span', hspan', rfl⟩)
        · rcases hsub i hi with hi | rfl
          · exact Or.inl hi
          · exact Or.inr ⟨span, List.mem_cons_self .., rfl⟩
        · exact Or.inr ⟨span', List.mem_cons_of_mem _ hspan', rfl⟩
      · rw [(isNote_of_mem_events ha).1]
        exact hlater known' hmem b hb hk
    rw [transcript]
    split
    · next hmem => exact hrest known hmem fun i hi => Or.inl hi
    · next hmem =>
      have hself := List.mem_append_right known (List.mem_singleton_self span.instrument)
      refine List.pairwise_cons.2 ⟨fun b hb hk => ?_, hrest _ hself fun i hi => ?_⟩
      · rcases List.mem_append.1 hb with hb | hb
        · rcases (isNote_of_mem_events hb).2 with h | h <;> rw [hk] at h <;> cases h
        · exact hlater _ hself b hb hk
      · exact (List.mem_append.1 hi).imp_right List.mem_singleton.1

end

namespace Rendition

variable {channels : ChannelTable} {events : List Event} {spans : List Span} {i j : Instrument}
  {c : Channel}

theorem mem_instruments_iff (h : Rendition spans channels events) :
    i ∈ channels.instruments ↔ ∃ span ∈ spans, span.instrument = i := by
  rw [h.instruments_eq, List.mem_eraseDups, List.mem_map]

/-- No two instruments share a channel. -/
theorem injective (h : Rendition spans channels events) (hi : channels.find? i = some c)
    (hj : channels.find? j = some c) : i = j := by
  have hnodup : (channels.entries.map fun e => e.2.toNat).Nodup := by
    have hrange : (List.range channels.entries.length).Nodup := List.nodup_range
    rwa [← h.numbers_eq] at hrange
  exact congrArg Prod.fst
    (List.inj_on_of_nodup_map hnodup (find?_eq_some_iff.1 hi) (find?_eq_some_iff.1 hj) rfl)

theorem injOn_channelOf (h : Rendition spans channels events) : Set.InjOn channels.channelOf
    {i | i ∈ ([] : List Instrument) ∨ ∃ span ∈ spans, span.instrument = i} := by
  intro i hi j hj heq
  have hi' := find?_channelOf (h.mem_instruments_iff.2 (hi.resolve_left List.not_mem_nil))
  have hj' := find?_channelOf (h.mem_instruments_iff.2 (hj.resolve_left List.not_mem_nil))
  exact h.injective (heq ▸ hi') hj'

/-- The channels are the numbers from `0` on. -/
theorem lt_length_iff (h : Rendition spans channels events) :
    c.toNat < channels.entries.length ↔ ∃ i, channels.find? i = some c := by
  rw [← List.mem_range, ← h.numbers_eq, numbers, List.mem_map]
  constructor
  · rintro ⟨⟨i, c'⟩, he, hc⟩
    obtain rfl := UInt8.toNat_inj.1 hc
    exact ⟨i, find?_eq_some_iff.2 he⟩
  · rintro ⟨i, hi⟩
    exact ⟨(i, c), find?_eq_some_iff.1 hi, rfl⟩

/-- Every note is that of a span, on the channel of its instrument. -/
theorem bounds_of_isNote (h : Rendition spans channels events) {e : Event} (he : e ∈ events)
    (hk : e.kind = .noteOn ∨ e.kind = .noteOff) :
    e.data ≤ 127 ∧ e.channel.toNat < channels.entries.length ∧
      ∃ span ∈ spans, span.start ≤ e.tick.toNat ∧ e.tick.toNat ≤ span.stop := by
  rw [h.events_eq] at he
  rcases mem_transcript.1 he with ⟨span, hspan, he⟩ | ⟨i, -, rfl⟩
  · obtain ⟨hdata, hstart, hstop⟩ := (h.fits span hspan).bounds_of_mem_events he
    have hkey := (h.fits span hspan).key_le
    have hfind := find?_channelOf (h.mem_instruments_iff.2 ⟨span, hspan, rfl⟩)
    refine ⟨UInt8.le_iff_toNat_le.2 ?_, ?_, span, hspan, hstart, hstop⟩
    · show e.data.toNat ≤ 127
      omega
    · rw [(isNote_of_mem_events he).1]
      exact h.lt_length_iff.2 ⟨_, hfind⟩
  · rcases hk with hk | hk <;> cases hk

/-- Sorted by ticks, the first event of a channel still sets its program. -/
theorem programs (h : Rendition spans channels events) (hi : channels.find? i = some c) :
    ∃ before after,
      Schedule.inTickOrder events = before ++ ⟨.programChange, c, i.program, 0⟩ :: after ∧
        (∀ e ∈ before, e.channel ≠ c) ∧
        ∀ e ∈ after, e.channel = c → e.kind = .noteOn ∨ e.kind = .noteOff := by
  have hperm := Schedule.inTickOrder_perm events
  have hmem : (⟨.programChange, c, i.program, 0⟩ : Event) ∈ events := by
    have hmem' := ChannelTable.mem_instruments_iff.2 ⟨c, hi⟩
    obtain ⟨span, hspan, rfl⟩ := h.mem_instruments_iff.1 hmem'
    rw [h.events_eq, mem_transcript]
    refine Or.inr ⟨_, mem_newcomers_iff.2 ⟨List.not_mem_nil, span, hspan, rfl⟩, ?_⟩
    rw [announce, channelOf_eq_of_mem (find?_eq_some_iff.1 hi)]
  have hpair : (Schedule.inTickOrder events).Pairwise
      fun a b => b.kind = .programChange → a.channel ≠ b.channel := by
    refine Schedule.pairwise_inTickOrder ?_ fun a _ b hb hlt hk => ?_
    · rw [h.events_eq]
      exact pairwise_transcript h.injOn_channelOf
    · rw [h.events_eq] at hb
      obtain ⟨_, -, rfl⟩ := eq_announce_of_mem_transcript hb hk
      exact absurd hlt (UInt32.not_lt_zero)
  obtain ⟨before, after, hsplit⟩ := List.append_of_mem (hperm.mem_iff.2 hmem)
  rw [hsplit, List.pairwise_append, List.pairwise_cons] at hpair
  obtain ⟨-, ⟨hafter, -⟩, hbefore⟩ := hpair
  refine ⟨before, after, hsplit, fun e he => ?_, fun e he hc => ?_⟩
  · exact hbefore e he _ (List.mem_cons_self ..) rfl
  · have hemem : e ∈ events := by
      rw [← hperm.mem_iff, hsplit]
      exact List.mem_append_right _ (List.mem_cons_of_mem _ he)
    rw [h.events_eq] at hemem
    rcases mem_transcript.1 hemem with ⟨span, -, hspan⟩ | ⟨j, -, rfl⟩
    · exact (isNote_of_mem_events hspan).2
    · exact absurd hc.symm (hafter _ he rfl)

end Rendition

/-- The instruments of a recorded piece are those that have a channel. -/
theorem mem_instruments_iff_of_record {piece : Piece} {config : Config} {schedule : Schedule}
    {stop : Tick} (h : (record piece config).outcome = .ok (schedule, stop)) (i : Instrument) :
    i ∈ piece.instruments ↔ ∃ c, schedule.channels.find? i = some c := by
  obtain ⟨hconfig, pass, hplay, rfl⟩ := outcome_eq_ok_iff.1 h
  rw [piece.mem_instruments_iff (Config.pace_cap_pos hconfig) config.start.toNat,
    ← (Pass.rendition_of_fresh hconfig hplay).mem_instruments_iff]
  exact ChannelTable.mem_instruments_iff

/-- **Schedules are safe for a device.**  Whatever is recorded of a piece, a device that
has the channels it was asked for can be given it. -/
theorem deviceSafe_of_record {piece : Piece} {config : Config} {schedule : Schedule}
    {stop : Tick} (h : (record piece config).outcome = .ok (schedule, stop)) :
    DeviceSafe piece.instruments config.channels.toNat config.start stop schedule := by
  have hused := mem_instruments_iff_of_record h
  obtain ⟨hconfig, pass, hplay, rfl⟩ := outcome_eq_ok_iff.1 h
  have hcap := Config.pace_cap_pos hconfig
  have hr := Pass.rendition_of_fresh hconfig hplay
  have hlength : pass.channels.entries.length ≤ config.channels.toNat := by
    have hplayable := (exists_play_eq_ok_iff_playable hconfig).1 ⟨stop, by rw [hplay]⟩
    have hlen := congrArg List.length hr.instruments_eq
    rw [← newcomers_nil, length_newcomers hcap, instruments, List.length_map] at hlen
    exact hlen.trans_le hplayable.channels
  have hnotes : ∀ e ∈ Schedule.inTickOrder pass.events.toList,
      e.kind = .noteOn ∨ e.kind = .noteOff →
        e.data ≤ 127 ∧ e.channel.toNat < pass.channels.entries.length ∧
          config.start ≤ e.tick ∧ e.tick ≤ stop := by
    intro e he hk
    rw [(Schedule.inTickOrder_perm _).mem_iff] at he
    obtain ⟨hdata, hchannel, span, hspan, hstart, hstop⟩ := hr.bounds_of_isNote he hk
    obtain ⟨hlo, hhi⟩ := Piece.bounds_of_mem_spans hcap hspan
    have hend := Pass.toNat_of_play hplay
    refine ⟨hdata, hchannel, UInt32.le_iff_toNat_le.2 (hlo.trans hstart), ?_⟩
    rw [UInt32.le_iff_toNat_le, hend]
    exact hstop.trans hhi
  exact
    { sorted := Schedule.inTickOrder_pairwise _
      length_le := hlength
      mem_used_iff := hused
      lt_length_iff := fun _ => hr.lt_length_iff
      injective := fun _ _ _ => hr.injective
      notes := hnotes
      programs := fun _ _ => hr.programs }

/-- The violin is first, although the cello is heard before it. -/
theorem deviceSafe_of_groundBass :
    (record groundBass sixTicks).outcome = .ok ((record groundBass sixTicks).schedule, 9) ∧
      (record groundBass sixTicks).schedule.events.take 3 =
        [⟨.programChange, 0, 40, 0⟩, ⟨.programChange, 1, 42, 0⟩, ⟨.noteOn, 1, 48, 1⟩] ∧
      DeviceSafe groundBass.instruments 16 1 9 (record groundBass sixTicks).schedule := by
  have hplay : ((Pass.new sixTicks).play groundBass 1).1 = .ok 9 := by decide +kernel
  refine ⟨outcome_groundBass, ?_, deviceSafe_of_record outcome_groundBass⟩
  rw [record_of_play (by decide) (Prod.ext hplay rfl)]
  show (Schedule.inTickOrder _).take 3 = _
  rw [Schedule.inTickOrder_eq_insertionSort]
  decide +kernel

end Playback
end Polyphony
