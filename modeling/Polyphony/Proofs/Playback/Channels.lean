/-
# Which channel plays what

Channels are given out first come, first served, and nothing on a tape is ever taken
back: the table grows at its end, the events grow at theirs, and an instrument keeps
the channel that it got first.  So all that a tape holds after some spans can be read
off the spans and the *last* state of the table:

| on the tape | after the spans |
| --- | --- |
| instruments | those from before, then the `newcomers` in the order of their first spans |
| channels | those from before, then the next numbers without a gap |
| events | those from before, then the `transcript` of the spans |

`Tape.run_eq_none_iff` says when cues go through: none of them is at fault by itself,
and there is a channel for each newcomer.  `Tape.heard_of_run` says what they leave then.

Spans that are varied one by one and keep their instruments get the same channels, and what
they leave is varied as they are (`Heard.map`).
-/

import Polyphony.Proofs.Playback.Tape
import Mathlib.Data.List.Nodup
import Mathlib.Data.Finset.Card

namespace Polyphony

namespace ChannelTable

variable {t : ChannelTable} {i : Instrument} {c : Channel}

/-- The instruments of a table, in the order in which they came in. -/
def instruments (t : ChannelTable) : List Instrument := t.entries.map Prod.fst

/-- The numbers of the channels of a table, in the order in which they were given. -/
def numbers (t : ChannelTable) : List Nat := t.entries.map fun e => e.2.toNat

/-- The channel of an instrument that has one. -/
def channelOf (t : ChannelTable) (i : Instrument) : Channel := (t.find? i).getD 0

theorem find?_eq_some_iff : t.find? i = some c ↔ (i, c) ∈ t.entries := by
  have hmem : ∀ {c}, t.find? i = some c → (i, c) ∈ t.entries := by
    intro c h
    obtain ⟨e, he, rfl⟩ := Option.map_eq_some_iff.1 h
    have hi : e.1 = i := by simpa using List.find?_some he
    exact hi ▸ List.mem_of_find?_eq_some he
  refine ⟨hmem, fun h => ?_⟩
  cases hf : t.find? i with
  | none => exact absurd (List.mem_map_of_mem h) (find?_eq_none_iff.1 hf)
  | some c' => exact congrArg some (Prod.ext_iff.1
      (List.inj_on_of_nodup_map t.distinct (hmem hf) h rfl)).2

theorem mem_instruments_iff : i ∈ t.instruments ↔ ∃ c, t.find? i = some c := by
  constructor
  · intro h
    obtain ⟨⟨i, c⟩, he, rfl⟩ := List.mem_map.1 h
    exact ⟨c, find?_eq_some_iff.2 he⟩
  · rintro ⟨c, h⟩
    exact List.mem_map_of_mem (find?_eq_some_iff.1 h)

theorem not_mem_instruments_iff : i ∉ t.instruments ↔ t.find? i = none := find?_eq_none_iff.symm

theorem find?_channelOf (h : i ∈ t.instruments) : t.find? i = some (t.channelOf i) := by
  obtain ⟨c, hc⟩ := mem_instruments_iff.1 h
  rw [channelOf, hc, Option.getD_some]

theorem channelOf_eq_of_mem (h : (i, c) ∈ t.entries) : t.channelOf i = c := by
  rw [channelOf, find?_eq_some_iff.2 h, Option.getD_some]

theorem instruments_insert (h : t.find? i = none) (c : Channel) :
    (t.insert i c).instruments = t.instruments ++ [i] := by
  rw [instruments, entries_insert_of_find?_none c h, List.map_append]
  rfl

theorem numbers_insert (h : t.find? i = none) (c : Channel) :
    (t.insert i c).numbers = t.numbers ++ [c.toNat] := by
  rw [numbers, entries_insert_of_find?_none c h, List.map_append]
  rfl

/-- A table is known by its instruments and the numbers of their channels. -/
theorem ext_of_columns {s t : ChannelTable} (hi : s.instruments = t.instruments)
    (hn : s.numbers = t.numbers) : s = t := by
  have hpairs : s.entries.map (fun e => (e.1, e.2.toNat)) =
      t.entries.map fun e => (e.1, e.2.toNat) := by
    have hzip := congrArg₂ List.zip hi hn
    rwa [instruments, instruments, numbers, numbers, List.zip_map', List.zip_map'] at hzip
  refine ext (List.map_injective_iff.2 (fun a b hab => ?_) hpairs)
  obtain ⟨h₁, h₂⟩ := Prod.mk.inj hab
  exact Prod.ext h₁ (UInt8.toNat_inj.1 h₂)

end ChannelTable

namespace Playback

open ChannelTable

/-- The instruments of spans that are not known yet, in the order of their first spans. -/
def newcomers : List Instrument → List Span → List Instrument
  | _, [] => []
  | known, span :: spans =>
    if span.instrument ∈ known then newcomers known spans
    else span.instrument :: newcomers (known ++ [span.instrument]) spans

/-- The events of spans: two for each, and before the first one of an instrument the
change of its channel to its program. -/
def transcript (channelOf : Instrument → Channel) : List Instrument → List Span → List Event
  | _, [] => []
  | known, span :: spans =>
    if span.instrument ∈ known then
      span.events (channelOf span.instrument) ++ transcript channelOf known spans
    else
      ⟨.programChange, channelOf span.instrument, span.instrument.program, 0⟩ ::
        (span.events (channelOf span.instrument) ++
          transcript channelOf (known ++ [span.instrument]) spans)

/-- Newcomers are the instruments that are not known, each where it comes first. -/
theorem newcomers_eq (known : List Instrument) (spans : List Span) : newcomers known spans =
    ((spans.map Span.instrument).filter fun i => i ∉ known).eraseDups := by
  induction spans generalizing known with
  | nil => rfl
  | cons span spans ih =>
    rw [newcomers, List.map_cons]
    split
    · next h => rw [List.filter_cons_of_neg (by simpa using h), ih]
    · next h =>
      rw [List.filter_cons_of_pos (by simpa using h), List.eraseDups_cons, ih, List.filter_filter]
      congr 3
      funext i
      simp [not_or, Bool.and_comm, beq_eq_decide]

theorem mem_newcomers_iff {known : List Instrument} {spans : List Span} {i : Instrument} :
    i ∈ newcomers known spans ↔ i ∉ known ∧ ∃ span ∈ spans, span.instrument = i := by
  rw [newcomers_eq, List.mem_eraseDups, List.mem_filter, List.mem_map, and_comm]
  simp

/-- From where all is new, the newcomers are all instruments, each where it comes first. -/
theorem newcomers_nil (spans : List Span) :
    newcomers [] spans = (spans.map Span.instrument).eraseDups := by
  simp [newcomers_eq]

section

variable {pace : Pace} {v : Cue → Cue} {f : Span → Span} {g : Event → Event}

/-- What varies what is heard of each cue varies what is heard of all. -/
theorem filterMap_span?_map (hv : ∀ c, (v c).span? pace = (c.span? pace).map f)
    (cues : List Cue) : (cues.map v).filterMap (Cue.span? pace) =
      (cues.filterMap (Cue.span? pace)).map f := by
  rw [List.filterMap_map, List.map_filterMap]
  congr 1
  funext c
  exact hv c

/-- Who is new depends on the instruments of the spans alone. -/
theorem newcomers_map (hf : ∀ span, (f span).instrument = span.instrument)
    (known : List Instrument) (spans : List Span) :
    newcomers known (spans.map f) = newcomers known spans := by
  have hinstruments : (spans.map f).map Span.instrument = spans.map Span.instrument := by
    rw [List.map_map]
    exact List.map_congr_left fun span _ => hf span
  rw [newcomers_eq, newcomers_eq, hinstruments]

/-- What varies the events of each span, and no program change, varies a transcript. -/
theorem transcript_map (hf : ∀ span, (f span).instrument = span.instrument)
    (hg : ∀ channel program,
      g ⟨.programChange, channel, program, 0⟩ = ⟨.programChange, channel, program, 0⟩)
    (channelOf : Instrument → Channel) (known : List Instrument) {spans : List Span}
    (hspans : ∀ span ∈ spans, ∀ channel,
      (f span).events channel = (span.events channel).map g) :
    transcript channelOf known (spans.map f) = (transcript channelOf known spans).map g := by
  induction spans generalizing known with
  | nil => rfl
  | cons span spans ih =>
    obtain ⟨hspan, hspans⟩ := List.forall_mem_cons.1 hspans
    rw [List.map_cons, transcript, transcript, hf span, hspan]
    split
    · rw [List.map_append, ih _ hspans]
    · rw [List.map_cons, List.map_append, ih _ hspans, hg]

end

/-- Below a capacity the count of channels never wraps around. -/
theorem toNat_add_one_of_lt {c capacity : Channel} (h : c < capacity) :
    (c + 1).toNat = c.toNat + 1 := by
  have := capacity.toNat_lt
  rw [UInt8.lt_iff_toNat_lt] at h
  rw [UInt8.toNat_add, UInt8.toNat_one]
  omega

/-- `tape'` is `tape` after spans have been heard. -/
structure Heard (capacity : UInt8) (spans : List Span) (tape tape' : Tape) : Prop where
  entries_prefix : tape.channels.entries <+: tape'.channels.entries
  instruments_eq : tape'.channels.instruments =
    tape.channels.instruments ++ newcomers tape.channels.instruments spans
  numbers_eq : tape'.channels.numbers = tape.channels.numbers ++
    List.range' tape.nextChannel.toNat (newcomers tape.channels.instruments spans).length
  nextChannel_eq : tape'.nextChannel.toNat =
    tape.nextChannel.toNat + (newcomers tape.channels.instruments spans).length
  /-- A channel that was given is one that the device has. -/
  room : newcomers tape.channels.instruments spans ≠ [] →
    tape'.nextChannel.toNat ≤ capacity.toNat
  events_eq : tape'.events = tape.events ++
    transcript tape'.channels.channelOf tape.channels.instruments spans
  fault_eq : tape'.fault = tape.fault
  remark_eq : tape'.remark = tape.remark

namespace Heard

variable {capacity : UInt8} {spans : List Span} {span : Span} {tape tape' : Tape} {c : Channel}

theorem nil : Heard capacity [] tape tape where
  entries_prefix := List.prefix_rfl
  instruments_eq := (List.append_nil _).symm
  numbers_eq := (List.append_nil _).symm
  nextChannel_eq := rfl
  room h := absurd rfl h
  events_eq := (List.append_nil _).symm
  fault_eq := rfl
  remark_eq := rfl

/-- A span of an instrument that has its channel. -/
theorem cons_known (hc : tape.channels.find? span.instrument = some c)
    (h : Heard capacity spans (tape.emit (span.events c)) tape') :
    Heard capacity (span :: spans) tape tape' := by
  have hmem : span.instrument ∈ tape.channels.instruments := mem_instruments_iff.2 ⟨c, hc⟩
  have hnew : newcomers tape.channels.instruments (span :: spans) =
      newcomers tape.channels.instruments spans := if_pos hmem
  refine ⟨h.entries_prefix, ?_, ?_, ?_, ?_, ?_, h.fault_eq, h.remark_eq⟩
  · rw [hnew]; exact h.instruments_eq
  · rw [hnew]; exact h.numbers_eq
  · rw [hnew]; exact h.nextChannel_eq
  · rw [hnew]; exact h.room
  · have hch := channelOf_eq_of_mem (h.entries_prefix.subset (find?_eq_some_iff.1 hc))
    rw [transcript, if_pos hmem, hch, ← List.append_assoc]
    exact h.events_eq

/-- A span of an instrument that gets its channel now. -/
theorem cons_new (hc : tape.channels.find? span.instrument = none)
    (hcap : tape.nextChannel < capacity)
    (h : Heard capacity spans
      ((tape.takeChannel span.instrument).emit (span.events tape.nextChannel)) tape') :
    Heard capacity (span :: spans) tape tape' := by
  have hmem := not_mem_instruments_iff.2 hc
  have hnew : newcomers tape.channels.instruments (span :: spans) = span.instrument ::
      newcomers (tape.channels.instruments ++ [span.instrument]) spans := if_neg hmem
  have hnext := toNat_add_one_of_lt hcap
  have hinstruments := instruments_insert hc tape.nextChannel
  have hnumbers := numbers_insert hc tape.nextChannel
  obtain ⟨hpre, hi, hn, hnc, hroom, hev, hf, hr⟩ := h
  simp only [Tape.emit, Tape.takeChannel, hinstruments, hnumbers, hnext] at hpre hi hn hnc hroom hev
  rw [entries_insert_of_find?_none _ hc] at hpre
  refine ⟨(List.prefix_append ..).trans hpre, ?_, ?_, ?_, ?_, ?_, hf, hr⟩
  · rw [hnew, hi, List.append_assoc, List.singleton_append]
  · rw [hnew, hn, List.append_assoc, List.length_cons, List.range'_succ]
    rfl
  · rw [hnew, hnc, List.length_cons]
    omega
  · intro _
    by_cases h0 : newcomers (tape.channels.instruments ++ [span.instrument]) spans = []
    · rw [hnc, h0, List.length_nil]
      exact UInt8.lt_iff_toNat_lt.1 hcap
    · exact hroom h0
  · have hch := channelOf_eq_of_mem
      (hpre.subset (List.mem_append_right _ (List.mem_singleton_self _)))
    rw [transcript, if_neg hmem, hch, hev]
    simp only [List.append_assoc, List.nil_append, List.cons_append]

/-- Two tapes that differ by how the spans were varied that were put on them last. -/
theorem map {f : Span → Span} {g : Event → Event} {tape₁ tape₂ : Tape}
    (hf : ∀ span, (f span).instrument = span.instrument)
    (hg : ∀ channel program,
      g ⟨.programChange, channel, program, 0⟩ = ⟨.programChange, channel, program, 0⟩)
    (hspans : ∀ span ∈ spans, ∀ channel, (f span).events channel = (span.events channel).map g)
    (h : Heard capacity spans tape tape₁) (hmap : Heard capacity (spans.map f) tape tape₂) :
    tape₂.channels = tape₁.channels ∧ tape₂.nextChannel = tape₁.nextChannel ∧
      tape₂.fault = tape₁.fault ∧ tape₂.remark = tape₁.remark ∧
      tape₁.events = tape.events ++
        transcript tape₁.channels.channelOf tape.channels.instruments spans ∧
      tape₂.events = tape.events ++
        (transcript tape₁.channels.channelOf tape.channels.instruments spans).map g := by
  have hchannels : tape₂.channels = tape₁.channels := by
    refine ext_of_columns ?_ ?_
    · rw [hmap.instruments_eq, h.instruments_eq, newcomers_map hf]
    · rw [hmap.numbers_eq, h.numbers_eq, newcomers_map hf]
  have hnext : tape₂.nextChannel = tape₁.nextChannel := by
    rw [← UInt8.toNat_inj, hmap.nextChannel_eq, h.nextChannel_eq, newcomers_map hf]
  refine ⟨hchannels, hnext, hmap.fault_eq.trans h.fault_eq.symm,
    hmap.remark_eq.trans h.remark_eq.symm, h.events_eq, ?_⟩
  rw [hmap.events_eq, hchannels, transcript_map hf hg _ _ hspans]

end Heard

namespace Tape

variable {pace : Pace} {capacity : UInt8} {cues : List Cue} {tape tape' : Tape}

/-- What cues leave on a tape if they go through. -/
theorem heard_of_run (h : run pace capacity cues tape = (none, tape')) :
    (∀ cue ∈ cues, cue.fault? pace = none) ∧
      Heard capacity (cues.filterMap (Cue.span? pace)) tape tape' := by
  induction cues generalizing tape with
  | nil =>
    obtain rfl : tape = tape' := congrArg Prod.snd h
    exact ⟨fun _ hc => absurd hc List.not_mem_nil, .nil⟩
  | cons cue cues ih =>
    rw [run] at h
    have hstep := step_play pace capacity tape cue
    generalize tape.play pace capacity cue = out at h hstep
    rw [List.forall_mem_cons]
    cases hstep with
    | fault => cases h
    | full => cases h
    | rest hf hs =>
      rw [List.filterMap_cons_none hs]
      exact ⟨⟨hf, (ih h).1⟩, (ih h).2⟩
    | known hf hs hc =>
      rw [List.filterMap_cons_some hs]
      exact ⟨⟨hf, (ih h).1⟩, .cons_known hc (ih h).2⟩
    | new hf hs hc hcap =>
      rw [List.filterMap_cons_some hs]
      exact ⟨⟨hf, (ih h).1⟩, .cons_new hc hcap (ih h).2⟩

/-- Cues that are not at fault go through if there is a channel for each newcomer. -/
theorem exists_run_eq (hf : ∀ cue ∈ cues, cue.fault? pace = none)
    (hroom : newcomers tape.channels.instruments (cues.filterMap (Cue.span? pace)) = [] ∨
      tape.nextChannel.toNat + (newcomers tape.channels.instruments
        (cues.filterMap (Cue.span? pace))).length ≤ capacity.toNat) :
    ∃ tape', run pace capacity cues tape = (none, tape') := by
  induction cues generalizing tape with
  | nil => exact ⟨tape, rfl⟩
  | cons cue cues ih =>
    obtain ⟨hcue, hf⟩ := List.forall_mem_cons.1 hf
    rw [run]
    have hstep := step_play pace capacity tape cue
    generalize tape.play pace capacity cue = out at hstep
    cases hstep with
    | fault hfault => exact absurd (hcue.symm.trans hfault) (Option.some_ne_none _).symm
    | rest _ hs =>
      rw [List.filterMap_cons_none hs] at hroom
      exact ih hf hroom
    | known _ hs hc =>
      rw [List.filterMap_cons_some hs, newcomers,
        if_pos (mem_instruments_iff.2 ⟨_, hc⟩)] at hroom
      exact ih hf hroom
    | new _ hs hc hcap =>
      rw [List.filterMap_cons_some hs, newcomers, if_neg (not_mem_instruments_iff.2 hc),
        List.length_cons] at hroom
      have hlen := hroom.resolve_left (List.cons_ne_nil _ _)
      refine ih hf (Or.inr ?_)
      simp only [emit, takeChannel, instruments_insert hc, toNat_add_one_of_lt hcap]
      omega
    | full _ hs hc hcap =>
      rw [List.filterMap_cons_some hs, newcomers, if_neg (not_mem_instruments_iff.2 hc),
        List.length_cons] at hroom
      have hlen := hroom.resolve_left (List.cons_ne_nil _ _)
      rw [UInt8.le_iff_toNat_le] at hcap
      omega

/-- **When cues go through.**  None of them is at fault by itself, and there is a
channel for every newcomer. -/
theorem run_eq_none_iff (cues : List Cue) (tape : Tape) :
    (run pace capacity cues tape).1 = none ↔
    (∀ cue ∈ cues, cue.fault? pace = none) ∧
      (newcomers tape.channels.instruments (cues.filterMap (Cue.span? pace)) = [] ∨
        tape.nextChannel.toNat + (newcomers tape.channels.instruments
          (cues.filterMap (Cue.span? pace))).length ≤ capacity.toNat) := by
  constructor
  · intro h
    obtain ⟨hf, hh⟩ := heard_of_run (Prod.ext_iff.2 ⟨h, rfl⟩)
    refine ⟨hf, Classical.or_iff_not_imp_left.2 fun hne => ?_⟩
    rw [← hh.nextChannel_eq]
    exact hh.room hne
  · rintro ⟨hf, hroom⟩
    obtain ⟨tape', h⟩ := exists_run_eq hf hroom
    rw [h]

/-- Cues that go through go through when they are varied, if they keep their instruments and
no varied one is at fault. -/
theorem exists_run_map {v : Cue → Cue} {f : Span → Span}
    (hv : ∀ c, (v c).span? pace = (c.span? pace).map f)
    (hf : ∀ span, (f span).instrument = span.instrument)
    (hfault : ∀ cue ∈ cues, (v cue).fault? pace = none)
    (h : run pace capacity cues tape = (none, tape')) :
    ∃ varied, run pace capacity (cues.map v) tape = (none, varied) := by
  have hroom := ((run_eq_none_iff cues tape).1 (congrArg Prod.fst h)).2
  refine exists_run_eq (List.forall_mem_map.2 hfault) ?_
  rw [filterMap_span?_map hv, newcomers_map hf]
  exact hroom

end Tape

namespace Pass

variable {pass pass' : Pass} {piece : Piece} {start stop : Tick}

/-- What a piece leaves on the tape if it goes through. -/
theorem heard_of_play (hcap : 0 < pass.config.pace.cap)
    (h : pass.play piece start = (.ok stop, pass')) :
    (∀ cue ∈ piece.cues pass.config.pace start.toNat, cue.fault? pass.config.pace = none) ∧
      Heard pass.config.channels (piece.spans pass.config.pace start.toNat)
        pass.tape pass'.tape := by
  have hrun := (follows_play pass piece start).run_eq
  rw [h] at hrun
  rw [Piece.spans_eq_filterMap hcap]
  exact Tape.heard_of_run hrun

/-- When a piece goes through: none of its cues is at fault by itself, and there is a
channel for every newcomer. -/
theorem exists_play_eq_ok_iff (hcap : 0 < pass.config.pace.cap) :
    (∃ stop, (pass.play piece start).1 = .ok stop) ↔
      (∀ cue ∈ piece.cues pass.config.pace start.toNat, cue.fault? pass.config.pace = none) ∧
        (newcomers pass.channels.instruments (piece.spans pass.config.pace start.toNat) = [] ∨
          pass.nextChannel.toNat + (newcomers pass.channels.instruments
            (piece.spans pass.config.pace start.toNat)).length ≤ pass.config.channels.toNat) := by
  have hrun := (follows_play pass piece start).run_eq
  rw [Piece.spans_eq_filterMap hcap]
  refine Iff.trans ?_ (Tape.run_eq_none_iff _ pass.tape)
  rw [hrun]
  cases (pass.play piece start).1 with
  | error fault => simp [fault?]
  | ok stop => simp [fault?]

end Pass

end Playback
end Polyphony
