/-
# Layers may be swapped

It makes no difference to the ear which of two pieces that are played together is the top one,
wherever in a piece they stand (`Piece.Relayered`).  It does make one to a schedule: the top
piece is played first, so its instruments take the first channels and its events come first
within a tick.

| of a piece | when layers are swapped |
| --- | --- |
| its ticks, whether its length is zero | stay |
| its leaves, its spans | come in another order |
| the channels of its instruments | may be others |

To compare two schedules, an event is told by the instrument that plays its channel and not by
the number of the channel (`Event.action`).  Told so, what is emitted is one action for each
instrument and two for each span (`Rendition.actions_perm`), and no channel is left in it.
Whether a piece is playable is asked of all its leaves and not of their order, although another
order can be stopped by another fault.
-/

import Polyphony.Proofs.Duration.Zero
import Polyphony.Proofs.Playback.DeviceSafety
import Polyphony.Proofs.Playback.NoteCount

namespace Polyphony

open Playback

/-- Pieces that differ by which piece is the top one, in any pieces that are played together. -/
inductive Piece.Relayered : Piece → Piece → Prop where
  | refl (p : Piece) : Relayered p p
  | concat {a a' b b' : Piece} (ha : Relayered a a') (hb : Relayered b b') :
    Relayered (.concat a b) (.concat a' b')
  | together {a a' b b' : Piece} (ha : Relayered a a') (hb : Relayered b b') :
    Relayered (.together a b) (.together a' b')
  | swap {a a' b b' : Piece} (ha : Relayered a a') (hb : Relayered b b') :
    Relayered (.together a b) (.together b' a')
  | forever {a a' : Piece} (ha : Relayered a a') : Relayered (.forever a) (.forever a')

namespace Piece.Relayered

variable {pace : Pace} {p q : Piece} {config : Config}

theorem isZero_iff (h : p.Relayered q) :
    p.duration.isZero = true ↔ q.duration.isZero = true := by
  induction h with
  | refl => exact Iff.rfl
  | concat _ _ iha ihb => simp only [duration, Duration.isZero_add_iff, iha, ihb]
  | together _ _ iha ihb => simp only [duration, Duration.isZero_max_iff, iha, ihb]
  | swap _ _ iha ihb =>
    simp only [duration, Duration.isZero_max_iff, iha, ihb]
    exact and_comm
  | forever => exact Iff.rfl

theorem ticks_eq (h : p.Relayered q) : p.ticks pace = q.ticks pace := by
  induction h with
  | refl => rfl
  | concat _ _ iha ihb => rw [ticks, ticks, iha, ihb]
  | together _ _ iha ihb => rw [ticks, ticks, iha, ihb]
  | swap _ _ iha ihb => rw [ticks, ticks, iha, ihb, Nat.max_comm]
  | forever ha ih => simp only [ticks_forever, ha.isZero_iff, ih]

/-- The leaves that are ever played are the same up to order. -/
theorem leaves_perm (h : p.Relayered q) : p.leaves.Perm q.leaves := by
  induction h with
  | refl => exact .refl _
  | concat _ _ iha ihb => exact iha.append ihb
  | together _ _ iha ihb => exact iha.append ihb
  | swap _ _ iha ihb => exact (iha.append ihb).trans List.perm_append_comm
  | forever ha ih =>
    rw [leaves, leaves]
    simp only [ha.isZero_iff]
    split
    · exact .refl _
    · exact ih

/-- What is heard is the same up to order. -/
theorem spans_perm (h : p.Relayered q) (s : Nat) : (p.spans pace s).Perm (q.spans pace s) := by
  induction h generalizing s with
  | refl => exact .refl _
  | concat ha _ iha ihb =>
    rw [spans, spans, ha.ticks_eq]
    exact (iha s).append (ihb _)
  | together _ _ iha ihb => exact (iha s).append (ihb s)
  | swap _ _ iha ihb => exact ((iha s).append (ihb s)).trans List.perm_append_comm
  | forever ha ih =>
    rw [spans, spans, ha.ticks_eq]
    simp only [ha.isZero_iff]
    split
    · exact .refl _
    · split
      · exact ih s
      · exact .flatMap_left _ fun i _ => ih _

theorem playable (h : p.Relayered q) (hp : Playable p config) : Playable q config := by
  have hinstruments : q.instruments.toFinset = p.instruments.toFinset :=
    List.toFinset_eq_of_perm _ _ (h.leaves_perm.symm.filterMap _)
  refine ⟨hp.config_valid, fun leaf hl => ?_, fun leaf hl => ?_, ?_, ?_⟩
  · exact hp.keys leaf (h.leaves_perm.mem_iff.2 hl)
  · exact hp.lengths leaf (h.leaves_perm.mem_iff.2 hl)
  · exact h.ticks_eq ▸ hp.in_time
  · exact hinstruments ▸ hp.channels

theorem symm (h : p.Relayered q) : q.Relayered p := by
  induction h with
  | refl p => exact .refl p
  | concat _ _ iha ihb => exact .concat iha ihb
  | together _ _ iha ihb => exact .together iha ihb
  | swap _ _ iha ihb => exact .swap ihb iha
  | forever _ ih => exact .forever ih

end Piece.Relayered

namespace ChannelTable

/-- The instrument that plays a channel. -/
def instrumentOf? (t : ChannelTable) (c : Channel) : Option Instrument :=
  (t.entries.find? fun e => e.2 == c).map Prod.fst

theorem find?_of_instrumentOf? {t : ChannelTable} {i : Instrument} {c : Channel}
    (h : t.instrumentOf? c = some i) : t.find? i = some c := by
  obtain ⟨e, he, rfl⟩ := Option.map_eq_some_iff.1 h
  have hc : e.2 = c := by simpa using List.find?_some he
  exact find?_eq_some_iff.2 (hc ▸ List.mem_of_find?_eq_some he)

theorem instrumentOf?_eq_none_iff {t : ChannelTable} {c : Channel} :
    t.instrumentOf? c = none ↔ ∀ i, t.find? i ≠ some c := by
  rw [instrumentOf?, Option.map_eq_none_iff, List.find?_eq_none]
  simp only [ne_eq, find?_eq_some_iff, beq_iff_eq]
  exact ⟨fun h i hi => h (i, c) hi rfl, fun h e he hc => h e.1 (hc ▸ he)⟩

end ChannelTable

/-- What an instrument does at a tick. -/
structure Action where
  /-- What it does. -/
  kind : EventKind
  /-- Who does it, if anybody plays the channel. -/
  player : Option Instrument
  /-- Key, or program of a program change. -/
  data : UInt8
  /-- When. -/
  tick : Tick
deriving DecidableEq

/-- An event as an action of the instrument that plays its channel. -/
def Event.action (t : ChannelTable) (e : Event) : Action :=
  ⟨e.kind, t.instrumentOf? e.channel, e.data, e.tick⟩

/-- The events of a schedule, each told by the instrument that plays its channel. -/
def Schedule.actions (s : Schedule) : List Action := s.events.map (Event.action s.channels)

namespace Playback

open ChannelTable

/-- The two actions of a span. -/
def Span.actions (span : Span) : List Action :=
  [⟨.noteOn, some span.instrument, span.key.toNat.toUInt8, span.start.toUInt32⟩,
    ⟨.noteOff, some span.instrument, span.key.toNat.toUInt8, span.stop.toUInt32⟩]

/-- The action that readies an instrument. -/
def readying (i : Instrument) : Action := ⟨.programChange, some i, i.program, 0⟩

/-- The actions of spans: one for each instrument and two for each span. -/
def actionsOf (spans : List Span) : List Action :=
  (newcomers [] spans).map readying ++ spans.flatMap Span.actions

/-- Spans in another order have the same actions. -/
theorem actionsOf_perm {spans spans' : List Span} (h : spans.Perm spans') :
    (actionsOf spans).Perm (actionsOf spans') := by
  have hnew : (newcomers [] spans).Perm (newcomers [] spans') := by
    refine (List.perm_ext_iff_of_nodup (nodup_newcomers _ _) (nodup_newcomers _ _)).2 fun i => ?_
    simp only [mem_newcomers_iff, h.mem_iff]
  exact (hnew.map readying).append (h.flatMap_right Span.actions)

/-- A transcript has the program changes of its newcomers and the events of its spans. -/
theorem transcript_perm (channelOf : Instrument → Channel) (known : List Instrument)
    (spans : List Span) : (transcript channelOf known spans).Perm
      ((newcomers known spans).map (announce channelOf) ++
        spans.flatMap fun span => span.events (channelOf span.instrument)) := by
  induction spans generalizing known with
  | nil => exact .refl _
  | cons span spans ih =>
    rw [transcript, newcomers, List.flatMap_cons]
    split
    · exact ((ih known).append_left _).trans (List.perm_append_comm_assoc _ _ _)
    · exact (((ih _).append_left _).trans (List.perm_append_comm_assoc _ _ _)).cons _

namespace Rendition

variable {spans : List Span} {channels : ChannelTable} {events : List Event} {i : Instrument}

/-- The channel of an instrument is played by that instrument. -/
theorem instrumentOf?_channelOf (h : Rendition spans channels events)
    (hi : i ∈ channels.instruments) : channels.instrumentOf? (channels.channelOf i) = some i := by
  have hfind := find?_channelOf hi
  cases hplayer : channels.instrumentOf? (channels.channelOf i) with
  | none => exact absurd hfind (instrumentOf?_eq_none_iff.1 hplayer i)
  | some j => exact congrArg some (h.injective (find?_of_instrumentOf? hplayer) hfind)

/-- **Channels are only names.**  Told by who plays them, the events that spans leave are
settled by the spans up to order. -/
theorem actions_perm (h : Rendition spans channels events) :
    (events.map (Event.action channels)).Perm (actionsOf spans) := by
  have hperm := (transcript_perm channels.channelOf [] spans).map (Event.action channels)
  rw [← h.events_eq, List.map_append, List.map_map, List.map_flatMap] at hperm
  refine hperm.trans (.of_eq (congrArg₂ _ ?_ ?_))
  · refine List.map_congr_left fun i hi => ?_
    obtain ⟨-, hspan⟩ := mem_newcomers_iff.1 hi
    show (⟨_, channels.instrumentOf? (channels.channelOf i), _, _⟩ : Action) = _
    rw [h.instrumentOf?_channelOf (h.mem_instruments_iff.2 hspan)]
    rfl
  · refine List.flatMap_congr fun span hspan => ?_
    have hplayer := h.instrumentOf?_channelOf (h.mem_instruments_iff.2 ⟨span, hspan, rfl⟩)
    simp only [Span.events, Span.actions, List.map_cons, List.map_nil, Event.action, hplayer]

end Rendition

section

variable {p q : Piece} {config : Config} {schedule : Schedule} {stop : Tick}

/-- A recording that holds a schedule holds its own. -/
theorem Recording.outcome_eq_ok {r : Recording} (h : r.outcome = .ok (schedule, stop)) :
    r.outcome = .ok (r.schedule, r.endTick) := by
  unfold outcome at h ⊢
  split at h
  · cases h
  · rfl

/-- What is recorded of a piece, told by who plays it, is what its spans are. -/
theorem actions_of_record (h : (record p config).outcome = .ok (schedule, stop)) :
    schedule.actions.Perm (actionsOf (p.spans config.pace config.start.toNat)) := by
  obtain ⟨hconfig, pass, hplay, rfl⟩ := outcome_eq_ok_iff.1 h
  refine .trans ?_ (Pass.rendition_of_fresh hconfig hplay).actions_perm
  exact (Schedule.inTickOrder_perm _).map _

/-- Every action of spans has its player. -/
theorem isSome_player_of_mem_actionsOf {spans : List Span} {a : Action}
    (h : a ∈ actionsOf spans) : a.player.isSome = true := by
  rcases List.mem_append.1 h with h | h
  · obtain ⟨i, -, rfl⟩ := List.mem_map.1 h
    rfl
  · obtain ⟨span, -, h⟩ := List.mem_flatMap.1 h
    simp only [Span.actions, List.mem_cons, List.not_mem_nil, or_false] at h
    rcases h with rfl | rfl <;> rfl

/-- **Layers may be swapped.**  Of pieces that differ by which layer is the top one, with any
settings, either both can be recorded or neither.  If they can, they end at the same tick, the
same instruments have a channel, and the events, each told by the instrument that plays its
channel, are the same up to order. -/
theorem record_relayered (h : p.Relayered q) (config : Config) :
    ((∃ schedule stop, (record p config).outcome = .ok (schedule, stop)) ↔
      ∃ schedule stop, (record q config).outcome = .ok (schedule, stop)) ∧
    ∀ schedule stop schedule' stop', (record p config).outcome = .ok (schedule, stop) →
      (record q config).outcome = .ok (schedule', stop') →
        stop = stop' ∧
        (∀ i, (∃ c, schedule.channels.find? i = some c) ↔
          ∃ c, schedule'.channels.find? i = some c) ∧
        schedule.actions.Perm schedule'.actions ∧
        ∀ a ∈ schedule.actions, a.player.isSome = true := by
  refine ⟨?_, fun schedule stop schedule' stop' hp hq => ⟨?_, fun i => ?_, ?_, fun a ha => ?_⟩⟩
  · rw [exists_outcome_eq_ok_iff, exists_outcome_eq_ok_iff]
    exact ⟨h.playable, h.symm.playable⟩
  · rw [← UInt32.toNat_inj, toNat_of_record hp, toNat_of_record hq, h.ticks_eq]
  · rw [← mem_instruments_iff_of_record hp, ← mem_instruments_iff_of_record hq]
    exact (h.leaves_perm.filterMap _).mem_iff
  · exact ((actions_of_record hp).trans (actionsOf_perm (h.spans_perm _))).trans
      (actions_of_record hq).symm
  · exact isSome_player_of_mem_actionsOf ((actions_of_record hp).mem_iff.1 ha)

end

/-- A piano over a loop in which a cello lies over a violin. -/
def pianoOnTop : Piece :=
  .together (.note (.ofBeats 3) ⟨12⟩ .piano)
    (.forever (.together (.note (.ofBeats 1) ⟨-12⟩ .cello) (.note (.ofBeats 2) ⟨0⟩ .violin)))

/-- The same layers, the other way up. -/
def pianoBelow : Piece :=
  .together
    (.forever (.together (.note (.ofBeats 2) ⟨0⟩ .violin) (.note (.ofBeats 1) ⟨-12⟩ .cello)))
    (.note (.ofBeats 3) ⟨12⟩ .piano)

/-- The piano is on the first channel or on the last one, and does the same on either. -/
theorem record_relayered_piano : pianoOnTop.Relayered pianoBelow ∧
    (record pianoOnTop sixTicks).endTick = 9 ∧ (record pianoBelow sixTicks).endTick = 9 ∧
    (record pianoOnTop sixTicks).schedule.channels.find? .piano = some 0 ∧
    (record pianoBelow sixTicks).schedule.channels.find? .piano = some 2 ∧
    (record pianoOnTop sixTicks).schedule.actions.Perm
      (record pianoBelow sixTicks).schedule.actions := by
  have hlayers : pianoOnTop.Relayered pianoBelow :=
    .swap (.refl _) (.forever (.swap (.refl _) (.refl _)))
  obtain ⟨hiff, hsame⟩ := record_relayered hlayers sixTicks
  have hplay : ((Pass.new sixTicks).play pianoOnTop 1).1 = .ok 9 := by decide +kernel
  have htop : (record pianoOnTop sixTicks).outcome = .ok (_, 9) :=
    outcome_eq_ok_iff.2 ⟨by decide, _, Prod.ext hplay rfl, rfl⟩
  obtain ⟨_, _, hbelow⟩ := hiff.1 ⟨_, _, htop⟩
  obtain ⟨hend, -, hactions, -⟩ :=
    hsame _ _ _ _ (Recording.outcome_eq_ok htop) (Recording.outcome_eq_ok hbelow)
  have hlast : (record pianoOnTop sixTicks).endTick = 9 := by decide +kernel
  exact ⟨hlayers, hlast, hend.symm.trans hlast, by decide +kernel, by decide +kernel, hactions⟩

end Playback
end Polyphony
