/-
# Schedules as JSON lose nothing

The JSON of a schedule is written call by call, and the calls are for an object of four members
(`callsOf_jsonCalls`), which any reader gets back from the text (`Json.read?_text`).  What is in
them tells schedules apart as far as they differ at all:

| member | tells |
| --- | --- |
| `ticks_per_beat`, `bpm` | resolution and tempo, by their numbers |
| `channels` | which instrument has which channel, in the order of the channels |
| `events` | the events in order, if each is of a kind that has a name of its own |

A channel table keeps the order in which its instruments came in, and that order is not told.
What is told is the table as a map.  As no two instruments share a channel, there is one order
of the channels, so tables that are equal as maps are told alike (`byChannel_eq_iff`).
-/

import Polyphony.Schedule.Json
import Polyphony.Proofs.Json.Calls
import Polyphony.Proofs.Playback.Channels

namespace Polyphony

namespace EventKind

/-- The kinds that have a name of their own. -/
def listed : List EventKind := [.noteOn, .noteOff, .programChange]

theorem isAscii_name (kind : EventKind) : kind.name.IsAscii := by
  cases kind with
  | noteOn | noteOff | programChange => decide +kernel
  | unlisted code =>
    show (Text.utf8 "UNKNOWN").IsAscii
    decide +kernel

theorem name_inj {a b : EventKind} (ha : a ∈ listed) (hb : b ∈ listed) (h : a.name = b.name) :
    a = b :=
  List.inj_on_of_nodup_map (by decide : (listed.map name).Nodup) ha hb h

end EventKind

theorem Instrument.isAscii_name (i : Instrument) : i.name.IsAscii := by
  have hall : ∀ k : Fin 128, (Text.utf8 names[k]).IsAscii := by decide +kernel
  exact hall i.nameIndex

namespace Event

/-- An event as an object. -/
def json (e : Event) : Json.Value :=
  .object
    [(Text.utf8 "type", .string e.kind.name),
      (Text.utf8 "channel", .number e.channel.toNat),
      (Text.utf8 "data", .number e.data.toNat),
      (Text.utf8 "tick", .number e.tick.toNat)]

theorem callsOf_jsonCalls (e : Event) : Json.CallsOf e.json e.jsonCalls :=
  .object (.stringField _ _ (.numberField _ _ (.numberField _ _ (.numberField _ _ .nil))))

theorem isAscii_json (e : Event) : e.json.compact.IsAscii := by
  refine Json.Value.isAscii_object ?_
  simp only [List.forall_mem_cons]
  exact ⟨⟨by decide +kernel, Json.isAscii_quote e.kind.isAscii_name⟩,
    ⟨by decide +kernel, Json.isAscii_digits _⟩, ⟨by decide +kernel, Json.isAscii_digits _⟩,
    ⟨by decide +kernel, Json.isAscii_digits _⟩, List.forall_mem_nil _⟩

/-- A listed event is told by its object. -/
theorem json_inj {a b : Event} (ha : a.kind ∈ EventKind.listed) (hb : b.kind ∈ EventKind.listed)
    (h : a.json = b.json) : a = b := by
  simp only [json, Json.Value.object.injEq, List.cons.injEq, Prod.mk.injEq, true_and, and_true,
    Json.Value.string.injEq, Json.Value.number.injEq] at h
  obtain ⟨hkind, hchannel, hdata, htick⟩ := h
  obtain ⟨kind, channel, data, tick⟩ := a
  obtain ⟨kind', channel', data', tick'⟩ := b
  obtain rfl := EventKind.name_inj ha hb hkind
  obtain rfl := UInt8.toNat_inj.1 hchannel
  obtain rfl := UInt8.toNat_inj.1 hdata
  obtain rfl := UInt32.toNat_inj.1 htick
  rfl

theorem map_json_inj {es es' : List Event} (hes : ∀ e ∈ es, e.kind ∈ EventKind.listed)
    (hes' : ∀ e ∈ es', e.kind ∈ EventKind.listed) (h : es.map json = es'.map json) :
    es = es' := by
  induction es generalizing es' with
  | nil => exact (List.map_eq_nil_iff.1 h.symm).symm
  | cons e es ih =>
    cases es' with
    | nil => cases h
    | cons e' es' =>
      obtain ⟨hhead, htail⟩ := List.cons.inj h
      rw [json_inj (hes e List.mem_cons_self) (hes' e' List.mem_cons_self) hhead,
        ih (fun x hx => hes x (List.mem_cons_of_mem e hx))
          (fun x hx => hes' x (List.mem_cons_of_mem e' hx)) htail]

end Event

namespace ChannelTable

/-- An entry of the channel table as an object. -/
def entryJson (e : Instrument × Channel) : Json.Value :=
  .object
    [(Text.utf8 "instrument", .string e.1.name),
      (Text.utf8 "program", .number e.1.program.toNat),
      (Text.utf8 "channel", .number e.2.toNat)]

theorem callsOf_entryCalls (e : Instrument × Channel) :
    Json.CallsOf (entryJson e) (entryCalls e) :=
  .object (.stringField _ _ (.numberField _ _ (.numberField _ _ .nil)))

theorem isAscii_entryJson (e : Instrument × Channel) : (entryJson e).compact.IsAscii := by
  refine Json.Value.isAscii_object ?_
  simp only [List.forall_mem_cons]
  exact ⟨⟨by decide +kernel, Json.isAscii_quote e.1.isAscii_name⟩,
    ⟨by decide +kernel, Json.isAscii_digits _⟩, ⟨by decide +kernel, Json.isAscii_digits _⟩,
    List.forall_mem_nil _⟩

/-- An entry is told by its object. -/
theorem entryJson_injective : Function.Injective entryJson := by
  intro a b h
  simp only [entryJson, Json.Value.object.injEq, List.cons.injEq, Prod.mk.injEq, true_and,
    and_true, Json.Value.string.injEq, Json.Value.number.injEq] at h
  obtain ⟨-, hprogram, hchannel⟩ := h
  obtain ⟨⟨program⟩, channel⟩ := a
  obtain ⟨⟨program'⟩, channel'⟩ := b
  obtain rfl := UInt8.toNat_inj.1 hprogram
  obtain rfl := UInt8.toNat_inj.1 hchannel
  rfl

variable {s t : ChannelTable}

theorem byChannel_perm (t : ChannelTable) : t.byChannel.Perm t.entries :=
  List.mergeSort_perm t.entries _

/-- Channels of a table in which no two instruments share one rise strictly. -/
theorem pairwise_byChannel (h : (t.entries.map Prod.snd).Nodup) :
    t.byChannel.Pairwise fun a b => a.2 < b.2 := by
  have htrans : ∀ a b c : Instrument × Channel, decide (a.2 ≤ b.2) = true →
      decide (b.2 ≤ c.2) = true → decide (a.2 ≤ c.2) = true := by
    intro a b c hab hbc
    exact decide_eq_true (UInt8.le_trans (of_decide_eq_true hab) (of_decide_eq_true hbc))
  have htotal : ∀ a b : Instrument × Channel,
      (decide (a.2 ≤ b.2) || decide (b.2 ≤ a.2)) = true := by
    intro a b
    rw [Bool.or_eq_true, decide_eq_true_eq, decide_eq_true_eq]
    exact UInt8.le_total a.2 b.2
  have hle : t.byChannel.Pairwise fun a b => decide (a.2 ≤ b.2) = true :=
    List.pairwise_mergeSort htrans htotal t.entries
  have hne : t.byChannel.Pairwise fun a b => a.2 ≠ b.2 :=
    List.pairwise_map.1 ((t.byChannel_perm.map Prod.snd).nodup_iff.2 h)
  exact (hle.and hne).imp fun h => UInt8.lt_of_le_of_ne (of_decide_eq_true h.1) h.2

/-- It makes no difference to a map in which order instruments came in. -/
theorem find?_eq_of_perm (h : s.entries.Perm t.entries) (i : Instrument) :
    s.find? i = t.find? i := by
  refine Option.ext fun c => ?_
  rw [find?_eq_some_iff, find?_eq_some_iff, h.mem_iff]

/-- There is one way for channels to rise strictly. -/
theorem eq_of_perm_of_rising {xs ys : List (Instrument × Channel)} (h : xs.Perm ys)
    (hxs : xs.Pairwise fun a b => a.2 < b.2) (hys : ys.Pairwise fun a b => a.2 < b.2) : xs = ys :=
  List.Perm.eq_of_pairwise
    (fun a _ _ _ hab hba => absurd (UInt8.lt_trans hab hba) (UInt8.lt_irrefl a.2)) hxs hys h

/-- Tables are the same in the order of their channels exactly if they are equal as maps. -/
theorem byChannel_eq_iff (hs : (s.entries.map Prod.snd).Nodup)
    (ht : (t.entries.map Prod.snd).Nodup) :
    s.byChannel = t.byChannel ↔ ∀ i, s.find? i = t.find? i := by
  constructor
  · intro h i
    exact find?_eq_of_perm
      (s.byChannel_perm.symm.trans ((List.Perm.of_eq h).trans t.byChannel_perm)) i
  · intro h
    have hperm : s.entries.Perm t.entries := by
      refine (List.perm_ext_iff_of_nodup (List.Nodup.of_map _ hs) (List.Nodup.of_map _ ht)).2 ?_
      rintro ⟨i, c⟩
      rw [← find?_eq_some_iff, ← find?_eq_some_iff, h]
    exact eq_of_perm_of_rising (s.byChannel_perm.trans (hperm.trans t.byChannel_perm.symm))
      (pairwise_byChannel hs) (pairwise_byChannel ht)

end ChannelTable

namespace Schedule

/-- A schedule that JSON can tell all of. -/
structure Encodable (s : Schedule) : Prop where
  /-- The kind of each event has a name of its own. -/
  kinds_listed : ∀ e ∈ s.events, e.kind ∈ EventKind.listed
  /-- No two instruments share a channel. -/
  channels_distinct : (s.channels.entries.map Prod.snd).Nodup

/-- A schedule as an object, with the resolution and the tempo it is played at. -/
def json (s : Schedule) (ticksPerBeat : Tick) (beatsPerMinute : UInt16) : Json.Value :=
  .object
    [(Text.utf8 "ticks_per_beat", .number ticksPerBeat.toNat),
      (Text.utf8 "bpm", .number beatsPerMinute.toNat),
      (Text.utf8 "channels", .array (s.channels.byChannel.map ChannelTable.entryJson)),
      (Text.utf8 "events", .array (s.events.map Event.json))]

/-- The calls that write a schedule are for its object. -/
theorem callsOf_jsonCalls (s : Schedule) (ticksPerBeat : Tick) (beatsPerMinute : UInt16) :
    Json.CallsOf (s.json ticksPerBeat beatsPerMinute)
      (s.jsonCalls ticksPerBeat beatsPerMinute) := by
  have hchannels := Json.itemCalls_flatMap ChannelTable.callsOf_entryCalls s.channels.byChannel
  have hevents := Json.itemCalls_flatMap Event.callsOf_jsonCalls s.events
  have hcalls := Json.CallsOf.object
    (.numberField (Text.utf8 "ticks_per_beat") ticksPerBeat.toNat
      (.numberField (Text.utf8 "bpm") beatsPerMinute.toNat
        (.key (Text.utf8 "channels") (.array hchannels)
          (.key (Text.utf8 "events") (.array hevents) .nil))))
  simpa only [json, jsonCalls, List.cons_append, List.nil_append, List.append_assoc,
    List.append_nil] using hcalls

/-- Writing a schedule call by call writes its object. -/
theorem jsonText_eq (s : Schedule) (ticksPerBeat : Tick) (beatsPerMinute : UInt16) :
    s.jsonText ticksPerBeat beatsPerMinute = (s.json ticksPerBeat beatsPerMinute).text := by
  rw [jsonText, (s.callsOf_jsonCalls ticksPerBeat beatsPerMinute).run_eq, Json.Value.text]

theorem read?_jsonText (s : Schedule) (ticksPerBeat : Tick) (beatsPerMinute : UInt16) :
    Json.read? (s.jsonText ticksPerBeat beatsPerMinute) =
      some (s.json ticksPerBeat beatsPerMinute) := by
  rw [jsonText_eq, Json.read?_text]

variable {s s' : Schedule} {ticksPerBeat ticksPerBeat' : Tick}
  {beatsPerMinute beatsPerMinute' : UInt16}

/-- Objects of schedules are equal exactly if all that they tell is. -/
theorem json_eq_iff (hs : s.Encodable) (hs' : s'.Encodable) :
    s.json ticksPerBeat beatsPerMinute = s'.json ticksPerBeat' beatsPerMinute' ↔
      ticksPerBeat = ticksPerBeat' ∧ beatsPerMinute = beatsPerMinute' ∧
        (∀ i, s.channels.find? i = s'.channels.find? i) ∧ s.events = s'.events := by
  rw [← ChannelTable.byChannel_eq_iff hs.channels_distinct hs'.channels_distinct]
  constructor
  · intro h
    simp only [json, Json.Value.object.injEq, List.cons.injEq, Prod.mk.injEq, true_and, and_true,
      Json.Value.number.injEq, Json.Value.array.injEq] at h
    obtain ⟨hticks, hbeats, hchannels, hevents⟩ := h
    exact ⟨UInt32.toNat_inj.1 hticks, UInt16.toNat_inj.1 hbeats,
      List.map_injective_iff.2 ChannelTable.entryJson_injective hchannels,
      Event.map_json_inj hs.kinds_listed hs'.kinds_listed hevents⟩
  · rintro ⟨rfl, rfl, hchannels, hevents⟩
    rw [json, json, hchannels, hevents]

/-- The names of kinds and of instruments are ASCII, and so is all that is told of a schedule. -/
theorem isAscii_jsonText (s : Schedule) (ticksPerBeat : Tick) (beatsPerMinute : UInt16) :
    (s.jsonText ticksPerBeat beatsPerMinute).IsAscii := by
  have hchannels : ∀ v ∈ s.channels.byChannel.map ChannelTable.entryJson, v.compact.IsAscii := by
    intro v hv
    obtain ⟨e, -, rfl⟩ := List.mem_map.1 hv
    exact ChannelTable.isAscii_entryJson e
  have hevents : ∀ v ∈ s.events.map Event.json, v.compact.IsAscii := by
    intro v hv
    obtain ⟨e, -, rfl⟩ := List.mem_map.1 hv
    exact e.isAscii_json
  rw [jsonText_eq, Json.Value.text_eq_compact]
  refine Json.Value.isAscii_object ?_
  simp only [List.forall_mem_cons]
  exact ⟨⟨by decide +kernel, Json.isAscii_digits _⟩, ⟨by decide +kernel, Json.isAscii_digits _⟩,
    ⟨by decide +kernel, Json.Value.isAscii_array hchannels⟩,
    ⟨by decide +kernel, Json.Value.isAscii_array hevents⟩, List.forall_mem_nil _⟩

/-- **The JSON of a schedule is a faithful encoding.**  It is a text in ASCII and is read as an
object of the resolution, the tempo, the entries of the channel table with their channels
rising, and the events in their order.  Two schedules have the same text exactly if resolution,
tempo and events are the same and each instrument has the same channel, or none, in both. -/
theorem jsonText_faithful (hs : s.Encodable) (ticksPerBeat : Tick) (beatsPerMinute : UInt16) :
    (s.jsonText ticksPerBeat beatsPerMinute).IsAscii ∧
    (∃ entries : List (Instrument × Channel),
      entries.Perm s.channels.entries ∧ entries.Pairwise (fun a b => a.2 < b.2) ∧
      Json.read? (s.jsonText ticksPerBeat beatsPerMinute) = some (.object
        [(Text.utf8 "ticks_per_beat", .number ticksPerBeat.toNat),
          (Text.utf8 "bpm", .number beatsPerMinute.toNat),
          (Text.utf8 "channels", .array (entries.map fun e => .object
            [(Text.utf8 "instrument", .string e.1.name),
              (Text.utf8 "program", .number e.1.program.toNat),
              (Text.utf8 "channel", .number e.2.toNat)])),
          (Text.utf8 "events", .array (s.events.map fun e => .object
            [(Text.utf8 "type", .string e.kind.name),
              (Text.utf8 "channel", .number e.channel.toNat),
              (Text.utf8 "data", .number e.data.toNat),
              (Text.utf8 "tick", .number e.tick.toNat)]))])) ∧
    ∀ (s' : Schedule) (ticksPerBeat' : Tick) (beatsPerMinute' : UInt16), s'.Encodable →
      (s.jsonText ticksPerBeat beatsPerMinute = s'.jsonText ticksPerBeat' beatsPerMinute' ↔
        ticksPerBeat = ticksPerBeat' ∧ beatsPerMinute = beatsPerMinute' ∧
          (∀ i, s.channels.find? i = s'.channels.find? i) ∧ s.events = s'.events) := by
  refine ⟨s.isAscii_jsonText _ _, ?_, ?_⟩
  · exact ⟨s.channels.byChannel, s.channels.byChannel_perm,
      ChannelTable.pairwise_byChannel hs.channels_distinct, s.read?_jsonText _ _⟩
  · intro s' ticksPerBeat' beatsPerMinute' hs'
    rw [← json_eq_iff hs hs']
    constructor
    · intro h
      have hread := s.read?_jsonText ticksPerBeat beatsPerMinute
      rw [h, read?_jsonText] at hread
      exact (Option.some.inj hread).symm
    · intro h
      rw [jsonText_eq, jsonText_eq, h]

/-- A cello and a violin, of which the one that came in first has the higher channel. -/
def duet : Schedule where
  events := [⟨.programChange, 3, 42, 0⟩, ⟨.noteOn, 3, 60, 5⟩]
  channels := ⟨[(.cello, 3), (.violin, 0)], by decide⟩

/-- The same, but for who came in first. -/
def swappedDuet : Schedule where
  events := duet.events
  channels := ⟨[(.violin, 0), (.cello, 3)], by decide⟩

/-- The violin is told first.  Who came in first is not told, and the resolution is. -/
theorem jsonText_faithful_duet : duet.Encodable ∧ swappedDuet.Encodable ∧ duet ≠ swappedDuet ∧
    Json.read? (duet.jsonText 64 120) = some (.object
      [(Text.utf8 "ticks_per_beat", .number 64),
        (Text.utf8 "bpm", .number 120),
        (Text.utf8 "channels", .array
          [.object
            [(Text.utf8 "instrument", .string (Text.utf8 "VIOLIN")),
              (Text.utf8 "program", .number 40),
              (Text.utf8 "channel", .number 0)],
          .object
            [(Text.utf8 "instrument", .string (Text.utf8 "CELLO")),
              (Text.utf8 "program", .number 42),
              (Text.utf8 "channel", .number 3)]]),
        (Text.utf8 "events", .array
          [.object
            [(Text.utf8 "type", .string (Text.utf8 "PROGRAM_CHANGE")),
              (Text.utf8 "channel", .number 3),
              (Text.utf8 "data", .number 42),
              (Text.utf8 "tick", .number 0)],
          .object
            [(Text.utf8 "type", .string (Text.utf8 "NOTE_ON")),
              (Text.utf8 "channel", .number 3),
              (Text.utf8 "data", .number 60),
              (Text.utf8 "tick", .number 5)]])]) ∧
    duet.jsonText 64 120 = swappedDuet.jsonText 64 120 ∧
    duet.jsonText 64 120 ≠ duet.jsonText 65 120 := by
  have hduet : duet.Encodable := ⟨by decide, by decide⟩
  have hswapped : swappedDuet.Encodable := ⟨by decide, by decide⟩
  obtain ⟨-, ⟨entries, hperm, hrising, hread⟩, heq⟩ := jsonText_faithful hduet 64 120
  obtain rfl : entries = [(.violin, 0), (.cello, 3)] :=
    ChannelTable.eq_of_perm_of_rising (hperm.trans (List.Perm.swap ..)) hrising (by decide)
  have hmap : ∀ i, duet.channels.find? i = swappedDuet.channels.find? i :=
    ChannelTable.find?_eq_of_perm (List.Perm.swap ..)
  refine ⟨hduet, hswapped, by decide, hread, (heq _ _ _ hswapped).2 ⟨rfl, rfl, hmap, rfl⟩, ?_⟩
  intro h
  exact absurd ((heq _ _ _ hduet).1 h).1 (by decide)

end Schedule
end Polyphony
