/-
# Channels of instruments

A channel table gives each of its instruments one channel.  It keeps the order in
which instruments came in, and can be read in the order of programs or of channels.
-/

import Polyphony.Instrument.Basic
import Polyphony.Schedule.Event

namespace Polyphony

/-- Which instrument plays on which channel. -/
structure ChannelTable where
  /-- Instruments with their channels, in the order in which they came in. -/
  entries : List (Instrument × Channel)
  distinct : (entries.map Prod.fst).Nodup

namespace ChannelTable

/-- The table without instruments. -/
def empty : ChannelTable := ⟨[], List.nodup_nil⟩

instance : Inhabited ChannelTable := ⟨empty⟩

theorem ext {s t : ChannelTable} (h : s.entries = t.entries) : s = t := by
  cases s; cases t; cases h; rfl

instance : DecidableEq ChannelTable := fun s t =>
  decidable_of_iff (s.entries = t.entries) ⟨ext, fun h => h ▸ rfl⟩

/-- Channel of an instrument, if it has one. -/
def find? (t : ChannelTable) (i : Instrument) : Option Channel :=
  (t.entries.find? fun e => e.1 == i).map Prod.snd

theorem find?_eq_none_iff {t : ChannelTable} {i : Instrument} :
    t.find? i = none ↔ i ∉ t.entries.map Prod.fst := by
  simp only [find?, Option.map_eq_none_iff, List.find?_eq_none, beq_iff_eq, List.mem_map]
  exact ⟨fun h ⟨e, he, hi⟩ => h e he hi, fun h e he hi => h ⟨e, he, hi⟩⟩

/-- An instrument with its new channel, and every other instrument as it was. -/
def replaceIn (i : Instrument) (c : Channel) (e : Instrument × Channel) : Instrument × Channel :=
  if e.1 = i then (i, c) else e

theorem map_fst_replaceIn (i : Instrument) (c : Channel) (entries : List (Instrument × Channel)) :
    (entries.map (replaceIn i c)).map Prod.fst = entries.map Prod.fst := by
  rw [List.map_map]
  refine List.map_congr_left fun e _ => ?_
  simp only [Function.comp, replaceIn]
  split
  · next h => exact h.symm
  · rfl

/-- Gives an instrument a channel.  A new instrument comes in last; a known one keeps
its place. -/
def insert (t : ChannelTable) (i : Instrument) (c : Channel) : ChannelTable :=
  if h : t.find? i = none then
    ⟨t.entries ++ [(i, c)], by
      rw [List.map_append, List.nodup_append]
      refine ⟨t.distinct, by simp, fun a ha b hb => ?_⟩
      rw [List.map_singleton, List.mem_singleton] at hb
      rintro rfl
      exact find?_eq_none_iff.1 h (by rwa [hb] at ha)⟩
  else ⟨t.entries.map (replaceIn i c), by rw [map_fst_replaceIn]; exact t.distinct⟩

theorem entries_insert_of_find?_none {t : ChannelTable} {i : Instrument} (c : Channel)
    (h : t.find? i = none) : (t.insert i c).entries = t.entries ++ [(i, c)] := by
  simp [insert, h]

/-- The entries in the order of programs. -/
def byProgram (t : ChannelTable) : List (Instrument × Channel) :=
  t.entries.mergeSort fun a b => a.1.program ≤ b.1.program

/-- The entries in the order of channels. -/
def byChannel (t : ChannelTable) : List (Instrument × Channel) :=
  t.entries.mergeSort fun a b => a.2 ≤ b.2

end ChannelTable
end Polyphony
