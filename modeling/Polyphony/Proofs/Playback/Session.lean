/-
# A pass that is used over and over

Whatever calls come, and however many schedules are taken in between, a pass gives no channel
out twice.

Taking a schedule empties the table, but neither the count of channels nor the fault.  So the
table alone does not tell which channels are taken.  The entries that have ever come into it
do (`Pass.grants`), and a pass stays in step with them (`Pass.Ledger`):

| of the pass | is |
| --- | --- |
| the next channel | the number of entries so far |
| the channels given out | `0`, `1`, `2`, … in the order of the entries |
| the table | the last of the entries, from the last schedule on |

Every call but that for the schedule only adds to the ends of table and events
(`Tape.Grown`).  For a piece that is stopped this is so because it is stopped at a cue:
the cues before it were heard, and it adds nothing itself.
-/

import Polyphony.Proofs.Playback.Calls
import Polyphony.Proofs.Playback.Emission

namespace Polyphony

/-- Does an event change the program of its channel? -/
def Event.isProgramChange (e : Event) : Bool := e.kind == .programChange

namespace Playback

open ChannelTable

/-- The events that a call itself brings along. -/
def Call.events : Call → List Event
  | .emit event => [event]
  | _ => []

namespace Pass

/-- The entries that a call adds to the channel table. -/
def granted (pass : Pass) (call : Call) : List (Instrument × Channel) :=
  (pass.serve call).channels.entries.drop pass.channels.entries.length

/-- The entries that calls add to the channel table, also those that have left it since. -/
def grants : Pass → List Call → List (Instrument × Channel)
  | _, [] => []
  | pass, call :: calls => pass.granted call ++ (pass.serve call).grants calls

end Pass

/-- The program change for an entry of the channel table. -/
def announcement (entry : Instrument × Channel) : Event :=
  ⟨.programChange, entry.2, entry.1.program, 0⟩

/-- The program changes of a transcript are those of its newcomers. -/
theorem filter_isProgramChange_transcript (channelOf : Instrument → Channel)
    (known : List Instrument) (spans : List Span) :
    (transcript channelOf known spans).filter Event.isProgramChange =
      (newcomers known spans).map (announce channelOf) := by
  induction spans generalizing known with
  | nil => rfl
  | cons span spans ih =>
    have hspan : (span.events (channelOf span.instrument)).filter Event.isProgramChange = [] := rfl
    rw [transcript, newcomers]
    split
    · rw [List.filter_append, hspan, List.nil_append, ih]
    · rw [List.filter_cons_of_pos (by simp [Event.isProgramChange]), List.filter_append, hspan,
        List.nil_append, ih, List.map_cons]
      rfl

namespace Tape

/-- `tape'` is `tape` with more at its ends: `given` on the next channels, and `emitted`.  A
fault that was there is there. -/
structure Grown (capacity : UInt8) (given : List (Instrument × Channel)) (emitted : List Event)
    (tape tape' : Tape) : Prop where
  entries_eq : tape'.channels.entries = tape.channels.entries ++ given
  numbers_eq : given.map (fun e => e.2.toNat) =
    List.range' tape.nextChannel.toNat given.length
  nextChannel_eq : tape'.nextChannel.toNat = tape.nextChannel.toNat + given.length
  room : given ≠ [] → tape'.nextChannel.toNat ≤ capacity.toNat
  events_eq : tape'.events = tape.events ++ emitted
  fault_kept : ∀ fault, tape.fault = some fault → tape'.fault = some fault

namespace Grown

variable {capacity : UInt8} {given : List (Instrument × Channel)} {emitted : List Event}
  {tape tape' : Tape}

theorem emit (capacity : UInt8) (tape : Tape) (events : List Event) :
    Grown capacity [] events tape (tape.emit events) where
  entries_eq := (List.append_nil _).symm
  numbers_eq := rfl
  nextChannel_eq := rfl
  room h := absurd rfl h
  events_eq := rfl
  fault_kept _ hf := hf

theorem refl (capacity : UInt8) (tape : Tape) : Grown capacity [] [] tape tape where
  entries_eq := (List.append_nil _).symm
  numbers_eq := rfl
  nextChannel_eq := rfl
  room h := absurd rfl h
  events_eq := (List.append_nil _).symm
  fault_kept _ hf := hf

/-- A fault takes nothing back. -/
theorem fail (h : Grown capacity given emitted tape tape') (fault : Fault) :
    Grown capacity given emitted tape (tape'.fail fault) where
  entries_eq := h.entries_eq
  numbers_eq := h.numbers_eq
  nextChannel_eq := h.nextChannel_eq
  room := h.room
  events_eq := h.events_eq
  fault_kept first hf := by rw [Tape.fail, h.fault_kept first hf, Option.some_or]

theorem takeChannel {i : Instrument} (hi : tape.channels.find? i = none)
    (hcap : tape.nextChannel < capacity) :
    Grown capacity [(i, tape.nextChannel)] [announcement (i, tape.nextChannel)] tape
      (tape.takeChannel i) where
  entries_eq := entries_insert_of_find?_none _ hi
  numbers_eq := rfl
  nextChannel_eq := toNat_add_one_of_lt hcap
  room _ := by
    rw [UInt8.lt_iff_toNat_lt] at hcap
    exact (toNat_add_one_of_lt (UInt8.lt_iff_toNat_lt.2 hcap)).trans_le hcap
  events_eq := rfl
  fault_kept _ hf := hf

/-- A tape grows by what is heard, and announces each channel that it gives. -/
theorem of_heard {spans : List Span} (h : Heard capacity spans tape tape') :
    ∃ given emitted, Grown capacity given emitted tape tape' ∧
      emitted.filter Event.isProgramChange = given.map announcement := by
  obtain ⟨given, hgiven⟩ := h.entries_prefix
  have hinstruments : given.map Prod.fst = newcomers tape.channels.instruments spans := by
    have heq := h.instruments_eq
    rw [instruments, ← hgiven, List.map_append] at heq
    exact List.append_cancel_left heq
  have hlength : given.length = (newcomers tape.channels.instruments spans).length := by
    rw [← hinstruments, List.length_map]
  refine ⟨given, _, ⟨hgiven.symm, ?_, ?_, fun hne => h.room fun h0 => hne ?_, h.events_eq,
    fun _ => h.fault_eq.trans⟩, ?_⟩
  · have heq := h.numbers_eq
    rw [numbers, ← hgiven, List.map_append] at heq
    rw [hlength]
    exact List.append_cancel_left heq
  · rw [h.nextChannel_eq, hlength]
  · exact List.eq_nil_of_length_eq_zero (by rw [hlength, h0, List.length_nil])
  · rw [filter_isProgramChange_transcript, ← hinstruments, List.map_map]
    refine List.map_congr_left fun e he => ?_
    have hmem : e ∈ tape'.channels.entries := hgiven ▸ List.mem_append_right _ he
    simp only [Function.comp, announce, announcement, channelOf_eq_of_mem hmem]

end Grown

/-- Cues let a tape grow, also if they are stopped. -/
theorem exists_grown_run (pace : Pace) (capacity : UInt8) (cues : List Cue) (tape : Tape) :
    ∃ given emitted, Grown capacity given emitted tape (run pace capacity cues tape).2 ∧
      emitted.filter Event.isProgramChange = given.map announcement := by
  rcases hrun : run pace capacity cues tape with ⟨_ | fault, tape'⟩
  · exact Grown.of_heard (heard_of_run hrun).2
  · obtain ⟨before, cue, rest, reached, -, hbefore, hplay⟩ := exists_split_of_run hrun
    obtain ⟨given, emitted, hgrown, hprograms⟩ := Grown.of_heard (heard_of_run hbefore).2
    rw [eq_fail_of_play hplay]
    exact ⟨given, emitted, hgrown.fail fault, hprograms⟩

/-- Asking for a channel lets a tape grow by it and by its announcement, if it is new. -/
theorem exists_grown_channelFor (capacity : UInt8) (tape : Tape) (i : Instrument) :
    ∃ given, Grown capacity given (given.map announcement) tape
      (tape.channelFor capacity i).2 := by
  rw [channelFor]
  cases hi : tape.channels.find? i with
  | some channel => exact ⟨[], .refl capacity tape⟩
  | none =>
    by_cases hcap : capacity ≤ tape.nextChannel
    · simp only [if_pos hcap]
      exact ⟨[], (Grown.refl capacity tape).fail _⟩
    · simp only [if_neg hcap]
      exact ⟨[(i, tape.nextChannel)], .takeChannel hi (UInt8.not_le.1 hcap)⟩

end Tape

namespace Pass

variable {pass : Pass} {call : Call}

/-- **One call.**  All but the call for the schedule only add to the ends of table and
events, and every channel given is announced by one program change. -/
theorem exists_grown_serve (pass : Pass) (h : call ≠ .take) :
    ∃ given emitted, Tape.Grown pass.config.channels given emitted pass.tape
        (pass.serve call).tape ∧
      emitted.filter Event.isProgramChange =
        call.events.filter Event.isProgramChange ++ given.map announcement := by
  have hrefl := Tape.Grown.refl pass.config.channels pass.tape
  cases call with
  | channelFor instrument =>
    obtain ⟨given, hgrown⟩ := pass.tape.exists_grown_channelFor pass.config.channels instrument
    rw [tape_channelFor] at hgrown
    refine ⟨given, _, hgrown, List.filter_eq_self.2 fun e he => ?_⟩
    obtain ⟨entry, -, rfl⟩ := List.mem_map.1 he
    rfl
  | emit event =>
    refine ⟨[], [event], ?_, (List.append_nil _).symm⟩
    rw [serve, tape_emit]
    exact .emit _ _ _
  | report kind text =>
    refine ⟨[], [], ?_, rfl⟩
    cases kind with
    | some kind => exact hrefl.fail _
    | none =>
      rw [serve, report]
      split
      · exact hrefl
      · exact ⟨hrefl.entries_eq, hrefl.numbers_eq, hrefl.nextChannel_eq, hrefl.room,
          hrefl.events_eq, hrefl.fault_kept⟩
  | play piece start =>
    have hgrown := Tape.exists_grown_run pass.config.pace pass.config.channels
      (piece.cues pass.config.pace start.toNat) pass.tape
    rwa [(follows_play pass piece start).run_eq] at hgrown
  | take => exact absurd rfl h

/-- What a tape has grown by is what the call gave and what it emitted. -/
theorem granted_and_emission_of_grown {given : List (Instrument × Channel)} {emitted : List Event}
    (h : call ≠ .take)
    (hgrown : Tape.Grown pass.config.channels given emitted pass.tape (pass.serve call).tape) :
    pass.granted call = given ∧ pass.emission call = emitted := by
  have hentries : (pass.serve call).channels.entries = _ := hgrown.entries_eq
  refine ⟨?_, List.append_cancel_left ((events_serve pass h).symm.trans hgrown.events_eq)⟩
  rw [granted, hentries]
  exact List.drop_left

/-- What a call adds is what is at the ends after it. -/
theorem grown_serve (pass : Pass) (h : call ≠ .take) :
    Tape.Grown pass.config.channels (pass.granted call) (pass.emission call) pass.tape
        (pass.serve call).tape ∧
      (pass.emission call).filter Event.isProgramChange =
        call.events.filter Event.isProgramChange ++ (pass.granted call).map announcement := by
  obtain ⟨given, emitted, hgrown, hprograms⟩ := exists_grown_serve pass h
  obtain ⟨rfl, rfl⟩ := granted_and_emission_of_grown h hgrown
  exact ⟨hgrown, hprograms⟩

/-- The first fault is kept, whatever is called. -/
theorem fault_serve {fault : Fault} (h : pass.fault = some fault) (call : Call) :
    (pass.serve call).fault = some fault := by
  by_cases htake : call = .take
  · rw [htake]
    exact h
  · exact (grown_serve pass htake).1.fault_kept fault h

theorem fault_serveAll {fault : Fault} (h : pass.fault = some fault) (calls : List Call) :
    (pass.serveAll calls).fault = some fault := by
  induction calls generalizing pass with
  | nil => exact h
  | cons call calls ih => exact ih (fault_serve h call)

/-- Until the schedule is taken, table and events only get more at their ends. -/
theorem prefix_serveAll (pass : Pass) {calls : List Call} (h : .take ∉ calls) :
    pass.channels.entries <+: (pass.serveAll calls).channels.entries ∧
      pass.events.toList <+: (pass.serveAll calls).events.toList := by
  induction calls generalizing pass with
  | nil => exact ⟨List.prefix_rfl, List.prefix_rfl⟩
  | cons call calls ih =>
    rw [List.mem_cons, not_or] at h
    have hgrown := (grown_serve pass (Ne.symm h.1)).1
    obtain ⟨hentries, hevents⟩ := ih (pass.serve call) h.2
    exact ⟨.trans ⟨_, hgrown.entries_eq.symm⟩ hentries, .trans ⟨_, hgrown.events_eq.symm⟩ hevents⟩

/-- A pass is in step with the entries that have ever come into its table. -/
structure Ledger (pass : Pass) (entries : List (Instrument × Channel)) : Prop where
  nextChannel_eq : pass.nextChannel.toNat = entries.length
  nextChannel_le : pass.nextChannel ≤ pass.config.channels
  numbers_eq : entries.map (fun e => e.2.toNat) = List.range entries.length
  table_suffix : pass.channels.entries <:+ entries

namespace Ledger

variable {entries : List (Instrument × Channel)}

theorem new (config : Config) : Ledger (Pass.new config) [] where
  nextChannel_eq := rfl
  nextChannel_le := UInt8.zero_le
  numbers_eq := rfl
  table_suffix := List.suffix_rfl

/-- **One call** keeps a pass in step. -/
theorem serve (h : Ledger pass entries) (call : Call) :
    Ledger (pass.serve call) (entries ++ pass.granted call) := by
  by_cases htake : call = .take
  · have hnone : pass.granted call = [] := by
      rw [htake]
      exact List.drop_nil
    rw [hnone, List.append_nil, htake]
    exact ⟨h.nextChannel_eq, h.nextChannel_le, h.numbers_eq, List.nil_suffix⟩
  · have hgrown := (grown_serve pass htake).1
    have hnext : (pass.serve call).nextChannel.toNat = _ := hgrown.nextChannel_eq
    have hentries : (pass.serve call).channels.entries = _ := hgrown.entries_eq
    refine ⟨?_, ?_, ?_, ?_⟩
    · rw [hnext, List.length_append, ← h.nextChannel_eq]
      rfl
    · rw [config_serve, UInt8.le_iff_toNat_le]
      by_cases h0 : pass.granted call = []
      · rw [hnext, h0]
        exact UInt8.le_iff_toNat_le.1 h.nextChannel_le
      · exact hgrown.room h0
    · have hnumbers := hgrown.numbers_eq
      rw [show pass.tape.nextChannel.toNat = entries.length from h.nextChannel_eq] at hnumbers
      rw [List.map_append, h.numbers_eq, hnumbers, List.length_append, List.range_add,
        List.range'_eq_map_range]
    · rw [hentries]
      obtain ⟨older, holder⟩ := h.table_suffix
      exact ⟨older, by rw [← holder, List.append_assoc]; rfl⟩

/-- Any calls keep a pass in step. -/
theorem serveAll (h : Ledger pass entries) (calls : List Call) :
    Ledger (pass.serveAll calls) (entries ++ pass.grants calls) := by
  induction calls generalizing pass entries with
  | nil =>
    rw [grants, List.append_nil]
    exact h
  | cons call calls ih =>
    rw [grants, ← List.append_assoc]
    exact ih (h.serve call)

/-- No channel is given out twice. -/
theorem nodup (h : Ledger pass entries) : (entries.map Prod.snd).Nodup := by
  have hnumbers : (entries.map fun e => e.2.toNat).Nodup := h.numbers_eq ▸ List.nodup_range
  refine List.Nodup.of_map UInt8.toNat ?_
  rwa [List.map_map]

/-- The table gives channels that were given out. -/
theorem mem_of_find? (h : Ledger pass entries) {i : Instrument} {c : Channel}
    (hi : pass.channels.find? i = some c) : (i, c) ∈ entries :=
  h.table_suffix.subset (find?_eq_some_iff.1 hi)

theorem lt_nextChannel (h : Ledger pass entries) {i : Instrument} {c : Channel}
    (hi : pass.channels.find? i = some c) : c < pass.nextChannel := by
  have hmem : c.toNat ∈ entries.map fun e => e.2.toNat := List.mem_map_of_mem (h.mem_of_find? hi)
  rw [h.numbers_eq, List.mem_range, ← h.nextChannel_eq] at hmem
  exact UInt8.lt_iff_toNat_lt.2 hmem

theorem injective (h : Ledger pass entries) {i j : Instrument} {c : Channel}
    (hi : pass.channels.find? i = some c) (hj : pass.channels.find? j = some c) : i = j :=
  congrArg Prod.fst
    (List.inj_on_of_nodup_map h.nodup (h.mem_of_find? hi) (h.mem_of_find? hj) rfl)

end Ledger

/-- Each channel that a call gives is announced by one program change, and there are no other
program changes but those that the call itself brings along. -/
theorem filter_isProgramChange_emission (pass : Pass) (call : Call) :
    (pass.emission call).filter Event.isProgramChange =
      call.events.filter Event.isProgramChange ++ (pass.granted call).map announcement := by
  by_cases htake : call = .take
  · rw [htake]
    have hgranted : pass.granted .take = [] := List.drop_nil
    have hemission : pass.emission .take = [] := rfl
    rw [hgranted, hemission]
    rfl
  · exact (grown_serve pass htake).2

/-- Who asks for a channel gets the one in the table, or nothing has changed but the fault. -/
theorem channelFor_cases (pass : Pass) (i : Instrument) :
    (∃ c, (pass.channelFor i).1 = .ok c ∧ (pass.channelFor i).2.channels.find? i = some c) ∨
      ∃ fault, pass.channelFor i = (.error fault, pass.fail fault) := by
  unfold channelFor
  cases hi : pass.channels.find? i with
  | some c => exact Or.inl ⟨c, rfl, hi⟩
  | none =>
    by_cases hcap : pass.config.channels ≤ pass.nextChannel
    · simp only [if_pos hcap]
      exact Or.inr ⟨_, rfl⟩
    · simp only [if_neg hcap]
      refine Or.inl ⟨_, rfl, find?_eq_some_iff.2 ?_⟩
      have htable : (pass.takeChannel i).channels = pass.channels.insert i pass.nextChannel :=
        congrArg Tape.channels (tape_takeChannel pass i)
      rw [htable, entries_insert_of_find?_none _ hi]
      exact List.mem_append_right _ (List.mem_singleton_self _)

end Pass

/-- What holds of a pass whenever it is looked at, if `grants` have come into its table so far. -/
structure SessionSafe (capacity : UInt8) (pass : Pass) (grants : List (Instrument × Channel)) :
    Prop where
  /-- The count of channels never wraps around: it is the number of channels given out. -/
  nextChannel_eq : pass.nextChannel.toNat = grants.length
  /-- No more channels are given out than the device has. -/
  nextChannel_le : pass.nextChannel ≤ capacity
  /-- What a call grants comes in at the end of the table. -/
  entries_eq : ∀ call, call ≠ .take →
    (pass.serve call).channels.entries = pass.channels.entries ++ pass.granted call
  /-- No channel is given out twice. -/
  once : (grants.map Prod.snd).Nodup
  /-- The channels in the table are among those that were given out. -/
  lt_nextChannel : ∀ i c, pass.channels.find? i = some c → c < pass.nextChannel
  /-- No two instruments in the table share a channel. -/
  injective : ∀ i j c, pass.channels.find? i = some c → pass.channels.find? j = some c → i = j
  /-- Each channel that a call gives is announced by one program change. -/
  programs : ∀ call : Call, (pass.emission call).filter Event.isProgramChange =
    call.events.filter Event.isProgramChange ++ (pass.granted call).map announcement
  /-- The channel that one gets is the one in the table. -/
  answered : ∀ i c, (pass.channelFor i).1 = .ok c → (pass.channelFor i).2.channels.find? i = some c
  /-- Who gets no channel leaves events and table as they are. -/
  refused : ∀ i fault, (pass.channelFor i).1 = .error fault →
    (pass.channelFor i).2.events = pass.events ∧ (pass.channelFor i).2.channels = pass.channels
  /-- Until the schedule is taken, events come in at the end. -/
  events_prefix : ∀ calls, .take ∉ calls →
    pass.events.toList <+: (pass.serveAll calls).events.toList
  /-- Until the schedule is taken, instruments keep their channels. -/
  table_kept : ∀ calls, .take ∉ calls → ∀ i c, pass.channels.find? i = some c →
    (pass.serveAll calls).channels.find? i = some c
  /-- A failure is kept for good, with its message. -/
  failure_kept : ∀ calls, pass.failed = true →
    (pass.serveAll calls).failure? = pass.failure? ∧ (pass.serveAll calls).message = pass.message

/-- **A pass stays in order, whatever it is asked for.**  The settings need not be valid. -/
theorem sessionSafe_of_calls (config : Config) (calls : List Call) :
    SessionSafe config.channels ((Pass.new config).serveAll calls)
      ((Pass.new config).grants calls) := by
  have hledger := (Pass.Ledger.new config).serveAll calls
  have hcapacity := congrArg Config.channels (Pass.config_serveAll (Pass.new config) calls)
  rw [List.nil_append] at hledger
  generalize (Pass.new config).serveAll calls = pass at hledger hcapacity
  refine
    { nextChannel_eq := hledger.nextChannel_eq
      nextChannel_le := hcapacity ▸ hledger.nextChannel_le
      entries_eq := fun call h => (pass.grown_serve h).1.entries_eq
      once := hledger.nodup
      lt_nextChannel := fun _ _ => hledger.lt_nextChannel
      injective := fun _ _ _ => hledger.injective
      programs := pass.filter_isProgramChange_emission
      answered := fun i c h => ?_
      refused := fun i fault h => ?_
      events_prefix := fun _ h => (pass.prefix_serveAll h).2
      table_kept := fun _ h i c hi => ?_
      failure_kept := fun more h => ?_ }
  · obtain ⟨c', hc, hfind⟩ | ⟨fault, hf⟩ := pass.channelFor_cases i
    · cases hc.symm.trans h
      exact hfind
    · rw [hf] at h
      cases h
  · obtain ⟨c, hc, -⟩ | ⟨fault, hf⟩ := pass.channelFor_cases i
    · cases hc.symm.trans h
    · rw [hf]
      exact ⟨rfl, rfl⟩
  · exact find?_eq_some_iff.2 ((pass.prefix_serveAll h).1.subset (find?_eq_some_iff.1 hi))
  · obtain ⟨fault, hfault⟩ := Option.isSome_iff_exists.1 h
    have hkept := Pass.fault_serveAll hfault more
    simp only [Pass.failure?, Pass.message, hfault, hkept, and_self]

/-- A violin whose channel was taken with the schedule gets another one. -/
example : ((Pass.new {}).serveAll [.channelFor .violin, .take, .channelFor .violin]).channels.find?
    .violin = some 1 := by decide

end Playback
end Polyphony
