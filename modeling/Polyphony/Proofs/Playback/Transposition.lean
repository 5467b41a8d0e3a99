/-
# Playing higher

A piece that can be recorded can be recorded `shift` semitones higher exactly if the keys of
its schedule stay on the keyboard, and then the schedule is the old one with its keys moved
(`record_transpose`).  Nothing else moves: ticks, channels, program changes and the order of
the events stay.

Three facts carry it:

* a transposed piece has the cues of the piece, each with its pitch moved
  (`Piece.cues_transpose`), since transposing keeps every length;
* of what can be wrong with a cue, only the key depends on its pitch, so a cue that could be
  played is at most refused for its key (`Tape.exists_keyFault_of_run_transpose`);
* the order of a schedule is that of its ticks, so moving keys and putting in order can be
  exchanged (`Schedule.inTickOrder_map`).
-/

import Polyphony.Proofs.Playback.FirstFault
import Polyphony.Proofs.Playback.NoteCount

namespace Polyphony

/-- An event with its key moved by `shift`, if it has one. -/
def Event.transpose (shift : Int) (e : Event) : Event :=
  if e.isNote then { e with data := ((e.data.toNat : Int) + shift).toNat.toUInt8 } else e

@[simp] theorem Event.tick_transpose (shift : Int) (e : Event) :
    (e.transpose shift).tick = e.tick := by
  unfold transpose
  split <;> rfl

/-- A key that stays on the keyboard loses nothing when it is moved. -/
theorem Event.toNat_data_transpose {shift : Int} {e : Event} (he : e.isNote = true)
    (h : 0 ≤ (e.data.toNat : Int) + shift ∧ (e.data.toNat : Int) + shift ≤ 127) :
    ((e.transpose shift).data.toNat : Int) = e.data.toNat + shift := by
  rw [transpose, if_pos he]
  show ((((e.data.toNat : Int) + shift).toNat.toUInt8.toNat : Nat) : Int) = _
  rw [Nat.toUInt8, UInt8.toNat_ofNat']
  omega

namespace Schedule

/-- A schedule with all of its keys moved by `shift`. -/
def transpose (shift : Int) (s : Schedule) : Schedule :=
  { s with events := s.events.map (Event.transpose shift) }

/-- Every key that is pressed stays on the keyboard when it is moved by `shift`. -/
def KeysStay (shift : Int) (s : Schedule) : Prop := ∀ e ∈ s.events, e.kind = .noteOn →
  0 ≤ (e.data.toNat : Int) + shift ∧ (e.data.toNat : Int) + shift ≤ 127

/-- What leaves the ticks alone leaves the order alone. -/
theorem inTickOrder_map {f : Event → Event} (hf : ∀ e, (f e).tick = e.tick)
    (events : List Event) : inTickOrder (events.map f) = (inTickOrder events).map f := by
  refine (List.map_mergeSort fun a _ b _ => ?_).symm
  rw [hf, hf]

end Schedule

namespace Playback

/-- A cue with its pitch moved by `shift`, if it has one. -/
def Cue.transpose (shift : Int) (c : Cue) : Cue :=
  { c with sound := c.sound.map fun (pitch, instrument) => (pitch.transpose shift, instrument) }

/-- A span with its key moved by `shift`. -/
def Span.transpose (shift : Int) (span : Span) : Span := { span with key := span.key + shift }

end Playback

namespace Piece

open Playback

variable {pace : Pace}

/-- Transposing a piece moves the pitches of its cues. -/
theorem cues_transpose (p : Piece) (shift : Int) (s : Nat) :
    (p.transpose shift).cues pace s = (p.cues pace s).map (Cue.transpose shift) := by
  rw [transpose_eq]
  induction p generalizing s with
  | note d p i => rfl
  | rest d => rfl
  | concat a b iha ihb => rw [shiftNotes, cues, cues, List.map_append, iha, ihb, ticks_shiftNotes]
  | together a b iha ihb => rw [shiftNotes, cues, cues, List.map_append, iha, ihb]
  | forever a ih =>
    rw [shiftNotes, cues, cues, duration_shiftNotes, ticks_shiftNotes]
    split
    · rfl
    · rw [List.map_flatMap]
      simp only [ih]

theorem ticks_transpose (p : Piece) (shift : Int) :
    (p.transpose shift).ticks pace = p.ticks pace := by
  rw [transpose_eq, ticks_shiftNotes]

end Piece

namespace Playback

variable {pace : Pace} {capacity : UInt8} {shift : Int}

theorem Cue.span?_transpose (c : Cue) :
    (c.transpose shift).span? pace = (c.span? pace).map (Span.transpose shift) := by
  rw [span?, span?, transpose, Option.map_map, Option.map_map]
  congr 1
  funext sound
  simp only [Function.comp, Span.transpose, Cue.stop, Pitch.keyNumber, Pitch.transpose,
    Int.add_right_comm]

/-- Only the key of a cue that can be played can be wrong when it is moved. -/
theorem Cue.fault?_transpose {c : Cue} (h : c.fault? pace = none) :
    (c.transpose shift).fault? pace = (c.transpose shift).keyFault? := by
  have hlength : (c.transpose shift).lengthFault? pace = none :=
    (Option.or_eq_none_iff.1 h).2
  rw [fault?, hlength, Option.or_none]

/-- The pitch of a moved cue has a key exactly if the key of what is heard of it does. -/
theorem Cue.keyFault?_transpose_eq_none_iff (pace : Pace) {c : Cue} :
    (c.transpose shift).keyFault? = none ↔
      ∀ span, c.span? pace = some span → 0 ≤ span.key + shift ∧ span.key + shift ≤ 127 := by
  rw [keyFault?_eq_none_iff]
  cases hs : c.sound with
  | none => simp [transpose, span?, hs]
  | some sound =>
    obtain ⟨pitch, instrument⟩ := sound
    simp [transpose, span?, hs, Pitch.transpose, Pitch.keyNumber, Int.add_right_comm]

theorem Span.events_transpose {span : Span} (h : span.Fits) (channel : Channel) :
    (span.transpose shift).events channel = (span.events channel).map (Event.transpose shift) := by
  have hkey := h.toNat_key
  simp only [events, Span.transpose, List.map_cons, List.map_nil, Event.transpose, Event.isNote]
  rw [hkey]
  rfl

namespace Tape

variable {cues : List Cue} {tape tape₁ tape₂ : Tape}

/-- Cues that go through go through with their pitches moved, if these have keys. -/
theorem exists_run_transpose (h : run pace capacity cues tape = (none, tape₁))
    (hkeys : ∀ cue ∈ cues, (cue.transpose shift).keyFault? = none) :
    ∃ tape₂, run pace capacity (cues.map (Cue.transpose shift)) tape = (none, tape₂) := by
  have hf := ((run_eq_none_iff cues tape).1 (congrArg Prod.fst h)).1
  refine exists_run_map (f := Span.transpose shift) Cue.span?_transpose (fun _ => rfl) ?_ h
  intro cue hcue
  rw [Cue.fault?_transpose (hf cue hcue)]
  exact hkeys cue hcue

/-- Cues that go through are stopped for a key, if they are stopped at all when their pitches
are moved. -/
theorem exists_keyFault_of_run_transpose {fault : Fault}
    (h : run pace capacity cues tape = (none, tape₁))
    (hstop : run pace capacity (cues.map (Cue.transpose shift)) tape = (some fault, tape₂)) :
    ∃ pitch, fault = keyFault pitch := by
  obtain ⟨before, cue, rest, reached, hsplit, hbefore, hplay⟩ := exists_split_of_run hstop
  obtain ⟨before, cues', rfl, rfl, hcues'⟩ := List.map_eq_append_iff.1 hsplit
  obtain ⟨cue, rest, rfl, rfl, rfl⟩ := List.map_eq_cons_iff.1 hcues'
  -- Up to the cue that stops them, the cues go through when they are not moved.
  rw [← List.singleton_append, ← List.append_assoc] at h
  obtain ⟨_, hupto, -⟩ := exists_run_of_append h
  have hcue := ((run_eq_none_iff _ tape).1 (congrArg Prod.fst hupto)).1 cue
    (List.mem_append_right _ (List.mem_singleton_self _))
  have hmoved := ((run_eq_none_iff _ tape).1 (congrArg Prod.fst hbefore)).1
  cases hkey : (cue.transpose shift).keyFault? with
  | none =>
    have hkeys : ∀ c ∈ before ++ [cue], (c.transpose shift).keyFault? = none := by
      intro c hc
      rcases List.mem_append.1 hc with hc | hc
      · exact (Option.or_eq_none_iff.1 (hmoved _ (List.mem_map_of_mem hc))).1
      · rwa [List.mem_singleton.1 hc]
    obtain ⟨_, hthrough⟩ := exists_run_transpose hupto hkeys
    rw [List.map_append, run_append hbefore, List.map_singleton, run, hplay] at hthrough
    cases hthrough
  | some fault' =>
    rw [play, Cue.fault?_transpose hcue, hkey] at hplay
    cases hplay
    unfold Cue.keyFault? at hkey
    split at hkey
    · next pitch _ _ =>
      split at hkey
      · cases hkey
      · exact ⟨pitch, (Option.some.inj hkey).symm⟩
    · cases hkey

end Tape

namespace Rendition

variable {spans : List Span} {channels : ChannelTable} {events : List Event}

/-- Every key is that of a span. -/
theorem exists_key_eq (h : Rendition spans channels events) {e : Event} (he : e ∈ events)
    (hnote : e.isNote = true) : ∃ span ∈ spans, (e.data.toNat : Int) = span.key := by
  rw [h.events_eq] at he
  rcases mem_transcript.1 he with ⟨span, hspan, he⟩ | ⟨i, -, rfl⟩
  · exact ⟨span, hspan, ((h.fits span hspan).bounds_of_mem_events he).1⟩
  · cases hnote

/-- Every span presses its key. -/
theorem exists_noteOn (h : Rendition spans channels events) {span : Span}
    (hspan : span ∈ spans) :
    ∃ e ∈ events, e.kind = .noteOn ∧ (e.data.toNat : Int) = span.key := by
  have hon : (⟨.noteOn, channels.channelOf span.instrument, span.key.toNat.toUInt8,
      span.start.toUInt32⟩ : Event) ∈ span.events (channels.channelOf span.instrument) :=
    List.mem_cons_self ..
  refine ⟨_, ?_, rfl, ((h.fits span hspan).bounds_of_mem_events hon).1⟩
  rw [h.events_eq]
  exact mem_transcript.2 (Or.inl ⟨span, hspan, hon⟩)

/-- The keys of a schedule stay on the keyboard exactly if those of its spans do. -/
theorem keysStay_iff (h : Rendition spans channels events) :
    Schedule.KeysStay shift ⟨Schedule.inTickOrder events, channels⟩ ↔
      ∀ span ∈ spans, 0 ≤ span.key + shift ∧ span.key + shift ≤ 127 := by
  have hmem := fun e => (Schedule.inTickOrder_perm events).mem_iff (a := e)
  constructor
  · intro hstay span hspan
    obtain ⟨e, he, hon, hkey⟩ := h.exists_noteOn hspan
    rw [← hkey]
    exact hstay e ((hmem e).2 he) hon
  · intro hspans e he hon
    obtain ⟨span, hspan, hkey⟩ :=
      h.exists_key_eq ((hmem e).1 he) (Event.isNote_iff.2 (Or.inl hon))
    rw [hkey]
    exact hspans span hspan

/-- Keys that stay on the keyboard lose nothing when they are moved. -/
theorem toNat_data_transpose (h : Rendition spans channels events)
    (hspans : ∀ span ∈ spans, 0 ≤ span.key + shift ∧ span.key + shift ≤ 127) {e : Event}
    (he : e ∈ events) (hnote : e.isNote = true) :
    ((e.transpose shift).data.toNat : Int) = e.data.toNat + shift := by
  obtain ⟨span, hspan, hkey⟩ := h.exists_key_eq he hnote
  exact Event.toNat_data_transpose hnote (hkey ▸ hspans span hspan)

end Rendition

/-- The keys of the spans stay on the keyboard exactly if no moved cue lacks its key. -/
theorem forall_span_key_iff {cues : List Cue} :
    (∀ span ∈ cues.filterMap (Cue.span? pace),
      0 ≤ span.key + shift ∧ span.key + shift ≤ 127) ↔
    ∀ cue ∈ cues, (cue.transpose shift).keyFault? = none := by
  simp only [Cue.keyFault?_transpose_eq_none_iff pace, List.mem_filterMap]
  exact ⟨fun h cue hcue span hs => h span ⟨cue, hcue, hs⟩,
    fun h span ⟨cue, hcue, hs⟩ => h cue hcue span hs⟩

namespace Pass

variable {pass after : Pass} {piece : Piece} {start stop : Tick}

/-- From any state, a piece that goes through goes through with its pitches moved, if these
have keys, and then nothing differs but the keys of the events. -/
theorem play_transpose (h : pass.play piece start = (.ok stop, after))
    (hkeys : ∀ cue ∈ piece.cues pass.config.pace start.toNat,
      (cue.transpose shift).keyFault? = none) :
    ∃ higher, pass.play (piece.transpose shift) start = (.ok stop, higher) ∧
      higher.channels = after.channels ∧
      ∃ emitted, after.events.toList = pass.events.toList ++ emitted ∧
        higher.events.toList = pass.events.toList ++ emitted.map (Event.transpose shift) := by
  have hrun := (follows_play pass piece start).run_eq
  rw [h] at hrun
  obtain ⟨tape, hrun'⟩ := Tape.exists_run_transpose hrun hkeys
  obtain ⟨hf, hheard⟩ := Tape.heard_of_run hrun
  have hhigher := (Tape.heard_of_run hrun').2
  rw [filterMap_span?_map Cue.span?_transpose] at hhigher
  have hfits : ∀ span ∈ (piece.cues pass.config.pace start.toNat).filterMap
      (Cue.span? pass.config.pace), ∀ channel,
      (span.transpose shift).events channel =
        (span.events channel).map (Event.transpose shift) := by
    intro span hspan channel
    obtain ⟨cue, hcue, hs⟩ := List.mem_filterMap.1 hspan
    exact Span.events_transpose (Cue.fits_of_span? (hf cue hcue) hs) channel
  obtain ⟨hchannels, -, -, -, hevents, hevents'⟩ := hheard.map (f := Span.transpose shift)
    (g := Event.transpose shift) (fun _ => rfl) (fun _ _ => rfl) hfits hhigher
  have hfollows := follows_play pass (piece.transpose shift) start
  rw [Piece.cues_transpose, Piece.ticks_transpose] at hfollows
  rcases hp : pass.play (piece.transpose shift) start with ⟨fault | stop', higher⟩ <;>
    rw [hp] at hfollows <;> have heq := hfollows.run_eq.symm.trans hrun'
  · cases heq
  · obtain rfl : higher.tape = tape := congrArg Prod.snd heq
    have hstop := (hfollows.stop_eq stop' rfl).trans (toNat_of_play h).symm
    rw [UInt32.toNat_inj.1 hstop]
    exact ⟨higher, rfl, hchannels, _, hevents, hevents'⟩

/-- From any state, a piece that goes through is stopped for a key when its pitches are moved,
if not all of these have keys. -/
theorem play_transpose_of_noKey (h : pass.play piece start = (.ok stop, after))
    (hkeys : ¬ ∀ cue ∈ piece.cues pass.config.pace start.toNat,
      (cue.transpose shift).keyFault? = none) :
    ∃ pitch stopped,
      pass.play (piece.transpose shift) start = (.error (keyFault pitch), stopped) := by
  have hrun := (follows_play pass piece start).run_eq
  rw [h] at hrun
  have hhigher := (follows_play pass (piece.transpose shift) start).run_eq
  rw [Piece.cues_transpose] at hhigher
  rcases hp : pass.play (piece.transpose shift) start with ⟨fault | stop', stopped⟩ <;>
    rw [hp] at hhigher
  · obtain ⟨pitch, rfl⟩ := Tape.exists_keyFault_of_run_transpose hrun hhigher
    exact ⟨pitch, stopped, rfl⟩
  · have hf := ((Tape.run_eq_none_iff _ _).1 (congrArg Prod.fst hhigher)).1
    exact absurd (fun cue hcue =>
      (Option.or_eq_none_iff.1 (hf _ (List.mem_map_of_mem hcue))).1) hkeys

end Pass

section

variable {piece : Piece} {config : Config} {pass : Pass} {stop : Tick}

/-- The schedule of the piece with its keys moved is that of the transposed piece. -/
theorem outcome_transpose (hconfig : config.problem? = none)
    (hplay : (Pass.new config).play piece config.start = (.ok stop, pass))
    (hkeys : ∀ cue ∈ piece.cues config.pace config.start.toNat,
      (cue.transpose shift).keyFault? = none) :
    (record (piece.transpose shift) config).outcome =
      .ok (pass.take.1.transpose shift, stop) := by
  obtain ⟨higher, hhigher, hchannels, emitted, hevents, hevents'⟩ :=
    Pass.play_transpose hplay hkeys
  refine outcome_eq_ok_iff.2 ⟨hconfig, higher, hhigher, ?_⟩
  have hnew : (Pass.new config).events.toList = [] := rfl
  rw [hnew, List.nil_append] at hevents hevents'
  simp only [Pass.take, Schedule.transpose, hevents, hevents', hchannels,
    Schedule.inTickOrder_map (Event.tick_transpose shift)]

/-- A transposed piece that lacks a key cannot be recorded. -/
theorem outcome_transpose_of_noKey (hconfig : config.problem? = none)
    (hplay : (Pass.new config).play piece config.start = (.ok stop, pass))
    (hkeys : ¬ ∀ cue ∈ piece.cues config.pace config.start.toNat,
      (cue.transpose shift).keyFault? = none) :
    ∃ pitch, (record (piece.transpose shift) config).outcome = .error (keyFault pitch) := by
  obtain ⟨pitch, stopped, hstopped⟩ := Pass.play_transpose_of_noKey hplay hkeys
  exact ⟨pitch, by rw [outcome_record hconfig, hstopped]⟩

/-- What is refused without a mishap is named. -/
theorem outcome_of_keyFault {pitch : Pitch} (h : (record piece config).outcome =
    .error (keyFault pitch)) (hno : ¬ MeetsMishap piece config) :
    (record piece config).outcome = .error (.noKey pitch.text pitch.keyNumber) := by
  have hfault := Recording.fault_of_outcome h
  rw [keyFault] at h hfault
  split at h
  · exact h
  · next hwords =>
    rw [if_neg hwords] at hfault
    exact absurd (meetsMishap_iff.2 ⟨_, hfault⟩) hno

end

/-- **Playing higher.**  Of a piece that was recorded, the piece `shift` semitones higher can
be recorded exactly if the keys of the schedule stay on the keyboard.  Then the schedule is
the old one with `shift` added to its keys; otherwise some note has no key.  Only a pitch that
leaves the machine words can keep this from being told. -/
theorem record_transpose {piece : Piece} {config : Config} {schedule : Schedule} {stop : Tick}
    (h : (record piece config).outcome = .ok (schedule, stop)) (shift : Int) :
    ((∃ higher end', (record (piece.transpose shift) config).outcome = .ok (higher, end')) ↔
      schedule.KeysStay shift) ∧
    (schedule.KeysStay shift →
      (record (piece.transpose shift) config).outcome = .ok (schedule.transpose shift, stop) ∧
      ∀ e ∈ schedule.events, e.isNote = true →
        ((e.transpose shift).data.toNat : Int) = e.data.toNat + shift) ∧
    (¬ schedule.KeysStay shift → ¬ MeetsMishap (piece.transpose shift) config →
      (record (piece.transpose shift) config).failure? = some .noteOutOfRange ∧
      ∃ pitch : Pitch, (record (piece.transpose shift) config).outcome =
        .error (.noKey pitch.text pitch.keyNumber)) ∧
    ((∀ leaf ∈ (piece.transpose shift).leaves, leaf.InWords) →
      ¬ MeetsMishap (piece.transpose shift) config) := by
  obtain ⟨hconfig, pass, hplay, rfl⟩ := outcome_eq_ok_iff.1 h
  have hrendition := Pass.rendition_of_fresh hconfig hplay
  have hspans : Schedule.KeysStay shift pass.take.1 ↔ _ := hrendition.keysStay_iff
  have hkeys : Schedule.KeysStay shift pass.take.1 ↔
      ∀ cue ∈ piece.cues config.pace config.start.toNat,
        (cue.transpose shift).keyFault? = none := by
    rw [← forall_span_key_iff, ← Piece.spans_eq_filterMap (Config.pace_cap_pos hconfig)]
    exact hspans
  have hstay : Schedule.KeysStay shift pass.take.1 → _ := fun hk =>
    outcome_transpose hconfig hplay (hkeys.1 hk)
  have hleave : ¬ Schedule.KeysStay shift pass.take.1 → _ := fun hk =>
    outcome_transpose_of_noKey hconfig hplay fun hall => hk (hkeys.2 hall)
  refine ⟨⟨fun ⟨higher, end', hok⟩ => ?_, fun hk => ⟨_, _, hstay hk⟩⟩, fun hk => ⟨hstay hk, ?_⟩,
    fun hk hno => ?_, not_meetsMishap⟩
  · by_contra hk
    obtain ⟨pitch, herror⟩ := hleave hk
    exact nomatch hok.symm.trans herror
  · intro e he
    exact hrendition.toNat_data_transpose (hspans.1 hk)
      ((Schedule.inTickOrder_perm _).mem_iff.1 he)
  · obtain ⟨pitch, herror⟩ := hleave hk
    have hnamed := outcome_of_keyFault herror hno
    exact ⟨by rw [Recording.failure?, Recording.fault_of_outcome hnamed]; rfl, pitch, hnamed⟩

/-- The highest note of the violin is on key `60`, and the highest key is `127`. -/
theorem record_transpose_groundBass :
    (record groundBass sixTicks).outcome = .ok ((record groundBass sixTicks).schedule, 9) ∧
      (record groundBass sixTicks).schedule.KeysStay 67 ∧
      (record (groundBass.transpose 67) sixTicks).outcome =
        .ok ((record groundBass sixTicks).schedule.transpose 67, 9) ∧
      ¬ (record groundBass sixTicks).schedule.KeysStay 68 ∧
      (record (groundBass.transpose 68) sixTicks).failure? = some .noteOutOfRange := by
  have hplay : ((Pass.new sixTicks).play (groundBass.transpose 67) 1).1 = .ok 9 := by
    decide +kernel
  obtain ⟨hiff, hstay, -⟩ := record_transpose outcome_groundBass 67
  have hkeys := hiff.1 ⟨_, 9, outcome_eq_ok_iff.2 ⟨by decide, _, Prod.ext hplay rfl, rfl⟩⟩
  have hfault : (record (groundBass.transpose 68) sixTicks).fault =
      some (.noKey (Pitch.mk 68).text 128) := by decide +kernel
  have hleave : ¬ (record groundBass sixTicks).schedule.KeysStay 68 := fun hk => by
    have hok := ((record_transpose outcome_groundBass 68).2.1 hk).1
    rw [Recording.outcome, hfault] at hok
    cases hok
  have hno : ¬ MeetsMishap (groundBass.transpose 68) sixTicks := fun h => by
    obtain ⟨cause, hcause⟩ := meetsMishap_iff.1 h
    cases hfault.symm.trans hcause
  exact ⟨outcome_groundBass, hkeys, (hstay hkeys).1, hleave,
    ((record_transpose outcome_groundBass 68).2.2.1 hleave hno).1⟩

end Playback
end Polyphony
