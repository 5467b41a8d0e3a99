/-
# Which pieces can be played

Whether a piece can be recorded is settled by its leaves, its ticks and its instruments
(`record_success_iff`); the order in which its parts are played, and how often its loops
are, does not matter for it.

| what is asked | of |
| --- | --- |
| the settings are valid | the settings |
| there is a key for the pitch | every note that is ever played |
| the length is exact | every leaf that is ever played |
| the last tick is not passed | the whole piece |
| there is a channel for each instrument | the notes that are ever played |

No leaf is asked about the last tick: a leaf ends no later than its piece, and some leaf
ends with it.  A piece with a leaf that never ends takes too many ticks by that leaf.

A recording ends in one of three ways.  It is a success, or it tells the kind of failure and is
else empty, or a pitch has come up for which 32 bits have no number or no name (`MeetsMishap`).
The last is not told by the leaves alone: a fault of a leaf in front of it comes first.
-/

import Polyphony.Playback.Recording
import Polyphony.Proofs.Playback.Emission

namespace Polyphony

namespace Piece

open Playback

variable {pace : Pace}

/-- An instrument is heard of a piece exactly if one of the spans is its own. -/
theorem mem_instruments_iff (h : 0 < pace.cap) (p : Piece) (s : Nat) (i : Instrument) :
    i ∈ p.instruments ↔ ∃ span ∈ p.spans pace s, span.instrument = i := by
  rw [spans_eq_filterMap h, instruments, List.mem_filterMap]
  constructor
  · rintro ⟨l, hl, hi⟩
    obtain ⟨c, hc, rfl⟩ := (mem_leaves_iff h p s l).1 hl
    obtain ⟨⟨pitch, i⟩, hs, rfl⟩ := Option.map_eq_some_iff.1 hi
    exact ⟨_, List.mem_filterMap.2 ⟨c, hc, by rw [Cue.span?, hs, Option.map_some]⟩, rfl⟩
  · rintro ⟨span, hspan, rfl⟩
    obtain ⟨c, hc, hs⟩ := List.mem_filterMap.1 hspan
    obtain ⟨⟨pitch, i⟩, hsound, rfl⟩ := Option.map_eq_some_iff.1 hs
    exact ⟨c.toLeaf, (mem_leaves_iff h p s _).2 ⟨c, hc, rfl⟩, by rw [hsound]; rfl⟩

end Piece

namespace Playback

/-- A leaf whose pitch, if it has one, is played by a key. -/
def Leaf.HasKey (l : Leaf) : Prop := ∀ pitch instrument, l.sound = some (pitch, instrument) →
  0 ≤ pitch.keyNumber ∧ pitch.keyNumber ≤ 127

/-- A leaf whose pitch, if it has one, is in machine words. -/
def Leaf.InWords (l : Leaf) : Prop :=
  ∀ pitch instrument, l.sound = some (pitch, instrument) → pitch.InWords

/-- A piece that settings allow to be played. -/
structure Playable (piece : Piece) (config : Config) : Prop where
  config_valid : config.problem? = none
  keys : ∀ leaf ∈ piece.leaves, leaf.HasKey
  lengths : ∀ leaf ∈ piece.leaves, leaf.length.isOverflow = false
  in_time : config.start.toNat + piece.ticks config.pace ≤ lastTick
  channels : piece.instruments.toFinset.card ≤ config.channels.toNat

theorem nodup_newcomers (known : List Instrument) (spans : List Span) :
    (newcomers known spans).Nodup := by
  induction spans generalizing known with
  | nil => exact List.nodup_nil
  | cons span spans ih =>
    rw [newcomers]
    split
    · exact ih known
    · refine List.nodup_cons.2 ⟨fun hmem => ?_, ih _⟩
      exact (mem_newcomers_iff.1 hmem).1 (List.mem_append_right _ (List.mem_singleton_self _))

/-- There are as many newcomers on a fresh pass as instruments are heard. -/
theorem length_newcomers {pace : Pace} (h : 0 < pace.cap) (p : Piece) (s : Nat) :
    (newcomers [] (p.spans pace s)).length = p.instruments.toFinset.card := by
  rw [← List.toFinset_card_of_nodup (nodup_newcomers ..)]
  congr 1
  ext i
  rw [List.mem_toFinset, List.mem_toFinset, mem_newcomers_iff, p.mem_instruments_iff h s]
  simp

/-- None of the cues of a piece is at fault exactly if its leaves can be played and the
piece ends in time. -/
theorem forall_fault?_eq_none_iff {pace : Pace} (h : 0 < pace.cap) (p : Piece) {s : Nat}
    (hs : s ≤ lastTick) : (∀ c ∈ p.cues pace s, c.fault? pace = none) ↔
      (∀ leaf ∈ p.leaves, leaf.HasKey) ∧ (∀ leaf ∈ p.leaves, leaf.length.isOverflow = false) ∧
        s + p.ticks pace ≤ lastTick := by
  have hleaves : ∀ P : Leaf → Prop, (∀ leaf ∈ p.leaves, P leaf) ↔
      ∀ c ∈ p.cues pace s, P c.toLeaf := by
    intro P
    simp only [p.mem_leaves_iff h s, forall_exists_index, and_imp]
    exact ⟨fun hP c hc => hP _ c hc rfl, fun hP l c hc hl => hl ▸ hP c hc⟩
  rw [hleaves, hleaves, Piece.add_ticks_le_iff hs, ← forall₂_and, ← forall₂_and]
  exact forall₂_congr fun c _ => Cue.fault?_eq_none_iff

namespace Tape

variable {pace : Pace} {capacity : UInt8} {cue : Cue} {cues : List Cue} {tape tape' : Tape}

/-- A fault that stops a run is kept if it is the first one. -/
theorem fault_of_run {fault : Fault} (h : run pace capacity cues tape = (some fault, tape')) :
    tape'.fault = tape.fault.or (some fault) := by
  obtain ⟨before, cue, rest, reached, -, hbefore, hplay⟩ := exists_split_of_run h
  rw [eq_fail_of_play hplay, fail, (heard_of_run hbefore).2.fault_eq]

end Tape

/-- With valid settings, a fresh pass gets through exactly the playable pieces. -/
theorem exists_play_eq_ok_iff_playable {piece : Piece} {config : Config}
    (h : config.problem? = none) :
    (∃ stop, ((Pass.new config).play piece config.start).1 = .ok stop) ↔
      Playable piece config := by
  have hcap := Config.pace_cap_pos h
  have hstart : config.start.toNat ≤ lastTick := Nat.le_of_lt_succ config.start.toNat_lt
  have hlen := length_newcomers hcap piece config.start.toNat
  have hroom : (newcomers [] (piece.spans config.pace config.start.toNat) = [] ∨
      0 + (newcomers [] (piece.spans config.pace config.start.toNat)).length ≤
        config.channels.toNat) ↔
      piece.instruments.toFinset.card ≤ config.channels.toNat := by
    rw [← List.length_eq_zero_iff, hlen]
    omega
  refine (Pass.exists_play_eq_ok_iff hcap).trans ?_
  refine (and_congr (forall_fault?_eq_none_iff hcap piece hstart) hroom).trans ?_
  exact ⟨fun ⟨⟨hk, hl, ht⟩, hc⟩ => ⟨h, hk, hl, ht, hc⟩,
    fun ⟨_, hk, hl, ht, hc⟩ => ⟨⟨hk, hl, ht⟩, hc⟩⟩

theorem Recording.fault_of_outcome {r : Recording} {fault : Fault} (h : r.outcome = .error fault) :
    r.fault = some fault := by
  unfold outcome at h
  split at h
  · next hfault => rw [hfault, Except.error.inj h]
  · cases h

/-- Settings that are not valid leave a recording of nothing but this. -/
theorem record_of_problem {piece : Piece} {config : Config} {problem : ConfigProblem}
    (h : config.problem? = some problem) :
    record piece config = { fault := some (.badConfig problem) } := by
  rw [record, h]

section

variable {piece : Piece} {config : Config} {pass : Pass} {fault : Fault} {stop : Tick}

/-- What a fresh pass gets through is filled in. -/
theorem record_of_play (hconfig : config.problem? = none)
    (h : (Pass.new config).play piece config.start = (.ok stop, pass)) :
    record piece config =
      { schedule := pass.take.1
        endTick := stop
        success := true
        notices := pass.notices.toList } := by
  rw [record, hconfig]
  simp only [h]

/-- A fresh pass that is stopped has kept what stopped it. -/
theorem fault_of_play (h : (Pass.new config).play piece config.start = (.error fault, pass)) :
    pass.fault = some fault := by
  have hrun := (Pass.follows_play (Pass.new config) piece config.start).run_eq
  rw [h] at hrun
  exact Tape.fault_of_run hrun

/-- What stops a fresh pass is put down, and nothing else is. -/
theorem record_of_stop (hconfig : config.problem? = none)
    (h : (Pass.new config).play piece config.start = (.error fault, pass)) :
    record piece config = { fault := some fault, notices := pass.notices.toList } := by
  rw [record, hconfig]
  simp only [h, fault_of_play h]

/-- A recording holds what a fresh pass has put together, or why there is nothing. -/
theorem outcome_record (hconfig : config.problem? = none) : (record piece config).outcome =
    match (Pass.new config).play piece config.start with
    | (.error fault, _) => .error fault
    | (.ok stop, pass) => .ok (pass.take.1, stop) := by
  rcases h : (Pass.new config).play piece config.start with ⟨fault | stop, pass⟩
  · rw [record_of_stop hconfig h, Recording.outcome]
  · rw [record_of_play hconfig h, Recording.outcome]

theorem outcome_of_problem {problem : ConfigProblem} (h : config.problem? = some problem) :
    (record piece config).outcome = .error (.badConfig problem) := by
  rw [record_of_problem h, Recording.outcome]

end

/-- A recording that holds a schedule holds what a fresh pass has put together. -/
theorem outcome_eq_ok_iff {piece : Piece} {config : Config} {schedule : Schedule} {stop : Tick} :
    (record piece config).outcome = .ok (schedule, stop) ↔ config.problem? = none ∧
      ∃ pass, (Pass.new config).play piece config.start = (.ok stop, pass) ∧
        schedule = pass.take.1 := by
  cases hconfig : config.problem? with
  | some problem =>
    rw [outcome_of_problem hconfig]
    exact ⟨fun h => (nomatch h), fun h => (nomatch h.1)⟩
  | none =>
    rw [outcome_record hconfig]
    rcases (Pass.new config).play piece config.start with ⟨fault | stop', pass⟩
    · exact ⟨fun h => (nomatch h), fun ⟨_, _, h, _⟩ => (nomatch h)⟩
    · constructor
      · intro h
        cases h
        exact ⟨rfl, pass, rfl, rfl⟩
      · rintro ⟨-, pass', h, rfl⟩
        cases h
        rfl

/-- What a fresh pass gets through is recorded. -/
theorem outcome_of_play {piece : Piece} {config : Config} {stop : Tick}
    (hconfig : config.problem? = none)
    (h : ((Pass.new config).play piece config.start).1 = .ok stop) :
    (record piece config).outcome = .ok ((record piece config).schedule, stop) := by
  rw [record_of_play hconfig (Prod.ext h rfl), Recording.outcome]

theorem outcome_groundBass : (record groundBass sixTicks).outcome =
    .ok ((record groundBass sixTicks).schedule, 9) :=
  outcome_of_play (by decide) (by decide +kernel)

/-- What can be recorded is what is playable. -/
theorem exists_outcome_eq_ok_iff (piece : Piece) (config : Config) :
    (∃ schedule stop, (record piece config).outcome = .ok (schedule, stop)) ↔
      Playable piece config := by
  constructor
  · rintro ⟨schedule, stop, h⟩
    obtain ⟨hconfig, pass, hplay, -⟩ := outcome_eq_ok_iff.1 h
    exact (exists_play_eq_ok_iff_playable hconfig).1 ⟨stop, by rw [hplay]⟩
  · intro h
    obtain ⟨stop, hplay⟩ := (exists_play_eq_ok_iff_playable h.config_valid).2 h
    exact ⟨_, stop, outcome_of_play h.config_valid hplay⟩

/-- With valid settings a cue comes up whose pitch is not in words, and none before it is at
fault. -/
structure MeetsMishap (piece : Piece) (config : Config) : Prop where
  config_valid : config.problem? = none
  split : ∃ before cue rest reached,
    piece.cues config.pace config.start.toNat = before ++ cue :: rest ∧
      Tape.run config.pace config.channels before (Pass.new config).tape = (none, reached) ∧
      ¬ cue.InWords

namespace Cue

variable {pace : Pace} {c : Cue} {cause : Pitch.Mishap}

/-- A pitch that is not in words has no key either. -/
theorem keyFault?_of_not_inWords (h : ¬ c.InWords) : c.keyFault? = some (.mishap .wrapped) := by
  obtain ⟨pitch, instrument, hsound, hwords⟩ :
      ∃ pitch instrument, c.sound = some (pitch, instrument) ∧ ¬ pitch.InWords := by
    simpa [Leaf.InWords] using h
  have hkey : pitch.key? = none := by
    rw [Pitch.key?_eq_none_iff]
    have hout := mt Pitch.inWords_of_key hwords
    omega
  simp only [keyFault?, hsound, hkey, keyFault, if_neg hwords]
  rfl

/-- Only a pitch that is not in words is met by a mishap. -/
theorem not_inWords_of_fault? (h : c.fault? pace = some (.mishap cause)) : ¬ c.InWords := by
  intro hwords
  rcases Option.or_eq_some_iff.1 h with hkey | ⟨-, hlength⟩
  · unfold keyFault? at hkey
    split at hkey
    · next pitch instrument hsound =>
      split at hkey
      · cases hkey
      · rw [keyFault, if_pos (hwords pitch instrument hsound)] at hkey
        cases hkey
    · cases hkey
  · unfold lengthFault? at hlength
    split at hlength
    · cases hlength
    · split at hlength <;> cases hlength

end Cue

/-- A cue is met by a mishap exactly if its pitch is not in words, whatever was played before. -/
theorem Tape.play_eq_mishap_iff {pace : Pace} {capacity : UInt8} {tape : Tape} {cue : Cue} :
    (∃ cause, (tape.play pace capacity cue).1 = some (.mishap cause)) ↔ ¬ cue.InWords := by
  constructor
  · rintro ⟨cause, h⟩
    have hstep := step_play pace capacity tape cue
    generalize tape.play pace capacity cue = out at h hstep
    cases hstep with
    | fault hf =>
      obtain rfl := Option.some.inj h
      exact Cue.not_inWords_of_fault? hf
    | rest => cases h
    | known => cases h
    | new => cases h
    | full => cases h
  · intro h
    have hfault : cue.fault? pace = some (.mishap .wrapped) := by
      rw [Cue.fault?, Cue.keyFault?_of_not_inWords h, Option.some_or]
    exact ⟨.wrapped, by rw [play, hfault]⟩

/-- A run is met by a mishap exactly if it comes to a cue whose pitch is not in words. -/
theorem Tape.run_eq_mishap_iff {pace : Pace} {capacity : UInt8} {cues : List Cue} {tape : Tape} :
    (∃ cause, (run pace capacity cues tape).1 = some (.mishap cause)) ↔
      ∃ before cue rest reached, cues = before ++ cue :: rest ∧
        run pace capacity before tape = (none, reached) ∧ ¬ cue.InWords := by
  constructor
  · rintro ⟨cause, h⟩
    obtain ⟨before, cue, rest, reached, hcues, hbefore, hplay⟩ :=
      exists_split_of_run (Prod.ext h rfl)
    exact ⟨before, cue, rest, reached, hcues, hbefore,
      play_eq_mishap_iff.1 ⟨cause, congrArg Prod.fst hplay⟩⟩
  · rintro ⟨before, cue, rest, reached, rfl, hbefore, hwords⟩
    obtain ⟨cause, hcause⟩ := play_eq_mishap_iff.2 hwords
    refine ⟨cause, ?_⟩
    rw [run_append hbefore, run]
    rcases hplay : reached.play pace capacity cue with ⟨stopped, next⟩
    rw [hplay] at hcause
    obtain rfl : stopped = some (.mishap cause) := hcause
    rfl

section

variable {piece : Piece} {config : Config}

/-- With valid settings a recording holds what stops the run of the cues. -/
theorem fault_record (hconfig : config.problem? = none) : (record piece config).fault =
    (Tape.run config.pace config.channels (piece.cues config.pace config.start.toNat)
      (Pass.new config).tape).1 := by
  have hrun : Tape.run config.pace config.channels (piece.cues config.pace config.start.toNat)
      (Pass.new config).tape = _ :=
    (Pass.follows_play (Pass.new config) piece config.start).run_eq
  rw [hrun]
  rcases hplay : (Pass.new config).play piece config.start with ⟨fault | stop, pass⟩
  · rw [record_of_stop hconfig hplay]
    rfl
  · rw [record_of_play hconfig hplay]
    rfl

/-- A recording is of a mishap exactly if the piece meets one. -/
theorem meetsMishap_iff :
    MeetsMishap piece config ↔ ∃ cause, (record piece config).fault = some (.mishap cause) := by
  cases hconfig : config.problem? with
  | some problem =>
    rw [record_of_problem hconfig]
    refine iff_of_false (fun h => nomatch hconfig.symm.trans h.config_valid) ?_
    rintro ⟨_, ⟨⟩⟩
  | none =>
    rw [fault_record hconfig, Tape.run_eq_mishap_iff]
    exact ⟨MeetsMishap.split, .mk hconfig⟩

/-- No mishap is met if all pitches are in words. -/
theorem not_meetsMishap (h : ∀ leaf ∈ piece.leaves, leaf.InWords) :
    ¬ MeetsMishap piece config := by
  rintro ⟨hconfig, before, cue, rest, -, hcues, -, hwords⟩
  have hcue : cue ∈ piece.cues config.pace config.start.toNat := by
    rw [hcues]
    exact List.mem_append_right _ List.mem_cons_self
  exact hwords (h _ ((piece.mem_leaves_iff (Config.pace_cap_pos hconfig) _ _).2 ⟨cue, hcue, rfl⟩))

/-- A recording is a success exactly if it holds no fault, and else it holds nothing but the fault
and notices. -/
theorem success_record (piece : Piece) (config : Config) :
    ((record piece config).success = true ∧ (record piece config).fault = none) ∨
      ∃ fault notices, record piece config = { fault := some fault, notices := notices } := by
  cases hconfig : config.problem? with
  | some problem => exact Or.inr ⟨_, _, record_of_problem hconfig⟩
  | none =>
    rcases hplay : (Pass.new config).play piece config.start with ⟨fault | stop, pass⟩
    · exact Or.inr ⟨_, _, record_of_stop hconfig hplay⟩
    · rw [record_of_play hconfig hplay]
      exact Or.inl ⟨rfl, rfl⟩

end

end Playback
end Polyphony
