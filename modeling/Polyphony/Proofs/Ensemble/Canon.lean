/-
# When the voices of a canon enter

A canon nests its voices: each is the one before, varied and put behind a pause, and joined to
it from the top.  What is played is a flat list of them (`canon_plays_voices`).

| voice | is | enters |
| --- | --- | --- |
| `0` | the piece | at the start |
| `i` | the piece, `i * shift` semitones higher | `i` times the ticks of a pause later |

Voice `i` waits for `i` pauses in a row, each of them cut down to whole ticks on its own, so
the voices enter at multiples of the ticks of one pause and nothing adds up besides
(`Pass.play_delays_eq_ok_iff`).  A pause leaves nothing on a pass, so the voices can be played
one after the other, each on what the one before has left (`Pass.playEach`).
-/

import Polyphony.Proofs.Ensemble.Chain
import Polyphony.Proofs.Playback.Emission

namespace Polyphony

namespace Piece

/-- The piece behind so many pauses. -/
def delays (p : Piece) (pause : Duration) : (count : Nat) → Piece
  | 0 => p
  | count + 1 => (p.delays pause count).delay pause

/-- Pauses are the same in every transposition. -/
theorem transpose_delays (p : Piece) (pause : Duration) (count : Nat) (shift : Int) :
    (p.delays pause count).transpose shift = (p.transpose shift).delays pause count := by
  induction count with
  | zero => rfl
  | succ count ih => rw [delays, transpose_delay, ih, delays]

end Piece

namespace Playback

/-- What is exact and ends in time ends after its ticks. -/
theorem endOf_eq_ok_iff {config : Config} {start stop : Tick} {length : Duration} :
    endOf config start length = .ok stop ↔ length.isOverflow = false ∧
      stop.toNat = start.toNat + length.toTicks config.ticksPerBeat.toNat := by
  rw [← tickAfter?_eq_some_iff, endOf]
  cases length.isOverflow with
  | true => simp
  | false => cases tickAfter? start (length.toTicks config.ticksPerBeat.toNat) <;> simp

/-- A tick that is given by a number is there exactly if the number is not too large. -/
theorem exists_tick_iff {n : Nat} {P : Tick → Prop} :
    (∃ t : Tick, t.toNat = n ∧ P t) ↔ n ≤ lastTick ∧ P n.toUInt32 := by
  constructor
  · rintro ⟨t, rfl, ht⟩
    refine ⟨Nat.le_of_lt_succ t.toNat_lt, ?_⟩
    rwa [Nat.toUInt32, UInt32.ofNat_toNat]
  · rintro ⟨hn, ht⟩
    exact ⟨n.toUInt32, UInt32.toNat_ofNat_of_lt' (Nat.lt_succ_of_le hn), ht⟩

instance : Std.Associative (max : Tick → Tick → Tick) where
  assoc a b c := by
    rw [← UInt32.toNat_inj]
    simp only [toNat_max, Nat.max_assoc]

namespace Pass

variable {pass after : Pass} {start stop : Tick} {p q : Piece} {pause : Duration}

/-- Plays pieces from ticks on, one after the other, and tells where each of them ends.  The
first thing that cannot be played ends it all. -/
def playEach : List (Piece × Tick) → Pass → Except Fault (List Tick) × Pass
  | [], pass => (.ok [], pass)
  | (piece, start) :: rest, pass =>
    match pass.play piece start with
    | (.error fault, pass) => (.error fault, pass)
    | (.ok stop, pass) =>
      match playEach rest pass with
      | (.error fault, pass) => (.error fault, pass)
      | (.ok stops, pass) => (.ok (stop :: stops), pass)

/-- All of them go through if the first does, and the others do on what it has left. -/
theorem playEach_cons_eq_ok_iff {rest : List (Piece × Tick)} {stops : List Tick} :
    playEach ((p, start) :: rest) pass = (.ok stops, after) ↔
      ∃ stop middle stops', pass.play p start = (.ok stop, middle) ∧
        playEach rest middle = (.ok stops', after) ∧ stops = stop :: stops' := by
  rw [playEach]
  rcases pass.play p start with ⟨fault | stop, middle⟩
  · simp
  · rcases hrest : playEach rest middle with ⟨fault | stops', last⟩
    · simp [hrest]
    · simp only [hrest, Prod.mk.injEq, Except.ok.injEq]
      constructor
      · rintro ⟨rfl, rfl⟩
        exact ⟨stop, middle, stops', ⟨rfl, rfl⟩, hrest, rfl⟩
      · rintro ⟨_, _, _, ⟨rfl, rfl⟩, h, rfl⟩
        rw [hrest] at h
        cases h
        exact ⟨rfl, rfl⟩

theorem length_of_playEach {parts : List (Piece × Tick)} {stops : List Tick}
    (h : playEach parts pass = (.ok stops, after)) : stops.length = parts.length := by
  induction parts generalizing pass stops with
  | nil =>
    cases h
    rfl
  | cons part parts ih =>
    obtain ⟨_, _, _, -, hrest, rfl⟩ := playEach_cons_eq_ok_iff.1 h
    rw [List.length_cons, List.length_cons, ih hrest]

/-- If anything is played, something ends last. -/
theorem exists_max?_of_playEach {parts : List (Piece × Tick)} {stops : List Tick}
    (h : playEach parts pass = (.ok stops, after)) (hne : parts ≠ []) :
    ∃ last, stops.max? = some last := by
  have hlength := length_of_playEach h
  cases stops with
  | nil => exact absurd (List.eq_nil_of_length_eq_zero hlength.symm) hne
  | cons stop stops => exact ⟨_, List.max?_cons'⟩

theorem config_of_play (h : pass.play p start = (.ok stop, after)) :
    after.config = pass.config := by
  have hconfig := (follows_play pass p start).config_eq
  rwa [h] at hconfig

/-- The bottom is played on what the top has left, and the later end counts. -/
theorem play_together_eq_ok_iff : pass.play (.together p q) start = (.ok stop, after) ↔
    ∃ x y middle, pass.play p start = (.ok x, middle) ∧
      middle.play q start = (.ok y, after) ∧ stop = max x y := by
  rw [play]
  rcases pass.play p start with ⟨fault | x, middle⟩
  · simp
  · rcases hq : middle.play q start with ⟨fault | y, last⟩
    · simp [hq]
    · simp only [hq, Prod.mk.injEq, Except.ok.injEq]
      constructor
      · rintro ⟨rfl, rfl⟩
        exact ⟨x, y, middle, ⟨rfl, rfl⟩, hq, rfl⟩
      · rintro ⟨_, _, _, ⟨rfl, rfl⟩, h, rfl⟩
        rw [hq] at h
        cases h
        exact ⟨rfl, rfl⟩

/-- A pause lets the piece enter its ticks later, and leaves nothing. -/
theorem play_delay_eq_ok_iff : pass.play (p.delay pause) start = (.ok stop, after) ↔
    pause.isOverflow = false ∧ ∃ entry : Tick,
      entry.toNat = start.toNat + pause.toTicks pass.config.ticksPerBeat.toNat ∧
        pass.play p entry = (.ok stop, after) := by
  rw [Piece.delay, play, play, playRest]
  cases hend : endOf pass.config start pause with
  | error fault =>
    refine ⟨?_, ?_⟩
    · rintro ⟨⟩
    · rintro ⟨hexact, entry, htick, -⟩
      cases hend.symm.trans (endOf_eq_ok_iff.2 ⟨hexact, htick⟩)
  | ok entry =>
    obtain ⟨hexact, htick⟩ := endOf_eq_ok_iff.1 hend
    refine ⟨fun h => ⟨hexact, entry, htick, h⟩, ?_⟩
    rintro ⟨-, entry', htick', h⟩
    obtain rfl : entry' = entry := UInt32.toNat_inj.1 (htick'.trans htick.symm)
    exact h

/-- Several pauses do so as well, and each of them takes whole ticks. -/
theorem play_delays_eq_ok_iff (count : Nat) :
    pass.play (p.delays pause count) start = (.ok stop, after) ↔
      (count = 0 ∨ pause.isOverflow = false) ∧ ∃ entry : Tick,
        entry.toNat = start.toNat + count * pause.toTicks pass.config.ticksPerBeat.toNat ∧
          pass.play p entry = (.ok stop, after) := by
  induction count generalizing start with
  | zero =>
    simp only [Piece.delays, Nat.zero_mul, Nat.add_zero, UInt32.toNat_inj, true_or, true_and,
      exists_eq_left]
  | succ count ih =>
    rw [Piece.delays, play_delay_eq_ok_iff]
    simp only [ih, Nat.succ_mul, Nat.add_one_ne_zero, false_or]
    constructor
    · rintro ⟨hexact, middle, hmiddle, -, entry, hentry, h⟩
      exact ⟨hexact, entry, by omega, h⟩
    · rintro ⟨hexact, entry, hentry, h⟩
      have hentry_lt := entry.toNat_lt
      have hmiddle : start.toNat + pause.toTicks pass.config.ticksPerBeat.toNat ≤ lastTick := by
        unfold lastTick
        omega
      obtain ⟨middle, htick, -⟩ := (exists_tick_iff (P := fun _ => True)).2 ⟨hmiddle, trivial⟩
      exact ⟨hexact, middle, htick, Or.inr hexact, entry, by omega, h⟩

end Pass

/-- Voice `i` of a canon whose voices enter `ticks` apart, and when it enters. -/
def voice (p : Piece) (shift : Int) (ticks : Nat) (start : Tick) (i : Nat) : Piece × Tick :=
  (p.transpose (i * shift), (start.toNat + i * ticks).toUInt32)

/-- The first `count` voices of a canon, in the order in which they enter. -/
def voices (config : Config) (p : Piece) (pause : Duration) (shift : Int) (start : Tick)
    (count : Nat) : List (Piece × Tick) :=
  (List.range count).map (voice p shift (pause.toTicks config.ticksPerBeat.toNat) start)

end Playback

namespace Ensemble

open Playback

variable {p : Piece} {pause : Duration} {shift : Int}

/-- The voice after voice `i`: a pause more and a shift more. -/
theorem apply_voice (p : Piece) (pause : Duration) (shift : Int) (i : Nat) :
    (Transform.compose (.transpose shift) (.delay pause)).apply
        ((p.transpose (i * shift)).delays pause i) =
      (p.transpose ((i + 1 : Nat) * shift)).delays pause (i + 1) := by
  show (((p.transpose (i * shift)).delays pause i).transpose shift).delay pause = _
  rw [Piece.transpose_delays, Piece.transpose_transpose, Piece.delays]
  congr 3
  push_cast
  rw [Int.add_mul, Int.one_mul]

/-- The voices from `i` on, each on what the one before has left. -/
theorem play_chain_eq_ok_iff {config : Config} (more i : Nat) {pass after : Pass}
    {start stop : Tick} (hc : pass.config = config) :
    pass.play (chain .together (.compose (.transpose shift) (.delay pause)) more
        ((p.transpose (i * shift)).delays pause i)) start = (.ok stop, after) ↔
      (i + more = 0 ∨ pause.isOverflow = false) ∧
      (∀ j ∈ List.range' i (more + 1),
        start.toNat + j * pause.toTicks config.ticksPerBeat.toNat ≤ lastTick) ∧
      ∃ stops, Pass.playEach ((List.range' i (more + 1)).map
          (voice p shift (pause.toTicks config.ticksPerBeat.toNat) start)) pass =
            (.ok stops, after) ∧ stops.max? = some stop := by
  induction more generalizing i pass stop with
  | zero =>
    rw [chain, Pass.play_delays_eq_ok_iff, exists_tick_iff, hc]
    simp only [List.range'_one, List.map_singleton, List.mem_singleton, forall_eq, Nat.add_zero,
      Nat.zero_add, voice, Pass.playEach_cons_eq_ok_iff]
    refine and_congr_right fun _ => and_congr_right fun _ => ⟨fun h => ?_, ?_⟩
    · exact ⟨[stop], ⟨stop, after, [], h, rfl, rfl⟩, rfl⟩
    · rintro ⟨_, ⟨stop', middle, _, h, hnil, rfl⟩, hmax⟩
      cases hnil
      cases hmax
      exact h
  | succ more ih =>
    rw [chain, Joining.join, apply_voice, Pass.play_together_eq_ok_iff, List.range'_succ,
      List.forall_mem_cons, List.map_cons]
    constructor
    · rintro ⟨x, y, middle, htop, hbottom, rfl⟩
      have hmiddle := (Pass.config_of_play htop).trans hc
      rw [Pass.play_delays_eq_ok_iff, exists_tick_iff, hc] at htop
      obtain ⟨hexact, htime, stops, hplayed, hmax⟩ := (ih (i + 1) hmiddle).1 hbottom
      refine ⟨Or.inr (hexact.resolve_left (by omega)), ⟨htop.2.1, htime⟩, x :: stops, ?_, ?_⟩
      · exact Pass.playEach_cons_eq_ok_iff.2 ⟨x, middle, stops, htop.2.2, hplayed, rfl⟩
      · rw [List.max?_cons, hmax, Option.elim_some]
    · rintro ⟨hexact, ⟨hfirst, htime⟩, _, hplayed, hmax⟩
      obtain ⟨x, middle, stops, htop, hrest, rfl⟩ := Pass.playEach_cons_eq_ok_iff.1 hplayed
      have hmiddle := (Pass.config_of_play htop).trans hc
      obtain ⟨y, hy⟩ := Pass.exists_max?_of_playEach hrest (by simp)
      rw [List.max?_cons, hy, Option.elim_some] at hmax
      have hpause := hexact.resolve_left (by omega)
      refine ⟨x, y, middle, ?_, (ih (i + 1) hmiddle).2 ⟨Or.inr hpause, htime, stops, hrest, hy⟩,
        (Option.some.inj hmax).symm⟩
      rw [Pass.play_delays_eq_ok_iff, exists_tick_iff, hc]
      exact ⟨Or.inr hpause, hfirst, htop⟩

/-- Transforms that vary every piece alike make the same chain. -/
theorem chain_congr {f g : Transform} (hfg : ∀ q, f.apply q = g.apply q) (joining : Joining)
    (more : Nat) (p : Piece) : chain joining f more p = chain joining g more p := by
  induction more generalizing p with
  | zero => rfl
  | succ more ih => rw [chain, chain, hfg, ih]

/-- A round is a canon whose voices are not varied. -/
theorem round_eq_canon (p : Piece) (pause : Duration) (count : Int) :
    round p pause count = canon p pause (some (.transpose 0)) count := by
  have hsame : ∀ q, (Transform.compose .identity (.delay pause)).apply q =
      (Transform.compose (.transpose 0) (.delay pause)).apply q := fun _ => rfl
  simp only [round, canon, counterpoint, series, chain_congr hsame]

/-- What a canon of `count` voices plays. -/
theorem play_canon_eq_ok_iff {count : Nat} (h : 0 < count) {pass after : Pass}
    {start stop : Tick} :
    pass.play (chain .together (.compose (.transpose shift) (.delay pause)) (count - 1) p) start =
        (.ok stop, after) ↔
      (count = 1 ∨ pause.isOverflow = false) ∧
      (∀ i < count,
        start.toNat + i * pause.toTicks pass.config.ticksPerBeat.toNat ≤ lastTick) ∧
      ∃ stops, pass.playEach (voices pass.config p pause shift start count) =
        (.ok stops, after) ∧ stops.max? = some stop := by
  obtain ⟨more, rfl⟩ := Nat.exists_eq_add_of_lt h
  have hfirst : (p.transpose ((0 : Nat) * shift)).delays pause 0 = p := by
    rw [Piece.delays, Int.natCast_zero, Int.zero_mul, Piece.transpose_zero]
  have hchain := @play_chain_eq_ok_iff p pause shift pass.config more 0 pass after start stop rfl
  rw [hfirst, ← List.range_eq_range'] at hchain
  simpa only [voices, Nat.zero_add, Nat.add_sub_cancel, Nat.add_eq_right, List.mem_range]
    using hchain

/-- **A canon plays its voices.**  From any state of a pass, a canon goes through exactly if
the pauses are exact, no voice enters after the last tick, and the voices go through one after
the other.  Then it leaves what they leave, and ends when the last of them does.  A round is
the canon that shifts its voices by no semitones. -/
theorem canon_plays_voices (p : Piece) (pause : Duration) (shift : Int) {count : Nat}
    (h : 0 < count) :
    (∃ piece, canon p pause (some (.transpose shift)) count = .ok piece ∧
      ∀ (pass : Pass) (start : Tick),
        ((∃ stop after, pass.play piece start = (.ok stop, after)) ↔
          (count = 1 ∨ pause.isOverflow = false) ∧
          (∀ i < count,
            start.toNat + i * pause.toTicks pass.config.ticksPerBeat.toNat ≤ lastTick) ∧
          ∃ stops after, pass.playEach (voices pass.config p pause shift start count) =
            (.ok stops, after)) ∧
        ∀ stop after, pass.play piece start = (.ok stop, after) →
          ∃ stops, pass.playEach (voices pass.config p pause shift start count) =
            (.ok stops, after) ∧ stops.max? = some stop) ∧
    round p pause count = canon p pause (some (.transpose 0)) count := by
  refine ⟨⟨_, canon_eq_ok p pause (.transpose shift) h, fun pass start => ⟨⟨?_, ?_⟩, ?_⟩⟩,
    round_eq_canon p pause count⟩
  · rintro ⟨stop, after, hplay⟩
    obtain ⟨hexact, htime, stops, hstops, -⟩ := (play_canon_eq_ok_iff h).1 hplay
    exact ⟨hexact, htime, stops, after, hstops⟩
  · rintro ⟨hexact, htime, stops, after, hstops⟩
    have hne : voices pass.config p pause shift start count ≠ [] := by
      simpa [voices] using Nat.ne_of_gt h
    obtain ⟨stop, hstop⟩ := Pass.exists_max?_of_playEach hstops hne
    exact ⟨stop, after, (play_canon_eq_ok_iff h).2 ⟨hexact, htime, stops, hstops, hstop⟩⟩
  · intro stop after hplay
    exact ((play_canon_eq_ok_iff h).1 hplay).2.2

/-- Three quarters of a beat: at two ticks to a beat, a tick and a half. -/
def threeQuarters : Duration := .reduce 3 4 (by decide)

/-- Three voices of the violin over the looped bass enter a tick apart, not three ticks in two. -/
theorem canon_plays_groundBass : 0 < 3 ∧
    ∃ piece, canon groundBass threeQuarters (some (.transpose 12)) 3 = .ok piece ∧
      ∃ after, (Pass.new sixTicks).play piece 1 = (.ok 11, after) ∧
        (Pass.new sixTicks).playEach (voices sixTicks groundBass threeQuarters 12 1 3) =
          (.ok [9, 10, 11], after) := by
  obtain ⟨⟨piece, hcanon, hplay⟩, -⟩ :=
    canon_plays_voices groundBass threeQuarters 12 (show 0 < 3 by decide)
  obtain ⟨hiff, hends⟩ := hplay (Pass.new sixTicks) 1
  have hstops : ((Pass.new sixTicks).playEach
      (voices sixTicks groundBass threeQuarters 12 1 3)).1 = .ok [9, 10, 11] := by
    decide +kernel
  obtain ⟨stop, after, hstop⟩ :=
    hiff.2 ⟨Or.inr (by decide), by decide, _, _, Prod.ext hstops rfl⟩
  obtain ⟨stops, hvoices, hmax⟩ := hends stop after hstop
  obtain rfl : stops = [9, 10, 11] := Except.ok.inj ((congrArg Prod.fst hvoices).symm.trans hstops)
  obtain rfl : 11 = stop := Option.some.inj hmax
  exact ⟨by decide, piece, hcanon, after, hstop, hvoices⟩

end Ensemble
end Polyphony
