/-
# Loops are repetitions

A piece without end is played as a bounded repetition of its body (`repetition_of_forever`).
With `cap` the ticks that a loop has to fill, playing the body once tells which:

| the body | the loop |
| --- | --- |
| has no length | plays nothing |
| stops | stops where the body does |
| goes through and takes no ticks | plays the body once |
| goes through and takes `L` ticks | plays what `⌈cap / L⌉` repetitions play |

In the last case loop and repetitions agree also where a later round passes the last tick:
they have the same cues, so they stop at the same one and with the same fault.

`countedLoop` is the loop as a machine counts it, with the ticks since the start in a
32-bit word of their own.  It has no outcome where a sum or a difference of ticks would wrap
around, and `countedLoop_eq` says that it always has the outcome of the loop: each round
starts `elapsed` ticks after the loop did, and a body never ends before it starts.
-/

import Polyphony.Proofs.Ensemble.Chain
import Polyphony.Proofs.Playback.Emission

namespace Polyphony
namespace Playback

open Ensemble

/-- The ticks from `start` to `stop`, if `stop` is not the earlier one. -/
def ticksBetween? (start stop : Tick) : Option Tick :=
  if start ≤ stop then some (stop - start) else none

theorem ticksBetween?_of_le {start stop : Tick} (h : start ≤ stop) :
    ∃ ticks, ticksBetween? start stop = some ticks ∧
      ticks.toNat = stop.toNat - start.toNat := by
  refine ⟨stop - start, if_pos h, ?_⟩
  exact UInt32.toNat_sub_of_le _ _ h

namespace Pass

/-- Plays `body` as `loop` does and counts the ticks that have gone by since `start` in a
word.  There is no outcome if the start of a round, its length or the count is only
reached by wrapping around. -/
def countedLoop (body : Tick → Pass → Except Fault Tick × Pass) (length : Duration) (cap : Nat)
    (start elapsed : Tick) (rounds : Nat) (pass : Pass) : Option (Except Fault Tick × Pass) :=
  match tickAfter? start elapsed.toNat with
  | none => none
  | some cursor =>
    if elapsed.toNat < cap then
      match body cursor pass with
      | (.error fault, pass) => some (.error fault, pass)
      | (.ok stop, pass) =>
        match ticksBetween? cursor stop with
        | none => none
        | some advanced =>
          if _h₀ : advanced = 0 then
            some (.ok cursor, (pass.tell (.bodyTooShort length)).trace
              (.loopPlayed start rounds elapsed.toNat))
          else
            match _h : tickAfter? elapsed advanced.toNat with
            | none => none
            | some later => countedLoop body length cap start later (rounds + 1) pass
    else some (.ok cursor, pass.trace (.loopPlayed start rounds elapsed.toNat))
termination_by UInt32.size - elapsed.toNat
decreasing_by
  have hlater := tickAfter?_eq_some_iff.1 _h
  have hsize := later.toNat_lt_size
  have hpos : advanced.toNat ≠ 0 := fun h => _h₀ (UInt32.toNat_inj.1 h)
  omega

variable {body : Tick → Pass → Except Fault Tick × Pass}

/-- **Nothing wraps around.**  Where a body never ends before it starts, the counted loop
has an outcome, which is that of the loop. -/
theorem countedLoop_eq (hbody : ∀ cursor pass stop, (body cursor pass).1 = .ok stop →
      cursor ≤ stop) (length : Duration) (cap : Nat) {start elapsed cursor : Tick}
    (hcursor : cursor.toNat = start.toNat + elapsed.toNat) (rounds : Nat) (pass : Pass) :
    countedLoop body length cap start elapsed rounds pass =
      some (loop body length cap start cursor rounds pass) := by
  have hstart := tickAfter?_eq_some_iff.2 hcursor
  fun_induction loop body length cap start cursor rounds pass generalizing elapsed with
  | case1 cursor rounds pass hcap fault pass' hplay =>
    rw [countedLoop, hstart]
    simp only [if_pos (show elapsed.toNat < cap by omega), hplay]
  | case2 cursor rounds pass hcap stop pass' hplay hlt ih =>
    rw [UInt32.lt_iff_toNat_lt] at hlt
    have hle := hbody cursor pass stop (congrArg Prod.fst hplay)
    obtain ⟨advanced, hadvanced, htoNat⟩ := ticksBetween?_of_le hle
    have hpos : advanced ≠ 0 := by
      rintro rfl
      rw [UInt32.toNat_zero] at htoNat
      omega
    -- The count stays what lies between the start of the loop and that of the round.
    obtain ⟨later, hlater, hcount⟩ := ticksBetween?_of_le
      (UInt32.le_iff_toNat_le.2 (show start.toNat ≤ stop.toNat by omega))
    have hnext : tickAfter? elapsed advanced.toNat = some later :=
      tickAfter?_eq_some_iff.2 (by omega)
    have hstop : stop.toNat = start.toNat + later.toNat := by omega
    rw [countedLoop, hstart]
    simp only [if_pos (show elapsed.toNat < cap by omega), hplay, hadvanced, dif_neg hpos]
    split
    · next h => rw [hnext] at h; cases h
    · next h =>
      obtain rfl := Option.some.inj (hnext.symm.trans h)
      exact ih hstop (tickAfter?_eq_some_iff.2 hstop)
  | case3 cursor rounds pass hcap stop pass' hplay hlt =>
    have hle := hbody cursor pass stop (congrArg Prod.fst hplay)
    obtain rfl : cursor = stop := UInt32.le_antisymm hle (UInt32.not_lt.1 hlt)
    have hsame : ticksBetween? cursor cursor = some 0 := by
      rw [ticksBetween?, if_pos hle, UInt32.sub_self]
    rw [countedLoop, hstart]
    simp only [if_pos (show elapsed.toNat < cap by omega), hplay, hsame, dif_pos]
    rw [hcursor, Nat.add_sub_cancel_left]
  | case4 cursor rounds pass hcap =>
    rw [countedLoop, hstart]
    simp only [if_neg (show ¬ elapsed.toNat < cap by omega)]
    rw [hcursor, Nat.add_sub_cancel_left]

/-- A piece never ends before it starts. -/
theorem le_of_play (piece : Piece) (cursor : Tick) (pass : Pass) (stop : Tick)
    (h : (pass.play piece cursor).1 = .ok stop) : cursor ≤ stop := by
  have hstop := toNat_of_play (Prod.ext h rfl : pass.play piece cursor = (.ok stop, _))
  exact UInt32.le_iff_toNat_le.2 (by omega)

/-- What playing `forever body` from a tick on comes to, told by playing `body` once. -/
structure BoundedRepetition (pass : Pass) (body : Piece) (start : Tick) : Prop where
  /-- Where the body stops, the loop stops and leaves what the body left. -/
  stopped : ∀ fault after, pass.play body start = (.error fault, after) →
    pass.play (.forever body) start = (.error fault, after)
  /-- A body that takes no ticks is played once. -/
  once : ∀ after, pass.play body start = (.ok start, after) →
    (pass.play (.forever body) start).1 = .ok start ∧
      (pass.play (.forever body) start).2.tape = after.tape
  /-- A body that takes ticks is repeated until the cap is filled, with the same outcome
  as so many repetitions.  If they go through, they fill the cap with the last round. -/
  repeated : ∀ stop after ticks count, pass.play body start = (.ok stop, after) →
    stop.toNat = start.toNat + ticks → 0 < ticks →
    count = (pass.config.maxTicks + ticks - 1) / ticks →
    ∃ several, repetitions body count = .ok several ∧
      (pass.play (.forever body) start).1 = (pass.play several start).1 ∧
      (pass.play (.forever body) start).2.tape = (pass.play several start).2.tape ∧
      ∀ last, (pass.play (.forever body) start).1 = .ok last →
        last.toNat = start.toNat + count * ticks ∧ pass.config.maxTicks ≤ count * ticks ∧
          count * ticks < pass.config.maxTicks + ticks
  /-- Counted in words, no sum and no difference of ticks wraps around. -/
  counted : countedLoop (fun cursor pass => pass.play body cursor) body.duration
    pass.config.maxTicks start 0 0 pass = some (pass.play (.forever body) start)

section

variable {pass after : Pass} {body : Piece} {start stop : Tick}

theorem play_forever_of_isZero (h : body.duration.isZero = true) :
    pass.play (.forever body) start = (.ok start, pass) := by
  rw [play_forever_eq, if_pos h]

theorem play_forever (h : body.duration.isZero = false) : pass.play (.forever body) start =
    loop (fun cursor pass => pass.play body cursor) body.duration pass.config.maxTicks start
      start 0 pass := by
  rw [play_forever_eq, if_neg (by rw [h]; exact Bool.false_ne_true)]

theorem play_forever_of_error (hcap : 0 < pass.config.maxTicks)
    (hzero : body.duration.isZero = false) {fault : Fault}
    (h : pass.play body start = (.error fault, after)) :
    pass.play (.forever body) start = (.error fault, after) := by
  rw [play_forever hzero, loop, Nat.sub_self, if_pos hcap]
  simp only [h]

theorem play_forever_of_stays (hcap : 0 < pass.config.maxTicks)
    (hzero : body.duration.isZero = false) (h : pass.play body start = (.ok start, after)) :
    (pass.play (.forever body) start).1 = .ok start ∧
      (pass.play (.forever body) start).2.tape = after.tape := by
  rw [play_forever hzero, loop, Nat.sub_self, if_pos hcap]
  simp only [h, if_neg (UInt32.lt_irrefl start)]
  exact ⟨trivial, tape_trace ..⟩

/-- A loop has the ticks and the cues of the repetitions that fill the cap. -/
theorem play_forever_agree (hzero : body.duration.isZero = false) (start : Tick) {count : Nat}
    (hcount : pass.config.pace.rounds (body.ticks pass.config.pace) = count + 1) :
    (pass.play (.forever body) start).1 =
        (pass.play (chain .concat .identity count body) start).1 ∧
      (pass.play (.forever body) start).2.tape =
        (pass.play (chain .concat .identity count body) start).2.tape := by
  have hnot : ¬ body.duration.isZero = true := by rw [hzero]; exact Bool.false_ne_true
  refine play_agree ?_ ?_
  · rw [Piece.ticks_forever, if_neg hnot, hcount, ticks_chain_concat]
  · rw [Piece.cues, if_neg hnot, hcount, cues_chain_concat]

end

/-- **A loop is a bounded repetition of its body**, from any state of a pass and any tick.
A body without length is not played at all. -/
theorem repetition_of_forever {pass : Pass} (hcap : 0 < pass.config.maxTicks) (body : Piece)
    (start : Tick) :
    (body.duration.isZero = true → pass.play (.forever body) start = (.ok start, pass)) ∧
      (body.duration.isZero = false → BoundedRepetition pass body start) := by
  refine ⟨play_forever_of_isZero, fun hzero => ?_⟩
  refine
    { stopped := fun _ _ => play_forever_of_error hcap hzero
      once := fun _ => play_forever_of_stays hcap hzero
      repeated := ?_
      counted := ?_ }
  · rintro stop after ticks count h hstop hpos rfl
    obtain rfl : ticks = body.ticks pass.config.pace := by
      have := toNat_of_play h
      omega
    have hrounds : pass.config.pace.rounds (body.ticks pass.config.pace) =
        (pass.config.maxTicks + body.ticks pass.config.pace - 1) /
          body.ticks pass.config.pace := if_neg (by omega)
    have hbounds := pass.config.pace.rounds_bounds hpos
    have hsome := pass.config.pace.rounds_pos hcap (body.ticks pass.config.pace)
    rw [← hrounds]
    obtain ⟨more, hmore⟩ := Nat.exists_eq_add_of_lt hsome
    rw [Nat.zero_add] at hmore
    obtain ⟨hout, htape⟩ := play_forever_agree hzero start hmore
    refine ⟨_, repetitions_eq_ok body hsome, ?_, ?_, fun last hlast => ⟨?_, hbounds⟩⟩
    · rw [hmore]; exact hout
    · rw [hmore]; exact htape
    · have hloop : pass.play (.forever body) start = (.ok last, _) := Prod.ext hlast rfl
      have hend := toNat_of_play hloop
      rw [hend, Piece.ticks_forever, hzero]
      rfl
  · rw [play_forever hzero]
    exact countedLoop_eq (fun cursor pass => le_of_play body cursor pass) body.duration
      pass.config.maxTicks rfl 0 pass

end Pass

/-- Two notes that take four ticks under `sixTicks`. -/
def bassLine : Piece :=
  .concat (.note (.ofBeats 1) ⟨-12⟩ .cello) (.note (.ofBeats 1) ⟨0⟩ .violin)

/-- Eight ticks before the end of time, the loop plays its first round and half of the
second one, just as two repetitions do. -/
theorem repetition_of_bassLine :
    0 < (Pass.new sixTicks).config.maxTicks ∧
      Pass.BoundedRepetition (Pass.new sixTicks) bassLine 0xFFFFFFF8 ∧
      ((Pass.new sixTicks).play bassLine 0xFFFFFFF8).1 = .ok 0xFFFFFFFC ∧
      ((Pass.new sixTicks).play (.forever bassLine) 0xFFFFFFF8).1 =
        .error (.pastLastTick (.ofBeats 1) 0xFFFFFFFE) ∧
      ((Pass.new sixTicks).play (.forever bassLine) 0xFFFFFFF8).2.tape =
        ((Pass.new sixTicks).play (.concat bassLine bassLine) 0xFFFFFFF8).2.tape := by
  have hcap : 0 < (Pass.new sixTicks).config.maxTicks := by decide
  have hloop := (Pass.repetition_of_forever hcap bassLine 0xFFFFFFF8).2 (by decide)
  have hbody : ((Pass.new sixTicks).play bassLine 0xFFFFFFF8).1 = .ok 0xFFFFFFFC := by
    decide +kernel
  obtain ⟨several, hseveral, -, htape, -⟩ :=
    hloop.repeated _ _ 4 2 (Prod.ext hbody rfl) rfl (by decide) (by decide)
  obtain rfl : Piece.concat bassLine bassLine = several := Except.ok.inj hseveral
  exact ⟨hcap, hloop, hbody, by decide +kernel, htape⟩

end Playback
end Polyphony
