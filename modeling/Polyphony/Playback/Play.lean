/-
# Playing a piece

`Pass.play` turns a piece into events from a tick on and says at which tick the piece
ends.

| piece | plays | ends |
| --- | --- | --- |
| note | its key, pressed at the start and released at the end | after its length |
| rest | nothing | after its length |
| `concat a b` | `a`, and `b` from the end of `a` on | with `b` |
| `together a b` | `a` and then `b`, both from the start on | with the later one |
| `forever a` | `a` again and again, each time from its last end on | see `loop` |

Each length is cut down to whole ticks on its own.  The first thing that cannot be
played ends it all.

A loop of a single rest can have as many rounds as there are ticks and leaves nothing in
any of them, so those that fit are counted and not played (`silentRounds`).  It is the same
loop (`play_forever_eq`).
-/

import Polyphony.Piece.Basic
import Polyphony.Playback.Clock
import Polyphony.Playback.Pass

namespace Polyphony
namespace Playback

/-- The key of a pitch.  A pitch that has none is named by its fault, so a machine that refuses
it has its name to work out. -/
def keyOf (pitch : Pitch) : Except Fault UInt8 :=
  match Pitch.numbered pitch.semitones with
  | .error cause => .error (.mishap cause)
  | .ok number =>
    if 0 ≤ number ∧ number ≤ 127 then .ok number.toNat.toUInt8
    else
      match Pitch.spelled pitch.semitones with
      | .error cause => .error (.mishap cause)
      | .ok name => .error (.noKey name number)

/-- What a pitch is refused with, if it has no key. -/
def keyFault (pitch : Pitch) : Fault :=
  if pitch.InWords then .noKey pitch.text pitch.keyNumber else .mishap .wrapped

/-- A machine finds the keys that there are. -/
theorem keyOf_eq (pitch : Pitch) : keyOf pitch =
    match pitch.key? with
    | some key => .ok key
    | none => .error (keyFault pitch) := by
  by_cases hfits : Pitch.Fits pitch.keyNumber
  · have hnumber : Pitch.numbered pitch.semitones = .ok pitch.keyNumber :=
      Pitch.checked_of_fits hfits
    rw [keyOf, hnumber, Pitch.key?]
    dsimp only
    by_cases hkey : 0 ≤ pitch.keyNumber ∧ pitch.keyNumber ≤ 127
    · rw [if_pos hkey, if_pos hkey]
    · rw [if_neg hkey, if_neg hkey, keyFault]
      by_cases hwords : pitch.InWords
      · rw [if_pos hwords, Pitch.spelled_of_spellable hwords.1]
      · rw [if_neg hwords, Pitch.spelled_of_low (Pitch.lt_of_not_inWords hfits hwords)]
  · have hnumber : Pitch.numbered pitch.semitones = .error .wrapped :=
      Pitch.checked_of_not_fits hfits
    have hwords : ¬ pitch.InWords := fun h => hfits h.2
    have hkey : pitch.key? = none := by
      unfold Pitch.Fits at hfits
      rw [Pitch.key?_eq_none_iff]
      omega
    rw [keyOf, hnumber, hkey, keyFault, if_neg hwords]

/-- Key and end of a note.  The key is looked at first. -/
def keyAndEnd (config : Config) (start : Tick) (length : Duration) (pitch : Pitch) :
    Except Fault (UInt8 × Tick) :=
  match keyOf pitch with
  | .error fault => .error fault
  | .ok key =>
    match endOf config start length with
    | .error fault => .error fault
    | .ok stop => .ok (key, stop)

namespace Pass

/-- Plays a note. -/
def playNote (length : Duration) (pitch : Pitch) (instrument : Instrument) (start : Tick)
    (pass : Pass) : Except Fault Tick × Pass :=
  match keyAndEnd pass.config start length pitch with
  | .error fault => (.error fault, pass.fail fault)
  | .ok (key, stop) =>
    match pass.channelFor instrument with
    | (.error fault, pass) => (.error fault, pass)
    | (.ok channel, pass) =>
      (.ok stop, (pass.emit ⟨.noteOn, channel, key, start⟩).emit ⟨.noteOff, channel, key, stop⟩)

/-- Plays a rest. -/
def playRest (length : Duration) (start : Tick) (pass : Pass) : Except Fault Tick × Pass :=
  match endOf pass.config start length with
  | .error fault => (.error fault, pass.fail fault)
  | .ok stop => (.ok stop, pass)

/-- Plays `body`, which lasts `length`, from `cursor` on and again from each end of it,
as long as less than `cap` ticks have gone by since `start`.  A body that ends where it
starts is not played again. -/
def loop (body : Tick → Pass → Except Fault Tick × Pass) (length : Duration) (cap : Nat)
    (start cursor : Tick) (rounds : Nat) (pass : Pass) : Except Fault Tick × Pass :=
  if cursor.toNat - start.toNat < cap then
    match body cursor pass with
    | (.error fault, pass) => (.error fault, pass)
    | (.ok stop, pass) =>
      if cursor < stop then loop body length cap start stop (rounds + 1) pass
      else
        (.ok cursor, (pass.tell (.bodyTooShort length)).trace
          (.loopPlayed start rounds (cursor.toNat - start.toNat)))
  else (.ok cursor, pass.trace (.loopPlayed start rounds (cursor.toNat - start.toNat)))
termination_by UInt32.size - cursor.toNat
decreasing_by
  rename_i h
  have := stop.toNat_lt_size
  rw [UInt32.lt_iff_toNat_lt] at h
  omega

/-- Ticks of a body that leaves nothing when it is played: of a rest, and none of all else. -/
def silentTicks (config : Config) : Piece → Nat
  | .rest length => length.toTicks config.ticksPerBeat.toNat
  | _ => 0

/-- Rounds of such a body from a tick on, as many as the cap asks for and as fit before the
last tick. -/
def silentRounds (config : Config) (body : Piece) (start : Tick) : Nat :=
  let ticks := silentTicks config body
  min ((config.maxTicks + ticks - 1) / ticks) ((lastTick - start.toNat) / ticks)

/-- The tick after some of these rounds. -/
def afterSilence (config : Config) (body : Piece) (start : Tick) (rounds : Nat) : Tick :=
  start + (rounds * silentTicks config body).toUInt32

/-- Plays a piece from a tick on and tells where it ends. -/
def play : Piece → Tick → Pass → Except Fault Tick × Pass
  | .note length pitch instrument, start, pass => pass.playNote length pitch instrument start
  | .rest length, start, pass => pass.playRest length start
  | .concat first second, start, pass =>
    match play first start pass with
    | (.error fault, pass) => (.error fault, pass)
    | (.ok middle, pass) => play second middle pass
  | .together top bottom, start, pass =>
    match play top start pass with
    | (.error fault, pass) => (.error fault, pass)
    | (.ok topEnd, pass) =>
      match play bottom start pass with
      | (.error fault, pass) => (.error fault, pass)
      | (.ok bottomEnd, pass) => (.ok (max topEnd bottomEnd), pass)
  | .forever body, start, pass =>
    if body.duration.isZero then (.ok start, pass)
    else
      let rounds := silentRounds pass.config body start
      loop (fun cursor pass => play body cursor pass) body.duration pass.config.maxTicks start
        (afterSilence pass.config body start rounds) rounds pass

section

variable {pass : Pass} {body : Piece} {start : Tick} {rounds : Nat}

theorem silentRounds_bounds {config : Config} (h : rounds < silentRounds config body start) :
    0 < silentTicks config body ∧ rounds * silentTicks config body < config.maxTicks ∧
      start.toNat + (rounds + 1) * silentTicks config body ≤ lastTick := by
  have hstart := start.toNat_lt
  rw [silentRounds, Nat.lt_min] at h
  rcases Nat.eq_zero_or_pos (silentTicks config body) with hzero | hpos
  · rw [hzero, Nat.div_zero] at h
    exact absurd h.1 (Nat.not_lt_zero rounds)
  · have hcap := (Nat.le_div_iff_mul_le hpos).1 h.1
    have hlast := (Nat.le_div_iff_mul_le hpos).1 h.2
    rw [Nat.succ_mul] at hcap hlast ⊢
    unfold lastTick at *
    omega

theorem toNat_afterSilence {config : Config}
    (h : start.toNat + rounds * silentTicks config body ≤ lastTick) :
    (afterSilence config body start rounds).toNat =
      start.toNat + rounds * silentTicks config body :=
  tickAfter?_eq_some_iff.1 (if_pos h)

/-- A round of a rest leaves nothing. -/
theorem play_afterSilence (h : rounds < silentRounds pass.config body start) :
    play body (afterSilence pass.config body start rounds) pass =
      (.ok (afterSilence pass.config body start (rounds + 1)), pass) := by
  obtain ⟨hpos, -, hlast⟩ := silentRounds_bounds h
  have hlater := toNat_afterSilence hlast
  rw [Nat.succ_mul] at hlast
  have hnow := toNat_afterSilence (show start.toNat + rounds * silentTicks pass.config body ≤
    lastTick by omega)
  cases body with
  | rest length =>
    have hexact : length.isOverflow = false := by
      cases length with
      | overflow =>
        exfalso
        simp only [silentTicks, Duration.toTicks, maxTerm, lastTick] at hlast
        omega
      | finite | infinite => rfl
    have hstop := tickAfter?_eq_some_iff.2
      (show (afterSilence pass.config (.rest length) start (rounds + 1)).toNat =
          (afterSilence pass.config (.rest length) start rounds).toNat +
            length.toTicks pass.config.ticksPerBeat.toNat by
        rw [hlater, hnow, Nat.succ_mul, Nat.add_assoc]
        rfl)
    rw [play, playRest, endOf, hexact, if_neg Bool.false_ne_true, hstop]
  | note | concat | together | forever => exact absurd hpos (Nat.lt_irrefl 0)

/-- Counted rounds are rounds that were played. -/
theorem loop_afterSilence (length : Duration) (h : rounds ≤ silentRounds pass.config body start) :
    loop (fun cursor pass => play body cursor pass) length pass.config.maxTicks start
        (afterSilence pass.config body start rounds) rounds pass =
      loop (fun cursor pass => play body cursor pass) length pass.config.maxTicks start start 0
        pass := by
  induction rounds with
  | zero => simp [afterSilence]
  | succ rounds ih =>
    obtain ⟨hpos, hcap, hlast⟩ := silentRounds_bounds h
    have hlater := toNat_afterSilence hlast
    rw [Nat.succ_mul] at hlast hlater
    have hnow := toNat_afterSilence (show start.toNat + rounds * silentTicks pass.config body ≤
      lastTick by omega)
    rw [← ih (Nat.le_of_lt h), eq_comm, loop, if_pos (by omega), play_afterSilence h]
    exact if_pos (UInt32.lt_iff_toNat_lt.2 (by omega))

/-- A loop is played round by round. -/
theorem play_forever_eq (body : Piece) (start : Tick) (pass : Pass) :
    play (.forever body) start pass =
      if body.duration.isZero then (.ok start, pass)
      else loop (fun cursor pass => play body cursor pass) body.duration pass.config.maxTicks
        start start 0 pass := by
  rw [play, loop_afterSilence _ (Nat.le_refl _)]

end

end Pass

end Playback
end Polyphony
