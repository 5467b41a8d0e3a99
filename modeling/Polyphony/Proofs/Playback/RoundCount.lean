/-
# How many rounds a loop has

A loop counts its rounds and reports them at its end.  `Rounds` tells a loop by its rounds: its
first argument is how many of them were counted, which are those that ended after they began.
What a loop reports is that count (`loop_eq_ok_iff`), and for a body of `L` ticks it is
`⌈cap / L⌉`, or none if the body takes no ticks (`Rounds.count_eq`).

A loop that goes through has its ticks before the last one, which is the largest 32-bit number,
and so has a body of a single tick as many rounds as that.  The report shows 32 bits with a sign:

| ticks of the body | counted rounds | shown as they are |
| --- | --- | --- |
| `0` | none | yes |
| `1` | as many as the cap has ticks | if the cap has less than `2 ^ 31` |
| `2` or more | at most half as many as there are ticks | yes |

So a report is wrong exactly where a single tick fills a cap of `2 ^ 31` ticks or more
(`counted_of_forever`), as half beats do in 32768 minutes of 32768 beats at two ticks in a beat
(`halfBeats_outrun_report`).
-/

import Polyphony.Playback.Recording
import Polyphony.Proofs.Playback.Repetition

namespace Polyphony
namespace Playback

namespace Pass

section

variable (body : Tick → Pass → Except Fault Tick × Pass) (length : Duration) (cap : Nat)
  (start : Tick)

/-- A loop that goes through from a cursor on after so many counted rounds. -/
inductive Rounds : Nat → Tick → Pass → Tick → Pass → Prop where
  /-- The cap is filled. -/
  | filled {cursor : Tick} {pass : Pass} (hcap : ¬ cursor.toNat - start.toNat < cap) :
    Rounds 0 cursor pass cursor pass
  /-- The body takes no ticks; this is told, and not counted. -/
  | stayed {cursor stop : Tick} {pass after : Pass} (hcap : cursor.toNat - start.toNat < cap)
    (hbody : body cursor pass = (.ok stop, after)) (hstop : ¬ cursor < stop) :
    Rounds 0 cursor pass cursor (after.tell (.bodyTooShort length))
  /-- The body takes ticks, and the loop goes on where it ends. -/
  | counted {count : Nat} {cursor stop last : Tick} {pass pass' after : Pass}
    (hcap : cursor.toNat - start.toNat < cap) (hbody : body cursor pass = (.ok stop, pass'))
    (hstop : cursor < stop) (hrest : Rounds count stop pass' last after) :
    Rounds (count + 1) cursor pass last after

end

variable {body : Tick → Pass → Except Fault Tick × Pass} {length : Duration} {cap : Nat}
  {start : Tick}

/-- A loop that goes through reports as many rounds as it has counted. -/
theorem loop_eq_ok_iff {cursor stop : Tick} {rounds : Nat} {pass after : Pass} :
    loop body length cap start cursor rounds pass = (.ok stop, after) ↔
      ∃ count reached, Rounds body length cap start count cursor pass stop reached ∧
        after = reached.trace (.loopPlayed start (rounds + count) (stop.toNat - start.toNat)) := by
  constructor
  · intro h
    fun_induction loop body length cap start cursor rounds pass with
    | case1 => cases h
    | case2 cursor rounds pass hcap middle pass' hbody hlt ih =>
      obtain ⟨count, reached, hrounds, rfl⟩ := ih h
      refine ⟨count + 1, reached, .counted hcap hbody hlt hrounds, ?_⟩
      rw [Nat.add_assoc, Nat.add_comm 1]
    | case3 cursor rounds pass hcap middle pass' hbody hlt =>
      cases h
      exact ⟨0, _, .stayed hcap hbody hlt, rfl⟩
    | case4 cursor rounds pass hcap =>
      cases h
      exact ⟨0, pass, .filled hcap, rfl⟩
  · rintro ⟨count, reached, hrounds, rfl⟩
    induction hrounds generalizing rounds with
    | filled hcap => rw [loop, if_neg hcap, Nat.add_zero]
    | stayed hcap hbody hstop =>
      rw [loop, if_pos hcap]
      simp only [hbody, if_neg hstop, Nat.add_zero]
    | counted hcap hbody hstop hrest ih =>
      rw [loop, if_pos hcap]
      simp only [hbody, if_pos hstop]
      rw [ih, Nat.add_assoc, Nat.add_comm 1]

/-- Rounds of one length each. -/
theorem Rounds.toNat_stop {config : Config} {ticks count : Nat} {cursor stop : Tick}
    {pass after : Pass}
    (hbody : ∀ (cursor stop : Tick) (pass after : Pass), pass.config = config →
      body cursor pass = (.ok stop, after) →
        after.config = config ∧ stop.toNat = cursor.toNat + ticks)
    (hconfig : pass.config = config)
    (h : Rounds body length cap start count cursor pass stop after) :
    stop.toNat = cursor.toNat + count * ticks ∧ (ticks = 0 → count = 0) := by
  induction h with
  | filled => simp
  | stayed => simp
  | counted hcap hplay hstop hrest ih =>
    obtain ⟨hconfig', hend⟩ := hbody _ _ _ _ hconfig hplay
    obtain ⟨hlast, -⟩ := ih hconfig'
    rw [UInt32.lt_iff_toNat_lt] at hstop
    rw [Nat.succ_mul]
    omega

/-- **The number of rounds.**  A loop over a piece has as many rounds as fill the cap, and none
that is counted if the piece takes no ticks. -/
theorem Rounds.count_eq {pass after : Pass} {piece : Piece} {start stop : Tick} {count : Nat}
    (hloop : (pass.play (.forever piece) start).1 = .ok stop)
    (hzero : piece.duration.isZero = false)
    (h : Rounds (fun cursor pass => pass.play piece cursor) length pass.config.maxTicks start count
      start pass stop after) :
    stop.toNat = start.toNat + count * piece.ticks pass.config.pace ∧
      count = (pass.config.maxTicks + piece.ticks pass.config.pace - 1) /
        piece.ticks pass.config.pace := by
  have hbody : ∀ (cursor stop : Tick) (reached after : Pass), reached.config = pass.config →
      reached.play piece cursor = (.ok stop, after) →
        after.config = pass.config ∧ stop.toNat = cursor.toNat + piece.ticks pass.config.pace := by
    intro cursor stop reached after hconfig hplay
    have hfollows := follows_play_of_config hconfig piece cursor
    rw [hplay] at hfollows
    exact ⟨hfollows.config_eq, hfollows.stop_eq stop rfl⟩
  obtain ⟨hstop, hnone⟩ := h.toNat_stop hbody rfl
  refine ⟨hstop, ?_⟩
  rcases Nat.eq_zero_or_pos (piece.ticks pass.config.pace) with hticks | hpos
  · rw [hnone hticks, hticks, Nat.div_zero]
  · have hend := toNat_of_play (Prod.ext hloop rfl : pass.play (.forever piece) start = (_, _))
    rw [hstop, Piece.ticks_forever, hzero, if_neg Bool.false_ne_true] at hend
    rw [Nat.eq_of_mul_eq_mul_right hpos (Nat.add_left_cancel hend)]
    exact if_neg hpos.ne'

/-- As many rounds as end by the last tick are less than `2 ^ 31`, unless each takes one tick. -/
theorem count_le_iff {cap ticks count last : Nat} (hlast : last ≤ lastTick)
    (hstop : count * ticks ≤ last) (hcount : count = (cap + ticks - 1) / ticks) :
    count ≤ 0x7FFFFFFF ↔ ¬ (ticks = 1 ∧ 0x80000000 ≤ cap) := by
  unfold lastTick at hlast
  rcases Nat.lt_trichotomy ticks 1 with hzero | rfl | htwo
  · obtain rfl : ticks = 0 := by omega
    rw [Nat.div_zero] at hcount
    omega
  · rw [Nat.div_one] at hcount
    omega
  · have hdouble : count * 2 ≤ count * ticks := Nat.mul_le_mul_left count htwo
    omega

end Pass

namespace Notice

/-- The report of a loop with all of its rounds. -/
def fullReport (start : Tick) (count ticks : Nat) : Text :=
  Text.utf8 "[Compiler] forever at tick " ++ Decimal.digits start.toNat ++ Text.utf8 ": " ++
    Decimal.digits count ++ Text.utf8 " repetitions, " ++ Decimal.digits ticks ++
    Text.utf8 " ticks\n"

/-- A loop reports all of its rounds exactly if there are less than `2 ^ 31`. -/
theorem line_loopPlayed_eq_iff {start : Tick} {count ticks : Nat} :
    (loopPlayed start count ticks).line = fullReport start count ticks ↔ count ≤ 0x7FFFFFFF := by
  rw [← shown_eq_iff, ← Decimal.ofInt_eq_digits_iff]
  simp only [line, fullReport, List.append_assoc, List.append_cancel_left_eq,
    List.append_cancel_right_eq]

end Notice

/-- **A loop reports its rounds, if they fit.**  A loop that goes through, from any state and any
tick, does nothing if its body has no length.  Else it has counted `⌈cap / L⌉` rounds for a body
of `L` ticks, and none for one of no ticks, and reports that count.  It is less than `2 ^ 31`, and
shown as it is, unless the body takes a single tick and the cap is `2 ^ 31` or more. -/
theorem Pass.counted_of_forever {pass after : Pass} {body : Piece} {start stop : Tick}
    (h : pass.play (.forever body) start = (.ok stop, after)) :
    (body.duration.isZero = true → stop = start ∧ after = pass) ∧
      (body.duration.isZero = false → ∃ count reached,
        Rounds (fun cursor pass => pass.play body cursor) body.duration pass.config.maxTicks start
          count start pass stop reached ∧
        after = reached.trace (.loopPlayed start count (stop.toNat - start.toNat)) ∧
        stop.toNat - start.toNat = count * body.ticks pass.config.pace ∧
        count = (pass.config.maxTicks + body.ticks pass.config.pace - 1) /
          body.ticks pass.config.pace ∧
        (count ≤ 0x7FFFFFFF ↔
          ¬ (body.ticks pass.config.pace = 1 ∧ 0x80000000 ≤ pass.config.maxTicks)) ∧
        ((Notice.loopPlayed start count (stop.toNat - start.toNat)).line =
            Notice.fullReport start count (stop.toNat - start.toNat) ↔
          ¬ (body.ticks pass.config.pace = 1 ∧ 0x80000000 ≤ pass.config.maxTicks))) := by
  refine ⟨fun hzero => ?_, fun hzero => ?_⟩
  · rw [play_forever_of_isZero hzero] at h
    cases h
    exact ⟨rfl, rfl⟩
  · have hloop := h
    rw [play_forever hzero] at hloop
    obtain ⟨count, reached, hrounds, hafter⟩ := loop_eq_ok_iff.1 hloop
    obtain ⟨hstop, hcount⟩ := hrounds.count_eq (congrArg Prod.fst h) hzero
    have hticks : stop.toNat - start.toNat = count * body.ticks pass.config.pace := by omega
    have hfits := count_le_iff (Nat.le_of_lt_succ stop.toNat_lt)
      (show count * body.ticks pass.config.pace ≤ stop.toNat by omega) hcount
    rw [Nat.zero_add] at hafter
    exact ⟨count, reached, hrounds, hafter, hticks, hcount, hfits,
      Notice.line_loopPlayed_eq_iff.trans hfits⟩

/-- The bass line fills six ticks in two rounds, and says so. -/
theorem counted_of_bassLine :
    ∃ after, (Pass.new sixTicks).play (.forever bassLine) 1 = (.ok 9, after) ∧
      bassLine.duration.isZero = false ∧ ∃ (count : Nat) (reached : Pass),
        after = reached.trace (.loopPlayed 1 count 8) ∧ count = 2 ∧
          (Notice.loopPlayed 1 count 8).line = Notice.fullReport 1 count 8 := by
  have hstop : ((Pass.new sixTicks).play (.forever bassLine) 1).1 = .ok 9 := by decide +kernel
  have hzero : bassLine.duration.isZero = false := by decide
  obtain ⟨count, reached, -, hafter, -, hcount, -, hline⟩ :=
    (Pass.counted_of_forever (Prod.ext hstop rfl)).2 hzero
  exact ⟨_, Prod.ext hstop rfl, hzero, count, reached, hafter, hcount.trans (by decide),
    hline.2 (by decide)⟩

/-- Thousands of minutes at a fast beat, in the coarsest ticks that halve a beat. -/
def longSession : Config :=
  { ticksPerBeat := 2, beatsPerMinute := 32768, maxMinutes := 32768, verbose := true }

/-- A rest of half a beat. -/
def halfBeat : Piece := .rest ((Duration.ofFraction? 1 2).get rfl)

/-- Half beats fill the session in `2 ^ 31` rounds, which are reported as a negative number. -/
theorem halfBeats_outrun_report :
    longSession.problem? = none ∧
      (∃ after, (Pass.new longSession).play (.forever halfBeat) 0 = (.ok 0x80000000, after) ∧
        ∃ count reached, Pass.Rounds (fun cursor pass => pass.play halfBeat cursor)
            halfBeat.duration longSession.maxTicks 0 count 0 (Pass.new longSession) 0x80000000
            reached ∧
          0x7FFFFFFF < count) ∧
      (record (.forever halfBeat) longSession).notices = [.loopPlayed 0 0x80000000 0x80000000] ∧
      (Notice.loopPlayed 0 0x80000000 0x80000000).line =
        Text.utf8 "[Compiler] forever at tick 0: -2147483648 repetitions, 2147483648 ticks\n" := by
  have hstop : ((Pass.new longSession).play (.forever halfBeat) 0).1 = .ok 0x80000000 := by
    decide +kernel
  have hzero : halfBeat.duration.isZero = false := by decide
  refine ⟨by decide, ⟨_, Prod.ext hstop rfl, ?_⟩, by decide +kernel, by decide +kernel⟩
  have hloop := hstop
  rw [Pass.play_forever hzero] at hloop
  obtain ⟨count, reached, hrounds, -⟩ := Pass.loop_eq_ok_iff.1 (Prod.ext hloop rfl)
  obtain ⟨-, hcount⟩ := hrounds.count_eq hstop hzero
  refine ⟨count, reached, hrounds, ?_⟩
  rw [hcount]
  decide +kernel

end Playback
end Polyphony
