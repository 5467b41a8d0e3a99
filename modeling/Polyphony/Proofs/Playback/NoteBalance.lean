/-
# Every key that is pressed is released

On a pair of channel and key, a device that plays a schedule has never released more
often than it has pressed, and at the end it has released as often
(`balance_of_record`).  So no key is released that is not held, and none stays down,
however voices overlap on a key.

A press and its release are emitted side by side, but the schedule takes them apart and
puts what other voices do between them.  What a beginning of the schedule holds are the
events of a cut (`Schedule.exists_cut_of_prefix`): everything up to a tick `T` from the
first part of what was emitted, and everything before `T` from the rest.  A cut that holds
a release holds its press too, for the press was emitted earlier and is not later.  So
each pair is `Covered` by itself, and what is covered can be joined (`Covered.append`).
-/

import Polyphony.Proofs.Playback.Playability
import Polyphony.Proofs.Schedule.TickOrder

namespace Polyphony

namespace Event

/-- Does an event press this key on this channel? -/
def presses (channel : Channel) (key : UInt8) (e : Event) : Bool :=
  e.kind == .noteOn && e.channel == channel && e.data == key

/-- Does an event release this key on this channel? -/
def releases (channel : Channel) (key : UInt8) (e : Event) : Bool :=
  e.kind == .noteOff && e.channel == channel && e.data == key

end Event

namespace Playback

open Schedule

/-- In every cut through these events there are as many presses as releases, or more. -/
def Covered (channel : Channel) (key : UInt8) (events : List Event) : Prop :=
  ∀ T first rest, events = first ++ rest →
    (cut T first rest).countP (Event.releases channel key) ≤
      (cut T first rest).countP (Event.presses channel key)

namespace Covered

variable {channel : Channel} {key : UInt8} {xs ys : List Event}

/-- A cut through two parts cuts one of them and leaves the other whole. -/
theorem append (hx : Covered channel key xs) (hy : Covered channel key ys) :
    Covered channel key (xs ++ ys) := by
  intro T first rest h
  rcases List.append_eq_append_iff.1 h with ⟨as, rfl, rfl⟩ | ⟨bs, rfl, rfl⟩
  · have h₁ := hx T xs [] (List.append_nil xs).symm
    have h₂ := hy T as rest rfl
    rw [cut_append_left, List.countP_append, List.countP_append]
    omega
  · have h₁ := hx T first bs rfl
    have h₂ := hy T [] ys rfl
    rw [cut_append_right, List.countP_append, List.countP_append]
    omega

/-- Where nothing is released, nothing has to be pressed. -/
theorem of_not_releases (h : ∀ e ∈ xs, Event.releases channel key e = false) :
    Covered channel key xs := by
  rintro T first rest rfl
  have hzero : (cut T first rest).countP (Event.releases channel key) = 0 :=
    List.countP_eq_zero.2 fun e he => by simp [h e (mem_of_mem_cut he)]
  rw [hzero]
  exact Nat.zero_le _

/-- A span presses its key no later than it releases it. -/
theorem span {span : Span} (hf : span.Fits) (c : Channel) :
    Covered channel key (span.events c) := by
  intro T first rest h
  have hle : span.start.toUInt32 ≤ span.stop.toUInt32 := by
    rw [UInt32.le_iff_toNat_le, hf.toNat_start, hf.toNat_stop]
    exact hf.start_le
  rcases cut_pair hle T h with h | h | h <;> rw [h]
  · exact Nat.le_refl _
  · simp [Event.releases]
  · simp [List.countP_cons, Event.releases, Event.presses]

/-- What becomes of spans is covered. -/
theorem transcript (channelOf : Instrument → Channel) (known : List Instrument)
    {spans : List Span} (hf : ∀ span ∈ spans, span.Fits) :
    Covered channel key (transcript channelOf known spans) := by
  induction spans generalizing known with
  | nil => exact of_not_releases fun e he => absurd he List.not_mem_nil
  | cons span spans ih =>
    obtain ⟨hspan, hf⟩ := List.forall_mem_cons.1 hf
    rw [Playback.transcript]
    split
    · exact (Covered.span hspan _).append (ih _ hf)
    · rw [← List.singleton_append]
      refine append (of_not_releases fun e he => ?_) ((Covered.span hspan _).append (ih _ hf))
      rw [List.mem_singleton.1 he]
      rfl

end Covered

/-- All in all a transcript presses as often as it releases. -/
theorem countP_transcript (channel : Channel) (key : UInt8) (channelOf : Instrument → Channel)
    (known : List Instrument) (spans : List Span) :
    (transcript channelOf known spans).countP (Event.releases channel key) =
      (transcript channelOf known spans).countP (Event.presses channel key) := by
  induction spans generalizing known with
  | nil => rfl
  | cons span spans ih =>
    have hspan : ∀ c, (span.events c).countP (Event.releases channel key) =
        (span.events c).countP (Event.presses channel key) := by
      intro c
      simp [Span.events, List.countP_cons, Event.releases, Event.presses]
    rw [transcript]
    split
    · rw [List.countP_append, List.countP_append, hspan, ih]
    · rw [List.countP_cons_of_neg (by simp [Event.releases]),
        List.countP_cons_of_neg (by simp [Event.presses]), List.countP_append,
        List.countP_append, hspan, ih]

/-- **No stuck and no phantom notes.**  In every beginning of a recorded schedule a key
has been released at most as often as pressed, and in all of it equally often. -/
theorem balance_of_record {piece : Piece} {config : Config} {schedule : Schedule} {stop : Tick}
    (h : (record piece config).outcome = .ok (schedule, stop)) (channel : Channel)
    (key : UInt8) :
    (∀ start, start <+: schedule.events →
      start.countP (Event.releases channel key) ≤ start.countP (Event.presses channel key)) ∧
    schedule.events.countP (Event.releases channel key) =
      schedule.events.countP (Event.presses channel key) := by
  obtain ⟨hconfig, pass, hplay, rfl⟩ := outcome_eq_ok_iff.1 h
  have hr := Pass.rendition_of_fresh hconfig hplay
  have hperm := inTickOrder_perm pass.events.toList
  refine ⟨fun start hstart => ?_, ?_⟩
  · obtain ⟨T, first, rest, hevents, hcut⟩ := exists_cut_of_prefix hstart
    have hcovered : Covered channel key (transcript pass.channels.channelOf [] _) :=
      Covered.transcript _ _ hr.fits
    rw [hcut.countP_eq, hcut.countP_eq]
    exact hcovered T first rest (hr.events_eq.symm.trans hevents)
  · show (inTickOrder pass.events.toList).countP _ = (inTickOrder pass.events.toList).countP _
    rw [hperm.countP_eq, hperm.countP_eq, hr.events_eq]
    exact countP_transcript ..

/-- Three voices share the middle C of the violin: it is pressed and released four times. -/
theorem balance_of_groundBass :
    (record groundBass sixTicks).outcome = .ok ((record groundBass sixTicks).schedule, 9) ∧
      (record groundBass sixTicks).schedule.events.countP (Event.presses 0 60) = 4 ∧
      ((record groundBass sixTicks).schedule.events.take 7).countP (Event.releases 0 60) ≤
        ((record groundBass sixTicks).schedule.events.take 7).countP (Event.presses 0 60) := by
  have hplay : ((Pass.new sixTicks).play groundBass 1).1 = .ok 9 := by decide +kernel
  have h := balance_of_record outcome_groundBass 0 60
  refine ⟨outcome_groundBass, ?_, h.1 _ (List.take_prefix 7 _)⟩
  rw [record_of_play (by decide) (Prod.ext hplay rfl)]
  show (inTickOrder _).countP _ = 4
  rw [(inTickOrder_perm _).countP_eq]
  decide +kernel

end Playback
end Polyphony
