/-
# Schedules

A schedule is what a device is given: events in the order of their ticks, and the
channels of the instruments that play them.
-/

import Polyphony.Schedule.ChannelTable

namespace Polyphony

/-- Events for a device and the channels they are played on. -/
structure Schedule where
  /-- The events in order. -/
  events : List Event
  /-- The channels of the instruments. -/
  channels : ChannelTable
deriving Inhabited, DecidableEq

namespace Schedule

/-- The schedule without events. -/
def empty : Schedule := ⟨[], .empty⟩

/-- Number of events of a kind. -/
def count (s : Schedule) (kind : EventKind) : Nat := s.events.countP fun e => e.kind == kind

/-- Events in the order of their ticks; those of one tick stay in the order given. -/
def inTickOrder (events : List Event) : List Event :=
  events.mergeSort fun a b => a.tick ≤ b.tick

theorem inTickOrder_perm (events : List Event) : (inTickOrder events).Perm events :=
  List.mergeSort_perm events _

theorem tick_le_trans (a b c : Event) (hab : decide (a.tick ≤ b.tick) = true)
    (hbc : decide (b.tick ≤ c.tick) = true) : decide (a.tick ≤ c.tick) = true := by
  simp only [decide_eq_true_eq, UInt32.le_iff_toNat_le] at *
  omega

theorem tick_le_total (a b : Event) :
    (decide (a.tick ≤ b.tick) || decide (b.tick ≤ a.tick)) = true := by
  simp only [Bool.or_eq_true, decide_eq_true_eq, UInt32.le_iff_toNat_le]
  omega

/-- Ticks never fall. -/
theorem inTickOrder_pairwise (events : List Event) :
    (inTickOrder events).Pairwise fun a b => a.tick ≤ b.tick :=
  (List.pairwise_mergeSort tick_le_trans tick_le_total events).imp of_decide_eq_true

end Schedule
end Polyphony
