/-
# Events in the order of their ticks

`Schedule.inTickOrder` moves events and keeps those of one tick as they were
(`filter_tick_inTickOrder`), which inserting them one by one does too
(`inTickOrder_eq_insertionSort`).  Two consequences carry what is proved of schedules:

* of two events in a schedule, the first has the earlier tick, or it was emitted first
  (`lt_or_sublist_of_sublist`);
* a beginning of a schedule is a beginning of what was emitted, cut off after a tick `T`,
  together with all that was emitted later for ticks before `T` (`exists_cut_of_prefix`).

The second one makes counting in a beginning of the schedule a matter of counting in
the emitted events, where presses and releases still stand side by side.
-/

import Polyphony.Schedule.Basic
import Mathlib.Data.List.Sort

namespace Polyphony
namespace Schedule

variable {events : List Event}

/-- An event goes in front of the first one that is not earlier than it. -/
theorem inTickOrder_eq_insertionSort (events : List Event) :
    inTickOrder events = events.insertionSort fun a b => a.tick ≤ b.tick := by
  induction events with
  | nil => rw [inTickOrder, List.mergeSort_nil, List.insertionSort_nil]
  | cons e events ih =>
    obtain ⟨earlier, later, hnew, hold, hearlier⟩ :=
      List.mergeSort_cons tick_le_trans tick_le_total e events
    have hpass : ∀ b ∈ earlier, decide (¬ e.tick ≤ b.tick) = true := fun b hb => by
      simpa using hearlier b hb
    have hstop : ∀ b ∈ later.head?, e.tick ≤ b.tick := by
      have hsorted := inTickOrder_pairwise (e :: events)
      rw [inTickOrder, hnew, List.pairwise_append, List.pairwise_cons] at hsorted
      exact fun b hb => hsorted.2.1.1 b (List.mem_of_mem_head? hb)
    rw [List.insertionSort_cons, ← ih, inTickOrder, hnew, inTickOrder, hold,
      List.orderedInsert_eq_take_drop, List.takeWhile_append_of_pos hpass,
      List.dropWhile_append_of_pos hpass]
    cases later with
    | nil => rw [List.takeWhile_nil, List.dropWhile_nil, List.append_nil]
    | cons b later => simp [hstop b rfl]

/-- Events whose ticks never fall stay in the order given, whatever stands between them. -/
theorem filter_inTickOrder {q : Event → Bool}
    (h : (events.filter q).Pairwise fun a b => a.tick ≤ b.tick) :
    (inTickOrder events).filter q = events.filter q := by
  have hpair : (events.filter q).Pairwise fun a b => decide (a.tick ≤ b.tick) = true :=
    h.imp decide_eq_true
  have hsub := (List.sublist_mergeSort tick_le_trans tick_le_total hpair
    List.filter_sublist).filter q
  rw [List.filter_filter] at hsub
  simp only [Bool.and_self] at hsub
  exact (hsub.eq_of_length ((inTickOrder_perm events).filter q).length_eq.symm).symm

/-- Events of one tick stay in the order given. -/
theorem filter_tick_inTickOrder (events : List Event) (t : Tick) :
    (inTickOrder events).filter (fun e => e.tick = t) = events.filter fun e => e.tick = t := by
  refine filter_inTickOrder (List.pairwise_iff_forall_sublist.2 fun hab => ?_)
  have ha := (List.mem_filter.1 (hab.subset (List.mem_cons_self ..))).2
  have hb := (List.mem_filter.1 (hab.subset
    (List.mem_cons_of_mem _ (List.mem_singleton_self _)))).2
  rw [decide_eq_true_eq] at ha hb
  rw [ha, hb]
  exact UInt32.le_refl t

/-- Of two events in order, the first has the earlier tick, or it came first. -/
theorem lt_or_sublist_of_sublist {a b : Event} (h : List.Sublist [a, b] (inTickOrder events)) :
    a.tick < b.tick ∨ a.tick = b.tick ∧ List.Sublist [a, b] events := by
  have hle := List.pairwise_iff_forall_sublist.1 (inTickOrder_pairwise events) h
  rcases UInt32.lt_or_eq_of_le hle with hlt | heq
  · exact Or.inl hlt
  · refine Or.inr ⟨heq, ?_⟩
    have hf := h.filter (fun e => e.tick = b.tick)
    rw [filter_tick_inTickOrder] at hf
    simp only [List.filter_cons, heq, decide_true, if_true, List.filter_nil] at hf
    exact hf.trans List.filter_sublist

/-- What holds of any two events as they were emitted, and of any two with different
ticks, holds of any two in order. -/
theorem pairwise_inTickOrder {R : Event → Event → Prop} (h : events.Pairwise R)
    (hlt : ∀ a ∈ events, ∀ b ∈ events, a.tick < b.tick → R a b) :
    (inTickOrder events).Pairwise R := by
  refine List.pairwise_iff_forall_sublist.2 fun {a b} hab => ?_
  have hmem : ∀ e ∈ [a, b], e ∈ events := fun e he =>
    (inTickOrder_perm events).mem_iff.1 (hab.subset he)
  rcases lt_or_sublist_of_sublist hab with hab | ⟨-, hab⟩
  · exact hlt a (hmem a (by simp)) b (hmem b (by simp)) hab
  · exact List.pairwise_iff_forall_sublist.1 h hab

/-- Up to a tick is before it or at it. -/
theorem filter_le_perm (l : List Event) (T : Tick) : (l.filter fun e => e.tick ≤ T).Perm
    ((l.filter fun e => e.tick < T) ++ l.filter fun e => e.tick = T) := by
  have h := List.filter_append_perm (fun e : Event => e.tick < T) (l.filter fun e => e.tick ≤ T)
  rw [List.filter_filter, List.filter_filter] at h
  refine h.symm.trans (.of_eq (congrArg₂ _ ?_ ?_)) <;>
    refine List.filter_congr fun e _ => ?_ <;>
    simp only [← Bool.decide_and, ← decide_not, decide_eq_decide, UInt32.lt_iff_toNat_lt,
      UInt32.le_iff_toNat_le, ← UInt32.toNat_inj] <;>
    omega

/-- What is there of the first events up to a tick, and of the rest before it. -/
def cut (T : Tick) (first rest : List Event) : List Event :=
  first.filter (fun e => e.tick ≤ T) ++ rest.filter fun e => e.tick < T

theorem cut_append_left (T : Tick) (xs ys rest : List Event) :
    cut T (xs ++ ys) rest = cut T xs [] ++ cut T ys rest := by
  simp [cut]

theorem cut_append_right (T : Tick) (first xs ys : List Event) :
    cut T first (xs ++ ys) = cut T first xs ++ cut T [] ys := by
  simp [cut]

theorem mem_of_mem_cut {T : Tick} {first rest : List Event} {e : Event}
    (h : e ∈ cut T first rest) : e ∈ first ++ rest := by
  rcases List.mem_append.1 h with h | h
  · exact List.mem_append_left _ (List.mem_filter.1 h).1
  · exact List.mem_append_right _ (List.mem_filter.1 h).1

/-- A cut through two events in the order of their ticks never takes the second alone. -/
theorem cut_pair {a b : Event} (hle : a.tick ≤ b.tick) (T : Tick) {first rest : List Event}
    (h : [a, b] = first ++ rest) :
    cut T first rest = [] ∨ cut T first rest = [a] ∨ cut T first rest = [a, b] := by
  have hlt : b.tick < T → a.tick < T := fun h => UInt32.lt_of_le_of_lt hle h
  have hle' : b.tick ≤ T → a.tick ≤ T := fun h => UInt32.le_trans hle h
  have hlt' : b.tick < T → a.tick ≤ T := fun h => UInt32.le_of_lt (hlt h)
  rcases first with _ | ⟨x, _ | ⟨y, first⟩⟩
  · obtain rfl : [a, b] = rest := h
    simp only [cut, List.filter_cons, List.filter_nil, decide_eq_true_eq]
    split_ifs <;> simp_all
  · obtain ⟨rfl, rfl⟩ : a = x ∧ [b] = rest := by simpa using h
    simp only [cut, List.filter_cons, List.filter_nil, decide_eq_true_eq]
    split_ifs <;> simp_all
  · obtain ⟨rfl, rfl, rfl, rfl⟩ : a = x ∧ b = y ∧ first = [] ∧ rest = [] := by simpa using h
    simp only [cut, List.filter_cons, List.filter_nil, decide_eq_true_eq]
    split_ifs <;> simp_all

/-- A beginning after which nothing lies before a tick has all that does. -/
theorem filter_lt_perm_of_append {xs ys : List Event} {T : Tick}
    (h : xs ++ ys = inTickOrder events) (hys : ∀ e ∈ ys, T ≤ e.tick) :
    (xs.filter fun e => e.tick < T).Perm (events.filter fun e => e.tick < T) := by
  have hnone : (ys.filter fun e => e.tick < T) = [] := by
    refine List.filter_eq_nil_iff.2 ?_
    intro e he
    simpa using hys e he
  have hperm := (inTickOrder_perm events).filter fun e => e.tick < T
  rwa [← h, List.filter_append, hnone, List.append_nil] at hperm

/-- **Beginnings of a schedule.**  Each is, up to order, what was emitted first for ticks
up to some `T` and what was emitted then for ticks before `T`. -/
theorem exists_cut_of_prefix {start : List Event} (h : start <+: inTickOrder events) :
    ∃ T first rest, events = first ++ rest ∧ start.Perm (cut T first rest) := by
  obtain ⟨later, hsorted⟩ := h
  have hpair := inTickOrder_pairwise events
  rw [← hsorted, List.pairwise_append] at hpair
  obtain ⟨hstart, -, hlater⟩ := hpair
  rcases List.eq_nil_or_concat start with rfl | ⟨init, last, rfl⟩
  · refine ⟨0, [], events, rfl, ?_⟩
    simp [cut]
  · rw [List.concat_eq_append] at *
    have hmem : last ∈ init ++ [last] := List.mem_append_right _ (List.mem_singleton_self _)
    have hle : ∀ e ∈ init ++ [last], e.tick ≤ last.tick := by
      intro e he
      rcases List.mem_append.1 he with he | he
      · exact (List.pairwise_append.1 hstart).2.2 e he last (List.mem_singleton_self _)
      · exact List.mem_singleton.1 he ▸ UInt32.le_refl _
    -- The last tick of the beginning is the cut: all of it that lies before is there, and
    -- of what lies at it, the part that was emitted first.
    have hat := filter_tick_inTickOrder events last.tick
    rw [← hsorted, List.filter_append] at hat
    obtain ⟨first, rest, hevents, hfirst, -⟩ := List.filter_eq_append_iff.1 hat.symm
    have hbefore := filter_lt_perm_of_append hsorted (hlater last hmem)
    refine ⟨last.tick, first, rest, hevents, ?_⟩
    have hall := filter_le_perm (init ++ [last]) last.tick
    rw [List.filter_eq_self.2 fun e he => decide_eq_true (hle e he), ← hfirst] at hall
    refine (hall.trans (hbefore.append_right _)).trans ?_
    rw [hevents, List.filter_append, List.append_assoc]
    refine (List.perm_append_comm.append_left _).trans ?_
    rw [← List.append_assoc]
    exact ((filter_le_perm first last.tick).symm).append_right _

end Schedule
end Polyphony
