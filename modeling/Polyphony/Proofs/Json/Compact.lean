/-
# What a writer writes of a value

| value | compact text |
| --- | --- |
| number | its digits |
| string | its quotation |
| array | its items, with commas between them, in brackets |
| object | its members, each with a colon behind its name, with commas between them, in braces |

A writer knows nothing of this.  It grows its text call by call and settles each comma by what
it remembers of the containers that are open.  From any writer, whatever is open and whether or
not a key waits, a value leaves its compact text, behind a comma if there has to be one, and
nothing else changes (`Value.write_eq`).  What carries it is a container that is opened, filled
and closed (`Writer.closing_appendEach`): the first text in it finds it empty and every other
one does not.

A value whose strings are ASCII is written in ASCII, and so in UTF-8, as the format asks for.
-/

import Polyphony.Proofs.Json.Value
import Mathlib.Data.FinEnum

namespace Polyphony

/-- A text of ASCII characters, which is UTF-8 as it stands. -/
def Text.IsAscii (t : Text) : Prop := ∀ b ∈ t, b < 128

instance (t : Text) : Decidable t.IsAscii :=
  decidable_of_iff (t.all (fun b => decide (b < 128)) = true) (by simp [Text.IsAscii])

namespace Json

/-- Texts with commas between them. -/
def commaSeparated : List Text → Text
  | [] => []
  | t :: ts => t ++ ts.flatMap (Text.byte ',' :: ·)

theorem commaSeparated_singleton (t : Text) : commaSeparated [t] = t := List.append_nil t

theorem commaSeparated_cons_cons (t u : Text) (ts : List Text) :
    commaSeparated (t :: u :: ts) = t ++ Text.byte ',' :: commaSeparated (u :: ts) := rfl

/-- Separated texts are no longer than all of them with their commas. -/
theorem length_le_of_mem_commaSeparated {t : Text} {ts : List Text} (h : t ∈ ts) :
    t.length ≤ (commaSeparated ts).length := by
  induction ts with
  | nil => cases h
  | cons u ts ih =>
    cases ts with
    | nil =>
      obtain rfl := List.mem_singleton.1 h
      rw [commaSeparated_singleton]
    | cons v ts =>
      rw [commaSeparated_cons_cons, List.length_append, List.length_cons]
      rcases List.mem_cons.1 h with rfl | h
      · omega
      · have := ih h
        omega

/-- There are no more texts than bytes, if none is empty. -/
theorem length_le_length_commaSeparated {ts : List Text} (h : ∀ t ∈ ts, t ≠ []) :
    ts.length ≤ (commaSeparated ts).length := by
  induction ts with
  | nil => exact Nat.le_refl 0
  | cons t ts ih =>
    have ht := List.length_pos_iff.2 (h t List.mem_cons_self)
    cases ts with
    | nil =>
      rw [commaSeparated_singleton]
      exact ht
    | cons u ts =>
      have hrest := ih fun v hv => h v (List.mem_cons_of_mem t hv)
      simp only [commaSeparated_cons_cons, List.length_append, List.length_cons] at hrest ⊢
      omega

/-- A member of an object, given the text of its value. -/
def memberText (name t : Text) : Text := quote name ++ Text.byte ':' :: t

namespace Writer

/-- Writes texts one after the other, each in the place of a value. -/
def appendEach (w : Writer) (ts : List Text) : Writer :=
  ts.foldl (fun w t => w.separate.append t) w

theorem append_append (w : Writer) (s t : Text) : (w.append s).append t = w.append (s ++ t) := by
  simp [append]

theorem afterKey_separate (w : Writer) : w.separate.afterKey = false := by
  unfold separate
  split
  · rfl
  · next h =>
    rw [Bool.not_eq_true] at h
    split <;> exact h

/-- A value behind a key needs no comma. -/
theorem separate_key (w : Writer) (name : Text) :
    (w.key name).separate = w.separate.append (quote name ++ [Text.byte ':']) := by
  show { w.separate.append (quote name ++ [Text.byte ':']) with afterKey := false } = _
  rw [← w.afterKey_separate]
  rfl

/-- In a container that holds something, each text comes behind a comma. -/
theorem appendEach_of_filled (ts : List Text) {w : Writer} {outer : List Bool}
    (hkey : w.afterKey = false) (hfilled : w.filled = true :: outer) :
    w.appendEach ts = w.append (ts.flatMap (Text.byte ',' :: ·)) := by
  induction ts generalizing w with
  | nil => rfl
  | cons t ts ih =>
    have hseparate : w.separate = w.append [Text.byte ','] := by
      simp only [separate, hkey, hfilled]
      rfl
    show (w.separate.append t).appendEach ts = _
    rw [hseparate, append_append, ih (by simpa using hkey) (by simpa using hfilled),
      append_append]
    rfl

/-- In a container that holds nothing, the first text does not. -/
theorem appendEach_of_not_filled (ts : List Text) {w : Writer} {outer : List Bool}
    (hkey : w.afterKey = false) (hfilled : w.filled = false :: outer) :
    w.appendEach ts = { w.append (commaSeparated ts) with filled := (!ts.isEmpty) :: outer } := by
  cases ts with
  | nil =>
    rw [List.isEmpty_nil, Bool.not_true, ← hfilled]
    rfl
  | cons t ts =>
    have hseparate : w.separate = { w with filled := true :: outer } := by
      simp only [separate, hkey, hfilled]
      rfl
    show (w.separate.append t).appendEach ts = _
    rw [hseparate, appendEach_of_filled ts (by simpa using hkey) rfl, append_append]
    rfl

/-- A container that is opened, filled and closed is one text. -/
theorem closing_appendEach (w : Writer) (ts : List Text) (left right : UInt8) :
    ((w.opening left).appendEach ts).closing right =
      w.separate.append (left :: (commaSeparated ts ++ [right])) := by
  have hopen : (w.opening left).appendEach ts = _ :=
    appendEach_of_not_filled ts w.afterKey_separate rfl
  rw [hopen]
  show (((w.separate.append [left]).append (commaSeparated ts)).append [right]) = _
  rw [append_append, append_append]
  rfl

end Writer

namespace Value

mutual

/-- A value as compact JSON, said without a writer. -/
def compact : Value → Text
  | .number n => Decimal.digits n
  | .string t => quote t
  | .array items => Text.byte '[' :: (commaSeparated (itemTexts items) ++ [Text.byte ']'])
  | .object members => 123 :: (commaSeparated (memberTexts members) ++ [125])

/-- The items of an array, each for itself. -/
def itemTexts : List Value → List Text
  | [] => []
  | v :: items => v.compact :: itemTexts items

/-- The members of an object, each for itself. -/
def memberTexts : List (Text × Value) → List Text
  | [] => []
  | (name, v) :: members => memberText name v.compact :: memberTexts members

end

theorem itemTexts_eq_map (items : List Value) : itemTexts items = items.map compact := by
  induction items with
  | nil => rfl
  | cons v items ih => rw [itemTexts, ih, List.map_cons]

theorem memberTexts_eq_map (members : List (Text × Value)) :
    memberTexts members = members.map fun m => memberText m.1 m.2.compact := by
  induction members with
  | nil => rfl
  | cons m members ih => rw [memberTexts, ih, List.map_cons]

mutual

/-- **A value is written as its compact text**, from any writer. -/
theorem write_eq (v : Value) (w : Writer) : v.write w = w.separate.append v.compact := by
  cases v with
  | number n => rfl
  | string t => rfl
  | array items =>
    rw [write, writeItems_eq, Writer.beginArray, Writer.endArray, Writer.closing_appendEach,
      compact]
  | object members =>
    rw [write, writeMembers_eq, Writer.beginObject, Writer.endObject, Writer.closing_appendEach,
      compact]

theorem writeItems_eq (items : List Value) (w : Writer) :
    writeItems items w = w.appendEach (itemTexts items) := by
  cases items with
  | nil => rfl
  | cons v items =>
    rw [writeItems, write_eq v, writeItems_eq items, itemTexts]
    rfl

theorem writeMembers_eq (members : List (Text × Value)) (w : Writer) :
    writeMembers members w = w.appendEach (memberTexts members) := by
  cases members with
  | nil => rfl
  | cons m members =>
    have hmember : m.2.write (w.key m.1) = w.separate.append (memberText m.1 m.2.compact) := by
      rw [write_eq m.2, Writer.separate_key, Writer.append_append, List.append_assoc]
      rfl
    rw [writeMembers, hmember, writeMembers_eq members, memberTexts]
    rfl

end

/-- The text of a value is the compact one. -/
theorem text_eq_compact (v : Value) : v.text = v.compact := by
  rw [text, write_eq, Writer.text_append]
  rfl

end Value

/-! ### ASCII -/

section

variable {t : Text} {ts : List Text}

theorem isAscii_commaSeparated (h : ∀ t ∈ ts, t.IsAscii) : (commaSeparated ts).IsAscii := by
  intro b hb
  cases ts with
  | nil => cases hb
  | cons t ts =>
    rcases List.mem_append.1 hb with hb | hb
    · exact h t List.mem_cons_self b hb
    · obtain ⟨u, hu, hb⟩ := List.mem_flatMap.1 hb
      rcases List.mem_cons.1 hb with rfl | hb
      · decide
      · exact h u (List.mem_cons_of_mem t hu) b hb

theorem isAscii_enclosed {left right : UInt8} (hleft : left < 128) (hright : right < 128)
    (h : ∀ t ∈ ts, t.IsAscii) : Text.IsAscii (left :: (commaSeparated ts ++ [right])) := by
  intro b hb
  simp only [List.mem_cons, List.mem_append, List.not_mem_nil, or_false] at hb
  obtain rfl | hb | rfl := hb
  · exact hleft
  · exact isAscii_commaSeparated h b hb
  · exact hright

theorem isAscii_digits (n : Nat) : (Decimal.digits n).IsAscii := by
  intro b hb
  have hdigit := List.all_eq_true.1 (Decimal.all_isDigit_digits n) b hb
  rw [Decimal.isDigit, Bool.and_eq_true, decide_eq_true_eq, decide_eq_true_eq] at hdigit
  exact UInt8.lt_of_le_of_lt hdigit.2 (by decide)

theorem isAscii_escapeByte : ∀ b : UInt8, b < 128 → Text.IsAscii (escapeByte b) := by
  decide +kernel

theorem isAscii_quote (h : t.IsAscii) : (quote t).IsAscii := by
  intro b hb
  simp only [quote, escape, List.cons_append, List.mem_cons, List.mem_append, List.mem_flatMap,
    List.not_mem_nil, or_false] at hb
  obtain rfl | ⟨c, hc, hb⟩ | rfl := hb
  · decide
  · exact isAscii_escapeByte c (h c hc) b hb
  · decide

theorem isAscii_memberText {name : Text} (hname : name.IsAscii) (h : t.IsAscii) :
    (memberText name t).IsAscii := by
  intro b hb
  rcases List.mem_append.1 hb with hb | hb
  · exact isAscii_quote hname b hb
  · rcases List.mem_cons.1 hb with rfl | hb
    · decide
    · exact h b hb

end

namespace Value

theorem isAscii_array {items : List Value} (h : ∀ v ∈ items, v.compact.IsAscii) :
    (array items).compact.IsAscii := by
  rw [compact, itemTexts_eq_map]
  refine isAscii_enclosed (by decide) (by decide) fun t ht => ?_
  obtain ⟨v, hv, rfl⟩ := List.mem_map.1 ht
  exact h v hv

theorem isAscii_object {members : List (Text × Value)}
    (h : ∀ m ∈ members, m.1.IsAscii ∧ m.2.compact.IsAscii) :
    (object members).compact.IsAscii := by
  rw [compact, memberTexts_eq_map]
  refine isAscii_enclosed (by decide) (by decide) fun t ht => ?_
  obtain ⟨m, hm, rfl⟩ := List.mem_map.1 ht
  exact isAscii_memberText (h m hm).1 (h m hm).2

end Value
end Json
end Polyphony
