/-
# Schedules as lines of text lose nothing

The text of a schedule has one line for each event in order.  A line is eight words with a blank
between them.  No byte of a word is a blank or comes before it (`Event.isSolid_of_mem_words`), so
cutting the text at its line ends and a line at its blanks gives them back.

| word | tells |
| --- | --- |
| second | the kind, if that has a name of its own |
| fourth | key or program |
| sixth | the channel |
| eighth | the tick |

The machine writes each line to a buffer of 96 bytes, which would cut a longer one short.  No line
has more than 65 (`Event.length_line_le`), as no number has more digits than the largest one of its
word.
-/

import Polyphony.Schedule.Text
import Polyphony.Proofs.Schedule.Encoding
import Mathlib.Data.List.TakeWhile

namespace Polyphony

/-! ### Words and digits -/

/-- A number below `10 ^ k` has at most `k` digits. -/
theorem Decimal.length_digits_le {n k : Nat} (hk : 0 < k) (h : n < 10 ^ k) :
    (digits n).length ≤ k := by
  induction k generalizing n with
  | zero => exact absurd hk (Nat.lt_irrefl 0)
  | succ k ih =>
    rw [digits_eq]
    split
    · exact Nat.succ_le_succ (Nat.zero_le k)
    · next hn =>
      have hpos : 0 < k := by
        by_contra hzero
        rw [Nat.eq_zero_of_not_pos hzero] at h
        exact hn h
      have htenth : n / 10 < 10 ^ k := Nat.div_lt_of_lt_mul (by rwa [pow_succ'] at h)
      rw [List.length_append, List.length_singleton]
      exact Nat.succ_le_succ (ih hpos htenth)

/-- What is in texts that are put together is in one of them or between them. -/
theorem Text.mem_of_mem_intercalate {b : UInt8} {separator : Text} {words : List Text}
    (h : b ∈ separator.intercalate words) : b ∈ separator ∨ ∃ w ∈ words, b ∈ w := by
  induction words with
  | nil => exact absurd h List.not_mem_nil
  | cons w words ih =>
    cases words with
    | nil =>
      rw [List.intercalate_singleton] at h
      exact Or.inr ⟨w, List.mem_cons_self, h⟩
    | cons v words =>
      rw [List.intercalate_cons_cons, List.mem_append, List.mem_append] at h
      rcases h with (h | h) | h
      · exact Or.inr ⟨w, List.mem_cons_self, h⟩
      · exact Or.inl h
      · rcases ih h with hb | ⟨u, hu, hb⟩
        · exact Or.inl hb
        · exact Or.inr ⟨u, List.mem_cons_of_mem w hu, hb⟩

/-- A text is cut at its line ends into its lines, and nothing behind the last one. -/
theorem Text.splitOn_lines {lines : List Text} (h : ∀ l ∈ lines, Text.byte '\n' ∉ l) :
    (lines.flatMap fun l => l ++ [Text.byte '\n']).splitOn (Text.byte '\n') = lines ++ [[]] := by
  induction lines with
  | nil => rfl
  | cons l lines ih =>
    obtain ⟨hl, hlines⟩ := List.forall_mem_cons.1 h
    rw [List.flatMap_cons, List.append_assoc, List.singleton_append,
      List.splitOn_append_cons_self_of_not_mem hl, ih hlines, List.cons_append]

/-- Is every byte of a text behind the blank? -/
def Text.isSolid (t : Text) : Bool := t.all fun b => Text.byte ' ' < b

theorem Text.blank_lt_of_isSolid {t : Text} (h : t.isSolid = true) {b : UInt8} (hb : b ∈ t) :
    Text.byte ' ' < b :=
  of_decide_eq_true (List.all_eq_true.1 h b hb)

theorem Decimal.isSolid_digits (n : Nat) : Text.isSolid (digits n) = true := by
  refine List.all_eq_true.2 fun b hb => decide_eq_true ?_
  have hdigit := List.all_eq_true.1 (all_isDigit_digits n) b hb
  rw [isDigit, Bool.and_eq_true, decide_eq_true_iff] at hdigit
  exact UInt8.lt_of_lt_of_le (by decide) hdigit.1

namespace EventKind

variable (kind : EventKind)

theorem isSolid_name : Text.isSolid kind.name = true := by
  cases kind with
  | noteOn | noteOff | programChange => decide
  | unlisted code =>
    show Text.isSolid (Text.utf8 "UNKNOWN") = true
    decide

theorem isSolid_dataLabel : Text.isSolid (kind.dataLabel ++ [Text.byte ':']) = true := by
  cases kind with
  | noteOn | noteOff | programChange => decide
  | unlisted code =>
    show Text.isSolid (Text.utf8 "Pitch" ++ [Text.byte ':']) = true
    decide

end EventKind

/-! ### The line of an event -/

namespace Event

variable (e : Event)

/-- The words of an event's line. -/
def words : List Text :=
  [Text.utf8 "Event:", e.kind.name, e.kind.dataLabel ++ [Text.byte ':'],
    Decimal.digits e.data.toNat, Text.utf8 "Channel:", Decimal.digits e.channel.toNat,
    Text.utf8 "Tick:", Decimal.digits e.tick.toNat]

/-- An event's line without its end. -/
def content : Text := [Text.byte ' '].intercalate e.words

theorem line_eq : e.line = e.content ++ [Text.byte '\n'] := by
  have hevent : Text.utf8 "Event: " = Text.utf8 "Event:" ++ [Text.byte ' '] := rfl
  have hdata : Text.utf8 ": " = [Text.byte ':', Text.byte ' '] := rfl
  have hchannel : Text.utf8 " Channel: " =
      Text.byte ' ' :: (Text.utf8 "Channel:" ++ [Text.byte ' ']) := rfl
  have htick : Text.utf8 " Tick: " = Text.byte ' ' :: (Text.utf8 "Tick:" ++ [Text.byte ' ']) := rfl
  simp only [line, content, words, hevent, hdata, hchannel, htick, List.intercalate_cons_cons,
    List.intercalate_singleton, List.append_assoc, List.cons_append, List.nil_append]

theorem isSolid_of_mem_words {w : Text} (h : w ∈ e.words) : Text.isSolid w = true := by
  have hall : ∀ w ∈ e.words, Text.isSolid w = true := by
    simp only [words, List.forall_mem_cons]
    exact ⟨by decide, e.kind.isSolid_name, e.kind.isSolid_dataLabel, Decimal.isSolid_digits _,
      by decide, Decimal.isSolid_digits _, by decide, Decimal.isSolid_digits _,
      List.forall_mem_nil _⟩
  exact hall w h

/-- A line is cut at its blanks into its words. -/
theorem splitOn_content : e.content.splitOn (Text.byte ' ') = e.words := by
  refine List.splitOn_intercalate _ (fun w hw hblank => ?_) (List.cons_ne_nil _ _)
  exact UInt8.lt_irrefl _ (Text.blank_lt_of_isSolid (e.isSolid_of_mem_words hw) hblank)

/-- No byte of a line but its end comes before the blank. -/
theorem blank_le_of_mem_content {b : UInt8} (h : b ∈ e.content) : Text.byte ' ' ≤ b := by
  rcases Text.mem_of_mem_intercalate h with h | ⟨w, hw, hb⟩
  · exact UInt8.le_of_eq (List.mem_singleton.1 h).symm
  · exact UInt8.le_of_lt (Text.blank_lt_of_isSolid (e.isSolid_of_mem_words hw) hb)

theorem newline_notMem_content : Text.byte '\n' ∉ e.content := fun h =>
  absurd (e.blank_le_of_mem_content h) (by decide)

theorem nul_notMem_line : 0 ∉ e.line := by
  rw [line_eq, List.mem_append, List.mem_singleton]
  rintro (h | h)
  · exact absurd (e.blank_le_of_mem_content h) (by decide)
  · exact absurd h (by decide)

/-- A line has at most 65 bytes. -/
theorem length_line_le : e.line.length ≤ 65 := by
  have hname : e.kind.name.length + e.kind.dataLabel.length ≤ 21 := by
    cases e.kind with
    | noteOn | noteOff | programChange => decide
    | unlisted code => exact (show 12 ≤ 21 by decide)
  have hdata := Decimal.length_digits_le (k := 3) (by decide) (e.data.toNat_lt.trans (by decide))
  have hchannel :=
    Decimal.length_digits_le (k := 3) (by decide) (e.channel.toNat_lt.trans (by decide))
  have htick := Decimal.length_digits_le (k := 10) (by decide) (e.tick.toNat_lt.trans (by decide))
  have hlabels : (Text.utf8 "Event: ").length = 7 ∧ (Text.utf8 ": ").length = 2 ∧
      (Text.utf8 " Channel: ").length = 10 ∧ (Text.utf8 " Tick: ").length = 7 := by decide
  simp only [line, List.length_append, List.length_cons, List.length_nil, hlabels]
  omega

end Event

/-! ### Through the buffer -/

/-- Bytes of the buffer that a line is written to. -/
def lineBuffer : Nat := 96

/-- An event's line as it comes out of the buffer, of which the last byte is for the zero byte that
ends the line. -/
def Event.buffered (e : Event) : Text := Text.beforeNul (e.line.take (lineBuffer - 1))

/-- A schedule as text, each line through the buffer. -/
def Schedule.bufferedText (s : Schedule) : Text :=
  s.events.foldl (fun t e => t ++ e.buffered) []

/-- The buffer cuts nothing off. -/
theorem Event.buffered_eq (e : Event) : e.buffered = e.line := by
  have hfits : e.line.length ≤ lineBuffer - 1 := e.length_line_le.trans (by decide)
  rw [buffered, List.take_of_length_le hfits]
  refine List.takeWhile_eq_self_iff.2 fun b hb => bne_iff_ne.2 ?_
  rintro rfl
  exact e.nul_notMem_line hb

theorem Schedule.bufferedText_eq (s : Schedule) : s.bufferedText = s.text := by
  have hfold : ∀ (es : List Event) (t : Text),
      es.foldl (fun t e => t ++ e.buffered) t = t ++ es.flatMap Event.line := by
    intro es
    induction es with
    | nil => exact fun t => (List.append_nil t).symm
    | cons e es ih =>
      intro t
      rw [List.foldl_cons, ih, e.buffered_eq, List.append_assoc, List.flatMap_cons]
  exact hfold s.events []

/-! ### Reading back -/

/-- The kind of a name. -/
def EventKind.ofName? (name : Text) : Option EventKind := listed.find? fun kind => kind.name == name

/-- The event of a line's words. -/
def Event.ofWords? : List Text → Option Event
  | [_, name, _, data, _, channel, _, tick] => do
    let kind ← EventKind.ofName? name
    let data ← Decimal.readNat? data
    let channel ← Decimal.readNat? channel
    let tick ← Decimal.readNat? tick
    return ⟨kind, channel.toUInt8, data.toUInt8, tick.toUInt32⟩
  | _ => none

/-- The events of a text: those of its lines, without what stands behind the last line end. -/
def Schedule.readEvents? (t : Text) : Option (List Event) :=
  (t.splitOn (Text.byte '\n')).dropLast.mapM fun l => Event.ofWords? (l.splitOn (Text.byte ' '))

theorem EventKind.ofName?_name {kind : EventKind} (h : kind ∈ listed) :
    ofName? kind.name = some kind := by
  simp only [listed, List.mem_cons, List.not_mem_nil, or_false] at h
  rcases h with rfl | rfl | rfl <;> decide

/-- An event of a listed kind is read back from its words. -/
theorem Event.ofWords?_words {e : Event} (h : e.kind ∈ EventKind.listed) :
    ofWords? e.words = some e := by
  have hchannel : e.channel.toNat.toUInt8 = e.channel := UInt8.ofNat_toNat
  have hdata : e.data.toNat.toUInt8 = e.data := UInt8.ofNat_toNat
  have htick : e.tick.toNat.toUInt32 = e.tick := UInt32.ofNat_toNat
  simp only [ofWords?, words, EventKind.ofName?_name h, Decimal.readNat?_digits, bind,
    Option.bind_some, hchannel, hdata, htick]
  rfl

namespace Schedule

variable {s : Schedule}

theorem text_eq (s : Schedule) :
    s.text = (s.events.map Event.content).flatMap fun l => l ++ [Text.byte '\n'] := by
  rw [text, List.flatMap_map]
  exact congrArg (s.events.flatMap ·) (funext Event.line_eq)

/-- A text is cut at its line ends into the lines of the events. -/
theorem splitOn_text (s : Schedule) :
    s.text.splitOn (Text.byte '\n') = s.events.map Event.content ++ [[]] := by
  rw [text_eq]
  refine Text.splitOn_lines fun l hl => ?_
  obtain ⟨e, -, rfl⟩ := List.mem_map.1 hl
  exact e.newline_notMem_content

/-- The events are read back from the text. -/
theorem readEvents?_text (hs : ∀ e ∈ s.events, e.kind ∈ EventKind.listed) :
    readEvents? s.text = some s.events := by
  rw [readEvents?, splitOn_text, List.dropLast_concat]
  generalize s.events = es at hs
  induction es with
  | nil => rfl
  | cons e es ih =>
    obtain ⟨he, hes⟩ := List.forall_mem_cons.1 hs
    simp only [List.map_cons, List.mapM_cons, e.splitOn_content, Event.ofWords?_words he, ih hes,
      bind, Option.bind_some]
    rfl

/-- **The text of a schedule loses nothing.**  It comes out of the buffer whole, has one line for
each event in order and nothing else, and each line has the words of its event.  So the events are
read back from it, and two schedules have the same text exactly if they have the same events. -/
theorem text_lossless (hs : ∀ e ∈ s.events, e.kind ∈ EventKind.listed) :
    s.bufferedText = s.text ∧ (∀ e ∈ s.events, e.line.length < lineBuffer) ∧
    (∃ lines : List Text, s.text = (lines.flatMap fun l => l ++ [Text.byte '\n']) ∧
      s.text.splitOn (Text.byte '\n') = lines ++ [[]] ∧
      lines.map (List.splitOn (Text.byte ' ')) = s.events.map fun e =>
        [Text.utf8 "Event:", e.kind.name, e.kind.dataLabel ++ [Text.byte ':'],
          Decimal.digits e.data.toNat, Text.utf8 "Channel:", Decimal.digits e.channel.toNat,
          Text.utf8 "Tick:", Decimal.digits e.tick.toNat]) ∧
    readEvents? s.text = some s.events ∧
    ∀ s' : Schedule, (∀ e ∈ s'.events, e.kind ∈ EventKind.listed) →
      (s.text = s'.text ↔ s.events = s'.events) := by
  refine ⟨s.bufferedText_eq, fun e _ => e.length_line_le.trans_lt (by decide),
    ⟨s.events.map Event.content, s.text_eq, s.splitOn_text, ?_⟩, readEvents?_text hs,
    fun s' hs' => ⟨fun h => ?_, fun h => ?_⟩⟩
  · rw [List.map_map]
    exact List.map_congr_left fun e _ => e.splitOn_content
  · have hread := readEvents?_text hs
    rw [h, readEvents?_text hs'] at hread
    exact (Option.some.inj hread).symm
  · rw [text, text, h]

/-- An event with the longest line there is, between two short ones. -/
def wide : Schedule where
  events := [⟨.noteOn, 0, 60, 0⟩, ⟨.programChange, 255, 255, 0xFFFFFFFF⟩, ⟨.noteOff, 6, 0, 12⟩]
  channels := .empty

/-- The same, but for two numbers that share their digits in another way. -/
def wideShifted : Schedule where
  events := [⟨.noteOn, 0, 60, 0⟩, ⟨.programChange, 255, 255, 0xFFFFFFFF⟩, ⟨.noteOff, 0, 6, 12⟩]
  channels := .empty

theorem text_lossless_wide : (∀ e ∈ wide.events, e.kind ∈ EventKind.listed) ∧
    (∃ e ∈ wide.events, e.line.length = 65) ∧ wide.bufferedText = wide.text ∧
    readEvents? wide.text = some wide.events ∧ wide.text ≠ wideShifted.text := by
  have hwide : ∀ e ∈ wide.events, e.kind ∈ EventKind.listed := by decide
  have hshifted : ∀ e ∈ wideShifted.events, e.kind ∈ EventKind.listed := by decide
  obtain ⟨hbuffered, -, -, hread, heq⟩ := text_lossless hwide
  refine ⟨hwide, ⟨⟨.programChange, 255, 255, 0xFFFFFFFF⟩, by decide, ?_⟩, hbuffered, hread,
    fun h => ?_⟩
  · decide +kernel
  · exact absurd ((heq _ hshifted).1 h) (by decide)

/-- Kinds without a name of their own are all told alike. -/
example : (Event.mk (.unlisted 3) 0 60 0).line = (Event.mk (.unlisted 4) 0 60 0).line := rfl

end Schedule
end Polyphony
