/-
# What a sequence of calls writes

Whoever uses a writer does not hand it a value but calls it piece by piece.

| for | the calls are |
| --- | --- |
| a number or a string | one call |
| an array | `beginArray`, those for its items in order, `endArray` |
| an object | `beginObject`, those for its members in order, `endObject` |
| a member | its key and the calls for its value, or one call for a field |

A value has several such sequences, as a member whose value is a number or a string may be written
as a field or by its key and its value.  All of them do what writing the value does
(`CallsOf.run_eq`), so a fresh writer is left with the compact text and with nothing open, and
reading the text gives the value back.  No bytes in a string spoil this: what stands between its
quotes has each quote, backslash and control byte escaped (`quotedBody_escape`).
-/

import Polyphony.Json.Call
import Polyphony.Proofs.Json.Reader

namespace Polyphony
namespace Json

mutual

/-- `CallsOf v calls`: the calls are for the value `v`. -/
inductive CallsOf : Value → List Call → Prop where
  | number (n : Nat) : CallsOf (.number n) [.number n]
  | string (t : Text) : CallsOf (.string t) [.string t]
  | array {items : List Value} {calls : List Call} (h : ItemCalls items calls) :
    CallsOf (.array items) (.beginArray :: (calls ++ [.endArray]))
  | object {members : List (Text × Value)} {calls : List Call} (h : MemberCalls members calls) :
    CallsOf (.object members) (.beginObject :: (calls ++ [.endObject]))

/-- The calls are for the items of an array. -/
inductive ItemCalls : List Value → List Call → Prop where
  | nil : ItemCalls [] []
  | cons {v : Value} {items : List Value} {calls rest : List Call} (h : CallsOf v calls)
    (hrest : ItemCalls items rest) : ItemCalls (v :: items) (calls ++ rest)

/-- The calls are for the members of an object. -/
inductive MemberCalls : List (Text × Value) → List Call → Prop where
  | nil : MemberCalls [] []
  | key (name : Text) {v : Value} {members : List (Text × Value)} {calls rest : List Call}
    (h : CallsOf v calls) (hrest : MemberCalls members rest) :
    MemberCalls ((name, v) :: members) (.key name :: (calls ++ rest))
  | stringField (name t : Text) {members : List (Text × Value)} {rest : List Call}
    (hrest : MemberCalls members rest) :
    MemberCalls ((name, .string t) :: members) (.stringField name t :: rest)
  | numberField (name : Text) (n : Nat) {members : List (Text × Value)} {rest : List Call}
    (hrest : MemberCalls members rest) :
    MemberCalls ((name, .number n) :: members) (.numberField name n :: rest)

end

mutual

/-- Calls for a value do what writing the value does, from any writer. -/
theorem CallsOf.run_eq {v : Value} {calls : List Call} :
    CallsOf v calls → ∀ w : Writer, w.run calls = v.write w
  | .number _, _ => rfl
  | .string _, _ => rfl
  | .array h, w => by
    rw [Writer.run_cons, Writer.run_append, Writer.call, h.run_eq, Value.write]
    rfl
  | .object h, w => by
    rw [Writer.run_cons, Writer.run_append, Writer.call, h.run_eq, Value.write]
    rfl

theorem ItemCalls.run_eq {items : List Value} {calls : List Call} :
    ItemCalls items calls → ∀ w : Writer, w.run calls = Value.writeItems items w
  | .nil, _ => rfl
  | .cons h hrest, w => by
    rw [Writer.run_append, h.run_eq, hrest.run_eq, Value.writeItems]

theorem MemberCalls.run_eq {members : List (Text × Value)} {calls : List Call} :
    MemberCalls members calls → ∀ w : Writer, w.run calls = Value.writeMembers members w
  | .nil, _ => rfl
  | .key name h hrest, w => by
    rw [Writer.run_cons, Writer.run_append, Writer.call, h.run_eq, hrest.run_eq,
      Value.writeMembers]
  | .stringField name t hrest, w => by
    rw [Writer.run_cons, Writer.call, hrest.run_eq, Value.writeMembers, Value.write]
    rfl
  | .numberField name n hrest, w => by
    rw [Writer.run_cons, Writer.call, hrest.run_eq, Value.writeMembers, Value.write]
    rfl

end

mutual

/-- There are calls for every value. -/
theorem exists_callsOf (v : Value) : ∃ calls, CallsOf v calls := by
  cases v with
  | number n => exact ⟨_, .number n⟩
  | string t => exact ⟨_, .string t⟩
  | array items =>
    obtain ⟨calls, h⟩ := exists_itemCalls items
    exact ⟨_, .array h⟩
  | object members =>
    obtain ⟨calls, h⟩ := exists_memberCalls members
    exact ⟨_, .object h⟩

theorem exists_itemCalls (items : List Value) : ∃ calls, ItemCalls items calls := by
  cases items with
  | nil => exact ⟨_, .nil⟩
  | cons v items =>
    obtain ⟨calls, h⟩ := exists_callsOf v
    obtain ⟨rest, hrest⟩ := exists_itemCalls items
    exact ⟨_, .cons h hrest⟩

theorem exists_memberCalls (members : List (Text × Value)) :
    ∃ calls, MemberCalls members calls := by
  cases members with
  | nil => exact ⟨_, .nil⟩
  | cons m members =>
    obtain ⟨calls, h⟩ := exists_callsOf m.2
    obtain ⟨rest, hrest⟩ := exists_memberCalls members
    exact ⟨_, .key m.1 h hrest⟩

end

/-- The calls for items, one after the other, are calls for the array of them. -/
theorem itemCalls_flatMap {α : Type} {value : α → Value} {callsOf : α → List Call}
    (h : ∀ a, CallsOf (value a) (callsOf a)) (items : List α) :
    ItemCalls (items.map value) (items.flatMap callsOf) := by
  induction items with
  | nil => exact .nil
  | cons a items ih => exact .cons (h a) ih

/-- What may stand between the quotes of a string. -/
inductive QuotedBody : Text → Prop where
  | nil : QuotedBody []
  /-- A byte for itself, which is no quote, no backslash and not below `32`. -/
  | plain {b : UInt8} {t : Text} (hquote : b ≠ Text.byte '"') (hescape : b ≠ Text.byte '\\')
    (hlow : ¬ b < 32) (h : QuotedBody t) : QuotedBody (b :: t)
  /-- A backslash and the letter of an escape. -/
  | letter {e : UInt8} {t : Text} (hletter : (letterEscape? e).isSome) (h : QuotedBody t) :
    QuotedBody (Text.byte '\\' :: e :: t)
  /-- A backslash, a `u` and four hexadecimal digits. -/
  | unicode {digits t : Text} (hlength : digits.length = 4)
    (hdigits : ∀ d ∈ digits, (hexValue? d).isSome) (h : QuotedBody t) :
    QuotedBody (Text.byte '\\' :: Text.byte 'u' :: (digits ++ t))

theorem isSome_hexValue?_hexDigit : ∀ b : UInt8, b < 32 →
    (hexValue? (hexDigit (b / 16))).isSome ∧ (hexValue? (hexDigit (b % 16))).isSome := by
  decide +kernel

/-- An escaped byte may stand in a string, whatever byte it is. -/
theorem QuotedBody.escapeByte {t : Text} (h : QuotedBody t) (b : UInt8) :
    QuotedBody (escapeByte b ++ t) := by
  unfold Json.escapeByte
  split
  · exact h.letter (e := Text.byte '"') rfl
  split
  · exact h.letter (e := Text.byte '\\') rfl
  split
  · exact h.letter (e := Text.byte 'n') rfl
  split
  · exact h.letter (e := Text.byte 'r') rfl
  split
  · exact h.letter (e := Text.byte 't') rfl
  split
  · next hlow =>
    have hzero : (hexValue? 48).isSome := rfl
    obtain ⟨hhigh, hlow⟩ := isSome_hexValue?_hexDigit b hlow
    have hdigits : ∀ d ∈ [48, 48, hexDigit (b / 16), hexDigit (b % 16)], (hexValue? d).isSome := by
      simp [hzero, hhigh, hlow]
    exact h.unicode rfl hdigits
  · next hquote hescape _ _ _ hlow => exact h.plain hquote hescape hlow

/-- Escaped bytes may stand in a string, whatever bytes they are. -/
theorem quotedBody_escape (t : Text) : QuotedBody (escape t) := by
  induction t with
  | nil => exact .nil
  | cons b t ih =>
    rw [escape, List.flatMap_cons]
    exact ih.escapeByte b

/-- What the calls of a writer are held to. -/
structure CallsSerialise : Prop where
  exists_calls : ∀ v : Value, ∃ calls, CallsOf v calls
  /-- No calls are for two values. -/
  unique : ∀ u v calls, CallsOf u calls → CallsOf v calls → u = v
  /-- A writer that may have something open and a key waiting adds the compact text, behind a comma
  if there has to be one. -/
  run_eq : ∀ v calls (w : Writer), CallsOf v calls → w.run calls = w.separate.append v.compact
  /-- A fresh writer is left with nothing open. -/
  run_empty : ∀ v calls, CallsOf v calls → Writer.empty.run calls = Writer.empty.append v.compact
  text_eq : ∀ v calls, CallsOf v calls → (Writer.empty.run calls).text = v.compact
  /-- A string or a name of a member stands in quotes, with all escaped between them that has to
  be, and is read up to the second one. -/
  quote_eq : ∀ t, ∃ body, quote t = Text.byte '"' :: (body ++ [Text.byte '"']) ∧
    QuotedBody body ∧ ∀ rest, readString (body ++ Text.byte '"' :: rest) = some (t, rest)
  read_text : ∀ v calls, CallsOf v calls → read? (Writer.empty.run calls).text = some v

/-- **The calls for a value write its compact text, and reading the text gives it back**, whatever
bytes are in its strings. -/
theorem calls_serialise : CallsSerialise where
  exists_calls := exists_callsOf
  unique u v calls hu hv := by
    have htext : u.text = v.text := by
      rw [Value.text, Value.text, ← hu.run_eq, ← hv.run_eq]
    have hread := read?_text u
    rw [htext, read?_text] at hread
    exact (Option.some.inj hread).symm
  run_eq v calls w h := by rw [h.run_eq, Value.write_eq]
  run_empty v calls h := by
    rw [h.run_eq, Value.write_eq]
    rfl
  text_eq v calls h := by
    rw [h.run_eq]
    exact v.text_eq_compact
  quote_eq t := ⟨escape t, rfl, quotedBody_escape t, readString_escape t⟩
  read_text v calls h := by
    rw [h.run_eq]
    exact read?_text v

/-- A container as a value, and a field behind it. -/
example : (Writer.empty.run [.beginObject, .key (Text.utf8 "a"), .beginArray, .number 1, .number 2,
    .endArray, .stringField (Text.utf8 "b") (Text.utf8 "\n"), .endObject]).text =
    Text.utf8 "\x7b\"a\":[1,2],\"b\":\"\\n\"\x7d" := by decide +kernel

end Json
end Polyphony
