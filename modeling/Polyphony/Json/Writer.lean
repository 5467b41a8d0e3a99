/-
# Writing JSON piece by piece

A writer grows a compact JSON text call by call and puts the commas itself.  It
remembers, for each open container, whether that container holds something yet,
and whether a key still waits for its value:

* a value or a key first writes `,` if its container holds something already, and
  nothing if it follows a key;
* brackets are not matched: closing more than was opened writes the bracket and
  does no more.

Strings escape `"`, `\`, newline, carriage return and tab by two characters and
every other byte below 32 as `\u00` and two hexadecimal digits; all other bytes
stand for themselves.
-/

import Polyphony.Text.Decimal

namespace Polyphony
namespace Json

/-- Hexadecimal digit of a number below sixteen. -/
def hexDigit (d : UInt8) : UInt8 := if d < 10 then 48 + d else 87 + d

/-- How one byte is written inside a string. -/
def escapeByte (b : UInt8) : Text :=
  if b = Text.byte '"' then Text.utf8 "\\\""
  else if b = Text.byte '\\' then Text.utf8 "\\\\"
  else if b = Text.byte '\n' then Text.utf8 "\\n"
  else if b = Text.byte '\r' then Text.utf8 "\\r"
  else if b = Text.byte '\t' then Text.utf8 "\\t"
  else if b < 32 then Text.utf8 "\\u00" ++ [hexDigit (b / 16), hexDigit (b % 16)]
  else [b]

/-- How a text is written inside a string. -/
def escape (t : Text) : Text := t.flatMap escapeByte

/-- A text as a JSON string. -/
def quote (t : Text) : Text := Text.byte '"' :: escape t ++ [Text.byte '"']

/-- A JSON text under construction. -/
structure Writer where
  /-- Bytes written so far, the newest first. -/
  reversed : Text
  /-- For each open container, the innermost first: does it hold something? -/
  filled : List Bool
  /-- Does a key wait for its value? -/
  afterKey : Bool

namespace Writer

/-- The writer that has written nothing. -/
def empty : Writer := ⟨[], [], false⟩

/-- What has been written so far. -/
def text (w : Writer) : Text := w.reversed.reverse

/-- Writes bytes as they are. -/
def append (w : Writer) (t : Text) : Writer := { w with reversed := t.reverseAux w.reversed }

@[simp] theorem text_append (w : Writer) (t : Text) : (w.append t).text = w.text ++ t := by
  simp [append, text]

@[simp] theorem filled_append (w : Writer) (t : Text) : (w.append t).filled = w.filled := rfl

@[simp] theorem afterKey_append (w : Writer) (t : Text) : (w.append t).afterKey = w.afterKey := rfl

/-- Makes room for a key or a value: ends the wait of a key, or writes the comma and
marks the innermost container as holding something. -/
def separate (w : Writer) : Writer :=
  if w.afterKey then { w with afterKey := false }
  else match w.filled with
    | [] => w
    | false :: outer => { w with filled := true :: outer }
    | true :: _ => w.append [Text.byte ',']

/-- Opens a container by its bracket. -/
def opening (w : Writer) (bracket : UInt8) : Writer :=
  let w := w.separate.append [bracket]
  { w with filled := false :: w.filled }

/-- Closes the innermost container by its bracket. -/
def closing (w : Writer) (bracket : UInt8) : Writer :=
  let w := w.append [bracket]
  { w with filled := w.filled.tail }

/-- Opens an object. -/
def beginObject (w : Writer) : Writer := w.opening 123

/-- Closes an object. -/
def endObject (w : Writer) : Writer := w.closing 125

/-- Opens an array. -/
def beginArray (w : Writer) : Writer := w.opening (Text.byte '[')

/-- Closes an array. -/
def endArray (w : Writer) : Writer := w.closing (Text.byte ']')

/-- Writes the key of a member; its value comes next. -/
def key (w : Writer) (name : Text) : Writer :=
  { w.separate.append (quote name ++ [Text.byte ':']) with afterKey := true }

/-- Writes a string. -/
def string (w : Writer) (t : Text) : Writer := w.separate.append (quote t)

/-- Writes a natural number. -/
def number (w : Writer) (n : Nat) : Writer := w.separate.append (Decimal.digits n)

/-- Writes a member whose value is a string. -/
def stringField (w : Writer) (name t : Text) : Writer := (w.key name).string t

/-- Writes a member whose value is a number. -/
def numberField (w : Writer) (name : Text) (n : Nat) : Writer := (w.key name).number n

end Writer
end Json
end Polyphony
