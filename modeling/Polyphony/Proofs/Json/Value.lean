/-
# JSON values

The values that this library writes: natural numbers, strings, arrays, and objects
as lists of members in the order in which they are written.
-/

import Polyphony.Json.Writer

namespace Polyphony
namespace Json

/-- A JSON value. -/
inductive Value where
  /-- A natural number. -/
  | number (n : Nat)
  /-- A string, as its bytes. -/
  | string (t : Text)
  /-- The items of an array in order. -/
  | array (items : List Value)
  /-- The members of an object in order. -/
  | object (members : List (Text × Value))

namespace Value

mutual

/-- Writes a value. -/
def write : Value → Writer → Writer
  | .number n, w => w.number n
  | .string t, w => w.string t
  | .array items, w => (writeItems items w.beginArray).endArray
  | .object members, w => (writeMembers members w.beginObject).endObject

/-- Writes the items of an array one after the other. -/
def writeItems : List Value → Writer → Writer
  | [], w => w
  | v :: items, w => writeItems items (v.write w)

/-- Writes the members of an object one after the other. -/
def writeMembers : List (Text × Value) → Writer → Writer
  | [], w => w
  | (name, v) :: members, w => writeMembers members (v.write (w.key name))

end

/-- A value as compact JSON. -/
def text (v : Value) : Text := (v.write .empty).text

end Value
end Json
end Polyphony
