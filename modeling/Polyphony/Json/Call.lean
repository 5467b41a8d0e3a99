/-
# Calls of a writer

What a program writes as JSON is a list of calls, which a writer takes one after the other.
-/

import Polyphony.Json.Writer

namespace Polyphony
namespace Json

/-- A call of a writer. -/
inductive Call where
  | beginObject
  | endObject
  | beginArray
  | endArray
  | key (name : Text)
  | string (t : Text)
  | number (n : Nat)
  | stringField (name t : Text)
  | numberField (name : Text) (n : Nat)

namespace Writer

/-- What a call does. -/
def call (w : Writer) : Call → Writer
  | .beginObject => w.beginObject
  | .endObject => w.endObject
  | .beginArray => w.beginArray
  | .endArray => w.endArray
  | .key name => w.key name
  | .string t => w.string t
  | .number n => w.number n
  | .stringField name t => w.stringField name t
  | .numberField name n => w.numberField name n

/-- Calls one after the other. -/
def run (w : Writer) (calls : List Call) : Writer := calls.foldl call w

theorem run_cons (w : Writer) (c : Call) (calls : List Call) :
    w.run (c :: calls) = (w.call c).run calls := rfl

theorem run_append (w : Writer) (first second : List Call) :
    w.run (first ++ second) = (w.run first).run second := List.foldl_append

end Writer
end Json
end Polyphony
