/-
# Reading arguments

A command line is cut into items from left to right: a flag, a setting with its value,
a word of the score, or something that stops the program.  A setting without an
argument behind it is no option at all, so it is taken for an unknown one.

The items then change the options one after the other.
-/

import Polyphony.CommandLine.Options
import Polyphony.Notation.Symbol

namespace Polyphony
namespace CommandLine

/-- Why the program stops before it has made anything. -/
inductive Stop where
  /-- Someone asks how it is used. -/
  | help
  /-- A name that no instrument has. -/
  | unknownInstrument (value : Text)
  /-- A value that is no number in range. -/
  | badQuantity (q : Quantity) (value : Text)
  /-- A value that is no length. -/
  | badPause (value : Text)
  /-- An argument that looks like an option and is none. -/
  | unknownOption (argument : Text)
deriving DecidableEq

/-- What is wrong, in words. -/
def Stop.reason : Stop → Text
  | .help => []
  | .unknownInstrument value => Text.utf8 "unknown instrument '" ++ value ++ Text.utf8 "'"
  | .badQuantity q value =>
    q.argument ++ Text.utf8 " expects an integer from " ++ Decimal.ofInt q.lowest ++
      Text.utf8 " to " ++ Decimal.ofInt q.highest ++ Text.utf8 " (got '" ++ value ++
      Text.utf8 "')"
  | .badPause value => Text.utf8 "invalid delay '" ++ value ++ Text.utf8 "'"
  | .unknownOption argument => Text.utf8 "unknown option '" ++ argument ++ Text.utf8 "'"

/-- One thing that a command line says. -/
inductive Item where
  /-- Someone asks how the program is used. -/
  | help
  /-- An option that stands alone. -/
  | flag (f : Flag)
  /-- An option with its value. -/
  | setting (s : Setting) (value : Text)
  /-- A word of the score. -/
  | word (w : Text)
  /-- An argument that looks like an option and is none. -/
  | unknown (argument : Text)
deriving DecidableEq

namespace Item

/-- Does an argument ask how the program is used? -/
def asksHelp (argument : Text) : Bool :=
  argument == Text.utf8 "--help" || argument == Text.utf8 "-h"

/-- An argument that is neither a flag nor a setting with its value. -/
def ofPlain (argument : Text) : Item :=
  if (Text.utf8 "--").isPrefixOf argument then .unknown argument else .word argument

/-- The items of a command line. -/
def ofArguments : List Text → List Item
  | [] => []
  | argument :: more =>
    if asksHelp argument then .help :: ofArguments more
    else
      match Flag.ofArgument? argument with
      | some f => .flag f :: ofArguments more
      | none =>
        match Setting.ofArgument? argument, more with
        | some s, value :: more => .setting s value :: ofArguments more
        | some _, [] => [ofPlain argument]
        | none, more => ofPlain argument :: ofArguments more

end Item

/-- Reads a length such as `4` or `3/2`, as it stands behind the point of a rest. -/
def readPause? (value : Text) : Option Duration :=
  let rest := Notation.readingOfSymbol (Text.byte '.' :: value) .piano
  if rest.success then some rest.piece.duration else none

namespace Options

/-- Options with a setting given its value. -/
def set (o : Options) (s : Setting) (value : Text) : Except Stop Options :=
  match s with
  | .instrument =>
    match Instrument.ofName? value with
    | some i => .ok { o with instrument := i }
    | none => .error (.unknownInstrument value)
  | .pause =>
    match readPause? value with
    | some d => .ok { o with pause := d }
    | none => .error (.badPause value)
  | .demo => .ok { o with demo := value }
  | .quantity q =>
    match Decimal.readIn? q.lowest q.highest value with
    | some n => .ok (q.set n o)
    | none => .error (.badQuantity q value)

/-- Options with one more word of the score. -/
def addWord (o : Options) (w : Text) : Options := { o with score := growScore o.score w }

/-- Options changed by an item. -/
def apply (o : Options) : Item → Except Stop Options
  | .help => .error .help
  | .flag f => .ok (f.raise o)
  | .setting s value => o.set s value
  | .word w => .ok (o.addWord w)
  | .unknown argument => .error (.unknownOption argument)

/-- Options changed by items one after the other. -/
def applyAll : Options → List Item → Except Stop Options
  | o, [] => .ok o
  | o, item :: items =>
    match o.apply item with
    | .error stop => .error stop
    | .ok o => applyAll o items

/-- The options that a command line asks for. -/
def read (arguments : List Text) : Except Stop Options := applyAll {} (Item.ofArguments arguments)

end Options
end CommandLine
end Polyphony
