/-
# Instruments

An instrument is the program number that a device selects it by.  A program number
is a byte, of which General MIDI names the lower 128 values; a number above them
shares the name of the one 128 below.
-/

import Polyphony.Text
import Polyphony.Instrument.Names

namespace Polyphony

/-- An instrument, as its program number. -/
structure Instrument where
  /-- Program number. -/
  program : UInt8
deriving DecidableEq, Inhabited

namespace Instrument

/-- Place of a program number among the names. -/
def nameIndex (i : Instrument) : Fin 128 :=
  ⟨i.program.toNat % 128, Nat.mod_lt _ (by decide)⟩

/-- Name of an instrument, such as `PIANO` or `CHURCH_ORGAN`. -/
def name (i : Instrument) : Text := Text.utf8 names[i.nameIndex]

/-- The spelling of a name that the table uses: capitals, and `_` for blank and `-`. -/
def normalName (t : Text) : Text :=
  t.map fun b => if b = Text.byte ' ' ∨ b = Text.byte '-' then Text.byte '_' else Text.upper b

/-- The instrument of a name, in either case and with blanks, `-` or `_` between its
words.  A zero byte ends the name. -/
def ofName? (t : Text) : Option Instrument :=
  (names.toList.findIdx? fun n => Text.utf8 n == normalName t.beforeNul).map
    fun i => ⟨i.toUInt8⟩

/-- The grand piano, for whoever names no instrument. -/
def piano : Instrument := ⟨0⟩

/-- The violin. -/
def violin : Instrument := ⟨40⟩

/-- The cello. -/
def cello : Instrument := ⟨42⟩

example : violin.name = Text.utf8 "VIOLIN" ∧ cello.name = Text.utf8 "CELLO" := by decide

end Instrument
end Polyphony
