/-
# The program

Hands the arguments to `CommandLine.run` and writes what comes back.
-/

import Polyphony.CommandLine.Run

namespace Polyphony

/-- Writes bytes as they are. -/
def writeText (stream : IO.FS.Stream) (t : Text) : IO Unit :=
  stream.write (ByteArray.mk t.toArray)

end Polyphony

def main (arguments : List String) : IO UInt32 := do
  let outcome := Polyphony.CommandLine.run (arguments.map Polyphony.Text.utf8)
  Polyphony.writeText (← IO.getStdout) outcome.output
  Polyphony.writeText (← IO.getStderr) outcome.report
  return outcome.exit.toUInt32
