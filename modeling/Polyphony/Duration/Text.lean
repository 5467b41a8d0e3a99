/-
# Durations as text and as floating point
-/

import Polyphony.Duration.Basic

namespace Polyphony
namespace Duration

/-- A duration such as `3`, `3/2`, `inf` or `overflow`. -/
def text : Duration → Text
  | .finite f =>
    if f.den = 1 then Decimal.digits f.num
    else Decimal.digits f.num ++ Text.byte '/' :: Decimal.digits f.den
  | .overflow => Text.utf8 "overflow"
  | .infinite => Text.utf8 "inf"

/-- A length behind a pitch or a point.  One beat is written as nothing. -/
def suffix (d : Duration) : Text := if d = ofBeats 1 then [] else d.text

/-- Approximate number of beats: both terms are rounded to binary64, then divided.
An infinite duration is the infinity of that format and `overflow` is no number. -/
def toFloat : Duration → Float
  | .finite f => f.num.toUInt64.toFloat / f.den.toUInt64.toFloat
  | .overflow => 0.0 / 0.0
  | .infinite => 1.0 / 0.0

end Duration
end Polyphony
