/-
# Pieces as text

Notes and rests are written in notation: the pitch or a point, and the length unless
it is one beat.  Pieces in sequence stand side by side, which is notation again;
`together(a |||| b)` and `forever(a)` are for the reader's eye only.
-/

import Polyphony.Duration.Text
import Polyphony.Piece.Basic

namespace Polyphony

namespace Piece

/-- The text of a piece, written before `after`. -/
def textBefore : Piece → Text → Text
  | .note d p _, after => p.text ++ (d.suffix ++ after)
  | .rest d, after => Text.byte '.' :: (d.suffix ++ after)
  | .concat a b, after => a.textBefore (Text.byte ' ' :: b.textBefore after)
  | .together a b, after =>
    Text.utf8 "together(" ++
      a.textBefore (Text.utf8 " |||| " ++ b.textBefore (Text.byte ')' :: after))
  | .forever a, after => Text.utf8 "forever(" ++ a.textBefore (Text.byte ')' :: after)

/-- The text of a piece. -/
def text (p : Piece) : Text := p.textBefore []

end Piece
end Polyphony
