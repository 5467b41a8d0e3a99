/-
# Kinds of failure

What went wrong is told by the causes of each part of the library; a kind sorts the
causes of all parts into one short list, whose names and numbers users see.  Number
`0` is no failure at all.
-/

import Polyphony.Text

namespace Polyphony

/-- What sort of thing went wrong. -/
inductive FailureKind where
  /-- A symbol does not follow the notation. -/
  | badNotation
  /-- More instruments than channels. -/
  | channelsExhausted
  /-- An argument that an ensemble cannot be formed with. -/
  | badArgument
  /-- Playback settings out of range. -/
  | badConfig
  /-- A note without a key. -/
  | noteOutOfRange
  /-- An event past the last tick. -/
  | scheduleTooLong
  /-- A duration that grew too large. -/
  | durationOverflow
  /-- A number that no kind has. -/
  | unlisted (code : UInt8)
deriving DecidableEq

namespace FailureKind

/-- The kind of a number; `0` is none. -/
def ofCode? (code : UInt8) : Option FailureKind :=
  match code with
  | 0 => none
  | 1 => some .badNotation
  | 2 => some .channelsExhausted
  | 3 => some .badArgument
  | 4 => some .badConfig
  | 5 => some .noteOutOfRange
  | 6 => some .scheduleTooLong
  | 7 => some .durationOverflow
  | code => some (.unlisted code)

theorem ofCode?_eq_none_iff {code : UInt8} : ofCode? code = none ↔ code = 0 := by
  constructor
  · intro h; unfold ofCode? at h; split at h <;> simp_all
  · rintro rfl; rfl

/-- Name of a kind. -/
def name : FailureKind → Text
  | .badNotation => Text.utf8 "ParseError"
  | .channelsExhausted => Text.utf8 "ChannelCapacityExceeded"
  | .badArgument => Text.utf8 "PreconditionViolation"
  | .badConfig => Text.utf8 "InvalidConfig"
  | .noteOutOfRange => Text.utf8 "NoteOutOfRange"
  | .scheduleTooLong => Text.utf8 "ScheduleTooLong"
  | .durationOverflow => Text.utf8 "DurationOverflow"
  | .unlisted _ => Text.utf8 "Unknown"

/-- Name of what went wrong, if anything did. -/
def nameOf : Option FailureKind → Text
  | some kind => kind.name
  | none => Text.utf8 "None"

end FailureKind
end Polyphony
