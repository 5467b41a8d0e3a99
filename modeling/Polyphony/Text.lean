/-
# Text as bytes

Everything this library reads or writes is a list of bytes, and every rule about
text is a rule about single bytes: a delimiter, a digit, a quote.  Bytes above
`127` take part in no rule and pass through unchanged, so text in UTF-8 comes out
as it went in.
-/

namespace Polyphony

/-- A text is the list of its bytes. -/
abbrev Text := List UInt8

namespace Text

/-- The bytes of a string in UTF-8. -/
def utf8 (s : String) : Text := s.toByteArray.data.toList

/-- The byte of an ASCII character. -/
def byte (c : Char) : UInt8 := c.toUInt8

/-- The part of a text before its first zero byte; the whole text if there is none. -/
def beforeNul (t : Text) : Text := t.takeWhile fun b => b != 0

theorem beforeNul_no_nul (t : Text) : 0 ∉ beforeNul t := by
  intro h
  have all : (beforeNul t).all (fun b => b != 0) = true := List.all_takeWhile
  simpa using List.all_eq_true.1 all 0 h

/-- A run of bytes that pass a test, and behind it nothing or a byte that does not. -/
theorem takeWhile_dropWhile_append {test : UInt8 → Bool} {run behind : Text}
    (hrun : ∀ b ∈ run, test b = true) (hbehind : ∀ b ∈ behind.head?, test b = false) :
    (run ++ behind).takeWhile test = run ∧ (run ++ behind).dropWhile test = behind := by
  rw [List.takeWhile_append_of_pos hrun, List.dropWhile_append_of_pos hrun]
  cases behind with
  | nil => exact ⟨List.append_nil run, rfl⟩
  | cons b behind =>
    have hb : test b = false := hbehind b rfl
    simp [hb]

/-- Upper case of an ASCII letter; every other byte stays. -/
def upper (b : UInt8) : UInt8 := if byte 'a' ≤ b ∧ b ≤ byte 'z' then b - 32 else b

end Text
end Polyphony
