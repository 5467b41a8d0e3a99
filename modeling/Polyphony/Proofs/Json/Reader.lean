/-
# Reading JSON

A reader for the values of this library.  It takes JSON as it may be written by anyone:

| text | what is read |
| --- | --- |
| digits, with no needless `0` at their front | a number |
| bytes in quotes, with escapes by `\` | a string |
| values in brackets, with single commas between them | an array |
| members in braces, with single commas between them | an object |

Blanks may stand around each of these and around brackets, commas and colons, and nothing else
may be left when a value has been read.  Bytes above `127` stand for themselves in a string, as
they do in every text.  No value of the library stands for a sign, a fraction,
an exponent, `true`, `false`, `null` or half of a surrogate pair, so these are refused.

Reading undoes writing (`read?_text`).  A number ends where its digits do, so what comes behind
a value must not begin with a digit (`Ends`); whatever closes or separates values does not.
-/

import Polyphony.Proofs.Json.Compact

namespace Polyphony
namespace Json

/-- Blank, tab, line feed or carriage return. -/
def isBlank (b : UInt8) : Bool := b == 32 || b == 9 || b == 10 || b == 13

/-- What is behind a byte, which may have blanks in front. -/
def expect (b : UInt8) (t : Text) : Option Text :=
  match t.dropWhile isBlank with
  | [] => none
  | c :: t => if c = b then some t else none

/-- What a hexadecimal digit stands for. -/
def hexValue? (b : UInt8) : Option Nat :=
  if 48 ≤ b ∧ b ≤ 57 then some (b.toNat - 48)
  else if 97 ≤ b ∧ b ≤ 102 then some (b.toNat - 87)
  else if 65 ≤ b ∧ b ≤ 70 then some (b.toNat - 55)
  else none

/-- The character of a number in hexadecimal digits, in UTF-8. -/
def unicodeEscape? (digits : Text) : Option Text :=
  (digits.mapM hexValue?).bind fun values =>
    let code := values.foldl (fun code d => 16 * code + d) 0
    if h : code.isValidChar then some (String.utf8EncodeChar (Char.ofNatAux code h)) else none

/-- What the letter of an escape stands for. -/
def letterEscape? (b : UInt8) : Option UInt8 :=
  [(Text.byte '"', Text.byte '"'), (Text.byte '\\', Text.byte '\\'), (Text.byte '/', Text.byte '/'),
    (Text.byte 'b', 8), (Text.byte 'f', 12), (Text.byte 'n', 10), (Text.byte 'r', 13),
    (Text.byte 't', 9)].lookup b

/-- Reads a string behind its first quote. -/
def readString : Text → Option (Text × Text)
  | [] => none
  | b :: t =>
    if b = Text.byte '"' then some ([], t)
    else if b = Text.byte '\\' then
      match t with
      | [] => none
      | e :: t =>
        if e = Text.byte 'u' then
          match t with
          | h₁ :: h₂ :: h₃ :: h₄ :: t =>
            (unicodeEscape? [h₁, h₂, h₃, h₄]).bind fun s =>
              (readString t).map (Prod.map (s ++ ·) id)
          | _ => none
        else (letterEscape? e).bind fun c => (readString t).map (Prod.map (c :: ·) id)
    else if b < 32 then none
    else (readString t).map (Prod.map (b :: ·) id)

/-- Reads a number. -/
def readNumber (t : Text) : Option (Nat × Text) :=
  let digits := t.takeWhile Decimal.isDigit
  if digits = [] ∨ digits.head? = some 48 ∧ digits ≠ [48] then none
  else some (Decimal.value digits, t.dropWhile Decimal.isDigit)

section

variable {α : Type} (item : Text → Option (α × Text)) (close : UInt8)

/-- Reads items with commas between them up to the closing bracket. -/
def readItems : (limit : Nat) → Text → Option (List α × Text)
  | 0, _ => none
  | limit + 1, t => do
    let (x, t) ← item t
    match expect close t with
    | some t => some ([x], t)
    | none =>
      let t ← expect (Text.byte ',') t
      let (xs, t) ← readItems limit t
      some (x :: xs, t)

/-- Reads what is in brackets behind the opening one. -/
def readEnclosed (limit : Nat) (t : Text) : Option (List α × Text) :=
  match expect close t with
  | some t => some ([], t)
  | none => readItems item close limit t

end

/-- Reads a member of an object. -/
def readMember (value : Text → Option (Value × Text)) (t : Text) :
    Option ((Text × Value) × Text) := do
  let t ← expect (Text.byte '"') t
  let (name, t) ← readString t
  let t ← expect (Text.byte ':') t
  let (v, t) ← value t
  some ((name, v), t)

/-- Reads a value that is nested no deeper, and holds no more items, than a limit. -/
def readValue : (limit : Nat) → Text → Option (Value × Text)
  | 0, _ => none
  | limit + 1, t =>
    match expect (Text.byte '"') t, expect (Text.byte '[') t, expect 123 t with
    | some t, _, _ => (readString t).map (Prod.map .string id)
    | _, some t, _ =>
      (readEnclosed (readValue limit) (Text.byte ']') limit t).map (Prod.map .array id)
    | _, _, some t =>
      (readEnclosed (readMember (readValue limit)) 125 limit t).map (Prod.map .object id)
    | none, none, none => (readNumber (t.dropWhile isBlank)).map (Prod.map .number id)

/-- The value that a whole text stands for.  Neither depth nor items exceed its length. -/
def read? (t : Text) : Option Value :=
  (readValue t.length t).bind fun (v, rest) =>
    if rest.all isBlank then some v else none

variable {b c : UInt8} {t rest : Text}

theorem expect_self (h : isBlank b = false) (t : Text) : expect b (b :: t) = some t := by
  rw [expect, List.dropWhile_cons_of_neg (by simp [h])]
  exact if_pos rfl

theorem expect_of_ne (h : isBlank c = false) (hne : c ≠ b) (t : Text) :
    expect b (c :: t) = none := by
  rw [expect, List.dropWhile_cons_of_neg (by simp [h])]
  exact if_neg hne

/-- What is behind a number does not go on with a digit. -/
def Ends (rest : Text) : Prop := ∀ b ∈ rest.head?, Decimal.isDigit b = false

theorem ends_nil : Ends [] := by
  intro b hb
  cases hb

theorem ends_cons (h : Decimal.isDigit b = false) (t : Text) : Ends (b :: t) := by
  intro c hc
  obtain rfl := Option.some.inj hc
  exact h

/-- No number but zero begins with a zero. -/
theorem head?_digits_ne_zero {n : Nat} (h : 0 < n) : (Decimal.digits n).head? ≠ some 48 := by
  induction n using Nat.strongRecOn with
  | _ n ih =>
    rw [Decimal.digits_eq]
    split
    · next hn =>
      intro hzero
      have hdigit := congrArg UInt8.toNat (Option.some.inj hzero)
      rw [Decimal.digit_toNat hn] at hdigit
      change 48 + n = 48 at hdigit
      omega
    · next hn =>
      rw [List.head?_append_of_ne_nil _ (Decimal.digits_ne_nil _)]
      exact ih (n / 10) (by omega) (by omega)

theorem readNumber_digits (n : Nat) (h : Ends rest) :
    readNumber (Decimal.digits n ++ rest) = some (n, rest) := by
  have hall : ∀ b ∈ Decimal.digits n, Decimal.isDigit b = true :=
    List.all_eq_true.1 (Decimal.all_isDigit_digits n)
  obtain ⟨htake, hdrop⟩ := Text.takeWhile_dropWhile_append hall h
  have hcanonical : ¬ (Decimal.digits n = [] ∨
      (Decimal.digits n).head? = some 48 ∧ Decimal.digits n ≠ [48]) := by
    rintro (hnil | ⟨hzero, hne⟩)
    · exact Decimal.digits_ne_nil n hnil
    · rcases Nat.eq_zero_or_pos n with rfl | hpos
      · exact hne (Decimal.digits_eq 0)
      · exact head?_digits_ne_zero hpos hzero
  rw [readNumber, htake, hdrop, if_neg hcanonical, Decimal.value_digits]

theorem readString_letter {e : UInt8} (hu : e ≠ Text.byte 'u') (h : letterEscape? e = some c)
    (t : Text) : readString (Text.byte '\\' :: e :: t) =
      (readString t).map (Prod.map (c :: ·) id) := by
  have hquote : Text.byte '\\' ≠ Text.byte '"' := by decide
  rw [readString.eq_def]
  simp only [if_neg hquote, if_true, if_neg hu, h, Option.bind_some]

theorem readString_unicode {h₁ h₂ h₃ h₄ : UInt8} {s : Text}
    (h : unicodeEscape? [h₁, h₂, h₃, h₄] = some s) (t : Text) :
    readString (Text.byte '\\' :: Text.byte 'u' :: h₁ :: h₂ :: h₃ :: h₄ :: t) =
      (readString t).map (Prod.map (s ++ ·) id) := by
  have hquote : Text.byte '\\' ≠ Text.byte '"' := by decide
  rw [readString.eq_def]
  simp only [if_neg hquote, if_true, h, Option.bind_some]

theorem readString_plain {b : UInt8} (hquote : b ≠ Text.byte '"') (hescape : b ≠ Text.byte '\\')
    (hlow : ¬ b < 32) (t : Text) :
    readString (b :: t) = (readString t).map (Prod.map (b :: ·) id) := by
  rw [readString.eq_def]
  simp only [if_neg hquote, if_neg hescape, if_neg hlow]

/-- The escapes of the bytes below a blank. -/
theorem unicodeEscape?_hexDigit : ∀ b : UInt8, b < 32 →
    unicodeEscape? [48, 48, hexDigit (b / 16), hexDigit (b % 16)] = some [b] := by
  decide +kernel

/-- An escaped byte is read as the byte. -/
theorem readString_escapeByte (b : UInt8) (t : Text) :
    readString (escapeByte b ++ t) = (readString t).map (Prod.map (b :: ·) id) := by
  unfold escapeByte
  split
  · next h => exact h ▸ readString_letter (by decide) (by decide) t
  split
  · next h => exact h ▸ readString_letter (by decide) (by decide) t
  split
  · next h => exact h ▸ readString_letter (by decide) (by decide) t
  split
  · next h => exact h ▸ readString_letter (by decide) (by decide) t
  split
  · next h => exact h ▸ readString_letter (by decide) (by decide) t
  split
  · next h => exact readString_unicode (unicodeEscape?_hexDigit b h) t
  · next hquote hescape _ _ _ hlow => exact readString_plain hquote hescape hlow t

theorem readString_escape (s rest : Text) :
    readString (escape s ++ Text.byte '"' :: rest) = some (s, rest) := by
  induction s with
  | nil =>
    show readString (Text.byte '"' :: rest) = _
    rw [readString.eq_def]
    exact if_pos rfl
  | cons b s ih =>
    rw [escape, List.flatMap_cons, List.append_assoc, readString_escapeByte]
    rw [escape] at ih
    rw [ih]
    rfl

section

variable {α : Type} {item : Text → Option (α × Text)} {close : UInt8} {write : α → Text}

/-- A byte that closes brackets is no blank, no digit and no comma. -/
structure Closes (close : UInt8) : Prop where
  not_blank : isBlank close = false
  not_digit : Decimal.isDigit close = false
  ne_comma : close ≠ Text.byte ','

theorem closes_bracket : Closes (Text.byte ']') := ⟨by decide, by decide, by decide⟩

theorem closes_brace : Closes 125 := ⟨by decide, by decide, by decide⟩

/-- Items are read one by one, each up to what does not go on with a digit. -/
theorem readItems_commaSeparated (hclose : Closes close) {x : α} {xs : List α}
    (hitem : ∀ y ∈ x :: xs, ∀ rest, Ends rest → item (write y ++ rest) = some (y, rest))
    {limit : Nat} (hlimit : xs.length < limit) (rest : Text) :
    readItems item close limit (commaSeparated ((x :: xs).map write) ++ close :: rest) =
      some (x :: xs, rest) := by
  induction xs generalizing x limit with
  | nil =>
    obtain ⟨limit, rfl⟩ := Nat.exists_eq_succ_of_ne_zero (Nat.ne_of_gt hlimit)
    have hx := hitem x (List.mem_singleton_self x) (close :: rest) (ends_cons hclose.not_digit rest)
    have hstop : expect close (close :: rest) = some rest := expect_self hclose.not_blank rest
    have htext : commaSeparated ([x].map write) = write x := commaSeparated_singleton _
    rw [htext, readItems, hx]
    simp only [Option.bind_eq_bind, Option.bind_some, hstop]
  | cons y ys ih =>
    obtain ⟨limit, rfl⟩ := Nat.exists_eq_succ_of_ne_zero (Nat.ne_of_gt (Nat.zero_lt_of_lt hlimit))
    have htext : commaSeparated ((x :: y :: ys).map write) ++ close :: rest = write x ++
        Text.byte ',' :: (commaSeparated ((y :: ys).map write) ++ close :: rest) := by
      rw [List.map_cons, List.map_cons, commaSeparated_cons_cons, List.append_assoc]
      rfl
    have hx := hitem x List.mem_cons_self _ (ends_cons (b := Text.byte ',') (by decide)
      (commaSeparated ((y :: ys).map write) ++ close :: rest))
    have hgo := expect_of_ne (by decide) hclose.ne_comma.symm
      (commaSeparated ((y :: ys).map write) ++ close :: rest)
    have hcomma := expect_self (by decide : isBlank (Text.byte ',') = false)
      (commaSeparated ((y :: ys).map write) ++ close :: rest)
    have hrest := ih (fun z hz => hitem z (List.mem_cons_of_mem x hz))
      (Nat.lt_of_succ_lt_succ hlimit)
    rw [htext, readItems, hx]
    simp only [Option.bind_eq_bind, Option.bind_some, hgo, hcomma, hrest]

/-- Brackets are read with what is in them, if no item begins like a closing bracket.  The
limit is enough for the items and for each of them if it is for their text. -/
theorem readEnclosed_commaSeparated (hclose : Closes close) {xs : List α} {limit : Nat}
    (hitem : ∀ y ∈ xs, (write y).length ≤ limit →
      ∀ rest, Ends rest → item (write y ++ rest) = some (y, rest))
    (hhead : ∀ y ∈ xs, ∃ b t, write y = b :: t ∧ isBlank b = false ∧ b ≠ close)
    (hlimit : (commaSeparated (xs.map write)).length ≤ limit) (rest : Text) :
    readEnclosed item close limit (commaSeparated (xs.map write) ++ close :: rest) =
      some (xs, rest) := by
  have hlength : ∀ y ∈ xs, (write y).length ≤ limit := fun y hy =>
    (length_le_of_mem_commaSeparated (List.mem_map_of_mem hy)).trans hlimit
  have hcount : xs.length ≤ limit := by
    rw [← List.length_map write]
    refine (length_le_length_commaSeparated fun t ht => ?_).trans hlimit
    obtain ⟨y, hy, rfl⟩ := List.mem_map.1 ht
    obtain ⟨b, t, hwrite, -⟩ := hhead y hy
    rw [hwrite]
    exact List.cons_ne_nil b t
  cases xs with
  | nil =>
    have hstop : expect close (close :: rest) = some rest := expect_self hclose.not_blank rest
    show readEnclosed item close limit (close :: rest) = _
    rw [readEnclosed, hstop]
  | cons x xs =>
    obtain ⟨b, t, hwrite, hblank, hne⟩ := hhead x List.mem_cons_self
    have hgo : expect close (commaSeparated ((x :: xs).map write) ++ close :: rest) = none := by
      rw [List.map_cons, commaSeparated, hwrite]
      exact expect_of_ne hblank hne _
    rw [readEnclosed, hgo]
    exact readItems_commaSeparated hclose (fun y hy => hitem y hy (hlength y hy)) hcount rest

end

/-- A byte that a number starts with starts nothing else. -/
theorem of_isDigit : ∀ b : UInt8, Decimal.isDigit b = true →
    isBlank b = false ∧ b ≠ Text.byte '"' ∧ b ≠ Text.byte '[' ∧ b ≠ 123 ∧ b ≠ Text.byte ']' := by
  decide +kernel

theorem exists_digits_eq_cons (n : Nat) :
    ∃ b t, Decimal.digits n = b :: t ∧ Decimal.isDigit b = true := by
  obtain ⟨b, t, h⟩ := List.exists_cons_of_ne_nil (Decimal.digits_ne_nil n)
  exact ⟨b, t, h, List.all_eq_true.1 (Decimal.all_isDigit_digits n) b (h ▸ List.mem_cons_self)⟩

namespace Value

/-- No value begins with a blank or closes an array. -/
theorem exists_compact_eq_cons (v : Value) :
    ∃ b t, v.compact = b :: t ∧ isBlank b = false ∧ b ≠ Text.byte ']' := by
  cases v with
  | number n =>
    obtain ⟨b, t, h, hb⟩ := exists_digits_eq_cons n
    obtain ⟨hblank, -, -, -, hne⟩ := of_isDigit b hb
    exact ⟨b, t, h, hblank, hne⟩
  | string s => exact ⟨_, _, rfl, by decide, by decide⟩
  | array items => exact ⟨_, _, rfl, by decide, by decide⟩
  | object members => exact ⟨_, _, rfl, by decide, by decide⟩

theorem compact_ne_nil (v : Value) : v.compact ≠ [] := by
  obtain ⟨b, t, h, -⟩ := v.exists_compact_eq_cons
  rw [h]
  exact List.cons_ne_nil b t

end Value

theorem readMember_memberText {value : Text → Option (Value × Text)} {v : Value} {t rest : Text}
    (h : value (t ++ rest) = some (v, rest)) (name : Text) :
    readMember value (memberText name t ++ rest) = some ((name, v), rest) := by
  have htext : memberText name t ++ rest =
      Text.byte '"' :: (escape name ++ Text.byte '"' :: Text.byte ':' :: (t ++ rest)) := by
    simp [memberText, quote]
  have hquote := expect_self (by decide : isBlank (Text.byte '"') = false)
    (escape name ++ Text.byte '"' :: Text.byte ':' :: (t ++ rest))
  have hcolon := expect_self (by decide : isBlank (Text.byte ':') = false) (t ++ rest)
  rw [htext, readMember, hquote]
  simp only [Option.bind_eq_bind, Option.bind_some, readString_escape, hcolon, h]

/-- A value is read up to what does not go on with a digit.  Induction is on the limit, which
the length of a value is enough for, as it is for its items. -/
theorem readValue_compact {limit : Nat} {v : Value} (hlimit : v.compact.length ≤ limit)
    (h : Ends rest) : readValue limit (v.compact ++ rest) = some (v, rest) := by
  induction limit generalizing v rest with
  | zero => exact absurd (List.length_eq_zero_iff.1 (Nat.le_zero.1 hlimit)) v.compact_ne_nil
  | succ limit ih =>
    cases v with
    | number n =>
      obtain ⟨b, t, hdigits, hb⟩ := exists_digits_eq_cons n
      obtain ⟨hblank, hquote, hbracket, hbrace, -⟩ := of_isDigit b hb
      have htext : (Value.number n).compact ++ rest = b :: (t ++ rest) := by
        rw [Value.compact, hdigits, List.cons_append]
      have hread := readNumber_digits n h
      rw [hdigits, List.cons_append] at hread
      rw [htext, readValue, expect_of_ne hblank hquote, expect_of_ne hblank hbracket,
        expect_of_ne hblank hbrace, List.dropWhile_cons_of_neg (by simp [hblank]), hread]
      rfl
    | string s =>
      have htext : (Value.string s).compact ++ rest =
          Text.byte '"' :: (escape s ++ Text.byte '"' :: rest) := by
        simp [Value.compact, quote]
      rw [htext, readValue, expect_self (by decide)]
      simp [readString_escape]
    | array items =>
      rw [Value.compact, Value.itemTexts_eq_map] at hlimit ⊢
      have hitem : ∀ v ∈ items, v.compact.length ≤ limit →
          ∀ rest, Ends rest → readValue limit (v.compact ++ rest) = some (v, rest) :=
        fun _ _ hv _ hrest => ih hv hrest
      have hread := readEnclosed_commaSeparated closes_bracket hitem
        (fun v _ => v.exists_compact_eq_cons)
        (by simp only [List.length_cons, List.length_append] at hlimit; omega) rest
      rw [List.cons_append, List.append_assoc, readValue, expect_of_ne (by decide) (by decide),
        expect_self (by decide)]
      simp only [List.singleton_append, hread, Option.map_some]
      rfl
    | object members =>
      rw [Value.compact, Value.memberTexts_eq_map] at hlimit ⊢
      have hmember : ∀ m ∈ members, (memberText m.1 m.2.compact).length ≤ limit →
          ∀ rest, Ends rest → readMember (readValue limit) (memberText m.1 m.2.compact ++ rest) =
            some (m, rest) := by
        intro m _ hm rest hrest
        refine readMember_memberText (ih ?_ hrest) m.1
        simp only [memberText, List.length_append, List.length_cons] at hm
        omega
      have hread := readEnclosed_commaSeparated closes_brace hmember
        (fun m _ => ⟨_, _, rfl, by decide, by decide⟩)
        (by simp only [List.length_cons, List.length_append] at hlimit; omega) rest
      rw [List.cons_append, List.append_assoc, readValue, expect_of_ne (by decide) (by decide),
        expect_of_ne (by decide) (by decide), expect_self (by decide)]
      simp only [List.singleton_append, hread, Option.map_some]
      rfl

/-- **Reading undoes writing.** -/
theorem read?_text (v : Value) : read? v.text = some v := by
  have hread := readValue_compact (Nat.le_refl v.compact.length) ends_nil
  rw [List.append_nil] at hread
  rw [v.text_eq_compact, read?, hread]
  rfl

/-- Blanks are skipped, and a letter may be spelled by its number. -/
example : read? (Text.utf8 " [ 1 , \"\\u0041\" ] ") =
    some (.array [.number 1, .string (Text.utf8 "A")]) := by rfl

/-- A comma too many, a needless zero, a word behind the value. -/
example : (read? (Text.utf8 "[1,]")).isNone ∧ (read? (Text.utf8 "[01]")).isNone ∧
    (read? (Text.utf8 "[1] x")).isNone := by decide +kernel

end Json
end Polyphony
