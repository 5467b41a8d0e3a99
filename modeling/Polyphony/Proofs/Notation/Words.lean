/-
# The words of a text

The symbols of a text are its words: the runs of bytes that are no delimiters and cannot be
made longer at either end, from left to right (`Spaced.areRuns`).  What stands between them
does not matter, and so a text is taken apart word by word (`Spaced`):

| text | words |
| --- | --- |
| nothing but delimiters | none |
| delimiters, a word, and then nothing or a delimiter | the word, and those of what is behind it |

`scan` does so with a cursor that passes delimiters and then a word, reads the word, and goes on
from there.  It ends at the first mistake or where no word is left, and else the cursor has come
forward by a byte at least.  It reads what is read of the words (`Spaced.scan_eq`).
-/

import Mathlib.Data.List.TakeWhile
import Polyphony.Proofs.Notation.Reading
import Polyphony.Proofs.Notation.Spelling

namespace Polyphony
namespace Notation

/-- A text as words between delimiters. -/
inductive Spaced : Text → List Text → Prop where
  | blank {t : Text} (h : ∀ b ∈ t, isDelimiter b = true) : Spaced t []
  | word {blanks word behind : Text} {words : List Text}
    (hblanks : ∀ b ∈ blanks, isDelimiter b = true) (hne : word ≠ [])
    (hword : ∀ b ∈ word, isDelimiter b = false)
    (hbehind : ∀ b ∈ behind.head?, isDelimiter b = true) (h : Spaced behind words) :
    Spaced (blanks ++ (word ++ behind)) (word :: words)

namespace Spaced

variable {t : Text} {words : List Text} {b : UInt8}

theorem cons_delimiter (hb : isDelimiter b = true) (h : Spaced t words) :
    Spaced (b :: t) words := by
  cases h with
  | blank ht => exact .blank (List.forall_mem_cons.2 ⟨hb, ht⟩)
  | word hblanks hne hword hbehind h =>
    exact .word (List.forall_mem_cons.2 ⟨hb, hblanks⟩) hne hword hbehind h

/-- In front of a delimiter or of nothing, a byte is a word by itself. -/
theorem cons_alone (hb : isDelimiter b = false) (ht : ∀ b ∈ t.head?, isDelimiter b = true)
    (h : Spaced t words) : Spaced (b :: t) ([b] :: words) :=
  @word [] [b] t words (fun _ h => absurd h List.not_mem_nil) (List.cons_ne_nil b [])
    (fun _ h => List.mem_singleton.1 h ▸ hb) ht h

/-- In front of a word, a byte makes it longer. -/
theorem exists_cons (hb : isDelimiter b = false) (h : Spaced t words) :
    ∃ words', Spaced (b :: t) words' := by
  cases h with
  | blank ht =>
    exact ⟨_, cons_alone hb (fun c hc => ht c (List.mem_of_mem_head? hc)) (.blank ht)⟩
  | @word blanks word behind words hblanks hne hword hbehind h =>
    cases blanks with
    | nil =>
      exact ⟨_, .word hblanks (List.cons_ne_nil b word) (List.forall_mem_cons.2 ⟨hb, hword⟩)
        hbehind h⟩
    | cons c blanks =>
      have hc : ∀ d ∈ (c :: blanks ++ (word ++ behind)).head?, isDelimiter d = true := by
        intro d hd
        exact Option.some.inj hd ▸ hblanks c (List.mem_cons_self ..)
      exact ⟨_, cons_alone hb hc (.word hblanks hne hword hbehind h)⟩

end Spaced

/-- Every text is words between delimiters. -/
theorem exists_spaced (t : Text) : ∃ words, Spaced t words := by
  induction t with
  | nil => exact ⟨[], .blank fun _ h => absurd h List.not_mem_nil⟩
  | cons b t ih =>
    obtain ⟨words, h⟩ := ih
    cases hb : isDelimiter b with
    | true => exact ⟨words, h.cons_delimiter hb⟩
    | false => exact h.exists_cons hb

/-- A word goes on for as long as no delimiter comes. -/
theorem takeWhile_dropWhile_word {word behind : Text}
    (hword : ∀ b ∈ word, isDelimiter b = false)
    (hbehind : ∀ b ∈ behind.head?, isDelimiter b = true) :
    (word ++ behind).takeWhile (fun b => !isDelimiter b) = word ∧
      (word ++ behind).dropWhile (fun b => !isDelimiter b) = behind :=
  Text.takeWhile_dropWhile_append (fun b hb => by rw [hword b hb]; rfl)
    (fun b hb => by rw [hbehind b hb]; rfl)

/-- Delimiters before a text leave no trace. -/
theorem tokens_append_of_delimiters {blanks : Text} (h : ∀ b ∈ blanks, isDelimiter b = true)
    (t : Text) : tokens (blanks ++ t) = tokens t := by
  induction blanks with
  | nil => rfl
  | cons b blanks ih =>
    obtain ⟨hb, h⟩ := List.forall_mem_cons.1 h
    exact (tokens_append_delimiter [] _ hb).trans (ih h)

/-- A word is one symbol, and what is behind it gives the others. -/
theorem tokens_word_append {word behind : Text} (hne : word ≠ [])
    (hword : ∀ b ∈ word, isDelimiter b = false)
    (hbehind : ∀ b ∈ behind.head?, isDelimiter b = true) :
    tokens (word ++ behind) = word :: tokens behind := by
  cases behind with
  | nil => rw [List.append_nil, tokens_of_not_delimiter hne hword]; rfl
  | cons c behind =>
    have hc := hbehind c rfl
    rw [tokens_append_delimiter _ _ hc, tokens_of_not_delimiter hne hword]
    exact congrArg (word :: ·) (tokens_append_delimiter [] behind hc).symm

/-- The symbols of a text are its words. -/
theorem Spaced.tokens_eq {t : Text} {words : List Text} (h : Spaced t words) :
    tokens t = words := by
  induction h with
  | @blank t ht => rw [← List.append_nil t, tokens_append_of_delimiters ht]; rfl
  | word hblanks hne hword hbehind _ ih =>
    rw [tokens_append_of_delimiters hblanks, tokens_word_append hne hword hbehind, ih]

theorem spaced_tokens (t : Text) : Spaced t (tokens t) := by
  obtain ⟨words, h⟩ := exists_spaced t
  exact h.tokens_eq ▸ h

example : tokens (Text.utf8 "| C4\t.2|| ") = [Text.utf8 "C4", Text.utf8 ".2"] := by decide

/-! ### Runs that cannot be made longer -/

/-- A word in a text, with what stands before it and behind it. -/
@[ext]
structure Place where
  /-- What stands before the word. -/
  before : Text
  /-- The word. -/
  word : Text
  /-- What stands behind the word. -/
  behind : Text

namespace Place

/-- The word is a run of bytes of the text that are no delimiters, and on either side of it
the text ends or has a delimiter. -/
structure IsMaximal (t : Text) (place : Place) : Prop where
  text_eq : place.before ++ (place.word ++ place.behind) = t
  ne_nil : place.word ≠ []
  inside : ∀ b ∈ place.word, isDelimiter b = false
  left : ∀ b ∈ place.before.getLast?, isDelimiter b = true
  right : ∀ b ∈ place.behind.head?, isDelimiter b = true

/-- The same place in a text with more before it. -/
def shift (front : Text) (place : Place) : Place := { place with before := front ++ place.before }

variable {place place' : Place} {blanks word behind t : Text}

/-- Words that begin at one place of a text are one word. -/
theorem IsMaximal.eq_of_before_eq (h : place.IsMaximal t) (h' : place'.IsMaximal t)
    (hbefore : place.before = place'.before) : place = place' := by
  have hrest : place.word ++ place.behind = place'.word ++ place'.behind := by
    refine List.append_cancel_left (h.text_eq.trans ?_)
    rw [hbefore, h'.text_eq]
  obtain ⟨htake, hdrop⟩ := takeWhile_dropWhile_word h.inside h.right
  obtain ⟨htake', hdrop'⟩ := takeWhile_dropWhile_word h'.inside h'.right
  rw [hrest] at htake hdrop
  exact Place.ext hbefore (htake.symm.trans htake') (hdrop.symm.trans hdrop')

/-- There is no word in delimiters. -/
theorem not_isMaximal_of_delimiters (h : ∀ b ∈ t, isDelimiter b = true) :
    ¬ place.IsMaximal t := by
  rintro ⟨rfl, hne, hinside, -, -⟩
  obtain ⟨b, hb⟩ := List.exists_mem_of_ne_nil _ hne
  have hmem : b ∈ place.before ++ (place.word ++ place.behind) :=
    List.mem_append_right _ (List.mem_append_left _ hb)
  cases (h b hmem).symm.trans (hinside b hb)

/-- Where a text starts with a delimiter, no word does. -/
theorem IsMaximal.before_ne_nil (h : place.IsMaximal t)
    (ht : ∀ b ∈ t.head?, isDelimiter b = true) : place.before ≠ [] := by
  intro hbefore
  obtain ⟨rfl, hne, hinside, -, -⟩ := h
  rw [hbefore, List.nil_append] at ht
  cases hword : place.word with
  | nil => exact hne hword
  | cons b word =>
    rw [hword] at ht hinside
    cases (ht b rfl).symm.trans (hinside b (List.mem_cons_self ..))

/-- A word behind the first one stays one. -/
theorem IsMaximal.shift (h : place.IsMaximal behind) (blanks : Text)
    (hbehind : ∀ b ∈ behind.head?, isDelimiter b = true) (word : Text) :
    (place.shift (blanks ++ word)).IsMaximal (blanks ++ (word ++ behind)) := by
  obtain ⟨rest, last, hbefore⟩ :=
    (List.eq_nil_or_concat place.before).resolve_left (h.before_ne_nil hbehind)
  refine ⟨?_, h.ne_nil, h.inside, fun b hb => h.left b ?_, h.right⟩
  · simp only [Place.shift, ← h.text_eq, List.append_assoc]
  · rw [Place.shift, List.getLast?_append] at hb
    rw [hbefore, List.concat_eq_append, List.getLast?_concat] at hb ⊢
    exact hb

/-- The first word of a text is one. -/
theorem isMaximal_first (hblanks : ∀ b ∈ blanks, isDelimiter b = true) (hne : word ≠ [])
    (hword : ∀ b ∈ word, isDelimiter b = false)
    (hbehind : ∀ b ∈ behind.head?, isDelimiter b = true) :
    (Place.mk blanks word behind).IsMaximal (blanks ++ (word ++ behind)) :=
  ⟨rfl, hne, hword, fun b hb => hblanks b (List.mem_of_mem_getLast? hb), hbehind⟩

/-- No word begins among delimiters that have another one behind them. -/
theorem IsMaximal.eq_nil_of_blanks {gap : Text} (h : place.IsMaximal t)
    (hblanks : ∀ b ∈ place.before ++ gap, isDelimiter b = true)
    (hrest : place.word ++ place.behind = gap ++ behind) : gap = [] := by
  cases gap with
  | nil => rfl
  | cons b gap =>
    obtain ⟨c, word, hword⟩ := List.exists_cons_of_ne_nil h.ne_nil
    rw [hword] at hrest
    obtain rfl : c = b := (List.cons.inj hrest).1
    have hdelimiter := hblanks c (List.mem_append_right _ (List.mem_cons_self ..))
    cases hdelimiter.symm.trans (h.inside c (hword ▸ List.mem_cons_self ..))

/-- No word begins within another one, as the byte before it would be no delimiter. -/
theorem IsMaximal.eq_nil_of_word {gap : Text} (h : place.IsMaximal t)
    (hbefore : place.before = blanks ++ gap) (hgap : ∀ b ∈ gap, isDelimiter b = false) :
    gap = [] := by
  rcases List.eq_nil_or_concat gap with rfl | ⟨gap, b, rfl⟩
  · rfl
  · rw [List.concat_eq_append] at hbefore hgap
    have hdelimiter : isDelimiter b = true := by
      refine h.left b ?_
      rw [hbefore, ← List.append_assoc, List.getLast?_concat]
      rfl
    cases hdelimiter.symm.trans (hgap b (List.mem_append_right _ (List.mem_singleton_self b)))

/-- A word is the first one or stands behind it. -/
theorem IsMaximal.eq_or_shift (h : place.IsMaximal (blanks ++ (word ++ behind)))
    (hblanks : ∀ b ∈ blanks, isDelimiter b = true) (hne : word ≠ [])
    (hword : ∀ b ∈ word, isDelimiter b = false)
    (hbehind : ∀ b ∈ behind.head?, isDelimiter b = true) : place = ⟨blanks, word, behind⟩ ∨
      ∃ later : Place, later.IsMaximal behind ∧ place = later.shift (blanks ++ word) := by
  have hfirst := isMaximal_first hblanks hne hword hbehind
  rcases List.append_eq_append_iff.1 h.text_eq with ⟨gap, hgap, hrest⟩ | ⟨gap, hgap, hrest⟩
  · obtain rfl := h.eq_nil_of_blanks (hgap ▸ hblanks) hrest
    exact Or.inl (h.eq_of_before_eq hfirst (hgap.trans (List.append_nil _)).symm)
  · rcases List.append_eq_append_iff.1 hrest with ⟨more, rfl, hbehind'⟩ | ⟨more, hsplit, -⟩
    · rw [← List.append_assoc] at hgap
      refine Or.inr ⟨⟨more, place.word, place.behind⟩,
        ⟨hbehind'.symm, h.ne_nil, h.inside, fun b hb => h.left b ?_, h.right⟩, ?_⟩
      · rw [hgap, List.getLast?_append, Option.mem_def.1 hb]
        rfl
      · rw [Place.shift, ← hgap]
    · have hinside : ∀ b ∈ gap, isDelimiter b = false :=
        fun b hb => hword b (hsplit ▸ List.mem_append_left _ hb)
      obtain rfl := h.eq_nil_of_word hgap hinside
      exact Or.inl (h.eq_of_before_eq hfirst (hgap.trans (List.append_nil _)))

/-- The first word and those of what is behind it are all words. -/
theorem isMaximal_iff (hblanks : ∀ b ∈ blanks, isDelimiter b = true) (hne : word ≠ [])
    (hword : ∀ b ∈ word, isDelimiter b = false)
    (hbehind : ∀ b ∈ behind.head?, isDelimiter b = true) :
    place.IsMaximal (blanks ++ (word ++ behind)) ↔ place = ⟨blanks, word, behind⟩ ∨
      ∃ later : Place, later.IsMaximal behind ∧ place = later.shift (blanks ++ word) := by
  constructor
  · exact fun h => h.eq_or_shift hblanks hne hword hbehind
  · rintro (rfl | ⟨later, hlater, rfl⟩)
    · exact isMaximal_first hblanks hne hword hbehind
    · exact hlater.shift blanks hbehind word

end Place

/-- Words that are the runs of a text, each at its place, from left to right. -/
def AreRuns (t : Text) (words : List Text) : Prop :=
  ∃ places : List Place, words = places.map Place.word ∧
    (∀ place, place ∈ places ↔ place.IsMaximal t) ∧
    places.Pairwise fun a b => a.before.length < b.before.length

/-- **The words of a text are its runs**: each of them, and nothing else, from left to right. -/
theorem Spaced.areRuns {t : Text} {words : List Text} (h : Spaced t words) : AreRuns t words := by
  induction h with
  | blank ht =>
    refine ⟨[], rfl, fun place => ?_, List.Pairwise.nil⟩
    exact iff_of_false List.not_mem_nil (Place.not_isMaximal_of_delimiters ht)
  | @word blanks word behind words hblanks hne hword hbehind _ ih =>
    obtain ⟨places, rfl, hmem, hsorted⟩ := ih
    refine ⟨⟨blanks, word, behind⟩ :: places.map (Place.shift (blanks ++ word)), ?_,
      fun place => ?_, ?_⟩
    · rw [List.map_cons, List.map_map]
      rfl
    · rw [List.mem_cons, List.mem_map, Place.isMaximal_iff hblanks hne hword hbehind]
      simp only [hmem, eq_comm]
    · refine List.pairwise_cons.2 ⟨fun place hplace => ?_, ?_⟩
      · obtain ⟨later, -, rfl⟩ := List.mem_map.1 hplace
        have hpos := List.length_pos_of_ne_nil hne
        simp only [Place.shift, List.length_append]
        omega
      · refine hsorted.map _ fun a b hab => ?_
        simp only [Place.shift, List.length_append]
        omega

/-! ### Reading with a cursor -/

/-- Reads a text from a cursor on and puts what it reads behind `p`.  The cursor passes
delimiters and then a word; where there is none, the text has been read. -/
def scan (i : Instrument) (p : Piece) (t : Text) : Except Misreading Piece :=
  if _h : (t.dropWhile isDelimiter).takeWhile (fun b => !isDelimiter b) = [] then .ok p
  else
    match readNext i p ((t.dropWhile isDelimiter).takeWhile fun b => !isDelimiter b) with
    | .error e => .error e
    | .ok p => scan i p ((t.dropWhile isDelimiter).dropWhile fun b => !isDelimiter b)
termination_by t.length
decreasing_by
  have hsplit := congrArg List.length (List.takeWhile_append_dropWhile
    (p := fun b => !isDelimiter b) (l := t.dropWhile isDelimiter))
  have hpos := List.length_pos_of_ne_nil _h
  have hle := List.length_dropWhile_le isDelimiter t
  rw [List.length_append] at hsplit
  omega

/-- A cursor reads the words of a text one after the other. -/
theorem Spaced.scan_eq {t : Text} {words : List Text} (h : Spaced t words) (i : Instrument)
    (p : Piece) : scan i p t = readAll i p words := by
  induction h generalizing p with
  | @blank t ht =>
    rw [scan, List.dropWhile_eq_nil_iff.2 ht]
    rfl
  | @word blanks word behind words hblanks hne hword hbehind _ ih =>
    have hstart : ∀ b ∈ (word ++ behind).head?, isDelimiter b = false := by
      intro b hb
      obtain ⟨c, word, rfl⟩ := List.exists_cons_of_ne_nil hne
      exact Option.some.inj hb ▸ hword c (List.mem_cons_self ..)
    have hahead := (Text.takeWhile_dropWhile_append hblanks hstart).2
    obtain ⟨htake, hdrop⟩ := takeWhile_dropWhile_word hword hbehind
    rw [scan, hahead, htake, hdrop, dif_neg hne, readAll]
    cases readNext i p word with
    | error e => rfl
    | ok p => exact ih p

end Notation
end Polyphony
