/-
# Pieces in memory

A machine keeps a piece as a node in memory: how it was made and of which parts, and the length
that was found then.  Nodes are never changed, so a part can be shared by many pieces, and
transposing a piece may return the piece itself (`Making.transpose`).

| machine | piece |
| --- | --- |
| `Making.note`, `Making.rest`, `Making.concat`, `Making.together`, `Making.forever` | constructors |
| `Making.transpose shift` | `Piece.transpose · shift` |
| `Node.same a b` | `p == q`, and `Piece.same p q` |
| `Node.hash a` | `p.hashCode` |

`Node.same` takes two short cuts: a node equals itself, which its place tells, and nodes whose
lengths differ are not equal.  The first is safe because no two nodes stand at one place, the
second because each node keeps the length of the piece it shows.  Both are part of what each step
of the making preserves (`Memory.Sound`), and so hold of all that was ever made
(`Memory.Reached.sound`).  No step ends in a trap (`Making.Yields`), and every piece can be made
(`Memory.makeable`).
-/

import Polyphony.Proofs.Duration.WordComparison

namespace Polyphony

/-- What is kept with every node. -/
structure Header where
  /-- Where the node stands in memory. -/
  place : Nat
  /-- The length that was found when the node was made. -/
  length : Words

/-- A piece as a machine keeps it. -/
inductive Node where
  | note (header : Header) (length : Words) (pitch : Pitch) (instrument : Instrument)
  | rest (header : Header) (length : Words)
  | concat (header : Header) (first second : Node)
  | together (header : Header) (top bottom : Node)
  | forever (header : Header) (body : Node)

namespace Node

def header : Node → Header
  | .note h .. => h
  | .rest h _ => h
  | .concat h .. => h
  | .together h .. => h
  | .forever h _ => h

/-- How a node was made. -/
def kind : Node → Piece.Kind
  | .note .. => .note
  | .rest .. => .rest
  | .concat .. => .concat
  | .together .. => .together
  | .forever .. => .forever

/-- The nodes that a node was made from. -/
def parts : Node → List Node
  | .note .. => []
  | .rest .. => []
  | .concat _ a b => [a, b]
  | .together _ a b => [a, b]
  | .forever _ a => [a]

/-- Are two pieces equal? -/
def same (a b : Node) : Bool :=
  a.header.place == b.header.place ||
    (a.kind == b.kind && a.header.length.same b.header.length &&
      match a, b with
      | .note _ d x i, .note _ e y j => d.same e && x == y && i == j
      | .rest _ d, .rest _ e => d.same e
      | .concat _ a b, .concat _ c d => same a c && same b d
      | .together _ a b, .together _ c d => same a c && same b d
      | .forever _ a, .forever _ b => same a b
      | _, _ => false)

open Piece (mix) in
/-- The hash of a piece. -/
def hash (a : Node) : UInt64 :=
  let start := mix 1 a.kind.code.toUInt64
  match a with
  | .note _ d p i =>
    mix (mix (mix start d.hash) (Int64.ofInt p.semitones).toUInt64) i.program.toUInt64
  | .rest _ d => mix start d.hash
  | .concat _ a b => mix (mix start a.hash) b.hash
  | .together _ a b => mix (mix start a.hash) b.hash
  | .forever _ a => mix start a.hash

/-- `a.Shows p`: the node `a` is the piece `p`, and it and all its parts keep their lengths. -/
inductive Shows : Node → Piece → Prop where
  | note (place : Nat) (d : Duration) (x : Pitch) (i : Instrument) :
    Shows (.note ⟨place, d.words⟩ d.words x i) (.note d x i)
  | rest (place : Nat) (d : Duration) : Shows (.rest ⟨place, d.words⟩ d.words) (.rest d)
  | concat (place : Nat) {a b : Node} {p q : Piece} (ha : Shows a p) (hb : Shows b q) :
    Shows (.concat ⟨place, (p.duration + q.duration).words⟩ a b) (.concat p q)
  | together (place : Nat) {a b : Node} {p q : Piece} (ha : Shows a p) (hb : Shows b q) :
    Shows (.together ⟨place, (max p.duration q.duration).words⟩ a b) (.together p q)
  | forever (place : Nat) {a : Node} {p : Piece} (ha : Shows a p) :
    Shows (.forever ⟨place, .infinity⟩ a) (.forever p)

end Node

/-- All nodes that were ever made, each at its place. -/
abbrev Memory := List Node

/-- The making of something that takes room in memory. -/
abbrev Making := StateT Memory (Except Trap)

namespace Making

/-- Puts a node at the next free place. -/
def store (node : Nat → Node) : Making Node :=
  fun memory => return (node memory.length, memory ++ [node memory.length])

def note (length : Words) (pitch : Pitch) (instrument : Instrument) : Making Node :=
  store fun place => .note ⟨place, length⟩ length pitch instrument

def rest (length : Words) : Making Node :=
  store fun place => .rest ⟨place, length⟩ length

/-- The length is found when a piece is made, from those of its parts. -/
def concat (first second : Node) : Making Node := do
  let total ← first.header.length.add second.header.length
  store fun place => .concat ⟨place, total⟩ first second

def together (top bottom : Node) : Making Node := do
  let longest ← top.header.length.longer bottom.header.length
  store fun place => .together ⟨place, longest⟩ top bottom

def forever (body : Node) : Making Node :=
  store fun place => .forever ⟨place, .infinity⟩ body

/-- A piece `shift` semitones higher.  What has no notes to be moved is returned as it is. -/
def transpose (shift : Int) (a : Node) : Making Node :=
  if shift = 0 then return a
  else match a with
    | .note _ length pitch instrument => note length (pitch.transpose shift) instrument
    | .rest .. => return a
    | .concat _ first second => do
      concat (← transpose shift first) (← transpose shift second)
    | .together _ top bottom => do
      together (← transpose shift top) (← transpose shift bottom)
    | .forever _ body => do forever (← transpose shift body)

end Making

/-- `Step before after`: one more piece is made, of what is there already. -/
inductive Memory.Step : Memory → Memory → Prop where
  | note {before after : Memory} {a : Node} {length : Words} (pitch : Pitch)
    (instrument : Instrument) (hlength : length.Obtainable)
    (h : Making.note length pitch instrument before = .ok (a, after)) : Step before after
  | rest {before after : Memory} {a : Node} {length : Words} (hlength : length.Obtainable)
    (h : Making.rest length before = .ok (a, after)) : Step before after
  | concat {before after : Memory} {a first second : Node} (hfirst : first ∈ before)
    (hsecond : second ∈ before) (h : Making.concat first second before = .ok (a, after)) :
    Step before after
  | together {before after : Memory} {a top bottom : Node} (htop : top ∈ before)
    (hbottom : bottom ∈ before) (h : Making.together top bottom before = .ok (a, after)) :
    Step before after
  | forever {before after : Memory} {a body : Node} (hbody : body ∈ before)
    (h : Making.forever body before = .ok (a, after)) : Step before after
  | transpose {before after : Memory} {a b : Node} (shift : Int) (hb : b ∈ before)
    (h : Making.transpose shift b before = .ok (a, after)) : Step before after

/-- Memory after any number of steps. -/
def Memory.Reached (memory : Memory) : Prop := Relation.ReflTransGen Memory.Step [] memory

namespace Node

variable {a b : Node} {p q : Piece}

/-- What holds of a node if it holds of its parts holds of every node. -/
theorem induction_parts {motive : Node → Prop} (a : Node)
    (h : ∀ a : Node, (∀ b ∈ a.parts, motive b) → motive a) : motive a := by
  induction a with
  | note | rest => exact h _ fun b hb => absurd hb List.not_mem_nil
  | concat header a b iha ihb => exact h _ (by simp [parts, iha, ihb])
  | together header a b iha ihb => exact h _ (by simp [parts, iha, ihb])
  | forever header a ih => exact h _ (by simp [parts, ih])

/-- A node keeps the length of the piece it shows. -/
theorem Shows.length_eq (h : a.Shows p) : a.header.length = p.duration.words := by
  cases h <;> rfl

/-- A node shows one piece. -/
theorem Shows.unique (hp : a.Shows p) (hq : a.Shows q) : p = q := by
  -- The kept length is a term that `cases` cannot solve for, and becomes a variable first.
  induction hp generalizing q with
  | note place d x i =>
    generalize hlength : d.words = length at hq
    cases hq with
    | note _ e _ _ => rw [Duration.words_injective hlength]
  | rest place d =>
    generalize hlength : d.words = length at hq
    cases hq with
    | rest _ e => rw [Duration.words_injective hlength]
  | concat place _ _ iha ihb =>
    generalize Duration.words _ = length at hq
    cases hq with
    | concat _ ha hb => rw [iha ha, ihb hb]
  | together place _ _ iha ihb =>
    generalize Duration.words _ = length at hq
    cases hq with
    | together _ ha hb => rw [iha ha, ihb hb]
  | forever place _ ih =>
    cases hq with
    | forever _ ha => rw [ih ha]

/-- The hash of a node is that of the piece it shows. -/
theorem Shows.hash_eq (h : a.Shows p) : a.hash = p.hashCode := by
  induction h with
  | note place d x i => rw [hash, Words.hash_words]; rfl
  | rest place d => rw [hash, Words.hash_words]; rfl
  | concat place _ _ iha ihb => rw [hash, iha, ihb]; rfl
  | together place _ _ iha ihb => rw [hash, iha, ihb]; rfl
  | forever place _ ih => rw [hash, ih]; rfl

/-- Two nodes are compared as the pieces are which they show, if their parts are. -/
theorem Shows.same_eq_of_parts (hp : a.Shows p) (hq : b.Shows q)
    (hplace : a.header.place ≠ b.header.place)
    (hparts : ∀ c ∈ a.parts, ∀ d ∈ b.parts, ∀ r s, c.Shows r → d.Shows s →
      c.same d = r.same s) : a.same b = p.same q := by
  have hlength := Words.same_words p.duration q.duration
  rw [← hp.length_eq, ← hq.length_eq] at hlength
  rw [same.eq_def, beq_false_of_ne hplace, Bool.false_or, hlength, Piece.same.eq_def]
  cases hp with
  | note _ d x i =>
    cases hq with
    | note _ e y j => simp [kind, Piece.duration, Words.same_words, Bool.and_assoc]
    | _ => simp [kind]
  | rest _ d =>
    cases hq with
    | rest _ e => simp [kind, Piece.duration, Words.same_words]
    | _ => simp [kind]
  | concat _ ha hb =>
    cases hq with
    | concat _ hc hd =>
      have hfirst := hparts _ (.head _) _ (.head _) _ _ ha hc
      have hsecond := hparts _ (.tail _ (.head _)) _ (.tail _ (.head _)) _ _ hb hd
      simp only [kind, hfirst, hsecond, BEq.rfl, Bool.true_and]
    | _ => simp [kind]
  | together _ ha hb =>
    cases hq with
    | together _ hc hd =>
      have htop := hparts _ (.head _) _ (.head _) _ _ ha hc
      have hbottom := hparts _ (.tail _ (.head _)) _ (.tail _ (.head _)) _ _ hb hd
      simp only [kind, htop, hbottom, BEq.rfl, Bool.true_and]
    | _ => simp [kind]
  | forever _ ha =>
    cases hq with
    | forever _ hb =>
      have hbody := hparts _ (.head _) _ (.head _) _ _ ha hb
      simp only [kind, hbody, BEq.rfl, Bool.true_and]
    | _ => simp [kind]

end Node

namespace Memory

variable {memory after : Memory} {a b : Node} {p q : Piece}

/-- What holds of all that was ever made. -/
structure Sound (memory : Memory) : Prop where
  /-- Each node shows a piece. -/
  shows : ∀ a ∈ memory, ∃ p, a.Shows p
  /-- Each node stands at its place. -/
  place : ∀ a ∈ memory, memory[a.header.place]? = some a
  /-- A node was made of nodes. -/
  parts : ∀ a ∈ memory, ∀ b ∈ a.parts, b ∈ memory

/-- No two nodes stand at one place. -/
theorem Sound.eq_of_place_eq (h : memory.Sound) (ha : a ∈ memory) (hb : b ∈ memory)
    (hplace : a.header.place = b.header.place) : a = b := by
  have hboth := h.place a ha
  rw [hplace, h.place b hb] at hboth
  exact (Option.some.inj hboth).symm

/-- **Nodes are compared as the pieces are which they show.** -/
theorem Sound.same_eq (h : memory.Sound) (ha : a ∈ memory) (hb : b ∈ memory) (hp : a.Shows p)
    (hq : b.Shows q) : a.same b = p.same q := by
  induction a using Node.induction_parts generalizing b p q with
  | h a ih =>
    -- Different nodes may have parts in common, so each pair of parts is asked for its places.
    by_cases hplace : a.header.place = b.header.place
    · obtain rfl := h.eq_of_place_eq ha hb hplace
      rw [hp.unique hq, Piece.same_refl, Node.same.eq_def, BEq.rfl, Bool.true_or]
    · refine hp.same_eq_of_parts hq hplace fun c hc d hd r s hr hs => ?_
      exact ih c hc (h.parts a ha c hc) (h.parts b hb d hd) hr hs

theorem sound_nil : Sound [] where
  shows _ ha := absurd ha List.not_mem_nil
  place _ ha := absurd ha List.not_mem_nil
  parts _ ha := absurd ha List.not_mem_nil

/-- A node more does no harm if it shows a piece, stands at the next place and was made of nodes
that are there. -/
theorem Sound.append (h : memory.Sound) (hshows : a.Shows p)
    (hplace : a.header.place = memory.length) (hparts : ∀ b ∈ a.parts, b ∈ memory) :
    Sound (memory ++ [a]) where
  shows b hb := by
    rcases List.mem_append.1 hb with hb | hb
    · exact h.shows b hb
    · obtain rfl := List.mem_singleton.1 hb
      exact ⟨p, hshows⟩
  place b hb := by
    rcases List.mem_append.1 hb with hb | hb
    · have hold := h.place b hb
      rwa [List.getElem?_append_left (List.getElem?_eq_some_iff.1 hold).1]
    · obtain rfl := List.mem_singleton.1 hb
      rw [hplace, List.getElem?_concat_length]
  parts b hb c hc := by
    rcases List.mem_append.1 hb with hb | hb
    · exact List.mem_append_left _ (h.parts b hb c hc)
    · obtain rfl := List.mem_singleton.1 hb
      exact List.mem_append_left _ (hparts c hc)

end Memory

/-- `make.Yields memory p`: the making ends without a trap and with a node that shows `p`.  What
was in memory before stays there, and memory stays sound. -/
def Making.Yields (make : Making Node) (memory : Memory) (p : Piece) : Prop :=
  ∃ a after, make memory = .ok (a, after) ∧ memory <+: after ∧ after.Sound ∧ a ∈ after ∧ a.Shows p

namespace Making

open Memory (Sound)

variable {memory : Memory} {a b : Node} {p q : Piece}

theorem yields_pure (h : Sound memory) (ha : a ∈ memory) (hp : a.Shows p) :
    Yields (return a) memory p :=
  ⟨a, memory, rfl, List.prefix_rfl, h, ha, hp⟩

theorem yields_store (h : Sound memory) {node : Nat → Node}
    (hshows : (node memory.length).Shows p)
    (hplace : (node memory.length).header.place = memory.length)
    (hparts : ∀ b ∈ (node memory.length).parts, b ∈ memory) : (store node).Yields memory p :=
  ⟨_, _, rfl, List.prefix_append .., h.append hshows hplace hparts, List.mem_concat_self, hshows⟩

/-- What yields a piece can be followed by what yields another of it. -/
theorem Yields.bind {make : Making Node} {next : Node → Making Node} (h : make.Yields memory p)
    (hnext : ∀ a after, memory <+: after → Sound after → a ∈ after → a.Shows p →
      (next a).Yields after q) : (make >>= next).Yields memory q := by
  obtain ⟨a, after, hmake, hbefore, hsound, ha, hp⟩ := h
  obtain ⟨b, last, hlast, hafter, hrest⟩ := hnext a after hbefore hsound ha hp
  refine ⟨b, last, ?_, hbefore.trans hafter, hrest⟩
  show (make memory >>= fun made => next made.1 made.2) = .ok (b, last)
  rw [hmake]
  exact hlast

/-- Two pieces can be made one after the other, and then what is made of both. -/
theorem Yields.bind_bind {first second : Making Node} {next : Node → Node → Making Node}
    {r : Piece} (hfirst : first.Yields memory p)
    (hsecond : ∀ middle, memory <+: middle → Sound middle → second.Yields middle q)
    (hnext : ∀ a b after, Sound after → a ∈ after → b ∈ after → a.Shows p → b.Shows q →
      (next a b).Yields after r) :
    Yields (do next (← first) (← second)) memory r := by
  refine hfirst.bind fun a middle hmiddle hsound ha hp => ?_
  refine (hsecond middle hmiddle hsound).bind fun b after hafter hsound hb hq => ?_
  exact hnext a b after hsound (hafter.subset ha) hb hp hq

section

variable (h : Sound memory)

include h

theorem yields_note (d : Duration) (x : Pitch) (i : Instrument) :
    (note d.words x i).Yields memory (.note d x i) :=
  yields_store h (.note _ d x i) rfl fun _ hb => absurd hb List.not_mem_nil

theorem yields_rest (d : Duration) : (rest d.words).Yields memory (.rest d) :=
  yields_store h (.rest _ d) rfl fun _ hb => absurd hb List.not_mem_nil

theorem yields_concat (ha : a ∈ memory) (hb : b ∈ memory) (hp : a.Shows p) (hq : b.Shows q) :
    (concat a b).Yields memory (.concat p q) := by
  have hconcat : concat a b = store fun place =>
      .concat ⟨place, (p.duration + q.duration).words⟩ a b := by
    rw [concat, hp.length_eq, hq.length_eq, Words.add_words]
    rfl
  rw [hconcat]
  exact yields_store h (.concat _ hp hq) rfl (by simp [Node.parts, ha, hb])

theorem yields_together (ha : a ∈ memory) (hb : b ∈ memory) (hp : a.Shows p) (hq : b.Shows q) :
    (together a b).Yields memory (.together p q) := by
  have htogether : together a b = store fun place =>
      .together ⟨place, (max p.duration q.duration).words⟩ a b := by
    rw [together, hp.length_eq, hq.length_eq, Words.longer_words]
    rfl
  rw [htogether]
  exact yields_store h (.together _ hp hq) rfl (by simp [Node.parts, ha, hb])

theorem yields_forever (ha : a ∈ memory) (hp : a.Shows p) :
    (forever a).Yields memory (.forever p) :=
  yields_store h (.forever _ hp) rfl (by simp [Node.parts, ha])

end

/-- The machine transposes as it should. -/
theorem yields_transpose (h : Sound memory) (shift : Int) (ha : a ∈ memory) (hp : a.Shows p) :
    (transpose shift a).Yields memory (p.transpose shift) := by
  rw [Piece.transpose_eq]
  by_cases hshift : shift = 0
  · subst hshift
    rw [Piece.shiftNotes_zero, transpose.eq_def, if_pos rfl]
    exact yields_pure h ha hp
  · induction hp generalizing memory with
    | note place d x i =>
      rw [transpose, if_neg hshift]
      exact yields_note h d _ i
    | rest place d =>
      rw [transpose, if_neg hshift]
      exact yields_pure h ha (.rest place d)
    | concat place hp hq ihp ihq =>
      have hparts := h.parts _ ha
      rw [transpose, if_neg hshift]
      exact (ihp h (hparts _ (.head _))).bind_bind
        (fun middle hmiddle hsound => ihq hsound (hmiddle.subset (hparts _ (.tail _ (.head _)))))
        fun a b after hsound ha hb hp hq => yields_concat hsound ha hb hp hq
    | together place hp hq ihp ihq =>
      have hparts := h.parts _ ha
      rw [transpose, if_neg hshift]
      exact (ihp h (hparts _ (.head _))).bind_bind
        (fun middle hmiddle hsound => ihq hsound (hmiddle.subset (hparts _ (.tail _ (.head _)))))
        fun a b after hsound ha hb hp hq => yields_together hsound ha hb hp hq
    | forever place hp ih =>
      have hparts := h.parts _ ha
      rw [transpose, if_neg hshift]
      refine (ih h (hparts _ (.head _))).bind fun a after _ hafter ha hp => ?_
      exact yields_forever hafter ha hp

/-- What yields a piece leaves memory sound, and all that was there. -/
theorem Yields.sound {make : Making Node} {after : Memory} (h : make.Yields memory p)
    (hmake : make memory = .ok (a, after)) : memory <+: after ∧ Sound after := by
  obtain ⟨b, last, hlast, hkept, hsound, -⟩ := h
  obtain ⟨-, rfl⟩ := Prod.mk.inj (Except.ok.inj (hmake.symm.trans hlast))
  exact ⟨hkept, hsound⟩

end Making

namespace Memory

variable {memory before after : Memory} {a b : Node} {p q : Piece}

/-- A step keeps memory sound, and all that is there. -/
theorem Step.sound (h : before.Step after) (hsound : before.Sound) :
    before <+: after ∧ after.Sound := by
  cases h with
  | note x i hlength hmake =>
    obtain ⟨d, rfl⟩ := hlength.exists_words
    exact (Making.yields_note hsound d x i).sound hmake
  | rest hlength hmake =>
    obtain ⟨d, rfl⟩ := hlength.exists_words
    exact (Making.yields_rest hsound d).sound hmake
  | concat ha hb hmake =>
    obtain ⟨p, hp⟩ := hsound.shows _ ha
    obtain ⟨q, hq⟩ := hsound.shows _ hb
    exact (Making.yields_concat hsound ha hb hp hq).sound hmake
  | together ha hb hmake =>
    obtain ⟨p, hp⟩ := hsound.shows _ ha
    obtain ⟨q, hq⟩ := hsound.shows _ hb
    exact (Making.yields_together hsound ha hb hp hq).sound hmake
  | forever ha hmake =>
    obtain ⟨p, hp⟩ := hsound.shows _ ha
    exact (Making.yields_forever hsound ha hp).sound hmake
  | transpose shift ha hmake =>
    obtain ⟨p, hp⟩ := hsound.shows _ ha
    exact (Making.yields_transpose hsound shift ha hp).sound hmake

/-- Memory is sound after any number of steps. -/
theorem Reached.sound (h : memory.Reached) : memory.Sound := by
  induction h with
  | refl => exact sound_nil
  | tail _ hstep ih => exact (hstep.sound ih).2

/-- A piece that can be made, whatever was made before. -/
def Makeable (p : Piece) : Prop :=
  ∀ memory, Reached memory → ∃ a after, memory <+: after ∧ Reached after ∧ a ∈ after ∧ a.Shows p

/-- Two pieces can be made one after the other. -/
theorem Makeable.both (hp : Makeable p) (hq : Makeable q) (h : memory.Reached) :
    ∃ a b after, memory <+: after ∧ Reached after ∧ a ∈ after ∧ b ∈ after ∧ a.Shows p ∧
      b.Shows q := by
  obtain ⟨a, middle, hmiddle, hreached, ha, hp⟩ := hp memory h
  obtain ⟨b, after, hafter, hreached, hb, hq⟩ := hq middle hreached
  exact ⟨a, b, after, hmiddle.trans hafter, hreached, hafter.subset ha, hb, hp, hq⟩

/-- Every piece can be made. -/
theorem makeable (p : Piece) : Makeable p := by
  induction p with
  | note d x i =>
    intro memory h
    obtain ⟨a, after, hmake, hkept, -, ha, hp⟩ := Making.yields_note h.sound d x i
    exact ⟨a, after, hkept, h.tail (.note x i (Words.obtainable_words d) hmake), ha, hp⟩
  | rest d =>
    intro memory h
    obtain ⟨a, after, hmake, hkept, -, ha, hp⟩ := Making.yields_rest h.sound d
    exact ⟨a, after, hkept, h.tail (.rest (Words.obtainable_words d) hmake), ha, hp⟩
  | concat p q ihp ihq =>
    intro memory h
    obtain ⟨a, b, middle, hmiddle, hreached, ha, hb, hp, hq⟩ := ihp.both ihq h
    obtain ⟨c, after, hmake, hkept, -, hc, hshows⟩ :=
      Making.yields_concat hreached.sound ha hb hp hq
    exact ⟨c, after, hmiddle.trans hkept, hreached.tail (.concat ha hb hmake), hc, hshows⟩
  | together p q ihp ihq =>
    intro memory h
    obtain ⟨a, b, middle, hmiddle, hreached, ha, hb, hp, hq⟩ := ihp.both ihq h
    obtain ⟨c, after, hmake, hkept, -, hc, hshows⟩ :=
      Making.yields_together hreached.sound ha hb hp hq
    exact ⟨c, after, hmiddle.trans hkept, hreached.tail (.together ha hb hmake), hc, hshows⟩
  | forever p ih =>
    intro memory h
    obtain ⟨a, middle, hmiddle, hreached, ha, hp⟩ := ih memory h
    obtain ⟨c, after, hmake, hkept, -, hc, hshows⟩ := Making.yields_forever hreached.sound ha hp
    exact ⟨c, after, hmiddle.trans hkept, hreached.tail (.forever ha hmake), hc, hshows⟩

/-- What the comparison and the hash are held to. -/
structure StructuralEquality (memory : Memory) : Prop where
  /-- A node is one piece. -/
  shows : ∀ a ∈ memory, ∃! p, a.Shows p
  /-- Nodes are equal if they were made alike of equal lengths, pitches and instruments. -/
  same_iff : ∀ a ∈ memory, ∀ b ∈ memory, ∀ p q, a.Shows p → b.Shows q → (a.same b = true ↔ p = q)
  /-- The machine compares as `==` does. -/
  same_eq : ∀ a ∈ memory, ∀ b ∈ memory, ∀ p q, a.Shows p → b.Shows q → a.same b = (p == q)
  equivalence : Equivalence fun a b : {a : Node // a ∈ memory} => a.1.same b.1 = true
  /-- Equal nodes hash alike. -/
  hash_eq_of_same : ∀ a ∈ memory, ∀ b ∈ memory, a.same b = true → a.hash = b.hash
  /-- The machine hashes as `hashCode` does. -/
  hash_eq : ∀ a ∈ memory, ∀ p, a.Shows p → a.hash = p.hashCode
  /-- Any two pieces can be made next, and are compared then. -/
  makeable : ∀ p q, ∃ a b after, memory <+: after ∧ Reached after ∧ a ∈ after ∧ b ∈ after ∧
    a.Shows p ∧ b.Shows q

theorem Sound.same_iff (h : memory.Sound) (ha : a ∈ memory) (hb : b ∈ memory) (hp : a.Shows p)
    (hq : b.Shows q) : a.same b = true ↔ p = q := by
  rw [h.same_eq ha hb hp hq, Piece.same_iff]

/-- **Equality of pieces is structural, and hashing respects it**, however the pieces were made. -/
theorem structural_equality (h : memory.Reached) : memory.StructuralEquality where
  shows a ha := by
    obtain ⟨p, hp⟩ := h.sound.shows a ha
    exact ⟨p, hp, fun q hq => hq.unique hp⟩
  same_iff a ha b hb p q := h.sound.same_iff ha hb
  same_eq a ha b hb p q hp hq := by
    rw [Bool.eq_iff_iff, h.sound.same_iff ha hb hp hq, beq_iff_eq]
  equivalence := by
    choose piece hpiece using h.sound.shows
    have hsame (a b : {a : Node // a ∈ memory}) :
        a.1.same b.1 = true ↔ piece a.1 a.2 = piece b.1 b.2 :=
      h.sound.same_iff a.2 b.2 (hpiece a.1 a.2) (hpiece b.1 b.2)
    simp only [hsame]
    exact ⟨fun _ => rfl, Eq.symm, Eq.trans⟩
  hash_eq_of_same a ha b hb hsame := by
    obtain ⟨p, hp⟩ := h.sound.shows a ha
    obtain ⟨q, hq⟩ := h.sound.shows b hb
    rw [hp.hash_eq, hq.hash_eq, (h.sound.same_iff ha hb hp hq).1 hsame]
  hash_eq a _ p hp := hp.hash_eq
  makeable p q := (makeable p).both (makeable q) h

/-- A note without end at a place in memory. -/
def drone (place : Nat) (semitones : Int) : Node :=
  .note ⟨place, .infinity⟩ .infinity ⟨semitones⟩ .piano

/-- A note that was taken up an octave and down again is equal to itself and hashes alike, though it
stands at another place. -/
theorem hash_eq_of_up_and_down :
    Reached [drone 0 0, drone 1 12, drone 2 0] ∧ (drone 0 0).hash = (drone 2 0).hash := by
  have hnote : Reached [drone 0 0] := .tail .refl (.note ⟨0⟩ .piano .infinity rfl)
  have hup : Reached [drone 0 0, drone 1 12] := hnote.tail (.transpose 12 (.head _) rfl)
  have hdown : Reached [drone 0 0, drone 1 12, drone 2 0] :=
    hup.tail (.transpose (-12) (.tail _ (.head _)) rfl)
  have hequality := structural_equality hdown
  exact ⟨hdown, hequality.hash_eq_of_same _ (.head _) _ (.tail _ (.tail _ (.head _))) rfl⟩

end Memory
end Polyphony
