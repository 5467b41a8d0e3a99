/-
# Arguments in another order

A command line that can be read is a sequence of units, each of one or two arguments
(`Item.arguments`):

| unit | arguments |
| --- | --- |
| a flag | one, its name |
| a setting | two, its name and any value |
| a word of the score | one that is not taken for an option |

It is so in one way only (`ofArguments_flatMap`, `flatMap_ofArguments`), although a value may look
like an option: whoever reads from the left knows for each argument whether it is a value.

What the options hold is told by the last value of each setting, by which flags there are, and by
the words in their order (`Holds.ext`).  Two neighbours that are neither of the same option nor both
words may change places without a difference to any of these, and whether a unit can be read does
not depend on where it stands.
-/

import Polyphony.Proofs.CommandLine.Reading
import Mathlib.Logic.ExistsUnique

namespace Polyphony
namespace CommandLine

/-! ### Units -/

namespace Item

/-- The arguments that an item is made of. -/
def arguments : Item → List Text
  | .help => [Text.utf8 "--help"]
  | .flag f => [f.argument]
  | .setting s value => [s.argument, value]
  | .word w => [w]
  | .unknown argument => [argument]

/-- Does a text neither ask for help nor look like an option? -/
def isPlain (t : Text) : Bool := !asksHelp t && !(Text.utf8 "--").isPrefixOf t

/-- Is an item one that a command line may consist of? -/
def IsUnit : Item → Prop
  | .flag _ => True
  | .setting _ _ => True
  | .word w => isPlain w = true
  | .help => False
  | .unknown _ => False

/-- Can an item be read? -/
def IsReadable : Item → Prop
  | .flag _ => True
  | .setting s value => ∃ x, s.read? value = some x
  | .word _ => True
  | .help => False
  | .unknown _ => False

/-- Are two items of the same option, or both words? -/
def Clashes : Item → Item → Prop
  | .flag f, .flag g => f = g
  | .setting s _, .setting t _ => s = t
  | .word _, .word _ => True
  | _, _ => False

end Item

/-- Every option looks like one. -/
theorem Flag.prefix_argument (f : Flag) : (Text.utf8 "--").isPrefixOf f.argument = true := by
  cases f <;> decide

theorem Setting.prefix_argument (s : Setting) : (Text.utf8 "--").isPrefixOf s.argument = true := by
  cases s with
  | instrument | pause | demo => decide
  | quantity q => cases q <;> decide

theorem Flag.asksHelp_argument (f : Flag) : Item.asksHelp f.argument = false := by
  cases f <;> decide

theorem Setting.asksHelp_argument (s : Setting) : Item.asksHelp s.argument = false := by
  cases s with
  | instrument | pause | demo => decide
  | quantity q => cases q <;> decide

/-- No flag is named as a setting is. -/
theorem Flag.ofArgument?_setting (s : Setting) : Flag.ofArgument? s.argument = none := by
  cases s with
  | instrument | pause | demo => decide
  | quantity q => cases q <;> decide

namespace Item

variable {w : Text} {u : Item} {units : List Item} {more : List Text}

/-- What is plain is no option. -/
theorem ofArgument?_of_isPlain (h : isPlain w = true) :
    Flag.ofArgument? w = none ∧ Setting.ofArgument? w = none := by
  rw [isPlain, Bool.and_eq_true, Bool.not_eq_true', Bool.not_eq_true'] at h
  refine ⟨List.find?_eq_none.2 fun f _ hf => ?_, List.find?_eq_none.2 fun s _ hs => ?_⟩
  · have hprefix := f.prefix_argument
    rw [eq_of_beq hf, h.2] at hprefix
    cases hprefix
  · have hprefix := s.prefix_argument
    rw [eq_of_beq hs, h.2] at hprefix
    cases hprefix

theorem ofPlain_of_isPlain (h : isPlain w = true) : ofPlain w = .word w := by
  rw [isPlain, Bool.and_eq_true, Bool.not_eq_true', Bool.not_eq_true'] at h
  rw [ofPlain, h.2]
  rfl

/-- The first unit of a command line is read as what it is, whatever comes behind. -/
theorem ofArguments_append (h : u.IsUnit) (more : List Text) :
    ofArguments (u.arguments ++ more) = u :: ofArguments more := by
  cases u with
  | help => exact h.elim
  | unknown argument => exact h.elim
  | flag f =>
    rw [arguments, List.singleton_append, ofArguments.eq_def]
    simp only [f.asksHelp_argument, Bool.false_eq_true, if_false, f.ofArgument?_flag]
  | setting s value =>
    rw [arguments, List.cons_append, List.singleton_append, ofArguments.eq_def]
    simp only [s.asksHelp_argument, Bool.false_eq_true, if_false, Flag.ofArgument?_setting,
      s.ofArgument?_argument]
  | word w =>
    have hplain : isPlain w = true := h
    obtain ⟨hflag, hsetting⟩ := ofArgument?_of_isPlain hplain
    have hword := ofPlain_of_isPlain hplain
    rw [isPlain, Bool.and_eq_true, Bool.not_eq_true'] at hplain
    rw [arguments, List.singleton_append, ofArguments.eq_def]
    simp only [hplain.1, Bool.false_eq_true, if_false, hflag, hsetting, hword]

/-- Units are read back from their arguments. -/
theorem ofArguments_flatMap (h : ∀ u ∈ units, u.IsUnit) :
    ofArguments (units.flatMap arguments) = units := by
  induction units with
  | nil => rfl
  | cons u units ih =>
    obtain ⟨hu, hunits⟩ := List.forall_mem_cons.1 h
    rw [List.flatMap_cons, ofArguments_append hu, ih hunits]

/-- What stands alone and can be read is a word. -/
theorem ofPlain_of_isReadable {argument : Text} (hhelp : ¬ asksHelp argument = true)
    (h : (ofPlain argument).IsReadable) :
    (ofPlain argument).IsUnit ∧ (ofPlain argument).arguments = [argument] := by
  rw [ofPlain] at h ⊢
  split at h
  · exact h.elim
  · next hprefix =>
    rw [if_neg hprefix]
    refine ⟨?_, rfl⟩
    show isPlain argument = true
    rw [isPlain, Bool.eq_false_iff.2 hhelp, Bool.eq_false_iff.2 hprefix]
    rfl

/-- A command line of which all can be read is made of units. -/
theorem flatMap_ofArguments {args : List Text} (h : ∀ item ∈ ofArguments args, item.IsReadable) :
    (∀ u ∈ ofArguments args, u.IsUnit) ∧ (ofArguments args).flatMap arguments = args := by
  fun_induction ofArguments args with
  | case1 => exact ⟨fun u hu => absurd hu List.not_mem_nil, rfl⟩
  | case2 argument more _ ih => exact (h .help List.mem_cons_self).elim
  | case3 argument more _ f hf ih =>
    obtain ⟨hunits, hargs⟩ := ih fun item hitem => h item (List.mem_cons_of_mem _ hitem)
    have hargument : f.argument = argument := by simpa using List.find?_some hf
    refine ⟨List.forall_mem_cons.2 ⟨trivial, hunits⟩, ?_⟩
    rw [List.flatMap_cons, hargs, arguments, hargument, List.singleton_append]
  | case4 argument _ _ s value more hs ih =>
    obtain ⟨hunits, hargs⟩ := ih fun item hitem => h item (List.mem_cons_of_mem _ hitem)
    have hargument : s.argument = argument := by simpa using List.find?_some hs
    refine ⟨List.forall_mem_cons.2 ⟨trivial, hunits⟩, ?_⟩
    rw [List.flatMap_cons, hargs, arguments, hargument, List.cons_append, List.singleton_append]
  | case5 argument hhelp =>
    obtain ⟨hunit, harguments⟩ := ofPlain_of_isReadable hhelp (h _ List.mem_cons_self)
    exact ⟨List.forall_mem_singleton.2 hunit, by rw [List.flatMap_singleton, harguments]⟩
  | case6 argument hhelp _ more _ ih =>
    obtain ⟨hunits, hargs⟩ := ih fun item hitem => h item (List.mem_cons_of_mem _ hitem)
    obtain ⟨hunit, harguments⟩ := ofPlain_of_isReadable hhelp (h _ List.mem_cons_self)
    refine ⟨List.forall_mem_cons.2 ⟨hunit, hunits⟩, ?_⟩
    rw [List.flatMap_cons, hargs, harguments, List.singleton_append]

end Item

/-! ### What can be read -/

/-- A value that can be read changes its setting, whatever the options are. -/
theorem Setting.set_of_read? {s : Setting} {value : Text} {x : s.Meaning}
    (h : s.read? value = some x) (o : Options) : o.set s value = .ok (s.put x o) := by
  cases s with
  | instrument =>
    have hname : Instrument.ofName? value = some x := h
    rw [Options.set, hname]
    rfl
  | pause =>
    have hpause : readPause? value = some x := h
    rw [Options.set, hpause]
    rfl
  | demo =>
    obtain rfl := Option.some.inj h
    rfl
  | quantity q =>
    have hnumber : Decimal.readIn? q.lowest q.highest value = some x := h
    rw [Options.set, hnumber]
    rfl

namespace Options

variable {items : List Item}

/-- Whether an item can be read does not depend on what was read before it. -/
theorem exists_apply_iff {o : Options} {item : Item} :
    (∃ o', o.apply item = .ok o') ↔ item.IsReadable := by
  cases item with
  | help =>
    refine iff_of_false ?_ id
    rintro ⟨o', h⟩
    cases h
  | unknown argument =>
    refine iff_of_false ?_ id
    rintro ⟨o', h⟩
    cases h
  | flag f => exact iff_of_true ⟨_, rfl⟩ trivial
  | word w => exact iff_of_true ⟨_, rfl⟩ trivial
  | setting s value =>
    constructor
    · rintro ⟨o', h⟩
      obtain ⟨x, hx, -⟩ := Setting.exists_put_of_set h
      exact ⟨x, hx⟩
    · rintro ⟨x, hx⟩
      exact ⟨s.put x o, Setting.set_of_read? hx o⟩

/-- Items can be read exactly if each of them can. -/
theorem exists_applyAll_iff {o : Options} :
    (∃ o', o.applyAll items = .ok o') ↔ ∀ item ∈ items, item.IsReadable := by
  induction items generalizing o with
  | nil => exact iff_of_true ⟨o, rfl⟩ (List.forall_mem_nil _)
  | cons item items ih =>
    rw [List.forall_mem_cons, ← exists_apply_iff (o := o)]
    constructor
    · rintro ⟨o', h⟩
      rw [applyAll] at h
      cases hitem : o.apply item with
      | error stop => rw [hitem] at h; cases h
      | ok o₁ =>
        rw [hitem] at h
        exact ⟨⟨o₁, rfl⟩, ih.1 ⟨o', h⟩⟩
    · rintro ⟨⟨o₁, hitem⟩, hitems⟩
      rw [applyAll, hitem]
      exact ih.2 hitems

end Options

/-! ### What the options depend on -/

/-- Options are told by what they hold. -/
theorem Options.ext_of_get {o o' : Options} (hsettings : ∀ s : Setting, s.get o = s.get o')
    (hflags : ∀ f : Flag, f.isRaised o = f.isRaised o') (hscore : o.score = o'.score)
    (hstart : o.config.start = o'.config.start) : o = o' := by
  have hinstrument : o.instrument = o'.instrument := hsettings .instrument
  have hpause : o.pause = o'.pause := hsettings .pause
  have hdemo : o.demo = o'.demo := hsettings .demo
  have hshift : o.shift = o'.shift := hsettings (.quantity .shift)
  have hrepeats : (o.repeats : Int) = o'.repeats := hsettings (.quantity .repeats)
  have hvoices : (o.voices : Int) = o'.voices := hsettings (.quantity .voices)
  have hticks : (o.config.ticksPerBeat.toNat : Int) = o'.config.ticksPerBeat.toNat :=
    hsettings (.quantity .ticksPerBeat)
  have hbeats : (o.config.beatsPerMinute.toNat : Int) = o'.config.beatsPerMinute.toNat :=
    hsettings (.quantity .beatsPerMinute)
  have hchannels : (o.config.channels.toNat : Int) = o'.config.channels.toNat :=
    hsettings (.quantity .channels)
  have hminutes : (o.config.maxMinutes.toNat : Int) = o'.config.maxMinutes.toNat :=
    hsettings (.quantity .minutes)
  have hendless : o.endless = o'.endless := hflags .endless
  have hshow : o.showPiece = o'.showPiece := hflags .showPiece
  have hjson : o.json = o'.json := hflags .json
  have hverbose : o.config.verbose = o'.config.verbose := hflags .verbose
  rw [Int.natCast_inj] at hrepeats hvoices hticks hbeats hchannels hminutes
  rw [UInt32.toNat_inj] at hticks
  rw [UInt16.toNat_inj] at hbeats hminutes
  rw [UInt8.toNat_inj] at hchannels
  obtain ⟨score, demo, instrument, shift, voices, pause, repeats, endless, json, shown,
    ⟨ticks, beats, channels, minutes, start, verbose⟩⟩ := o
  subst hinstrument hpause hdemo hshift hrepeats hvoices hticks hbeats hchannels hminutes hendless
    hshow hjson hverbose hscore hstart
  rfl

/-- Options are told by the last value of each setting, the flags, and the words in their order. -/
theorem Holds.ext {items items' : List Item} {o o' : Options} (h : Holds items o)
    (h' : Holds items' o') (hvalues : ∀ s, Item.lastValue? s items = Item.lastValue? s items')
    (hflags : ∀ f, Item.flag f ∈ items ↔ Item.flag f ∈ items')
    (hwords : items.filterMap Item.word? = items'.filterMap Item.word?) : o = o' := by
  refine Options.ext_of_get (fun s => ?_) (fun f => ?_) ?_ (h.start.trans h'.start.symm)
  · rw [h.get_eq, h'.get_eq, Item.asked?, Item.asked?, hvalues]
  · rw [Bool.eq_iff_iff, h.flags, h'.flags, hflags]
  · rw [h.score, h'.score, hwords]

namespace Item

variable {before after : List Item} {a b : Item}

/-- Neighbours that change places are still there. -/
theorem mem_swap_iff {item : Item} :
    item ∈ before ++ b :: a :: after ↔ item ∈ before ++ a :: b :: after :=
  ((List.Perm.swap a b after).append_left before).mem_iff

/-- Two neighbours of which one gives nothing may change places. -/
theorem filterMap_swap {α : Type} {give : Item → Option α} (h : give a = none ∨ give b = none) :
    (before ++ b :: a :: after).filterMap give = (before ++ a :: b :: after).filterMap give := by
  rw [List.filterMap_append, List.filterMap_append]
  congr 1
  rcases h with h | h <;> simp only [List.filterMap_cons, h]

/-- Neighbours that do not clash give no setting a value each. -/
theorem value?_eq_none_of_not_clashes (h : ¬ a.Clashes b) (s : Setting) :
    a.value? s = none ∨ b.value? s = none := by
  cases a with
  | setting t value =>
    cases b with
    | setting t' value' =>
      have hne : t ≠ t' := h
      by_cases ht : t = s
      · exact Or.inr (if_neg fun ht' => hne (ht.trans ht'.symm))
      · exact Or.inl (if_neg ht)
    | _ => exact Or.inr rfl
  | _ => exact Or.inl rfl

theorem word?_eq_none_of_not_clashes (h : ¬ a.Clashes b) : a.word? = none ∨ b.word? = none := by
  cases a with
  | word w =>
    cases b with
    | word w' => exact absurd trivial h
    | _ => exact Or.inr rfl
  | _ => exact Or.inl rfl

end Item

/-- Neighbours that do not clash may change places. -/
theorem Options.applyAll_swap {before after : List Item} {a b : Item} {o : Options}
    (h : applyAll {} (before ++ a :: b :: after) = .ok o) (hclash : ¬ a.Clashes b) :
    applyAll {} (before ++ b :: a :: after) = .ok o := by
  have hreadable := exists_applyAll_iff.1 ⟨o, h⟩
  obtain ⟨o', h'⟩ : ∃ o', applyAll {} (before ++ b :: a :: after) = .ok o' :=
    exists_applyAll_iff.2 fun item hitem => hreadable item (Item.mem_swap_iff.1 hitem)
  have hsame : o' = o := by
    refine (Holds.nil.append h').ext (Holds.nil.append h) (fun s => ?_)
      (fun f => Item.mem_swap_iff) ?_
    · rw [List.nil_append, List.nil_append, Item.lastValue?, Item.lastValue?,
        Item.filterMap_swap (Item.value?_eq_none_of_not_clashes hclash s)]
    · exact Item.filterMap_swap (Item.word?_eq_none_of_not_clashes hclash)
  rw [h', hsame]

/-! ### The score -/

theorem Holds.score_eq {items : List Item} {o : Options} (h : Holds items o) :
    o.score = joinWords (items.filterMap Item.word?) :=
  h.score.trans (foldl_growScore _)

variable {args : List Text} {o : Options}

/-- A command line that can be read is made of units in one way. -/
theorem existsUnique_units (h : Options.read args = .ok o) :
    ∃! units : List Item, (∀ u ∈ units, u.IsUnit) ∧ units.flatMap Item.arguments = args := by
  refine ⟨Item.ofArguments args, ?_, ?_⟩
  · exact Item.flatMap_ofArguments (Options.exists_applyAll_iff.1 ⟨o, h⟩)
  · rintro units ⟨hunits, rfl⟩
    exact (Item.ofArguments_flatMap hunits).symm

/-- **Arguments about different things commute.**  A command line that can be read is made of units
in one way.  Two neighbouring units that are neither of the same option nor both words may change
places, and the same options are read.  The score is all words in their order with a blank between
them, from the first one on that is not empty, which is what putting them together one by one
comes to. -/
theorem arguments_commute (h : Options.read args = .ok o) :
    (∃! units : List Item, (∀ u ∈ units, u.IsUnit) ∧ units.flatMap Item.arguments = args) ∧
    ∀ units : List Item, (∀ u ∈ units, u.IsUnit) → units.flatMap Item.arguments = args →
      (∀ (before after : List Item) (a b : Item), units = before ++ a :: b :: after →
        ¬ a.Clashes b →
        Options.read ((before ++ b :: a :: after).flatMap Item.arguments) = .ok o) ∧
      o.score = joinWords (units.filterMap Item.word?) ∧
      o.score = (units.filterMap Item.word?).foldl growScore [] := by
  refine ⟨existsUnique_units h, fun units hunits hargs => ?_⟩
  subst hargs
  have happly : Options.applyAll {} units = .ok o := by
    rwa [Options.read, Item.ofArguments_flatMap hunits] at h
  have hscore := (Holds.nil.append happly).score_eq
  rw [List.nil_append] at hscore
  refine ⟨fun before after a b hsplit hclash => ?_, hscore, ?_⟩
  · subst hsplit
    have hswapped : ∀ u ∈ before ++ b :: a :: after, u.IsUnit := fun u hu =>
      hunits u (Item.mem_swap_iff.1 hu)
    rw [Options.read, Item.ofArguments_flatMap hswapped]
    exact Options.applyAll_swap happly hclash
  · rw [foldl_growScore, hscore]

/-- A name that looks like a flag, a number that is set twice, and words that are empty. -/
def tangled : List Item :=
  [.setting (.quantity .ticksPerBeat) (Text.utf8 "+7"), .word [],
    .setting .demo (Text.utf8 "--json"), .word (Text.utf8 "C"), .flag .endless, .word [],
    .setting (.quantity .ticksPerBeat) (Text.utf8 "9"), .word (Text.utf8 "-D")]

theorem arguments_commute_tangled : ∃ o,
    Options.read (["--tpb", "+7", "", "--demo", "--json", "C", "--forever", "", "--tpb", "9",
      "-D"].map Text.utf8) = .ok o ∧
    Options.read (["--tpb", "+7", "", "C", "--demo", "--json", "--forever", "", "--tpb", "9",
      "-D"].map Text.utf8) = .ok o ∧
    o.score = Text.utf8 "C  -D" := by
  obtain ⟨o, h⟩ : ∃ o, Options.read (tangled.flatMap Item.arguments) = .ok o := ⟨_, rfl⟩
  have hunits : ∀ u ∈ tangled, u.IsUnit := by
    simp only [tangled, List.forall_mem_cons]
    exact ⟨trivial, rfl, trivial, rfl, trivial, rfl, trivial, rfl, List.forall_mem_nil _⟩
  obtain ⟨-, hcommute⟩ := arguments_commute h
  obtain ⟨hswap, hscore, -⟩ := hcommute tangled hunits rfl
  refine ⟨o, h, ?_, hscore⟩
  exact hswap (tangled.take 2) (tangled.drop 4) _ _ rfl id

end CommandLine
end Polyphony
