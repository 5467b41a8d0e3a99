/-
# What the options hold

A command line that can be read leaves options that are known from its items alone
(`holds_of_read`):

| part of the options | holds |
| --- | --- |
| a setting | what its last value stands for, or its default if it has none |
| a flag | whether it stands among the items |
| the score | what it has grown to, word by word |

An item changes the part that it is about and no other (`Change`), so it does not matter what
stands between two values of a setting.
-/

import Polyphony.CommandLine.Arguments

namespace Polyphony
namespace CommandLine

/-! ### What is kept where -/

/-- What the values of a setting stand for. -/
abbrev Setting.Meaning : Setting → Type
  | .instrument => Instrument
  | .pause => Duration
  | .demo => Text
  | .quantity _ => Int

/-- What a value of a setting stands for, if it can be read. -/
def Setting.read? : (s : Setting) → Text → Option s.Meaning
  | .instrument, value => Instrument.ofName? value
  | .pause, value => readPause? value
  | .demo, value => some value
  | .quantity q, value => Decimal.readIn? q.lowest q.highest value

/-- The number that options hold. -/
def Quantity.get (q : Quantity) (o : Options) : Int :=
  match q with
  | .shift => o.shift
  | .repeats => o.repeats
  | .voices => o.voices
  | .ticksPerBeat => o.config.ticksPerBeat.toNat
  | .beatsPerMinute => o.config.beatsPerMinute.toNat
  | .channels => o.config.channels.toNat
  | .minutes => o.config.maxMinutes.toNat

/-- What options hold for a setting. -/
def Setting.get (s : Setting) (o : Options) : s.Meaning :=
  match s with
  | .instrument => o.instrument
  | .pause => o.pause
  | .demo => o.demo
  | .quantity q => q.get o

/-- Options with what a setting stands for. -/
def Setting.put (s : Setting) (x : s.Meaning) (o : Options) : Options :=
  match s, x with
  | .instrument, i => { o with instrument := i }
  | .pause, d => { o with pause := d }
  | .demo, name => { o with demo := name }
  | .quantity q, n => q.set n o

/-- Do options hold that a flag is raised? -/
def Flag.isRaised (f : Flag) (o : Options) : Bool :=
  match f with
  | .endless => o.endless
  | .showPiece => o.showPiece
  | .json => o.json
  | .verbose => o.config.verbose

namespace Quantity

/-- Every number in range has room in the options. -/
theorem get_set {q : Quantity} {n : Int} (hlo : q.lowest ≤ n) (hhi : n ≤ q.highest)
    (o : Options) : q.get (q.set n o) = n := by
  cases q with
  | shift => rfl
  | repeats | voices =>
    have hlo : 1 ≤ n := hlo
    show (n.toNat : Int) = n
    omega
  | ticksPerBeat =>
    have hlo : 1 ≤ n := hlo
    have hhi : n ≤ 1000000 := hhi
    show (n.toNat.toUInt32.toNat : Int) = n
    rw [Nat.toUInt32, UInt32.toNat_ofNat']
    omega
  | beatsPerMinute | minutes =>
    have hlo : 1 ≤ n := hlo
    have hhi : n ≤ 65535 := hhi
    show (n.toNat.toUInt16.toNat : Int) = n
    rw [Nat.toUInt16, UInt16.toNat_ofNat']
    omega
  | channels =>
    have hlo : 1 ≤ n := hlo
    have hhi : n ≤ 16 := hhi
    show (n.toNat.toUInt8.toNat : Int) = n
    rw [Nat.toUInt8, UInt8.toNat_ofNat']
    omega

/-- Setting a quantity leaves the others. -/
theorem get_set_of_ne {q r : Quantity} (h : r ≠ q) (n : Int) (o : Options) :
    r.get (q.set n o) = r.get o := by
  cases q <;> cases r <;> first | rfl | exact absurd rfl h

end Quantity

namespace Setting

/-- A setting is changed by what its value stands for. -/
theorem exists_put_of_set {o o' : Options} {s : Setting} {value : Text}
    (h : o.set s value = .ok o') : ∃ x, s.read? value = some x ∧ o' = s.put x o := by
  cases s with
  | instrument =>
    cases hx : Instrument.ofName? value <;> simp only [Options.set, hx, reduceCtorEq] at h
    exact ⟨_, hx, (Except.ok.inj h).symm⟩
  | pause =>
    cases hx : readPause? value <;> simp only [Options.set, hx, reduceCtorEq] at h
    exact ⟨_, hx, (Except.ok.inj h).symm⟩
  | demo => exact ⟨value, rfl, (Except.ok.inj h).symm⟩
  | quantity q =>
    cases hx : Decimal.readIn? q.lowest q.highest value <;>
      simp only [Options.set, hx, reduceCtorEq] at h
    exact ⟨_, hx, (Except.ok.inj h).symm⟩

/-- Whatever a value stands for has room in the options. -/
theorem get_put {s : Setting} {value : Text} {x : s.Meaning} (h : s.read? value = some x)
    (o : Options) : s.get (s.put x o) = x := by
  cases s with
  | instrument | pause | demo => rfl
  | quantity q =>
    obtain ⟨hlo, hhi⟩ := Decimal.readIn?_bounds h
    exact Quantity.get_set hlo hhi o

/-- A setting leaves the others. -/
theorem get_put_of_ne {s t : Setting} (h : t ≠ s) (x : s.Meaning) (o : Options) :
    t.get (s.put x o) = t.get o := by
  cases s with
  | instrument | pause | demo =>
    cases t with
    | quantity q => cases q <;> rfl
    | _ => first | rfl | exact absurd rfl h
  | quantity q =>
    cases t with
    | quantity r => exact Quantity.get_set_of_ne (fun hr => h (congrArg quantity hr)) x o
    | _ => cases q <;> rfl

/-- A setting leaves all that is not a setting. -/
theorem put_rest (s : Setting) (x : s.Meaning) (o : Options) :
    (∀ f : Flag, f.isRaised (s.put x o) = f.isRaised o) ∧ (s.put x o).score = o.score ∧
      (s.put x o).config.start = o.config.start := by
  cases s with
  | instrument | pause | demo => exact ⟨fun f => by cases f <;> rfl, rfl, rfl⟩
  | quantity q => cases q <;> exact ⟨fun f => by cases f <;> rfl, rfl, rfl⟩

/-- Flags and words leave the settings. -/
theorem get_raise (s : Setting) (f : Flag) (o : Options) : s.get (f.raise o) = s.get o := by
  cases s with
  | quantity q => cases f <;> cases q <;> rfl
  | _ => cases f <;> rfl

theorem get_addWord (s : Setting) (w : Text) (o : Options) : s.get (o.addWord w) = s.get o := by
  cases s with
  | quantity q => cases q <;> rfl
  | _ => rfl

end Setting

/-! ### What an item does -/

namespace Item

/-- The value that an item gives a setting. -/
def value? (s : Setting) : Item → Option Text
  | .setting t value => if t = s then some value else none
  | _ => none

/-- The word that an item is. -/
def word? : Item → Option Text
  | .word w => some w
  | _ => none

/-- The value that the last item with a setting gives it. -/
def lastValue? (s : Setting) (items : List Item) : Option Text :=
  (items.filterMap (value? s)).getLast?

theorem lastValue?_concat (s : Setting) (items : List Item) (item : Item) :
    lastValue? s (items ++ [item]) = (item.value? s).or (lastValue? s items) := by
  have hitem : [item].filterMap (value? s) = (item.value? s).toList := by
    cases h : item.value? s <;> simp [h]
  rw [lastValue?, List.filterMap_append, hitem]
  cases item.value? s with
  | none => simp [lastValue?]
  | some value => simp

/-- An argument that stands alone gives no setting a value. -/
theorem value?_ofPlain (s : Setting) (argument : Text) : (ofPlain argument).value? s = none := by
  unfold ofPlain
  split <;> rfl

/-- A setting that no argument names is given no value. -/
theorem value?_eq_none {s : Setting} {arguments : List Text} (h : s.argument ∉ arguments) :
    ∀ item ∈ ofArguments arguments, item.value? s = none := by
  fun_induction ofArguments arguments with
  | case1 => exact fun item hitem => absurd hitem List.not_mem_nil
  | case2 argument more _ ih =>
    exact List.forall_mem_cons.2 ⟨rfl, ih fun hmore => h (List.mem_cons_of_mem _ hmore)⟩
  | case3 argument more _ f _ ih =>
    exact List.forall_mem_cons.2 ⟨rfl, ih fun hmore => h (List.mem_cons_of_mem _ hmore)⟩
  | case4 argument _ _ t value more ht ih =>
    have hne : t ≠ s := by
      rintro rfl
      have hargument : t.argument = argument := by
        simpa using List.find?_some ht
      exact h (hargument ▸ List.mem_cons_self)
    refine List.forall_mem_cons.2 ⟨if_neg hne, ih fun hmore => h ?_⟩
    exact List.mem_cons_of_mem _ (List.mem_cons_of_mem _ hmore)
  | case5 argument => exact List.forall_mem_singleton.2 (value?_ofPlain s argument)
  | case6 argument _ _ more _ ih =>
    exact List.forall_mem_cons.2
      ⟨value?_ofPlain s argument, ih fun hmore => h (List.mem_cons_of_mem _ hmore)⟩

theorem lastValue?_eq_none {s : Setting} {arguments : List Text} (h : s.argument ∉ arguments) :
    lastValue? s (ofArguments arguments) = none := by
  rw [lastValue?, List.filterMap_eq_nil_iff.2 (value?_eq_none h)]
  rfl

/-- What the last value of a setting stands for, if the setting has a value that can be read. -/
def asked? (s : Setting) (items : List Item) : Option s.Meaning :=
  (lastValue? s items).bind s.read?

/-- A number that is asked for is in range. -/
theorem bounds_of_asked {q : Quantity} {items : List Item} {n : Int}
    (h : asked? (.quantity q) items = some n) : q.lowest ≤ n ∧ n ≤ q.highest := by
  obtain ⟨value, -, hvalue⟩ := Option.bind_eq_some_iff.1 h
  exact Decimal.readIn?_bounds hvalue

end Item

/-- An item changes options in the part that it is about. -/
structure Change (item : Item) (o o' : Options) : Prop where
  /-- The value of a setting can be read, and settings without a value stay. -/
  settings : ∀ s : Setting, (item.value? s).elim (some (s.get o)) s.read? = some (s.get o')
  flags : ∀ f : Flag, f.isRaised o' = true ↔ f.isRaised o = true ∨ .flag f = item
  score : o'.score = item.word?.toList.foldl growScore o.score
  start : o'.config.start = o.config.start

theorem change_of_apply {o o' : Options} {item : Item} (h : o.apply item = .ok o') :
    Change item o o' := by
  cases item with
  | help => cases h
  | flag f =>
    obtain rfl := Except.ok.inj h
    refine ⟨fun s => congrArg some (s.get_raise f o).symm, fun g => ?_, ?_, ?_⟩
    · cases f <;> cases g <;> simp [Flag.isRaised, Flag.raise]
    · cases f <;> rfl
    · cases f <;> rfl
  | setting s value =>
    obtain ⟨x, hx, rfl⟩ := Setting.exists_put_of_set h
    obtain ⟨hflags, hscore, hstart⟩ := s.put_rest x o
    refine ⟨fun t => ?_, fun f => ?_, hscore, hstart⟩
    · by_cases ht : s = t
      · subst ht
        simp [Item.value?, hx, Setting.get_put hx]
      · simp [Item.value?, ht, Setting.get_put_of_ne (Ne.symm ht)]
    · simp [hflags]
  | word w =>
    obtain rfl := Except.ok.inj h
    exact ⟨fun s => congrArg some (s.get_addWord w o).symm,
      fun f => by cases f <;> simp [Flag.isRaised, Options.addWord], rfl, rfl⟩
  | unknown argument => cases h

/-! ### What items do one after the other -/

/-- Options hold what items ask for. -/
structure Holds (items : List Item) (o : Options) : Prop where
  /-- The last value of a setting is the one that counts. -/
  settings : ∀ s : Setting,
    (Item.lastValue? s items).elim (some (s.get {})) s.read? = some (s.get o)
  flags : ∀ f : Flag, f.isRaised o = true ↔ .flag f ∈ items
  score : o.score = (items.filterMap Item.word?).foldl growScore []
  /-- No item sets the tick at which the piece starts. -/
  start : o.config.start = 0

namespace Holds

theorem nil : Holds [] {} where
  settings _ := rfl
  flags f := by cases f <;> simp [Flag.isRaised]
  score := rfl
  start := rfl

/-- One more item. -/
theorem concat {items : List Item} {item : Item} {o o' : Options} (h : Holds items o)
    (hc : Change item o o') : Holds (items ++ [item]) o' where
  settings s := by
    have hs := hc.settings s
    rw [Item.lastValue?_concat]
    cases hv : item.value? s with
    | none =>
      rw [hv] at hs
      exact (h.settings s).trans hs
    | some value =>
      rw [hv] at hs
      exact hs
  flags f := by
    rw [hc.flags, h.flags, List.mem_append, List.mem_singleton]
  score := by
    rw [hc.score, h.score, List.filterMap_append, List.foldl_append]
    cases hw : item.word? <;> simp [hw]
  start := hc.start.trans h.start

/-- Items read one after the other. -/
theorem append {seen items : List Item} {o o' : Options} (h : Holds seen o)
    (happly : o.applyAll items = .ok o') : Holds (seen ++ items) o' := by
  induction items generalizing seen o with
  | nil =>
    obtain rfl := Except.ok.inj happly
    rwa [List.append_nil]
  | cons item items ih =>
    rw [Options.applyAll] at happly
    cases hitem : o.apply item with
    | error stop => rw [hitem] at happly; cases happly
    | ok o₁ =>
      rw [hitem] at happly
      have hrest := ih (h.concat (change_of_apply hitem)) happly
      rwa [List.append_assoc] at hrest

/-- A setting holds what is asked for, or its default. -/
theorem get_eq {items : List Item} {o : Options} (h : Holds items o) (s : Setting) :
    s.get o = (Item.asked? s items).getD (s.get {}) := by
  have hs := h.settings s
  rw [Item.asked?]
  cases hv : Item.lastValue? s items with
  | none =>
    rw [hv] at hs
    exact (Option.some.inj hs).symm
  | some value =>
    rw [hv] at hs
    have hread : s.read? value = some (s.get o) := hs
    rw [Option.bind_some, hread]
    rfl

end Holds

/-- **What a command line leaves in the options.** -/
theorem holds_of_read {arguments : List Text} {o : Options}
    (h : Options.read arguments = .ok o) : Holds (Item.ofArguments arguments) o :=
  Holds.nil.append h

end CommandLine
end Polyphony
