/-
# Command lines

What a command line holds, whatever the order of its parts (`CommandLine`), how the parts are written
(`CommandLine.Part.arguments`), and the invocation that they stand for (`CommandLine.AsksFor`).  The
invocation is put together in a draft, one place after the other: whichever places have been named, each
value that is valid is checked and fills its own (`Invocation.draftOf`), and the draft in which all have
been named is that of the invocation.
-/
import RomImage.Command.Invocation
import RomImage.Proofs.WordTexts

namespace RomImage

/-! ## Command lines, apart from their order -/

/-- How the option is written. -/
def WindowOption.argument : WindowOption → String
  | base => "--bios-addr"
  | size => "--bios-size"

/-- How the flag is written with its name. -/
def Flag.long : Flag → String
  | verbose => "--verbose"
  | quiet => "--quiet"
  | help => "--help"
  | version => "--version"

/-- How the flag is written with its letter. -/
def Flag.short : Flag → String
  | verbose => "-v"
  | quiet => "-q"
  | help => "-h"
  | version => "-V"

/-- What a command line holds, apart from the order of its parts. -/
structure CommandLine where
  text : Positional → String
  /-- The text of an option's value, if the option is given. -/
  word : WindowOption → Option String
  flag : Option Flag

namespace CommandLine

/-- The values are what they should be, and no positional value can be taken for an option. -/
structure IsValid (l : CommandLine) : Prop where
  path : ∀ slot, slot ≠ .sizeKib → l.text slot ≠ ""
  size : ∃ n, n < 0x100000000 ∧ Spells 10 (l.text .sizeKib).toList n
  plain : ∀ slot, l.text slot = "-" ∨ (l.text slot).toList.head? ≠ some '-'
  word : ∀ option text, l.word option = some text → ∃ n, readWord text = .ok n
  flag : ∀ flag, l.flag = some flag → flag = .verbose ∨ flag = .quiet

/-- The word is what the option's value is read as, or another one if the option is not given. -/
def IsWordOf (l : CommandLine) (option : WindowOption) (other word : UInt32) : Prop :=
  match l.word option with
  | some text => readWord text = .ok word
  | none => word = other

/-- The level at which the log is kept: all of it, errors only, or errors and warnings. -/
def level (l : CommandLine) : Level :=
  match l.flag with
  | some .verbose => .debug
  | some .quiet => .error
  | _ => .warn

/-- The invocation is what the parts of the command line stand for. -/
structure AsksFor (l : CommandLine) (i : Invocation) : Prop where
  symbols : i.symbols = l.text .symbols
  sizeKib : Spells 10 (l.text .sizeKib).toList i.sizeKib.toNat
  raw : i.raw = l.text .raw
  output : i.output = l.text .output
  base : l.IsWordOf .base 0xf0000 i.window.base
  size : l.IsWordOf .size 0x10000 i.window.size
  level : i.verbosity.level = l.level

/-- A part of a command line. -/
inductive Part
  | value (text : String)
  /-- An option with its value, as one argument or as two. -/
  | option (option : WindowOption) (text : String) (joined : Bool)
  | flag (flag : Flag) (short : Bool)
  deriving DecidableEq, Repr

namespace Part

/-- How the part is written. -/
def arguments : Part → List String
  | value text => [text]
  | option o text joined => if joined then [o.argument ++ "=" ++ text] else [o.argument, text]
  | flag f short => if short then [f.short] else [f.long]

/-- The positional value that the part is. -/
def value? : Part → Option String
  | value text => some text
  | _ => none

/-- The value that the part gives to an option. -/
def wordOf? (o : WindowOption) : Part → Option String
  | option o' text _ => if o' = o then some text else none
  | _ => none

/-- The flag that the part is. -/
def flag? : Part → Option Flag
  | flag f _ => some f
  | _ => none

end Part

/-- The parts are those of the command line, in some order that keeps the positional values in theirs. -/
structure Arranges (l : CommandLine) (parts : List Part) : Prop where
  values : parts.filterMap Part.value? = Positional.all.map l.text
  words : ∀ option, parts.filterMap (Part.wordOf? option) = (l.word option).toList
  flags : parts.filterMap Part.flag? = l.flag.toList

/-- The arguments are the parts of the command line in some order, with a separator or without one; behind
the separator come only positional values. -/
def ArrangedAs (l : CommandLine) (arguments : List String) : Prop :=
  ∃ front back, l.Arranges (front ++ back) ∧ (∀ part ∈ back, part.value?.isSome) ∧
    (arguments = (front ++ back).flatMap Part.arguments ∨
      arguments = front.flatMap Part.arguments ++ "--" :: back.flatMap Part.arguments)

end CommandLine

open CommandLine

variable {l : CommandLine} {i : Invocation}

/-- A command line with valid values stands for an invocation. -/
theorem CommandLine.IsValid.exists_asksFor (hvalid : l.IsValid) : ∃ i, l.AsksFor i := by
  have hword : ∀ o other, ∃ word, l.IsWordOf o other word := by
    intro o other
    unfold IsWordOf
    cases hword : l.word o with
    | none => exact ⟨other, rfl⟩
    | some text => exact hvalid.word o text hword
  have hlevel : ∃ verbosity : Verbosity, verbosity.level = l.level := by
    unfold CommandLine.level
    split
    · exact ⟨.verbose, rfl⟩
    · exact ⟨.quiet, rfl⟩
    · exact ⟨.normal, rfl⟩
  obtain ⟨n, hlt, hspells⟩ := hvalid.size
  obtain ⟨base, hbase⟩ := hword .base 0xf0000
  obtain ⟨size, hsize⟩ := hword .size 0x10000
  obtain ⟨verbosity, hverbosity⟩ := hlevel
  have hkib : (UInt32.ofNat n).toNat = n := UInt32.toNat_ofNat_of_lt' hlt
  exact ⟨⟨l.text .symbols, .ofNat n, l.text .raw, l.text .output, ⟨base, size⟩, verbosity⟩,
    rfl, by rw [hkib]; exact hspells, rfl, rfl, hbase, hsize, hverbosity⟩

/-! ## Values -/

/-- A numeral of an integer that is not negative is read as that integer. -/
theorem readInteger_of_spells {cs : List Char} {n : Nat} (h : Spells 10 cs n)
    (hlt : n < 0x8000000000000000) : readInteger cs = .ok (n : Int) := by
  obtain ⟨sign, digits, values, rfl, hsign, hne, hdigits, hn⟩ := h
  have hread : readDigits 10 0x8000000000000000 0 digits = .ok n :=
    (readDigits_zero_eq_ok_iff (by decide) (by decide) (by decide)).2 ⟨⟨values, hdigits, hn⟩, hlt⟩
  obtain ⟨c, rest, rfl⟩ := List.exists_cons_of_ne_nil hne
  have hplus : c ≠ '+' := by
    rintro rfl
    exact hdigits.not_mem (by decide) (.inl (by decide)) List.mem_cons_self
  have hminus : c ≠ '-' := by
    rintro rfl
    exact hdigits.not_mem (by decide) (.inl (by decide)) List.mem_cons_self
  rcases hsign with rfl | rfl
  · unfold readInteger
    split <;> simp_all [Except.map]
  · unfold readInteger
    split <;> simp_all [Except.map]

/-- A decimal numeral of a word is read as the size of so many KiB. -/
theorem readSizeKib_of_spells {text : String} {kib : UInt32} (h : Spells 10 text.toList kib.toNat) :
    readSizeKib text = .ok kib := by
  have hlt := kib.toNat_lt
  have hrange : 0 ≤ (kib.toNat : Int) ∧ (kib.toNat : Int) < 0x100000000 := by omega
  rw [readSizeKib, readInteger_of_spells h (by omega)]
  dsimp only
  rw [if_pos hrange, Int.toNat_natCast, UInt32.ofNat_toNat]

/-- A text that is read as a word does not begin with a dash, for no blank or digit is one. -/
theorem head_ne_dash_of_readWord {text : String} {n : UInt32} (h : readWord text = .ok n) :
    text.toList.head? ≠ some '-' := by
  obtain ⟨front, back, htext, hblank⟩ := exists_blanks_trim text.toList
  have hbody : trim text.toList ≠ [] ∧ (trim text.toList).head? ≠ some '-' := by
    rcases readWord_eq_ok_iff.1 h with ⟨digits, hmark, _⟩ | hspells
    · rcases afterHexMark?_eq_some_iff.1 hmark with hbody | hbody
      all_goals
        rw [hbody]
        simp
    · exact ⟨(hspells.isWord (by decide)).1, hspells.head_ne_minus (by decide)⟩
  rw [htext, List.append_assoc]
  cases front with
  | nil =>
      rw [List.nil_append, List.head?_append_of_ne_nil _ hbody.1]
      exact hbody.2
  | cons c front =>
      rw [List.cons_append, List.head?_cons]
      intro hc
      have hblank := hblank c (by simp)
      rw [Option.some.inj hc] at hblank
      cases hblank

/-! ## Drafts of an invocation -/

/-- The draft of an invocation in which only some places have been named. -/
def Invocation.draftOf (i : Invocation) (slots : List Positional) (options : List WindowOption)
    (flags : List Flag) : Draft where
  symbols := if .symbols ∈ slots then some i.symbols else none
  sizeKib := if .sizeKib ∈ slots then some i.sizeKib else none
  raw := if .raw ∈ slots then some i.raw else none
  output := if .output ∈ slots then some i.output else none
  base := if .base ∈ options then some i.window.base else none
  size := if .size ∈ options then some i.window.size else none
  verbose := .verbose ∈ flags
  quiet := .quiet ∈ flags

section

variable {slots : List Positional} {options : List WindowOption} {flags : List Flag}

/-- The next positional value is checked and fills its place. -/
theorem Invocation.fill_draftOf (hvalid : l.IsValid) (h : l.AsksFor i) (slot : Positional) :
    (i.draftOf slots options flags).fill slot (l.text slot)
      = .ok (i.draftOf (slots ++ [slot]) options flags) := by
  have hpath : ∀ slot, slot ≠ .sizeKib → readPath (l.text slot) = .ok (l.text slot) := by
    intro slot hslot
    rw [readPath, if_neg (hvalid.path slot hslot)]
  cases slot with
  | symbols => simp [Draft.fill, hpath, draftOf, Except.map, h.symbols]
  | sizeKib => simp [Draft.fill, readSizeKib_of_spells h.sizeKib, draftOf, Except.map]
  | raw => simp [Draft.fill, hpath, draftOf, Except.map, h.raw]
  | output => simp [Draft.fill, hpath, draftOf, Except.map, h.output]

/-- The value of an option that has not been given is checked and fills its place. -/
theorem Invocation.set_draftOf (h : l.AsksFor i) {o : WindowOption} {text : String}
    (hword : l.word o = some text) (hnew : o ∉ options) :
    (i.draftOf slots options flags).set o text = .ok (i.draftOf slots (options ++ [o]) flags) := by
  cases o with
  | base =>
      have hread : readWord text = .ok i.window.base := by
        simpa only [CommandLine.IsWordOf, hword] using h.base
      simp [Draft.set, draftOf, hnew, hread, Except.map, Except.mapError]
  | size =>
      have hread : readWord text = .ok i.window.size := by
        simpa only [CommandLine.IsWordOf, hword] using h.size
      simp [Draft.set, draftOf, hnew, hread, Except.map, Except.mapError]

/-- A flag that has not been given is raised. -/
theorem Invocation.raise_draftOf {flag : Flag} (hflag : flag = .verbose ∨ flag = .quiet)
    (hnew : flag ∉ flags) :
    (i.draftOf slots options flags).raise flag
      = .ok (i.draftOf slots options (flags ++ [flag])) := by
  rcases hflag with rfl | rfl
  · simp [Draft.raise, draftOf, hnew]
  · simp [Draft.raise, draftOf, hnew]

/-- The word of an option that may have been given is that of the invocation. -/
theorem CommandLine.IsWordOf.getD_eq {o : WindowOption} {other word : UInt32}
    (h : l.IsWordOf o other word) (hoption : o ∈ options ↔ l.word o ≠ none) :
    (if o ∈ options then some word else none).getD other = word := by
  unfold IsWordOf at h
  split
  · rfl
  · rename_i hnot
    rw [hoption, not_not] at hnot
    rw [hnot] at h
    exact h.symm

/-- Verbosities at which the log is kept at the same level are the same. -/
theorem Verbosity.level_inj {v w : Verbosity} (h : v.level = w.level) : v = w := by
  cases v <;> cases w <;> first | rfl | cases h

/-- The flag that may have been given sets the verbosity of the invocation. -/
theorem Invocation.verbosity_draftOf (hvalid : l.IsValid) (h : l.AsksFor i) :
    (i.draftOf slots options l.flag.toList).verbosity = .ok i.verbosity := by
  have hlevel := h.level
  unfold CommandLine.level at hlevel
  cases hflag : l.flag with
  | none =>
      rw [hflag] at hlevel
      have hnormal : i.verbosity = .normal := Verbosity.level_inj hlevel
      simp [draftOf, Draft.verbosity, hnormal]
  | some flag =>
      rw [hflag] at hlevel
      rcases hvalid.flag flag hflag with rfl | rfl
      · have hverbose : i.verbosity = .verbose := Verbosity.level_inj hlevel
        simp [draftOf, Draft.verbosity, hverbose]
      · have hquiet : i.verbosity = .quiet := Verbosity.level_inj hlevel
        simp [draftOf, Draft.verbosity, hquiet]

/-- Once all is given, the draft is that of the invocation. -/
theorem Invocation.invocation_draftOf (hvalid : l.IsValid) (h : l.AsksFor i)
    (hoptions : ∀ o, o ∈ options ↔ l.word o ≠ none) :
    (i.draftOf Positional.all options l.flag.toList).invocation = .ok i := by
  have hbase := h.base.getD_eq (hoptions .base)
  have hsize := h.size.getD_eq (hoptions .size)
  rw [Draft.invocation, verbosity_draftOf hvalid h]
  simp only [draftOf, Positional.all, RomWindow.standard, hbase, hsize]
  rfl

end

end RomImage
