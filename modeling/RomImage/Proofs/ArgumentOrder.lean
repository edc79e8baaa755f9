/-
# The order of arguments

Options and flags may stand anywhere among the positional values, and a separator anywhere behind the last
of them: a command line asks for the same invocation in every such order (`CommandLine.read_of_arranged`).
The reader is followed part by part.  Whatever has been read, once the value that waits is checked the
draft is that of the invocation, as far as its places have been named (`Reader.Holds`); so it does not
matter which part comes next, only which ones have come.
-/
import RomImage.Proofs.CommandLines

namespace RomImage

open CommandLine

variable {l : CommandLine} {i : Invocation} {parts front back : List Part} {part : Part}
  {r : Reader} {d : Draft}

/-! ## Single arguments -/

/-- A text that begins with no dash, or is only a dash, reads as it is. -/
theorem Argument.read_eq_plain {text : String} (h : text = "-" ∨ text.toList.head? ≠ some '-') :
    Argument.read text = .plain text := by
  rcases h with rfl | h
  · rfl
  · unfold Argument.read
    split <;> simp_all

theorem Argument.read_option (o : WindowOption) :
    ∃ name, Argument.read o.argument = .long name none ∧ WindowOption.ofName? name = some o := by
  cases o
  · exact ⟨"bios-addr", rfl, rfl⟩
  · exact ⟨"bios-size", rfl, rfl⟩

/-- What stands behind an equals sign is the value, whatever it is. -/
theorem Argument.read_joined (o : WindowOption) (text : String) :
    ∃ name, Argument.read (o.argument ++ "=" ++ text) = .long name (some text) ∧
      WindowOption.ofName? name = some o := by
  cases o
  · exact ⟨"bios-addr", by simp [Argument.read, WindowOption.argument], rfl⟩
  · exact ⟨"bios-size", by simp [Argument.read, WindowOption.argument], rfl⟩

/-! ## The reader, argument by argument -/

/-- In front of the separator an argument is taken by its shape. -/
theorem Reader.take_of_not_separated {text : String} (h : r.separated = false) :
    r.take text = match Argument.read text with
      | .separator => .ok { r with separated := true }
      | .long name value => r.takeLong name value
      | .letters cs => r.takeLetters cs
      | .plain text => r.takePlain text := by
  rw [take, h]
  rfl

/-- A positional value is taken when no option waits for its value, and then the draft can be settled. -/
theorem Reader.take_value {text : String} {slot : Positional} {slots : List Positional}
    (hplain : Argument.read text = .plain text) (hsettled : r.settled = .ok d)
    (hslots : r.slots = slot :: slots) :
    r.take text = .ok { r with draft := d, waiting := .positional slot text, slots := slots } := by
  have htake : r.take text = r.takePlain text := by
    rw [take, hplain]
    split <;> rfl
  rw [htake, takePlain]
  split
  · rename_i hwaiting
    rw [settled, hwaiting] at hsettled
    cases hsettled
  · rw [hslots, hsettled]
    rfl

/-- An option with its value in the same argument is checked at once. -/
theorem Reader.take_joined {o : WindowOption} {text : String} {d' : Draft}
    (hseparated : r.separated = false) (hsettled : r.settled = .ok d)
    (hset : d.set o text = .ok d') :
    r.take (o.argument ++ "=" ++ text) = .ok { r with draft := d', waiting := .nothing } := by
  obtain ⟨name, hread, hname⟩ := Argument.read_joined o text
  rw [take_of_not_separated hseparated, hread]
  dsimp only
  unfold takeLong
  rw [hname, hsettled]
  dsimp only [bind, Except.bind]
  rw [hset]
  rfl

/-- An option waits for its value. -/
theorem Reader.take_option {o : WindowOption} (hseparated : r.separated = false)
    (hsettled : r.settled = .ok d) :
    r.take o.argument = .ok { r with draft := d, waiting := .option o none } := by
  obtain ⟨name, hread, hname⟩ := Argument.read_option o
  rw [take_of_not_separated hseparated, hread]
  dsimp only
  unfold takeLong
  rw [hname, hsettled]
  rfl

/-- The value of an option that waits for it is never taken for a positional value. -/
theorem Reader.take_word {o : WindowOption} {text : String} (hseparated : r.separated = false)
    (hwaiting : r.waiting = .option o none) (hplain : Argument.read text = .plain text) :
    r.take text = .ok { r with waiting := .option o (some text) } := by
  rw [take_of_not_separated hseparated, hplain]
  dsimp only
  rw [takePlain, hseparated, hwaiting]

/-- A flag is taken by its name or by its letter. -/
theorem Reader.take_flag {flag : Flag} {d' : Draft} (short : Bool)
    (hseparated : r.separated = false) (hsettled : r.settled = .ok d)
    (hraise : d.raise flag = .ok d') :
    (Part.flag flag short).arguments.foldlM Reader.take r
      = .ok { r with draft := d', waiting := .nothing } := by
  have hflag : r.takeFlag flag = .ok { r with draft := d', waiting := .nothing } := by
    rw [takeFlag, hsettled]
    dsimp only [bind, Except.bind]
    rw [hraise]
    rfl
  have hone : ∀ text, r.take text = r.takeFlag flag →
      [text].foldlM Reader.take r = .ok { r with draft := d', waiting := .nothing } := by
    intro text htake
    rw [List.foldlM_cons, htake, hflag]
    rfl
  cases short with
  | true =>
      apply hone
      rw [take_of_not_separated hseparated]
      cases flag <;> exact bind_pure (m := Except ArgumentError) _
  | false =>
      apply hone
      rw [take_of_not_separated hseparated]
      cases flag <;> rfl

/-! ## The reader, part by part -/

/-- The option that the part gives a value to. -/
def CommandLine.Part.option? : Part → Option WindowOption
  | option o _ _ => some o
  | _ => none

/-- What some elements of a list are seen as, with one of them apart. -/
theorem filterMap_append_cons {α β : Type} (f : α → Option β) (xs : List α) (a : α) (ys : List α) :
    (xs ++ a :: ys).filterMap f = xs.filterMap f ++ ((f a).toList ++ ys.filterMap f) := by
  rw [List.filterMap_append, List.filterMap_cons]
  cases f a <;> rfl

/-- What some elements of a list are seen as, with the last one apart. -/
theorem filterMap_concat {α β : Type} (f : α → Option β) (xs : List α) (a : α) :
    (xs ++ [a]).filterMap f = xs.filterMap f ++ (f a).toList := by
  rw [filterMap_append_cons, List.filterMap_nil, List.append_nil]

/-- An option has been given if and only if it has been given a value. -/
theorem mem_filterMap_option?_iff {o : WindowOption} :
    o ∈ parts.filterMap Part.option? ↔ parts.filterMap (Part.wordOf? o) ≠ [] := by
  have hpart : ∀ part : Part, part.option? = some o ↔ part.wordOf? o ≠ none := by
    intro part
    cases part <;> simp [Part.option?, Part.wordOf?]
  simp only [List.mem_filterMap, hpart, ne_eq, List.filterMap_eq_nil_iff, not_forall, exists_prop]

/-- The draft of an invocation after some parts of its command line. -/
def Invocation.draftAfter (i : Invocation) (parts : List Part) : Draft :=
  i.draftOf (Positional.all.take (parts.filterMap Part.value?).length)
    (parts.filterMap Part.option?) (parts.filterMap Part.flag?)

/-- The reader has read some parts of a command line for the invocation: with the value that waits it has
their draft, and the places of the other positional values are to come. -/
structure Reader.Holds (r : Reader) (i : Invocation) (parts : List Part) (separated : Bool) :
    Prop where
  settled : r.settled = .ok (i.draftAfter parts)
  slots : r.slots = Positional.all.drop (parts.filterMap Part.value?).length
  separated_eq : r.separated = separated

/-- The next positional value is for the next place. -/
theorem CommandLine.Arranges.value_next {text : String}
    (hl : l.Arranges (front ++ .value text :: back)) :
    ∃ slot, l.text slot = text ∧
      Positional.all[(front.filterMap Part.value?).length]? = some slot := by
  have hvalues := hl.values
  rw [filterMap_append_cons] at hvalues
  have hget : (Positional.all.map l.text)[(front.filterMap Part.value?).length]? = some text := by
    rw [← hvalues]
    simp [Part.value?]
  rw [List.getElem?_map, Option.map_eq_some_iff] at hget
  obtain ⟨slot, hslot, htext⟩ := hget
  exact ⟨slot, htext, hslot⟩

/-- Where at most one element is, an element that is there is the only one. -/
theorem eq_of_append_cons_eq_toList {α : Type} {xs ys : List α} {a : α} {x : Option α}
    (h : xs ++ a :: ys = x.toList) : x = some a ∧ xs = [] := by
  cases x with
  | none => cases xs <;> cases h
  | some b =>
      rw [Option.toList_some, List.append_eq_singleton_iff] at h
      rcases h with ⟨hxs, hrest⟩ | ⟨_, hrest⟩
      · exact ⟨by rw [(List.cons.inj hrest).1], hxs⟩
      · cases hrest

/-- An option that comes now has not come before. -/
theorem CommandLine.Arranges.option_new {o : WindowOption} {text : String} {joined : Bool}
    (hl : l.Arranges (front ++ .option o text joined :: back)) :
    l.word o = some text ∧ o ∉ front.filterMap Part.option? := by
  have hwords := hl.words o
  rw [filterMap_append_cons, Part.wordOf?, if_pos rfl, Option.toList_some,
    List.singleton_append] at hwords
  rw [mem_filterMap_option?_iff, not_not]
  exact eq_of_append_cons_eq_toList hwords

/-- A flag that comes now has not come before, and neither has another one. -/
theorem CommandLine.Arranges.flag_new {flag : Flag} {short : Bool}
    (hl : l.Arranges (front ++ .flag flag short :: back)) :
    l.flag = some flag ∧ front.filterMap Part.flag? = [] := by
  have hflags := hl.flags
  rw [filterMap_append_cons, Part.flag?, Option.toList_some, List.singleton_append] at hflags
  exact eq_of_append_cons_eq_toList hflags

/-- A positional value is taken for the next place, in front of the separator or behind it. -/
theorem Reader.Holds.take_value {text : String} {separated : Bool} (hvalid : l.IsValid)
    (h : l.AsksFor i) (hl : l.Arranges (front ++ .value text :: back))
    (hr : r.Holds i front separated) :
    ∃ r', r.take text = .ok r' ∧ r'.Holds i (front ++ [.value text]) separated := by
  obtain ⟨slot, rfl, hslot⟩ := hl.value_next
  obtain ⟨hlt, hget⟩ := List.getElem?_eq_some_iff.1 hslot
  have hslots := hr.slots
  rw [List.drop_eq_getElem_cons hlt, hget] at hslots
  refine ⟨_, Reader.take_value (Argument.read_eq_plain (hvalid.plain slot)) hr.settled hslots,
    ?_, ?_, hr.separated_eq⟩
  · show (i.draftAfter front).fill slot (l.text slot) = _
    rw [Invocation.draftAfter, Invocation.fill_draftOf hvalid h, Invocation.draftAfter]
    simp only [filterMap_concat, Part.value?, Part.option?, Part.flag?, Option.toList_none,
      Option.toList_some, List.append_nil, List.length_append, List.length_singleton,
      List.take_add_one, hslot]
  · simp only [filterMap_concat, Part.value?, Option.toList_some, List.length_append,
      List.length_singleton]

/-- An option is taken with its value, which is checked at once if it stands in the same argument, and waits
otherwise. -/
theorem Reader.Holds.take_option {o : WindowOption} {text : String} {joined : Bool}
    (hvalid : l.IsValid) (h : l.AsksFor i)
    (hl : l.Arranges (front ++ .option o text joined :: back)) (hr : r.Holds i front false) :
    ∃ r', (Part.option o text joined).arguments.foldlM Reader.take r = .ok r' ∧
      r'.Holds i (front ++ [.option o text joined]) false := by
  obtain ⟨hword, hnew⟩ := hl.option_new
  have hset : (i.draftAfter front).set o text
      = .ok (i.draftAfter (front ++ [.option o text joined])) := by
    rw [Invocation.draftAfter, Invocation.set_draftOf h hword hnew, Invocation.draftAfter]
    simp only [filterMap_concat, Part.value?, Part.option?, Part.flag?, Option.toList_none,
      Option.toList_some, List.append_nil]
  have hslots : r.slots = Positional.all.drop
      ((front ++ [Part.option o text joined]).filterMap Part.value?).length := by
    simp only [hr.slots, filterMap_concat, Part.value?, Option.toList_none, List.append_nil]
  cases joined with
  | true =>
      refine ⟨{ r with draft := i.draftAfter (front ++ [.option o text true]), waiting := .nothing },
        ?_, rfl, hslots, hr.separated_eq⟩
      rw [Part.arguments, if_pos rfl, List.foldlM_cons,
        Reader.take_joined hr.separated_eq hr.settled hset]
      rfl
  | false =>
      obtain ⟨n, hn⟩ := hvalid.word o text hword
      have hplain := Argument.read_eq_plain (.inr (head_ne_dash_of_readWord hn))
      have htake : ({ r with draft := i.draftAfter front, waiting := .option o none } :
          Reader).take text
            = .ok { r with draft := i.draftAfter front, waiting := .option o (some text) } :=
        Reader.take_word hr.separated_eq rfl hplain
      refine ⟨{ r with draft := i.draftAfter front, waiting := .option o (some text) }, ?_, hset,
        hslots, hr.separated_eq⟩
      rw [Part.arguments, if_neg Bool.false_ne_true, List.foldlM_cons,
        Reader.take_option hr.separated_eq hr.settled]
      dsimp only [bind, Except.bind]
      rw [List.foldlM_cons, htake]
      rfl

/-- A flag is taken. -/
theorem Reader.Holds.take_flag {flag : Flag} {short : Bool} (hvalid : l.IsValid)
    (hl : l.Arranges (front ++ .flag flag short :: back)) (hr : r.Holds i front false) :
    ∃ r', (Part.flag flag short).arguments.foldlM Reader.take r = .ok r' ∧
      r'.Holds i (front ++ [.flag flag short]) false := by
  obtain ⟨hflag, hnone⟩ := hl.flag_new
  have hnew : flag ∉ front.filterMap Part.flag? := by
    rw [hnone]
    exact List.not_mem_nil
  have hraise : (i.draftAfter front).raise flag
      = .ok (i.draftAfter (front ++ [.flag flag short])) := by
    rw [Invocation.draftAfter, Invocation.raise_draftOf (hvalid.flag flag hflag) hnew,
      Invocation.draftAfter]
    simp only [filterMap_concat, Part.value?, Part.option?, Part.flag?, Option.toList_none,
      Option.toList_some, List.append_nil]
  refine ⟨_, Reader.take_flag short hr.separated_eq hr.settled hraise, rfl, ?_, hr.separated_eq⟩
  simp only [hr.slots, filterMap_concat, Part.value?, Option.toList_none, List.append_nil]

/-- Whatever part comes next, the reader takes it; behind the separator it has to be a positional
value. -/
theorem Reader.Holds.take_part {separated : Bool} (hvalid : l.IsValid) (h : l.AsksFor i)
    (hl : l.Arranges (front ++ part :: back)) (hr : r.Holds i front separated)
    (hpart : separated = false ∨ part.value?.isSome) :
    ∃ r', part.arguments.foldlM Reader.take r = .ok r' ∧
      r'.Holds i (front ++ [part]) separated := by
  cases part with
  | value text =>
      obtain ⟨r', htake, hr'⟩ := hr.take_value hvalid h hl
      refine ⟨r', ?_, hr'⟩
      rw [Part.arguments, List.foldlM_cons, htake]
      rfl
  | option o text joined =>
      obtain rfl : separated = false := hpart.resolve_right Bool.false_ne_true
      exact hr.take_option hvalid h hl
  | flag flag short =>
      obtain rfl : separated = false := hpart.resolve_right Bool.false_ne_true
      exact hr.take_flag hvalid hl

/-- The reader takes any number of parts, one after the other. -/
theorem Reader.Holds.take_parts {rest : List Part} {separated : Bool} (hvalid : l.IsValid)
    (h : l.AsksFor i) (hl : l.Arranges (front ++ (parts ++ rest))) (hr : r.Holds i front separated)
    (hparts : ∀ part ∈ parts, separated = false ∨ part.value?.isSome) :
    ∃ r', (parts.flatMap Part.arguments).foldlM Reader.take r = .ok r' ∧
      r'.Holds i (front ++ parts) separated := by
  induction parts generalizing front r with
  | nil => exact ⟨r, rfl, by rw [List.append_nil]; exact hr⟩
  | cons part parts ih =>
      obtain ⟨hpart, hrest⟩ := List.forall_mem_cons.1 hparts
      obtain ⟨r', hfirst, hr'⟩ := hr.take_part hvalid h hl hpart
      have hl' : l.Arranges (front ++ [part] ++ (parts ++ rest)) := by
        rw [List.append_assoc]
        exact hl
      obtain ⟨r'', hothers, hr''⟩ := ih hl' hr' hrest
      refine ⟨r'', ?_, by rw [List.append_cons]; exact hr''⟩
      rw [List.flatMap_cons, List.foldlM_append, hfirst]
      exact hothers

/-- The separator changes nothing of what has been read. -/
theorem Reader.Holds.take_separator (hr : r.Holds i parts false) :
    ∃ r', r.take "--" = .ok r' ∧ r'.Holds i parts true := by
  refine ⟨{ r with separated := true }, ?_, hr.settled, hr.slots, rfl⟩
  rw [take_of_not_separated hr.separated_eq]
  rfl

/-! ## Whole command lines -/

/-- A reader that begins has read no parts. -/
theorem Reader.holds_start (i : Invocation) : ({} : Reader).Holds i [] false :=
  ⟨rfl, rfl, rfl⟩

/-- A reader that has read all parts of a command line has read its invocation. -/
theorem Reader.Holds.invocation {separated : Bool} (hvalid : l.IsValid) (h : l.AsksFor i)
    (hl : l.Arranges parts) (hr : r.Holds i parts separated) :
    (r.settled >>= Draft.invocation) = .ok i := by
  have hoptions : ∀ o, o ∈ parts.filterMap Part.option? ↔ l.word o ≠ none := by
    intro o
    rw [mem_filterMap_option?_iff, hl.words o]
    cases l.word o <;> simp
  rw [hr.settled, Invocation.draftAfter, hl.flags, hl.values, List.length_map, List.take_length]
  exact Invocation.invocation_draftOf hvalid h hoptions

/-- In whatever order the parts of a valid command line are given, and wherever a separator stands behind
the last option, the command line is read as the same invocation, the one that it asks for. -/
theorem CommandLine.read_of_arranged (hvalid : l.IsValid) :
    ∃ i, l.AsksFor i ∧ ∀ arguments, l.ArrangedAs arguments → Invocation.read arguments = .ok i := by
  obtain ⟨i, h⟩ := hvalid.exists_asksFor
  refine ⟨i, h, ?_⟩
  rintro arguments ⟨front, back, hl, hback, harguments⟩
  obtain ⟨r, hfront, hr⟩ := (Reader.holds_start i).take_parts hvalid h hl fun _ _ => .inl rfl
  have hl' : l.Arranges ([] ++ front ++ (back ++ [])) := by
    rw [List.nil_append, List.append_nil]
    exact hl
  have htaken : ∃ r' separated, arguments.foldlM Reader.take {} = .ok r' ∧
      r'.Holds i (front ++ back) separated := by
    rcases harguments with rfl | rfl
    · obtain ⟨r', hrest, hr'⟩ := hr.take_parts hvalid h hl' fun _ _ => .inl rfl
      refine ⟨r', false, ?_, hr'⟩
      rw [List.flatMap_append, List.foldlM_append, hfront]
      exact hrest
    · obtain ⟨r₁, hseparator, hr₁⟩ := hr.take_separator
      obtain ⟨r', hrest, hr'⟩ := hr₁.take_parts hvalid h hl' fun part hpart =>
        .inr (hback part hpart)
      refine ⟨r', true, ?_, hr'⟩
      rw [List.foldlM_append, hfront]
      dsimp only [bind, Except.bind]
      rw [List.foldlM_cons, hseparator]
      exact hrest
  obtain ⟨r', separated, hread, hr'⟩ := htaken
  rw [Invocation.read, hread]
  exact hr'.invocation hvalid h hl

/-! ## A command line in a mixed order -/

/-- A command line with both options and a flag; one of its paths is a lone dash. -/
def mixedCommandLine : CommandLine where
  text
    | .symbols => "rom.o"
    | .sizeKib => "+0128"
    | .raw => "-"
    | .output => "bios.bin"
  word
    | .base => some " 0XE0000"
    | .size => some "131072"
  flag := some .quiet

/-- The arguments of that command line, some options among the values and a separator behind them. -/
def mixedArguments : List String :=
  ["--bios-size=131072", "rom.o", "-q", "+0128", "--bios-addr", " 0XE0000", "--", "-", "bios.bin"]

theorem mixedCommandLine_isValid : mixedCommandLine.IsValid where
  path slot _ := by cases slot <;> decide
  size := ⟨128, by decide, ['+'], ['0', '1', '2', '8'], [0, 1, 2, 8], rfl, .inr rfl, by decide,
    by decide, rfl⟩
  plain slot := by cases slot <;> decide
  word o text h := by
    cases o
    · obtain rfl := Option.some.inj h
      exact ⟨0xe0000, rfl⟩
    · obtain rfl := Option.some.inj h
      exact ⟨131072, rfl⟩
  flag flag h := .inr (Option.some.inj h).symm

theorem mixedCommandLine_arrangedAs : mixedCommandLine.ArrangedAs mixedArguments := by
  refine ⟨[.option .size "131072" true, .value "rom.o", .flag .quiet true, .value "+0128",
    .option .base " 0XE0000" false], [.value "-", .value "bios.bin"], ⟨rfl, ?_, rfl⟩, by decide,
    .inr rfl⟩
  intro o
  cases o <;> rfl

/-- The arguments are read as the invocation that the command line asks for. -/
theorem read_of_arranged_mixedCommandLine :
    mixedCommandLine.IsValid ∧ mixedCommandLine.ArrangedAs mixedArguments ∧
      ∃ i, mixedCommandLine.AsksFor i ∧ Invocation.read mixedArguments = .ok i := by
  obtain ⟨i, hi, hread⟩ := CommandLine.read_of_arranged mixedCommandLine_isValid
  exact ⟨mixedCommandLine_isValid, mixedCommandLine_arrangedAs, i, hi,
    hread mixedArguments mixedCommandLine_arrangedAs⟩

end RomImage
