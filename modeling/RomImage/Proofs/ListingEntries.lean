/-
# Entries of a listing

Which lines of a listing are entries, said without the reader (`Definition.IsEntry`): an address in front
of the first space, nine bytes that are passed over, and the words of the rest.  The reader of lines
finds exactly these (`ofLine?_eq_some_iff`), so that a line is the entry of at most one definition; and
`EntriesOf` tells the definitions that a sequence of lines gives.
-/
import RomImage.Proofs.Outcome
import RomImage.Proofs.TextPieces

namespace RomImage

/-! ## Bytes of a text -/

/-- The number of bytes that encode a text. -/
def byteWidth : List Char → Nat
  | [] => 0
  | c :: cs => c.utf8Size + byteWidth cs

@[simp]
theorem byteWidth_nil : byteWidth [] = 0 := rfl

@[simp]
theorem byteWidth_cons (c : Char) (cs : List Char) :
    byteWidth (c :: cs) = c.utf8Size + byteWidth cs := rfl

/-- A text without bytes is empty. -/
theorem byteWidth_eq_zero_iff {cs : List Char} : byteWidth cs = 0 ↔ cs = [] := by
  cases cs with
  | nil => simp
  | cons c cs =>
      have hpos := c.utf8Size_pos
      simp only [byteWidth_cons, List.cons_ne_nil, iff_false]
      omega

/-- A text of ASCII characters has a byte for each of them. -/
theorem byteWidth_eq_length {cs : List Char} (h : ∀ c ∈ cs, c.toNat < 128) :
    byteWidth cs = cs.length := by
  induction cs with
  | nil => rfl
  | cons c cs ih =>
      obtain ⟨hc, hcs⟩ := List.forall_mem_cons.1 h
      have hc : c.utf8Size = 1 := by
        rw [Char.utf8Size_eq_one_iff, UInt32.le_iff_toNat_le]
        exact Nat.le_of_lt_succ hc
      rw [byteWidth_cons, hc, ih hcs, List.length_cons, Nat.add_comm]

/-- Dropping bytes leaves what follows a front of just so many bytes; if no front has so many, because
the text is shorter or a character lies across that place, nothing is left. -/
theorem dropBytes_eq_some_iff {n : Nat} {cs rest : List Char} :
    dropBytes n cs = some rest ↔ ∃ front, cs = front ++ rest ∧ byteWidth front = n := by
  -- each character takes its own bytes off the count, which must come out at zero
  induction cs generalizing n with
  | nil =>
      cases n with
      | zero =>
          simp only [dropBytes, Option.some.injEq]
          constructor
          · rintro rfl
            exact ⟨[], rfl, rfl⟩
          · rintro ⟨front, hcs, _⟩
            exact (List.append_eq_nil_iff.1 hcs.symm).2.symm
      | succ n =>
          simp only [dropBytes, reduceCtorEq, false_iff]
          rintro ⟨front, hcs, hwidth⟩
          rw [(List.append_eq_nil_iff.1 hcs.symm).1, byteWidth_nil] at hwidth
          cases hwidth
  | cons c cs ih =>
      have hpos := c.utf8Size_pos
      cases n with
      | zero =>
          simp only [dropBytes, Option.some.injEq]
          constructor
          · rintro rfl
            exact ⟨[], rfl, rfl⟩
          · rintro ⟨front, hcs, hwidth⟩
            rw [byteWidth_eq_zero_iff.1 hwidth, List.nil_append] at hcs
            exact hcs
      | succ n =>
          rw [dropBytes]
          constructor
          · intro h
            split at h
            · rename_i hle
              obtain ⟨front, rfl, hwidth⟩ := ih.1 h
              exact ⟨c :: front, rfl, by rw [byteWidth_cons]; omega⟩
            · cases h
          · rintro ⟨front, hcs, hwidth⟩
            cases front with
            | nil => cases hwidth
            | cons d front =>
                obtain ⟨rfl, rfl⟩ := List.cons.inj hcs
                rw [byteWidth_cons] at hwidth
                rw [if_pos (by omega)]
                exact ih.2 ⟨front, rfl, by omega⟩

/-! ## Columns -/

/-- The columns are the three words of the text, or its four words without the hidden mark. -/
theorem columns_eq_some_iff {cs sect size name : List Char} :
    columns cs = some (sect, size, name) ↔
      HasWords cs [sect, size, name] ∨ HasWords cs [sect, size, ".hidden".toList, name] := by
  rw [← words_eq_iff, ← words_eq_iff]
  show columns cs = _ ↔ _ ∨ words cs = [sect, size, hiddenMark, name]
  unfold columns
  split
  · rename_i sect' size' name' hwords
    simp [hwords]
  · rename_i sect' size' mark name' hwords
    by_cases hmark : mark = hiddenMark
    · simp [hwords, hmark]
    · simp [hwords, hmark]
  · rename_i hthree hfour
    constructor
    · intro h
      cases h
    · rintro (h | h)
      · exact absurd h (hthree sect size name)
      · exact absurd h (hfour sect size hiddenMark name)

/-! ## Entries -/

/-- The line, without blanks at its end, is the entry of the definition: a hexadecimal address up to the
first space, nine bytes from that space on, and then the words section, size and name, the name perhaps
after the hidden mark. -/
def Definition.IsEntry (d : Definition) (line : List Char) : Prop :=
  ∃ address gap fields sect size name : List Char,
    line = address ++ gap ++ fields ∧ ' ' ∉ address ∧ gap.head? = some ' ' ∧ byteWidth gap = 9 ∧
    Spells 16 address d.address ∧ d.address < UInt64.size ∧
    (HasWords fields [sect, size, name] ∨ HasWords fields [sect, size, ".hidden".toList, name]) ∧
    Spells 16 size d.size.toNat ∧
    d.name = String.ofList name ∧ d.sectionName = some (String.ofList sect)

/-- A line without a space is no entry. -/
theorem ofLine?_of_not_mem {line : List Char} (h : ' ' ∉ line) : Definition.ofLine? line = none := by
  have hdrop : line.dropWhile (· != ' ') = [] := by
    apply List.dropWhile_eq_nil_iff.2
    intro c hc
    rw [bne_iff_ne]
    exact ne_of_mem_of_not_mem hc h
  rw [Definition.ofLine?, hdrop]

/-- A line is read at its first space. -/
theorem ofLine?_of_space {address rest : List Char} (h : ' ' ∉ address) :
    Definition.ofLine? (address ++ ' ' :: rest) = (do
      let value ← (readNatural 16 UInt64.size address).toOption
      let fields ← dropBytes flagWidth (' ' :: rest)
      let (sect, sizeText, name) ← columns fields
      let size ← (readNatural 16 UInt32.size sizeText).toOption
      some ⟨String.ofList name, value, UInt32.ofNat size, some (String.ofList sect)⟩) := by
  have hdigits : ∀ c ∈ address, (c != ' ') = true := by
    intro c hc
    rw [bne_iff_ne]
    exact ne_of_mem_of_not_mem hc h
  have hdrop : (address ++ ' ' :: rest).dropWhile (· != ' ') = ' ' :: rest := by
    rw [List.dropWhile_append_of_pos hdigits]
    rfl
  have htake : (address ++ ' ' :: rest).takeWhile (· != ' ') = address := by
    rw [List.takeWhile_append_of_pos hdigits, List.takeWhile_cons_of_neg (by decide),
      List.append_nil]
  rw [Definition.ofLine?, hdrop, htake]

/-- A line gives a definition exactly if it is the entry of that definition. -/
theorem ofLine?_eq_some_iff {line : List Char} {d : Definition} :
    Definition.ofLine? line = some d ↔ d.IsEntry line := by
  constructor
  · intro h
    by_cases hspace : ' ' ∈ line
    · obtain ⟨address, rest, rfl, haddress⟩ := List.eq_append_cons_of_mem hspace
      rw [ofLine?_of_space haddress] at h
      simp only [bind, Option.bind_eq_some_iff, toOption_eq_some_iff, Option.some.injEq] at h
      obtain ⟨value, hvalue, fields, hfields, ⟨sect, sizeText, name⟩, hcolumns, size, hsize, rfl⟩ := h
      obtain ⟨gap, hgap, hwidth⟩ := dropBytes_eq_some_iff.1 hfields
      have hword : (UInt32.ofNat size).toNat = size :=
        UInt32.toNat_ofNat_of_lt (readNatural_lt (by decide) hsize)
      -- the gap has bytes, so that it holds the space with which it begins
      have hhead : gap.head? = some ' ' := by
        cases gap with
        | nil => cases hwidth
        | cons c gap =>
            obtain ⟨rfl, _⟩ := List.cons.inj hgap
            rfl
      have hspells := (readNatural_eq_ok_iff (by decide) (by decide) (by decide)).1 hvalue
      have hspellsSize := (readNatural_eq_ok_iff (by decide) (by decide) (by decide)).1 hsize
      refine ⟨address, gap, fields, sect, sizeText, name, ?_, haddress, hhead, hwidth, hspells.1,
        hspells.2, columns_eq_some_iff.1 hcolumns, ?_, rfl, rfl⟩
      · rw [hgap, List.append_assoc]
      · show Spells 16 sizeText (UInt32.ofNat size).toNat
        rw [hword]
        exact hspellsSize.1
    · rw [ofLine?_of_not_mem hspace] at h
      cases h
  · rintro ⟨address, gap, fields, sect, sizeText, name, rfl, haddress, hhead, hwidth, hvalue, hlt,
      hwords, hsize, hname, hsect⟩
    obtain ⟨rest, rfl⟩ := List.head?_eq_some_iff.1 hhead
    have hread := (readNatural_eq_ok_iff (by decide) (by decide) (by decide)).2 ⟨hvalue, hlt⟩
    have hfields : dropBytes flagWidth (' ' :: rest ++ fields) = some fields :=
      dropBytes_eq_some_iff.2 ⟨' ' :: rest, rfl, hwidth⟩
    have hcolumns := columns_eq_some_iff.2 hwords
    have hreadSize : readNatural 16 UInt32.size sizeText = .ok d.size.toNat :=
      (readNatural_eq_ok_iff (by decide) (by decide) (by decide)).2 ⟨hsize, d.size.toNat_lt⟩
    rw [List.append_assoc, List.cons_append, ofLine?_of_space haddress]
    simp only [bind, Option.bind_eq_some_iff, toOption_eq_some_iff, Option.some.injEq]
    refine ⟨d.address, hread, fields, hfields, _, hcolumns, d.size.toNat, hreadSize, ?_⟩
    rw [UInt32.ofNat_toNat, ← hname, ← hsect]

/-! ## Entries in a row -/

/-- The definitions of which the lines, trimmed, are the entries, in order; other lines are passed
over. -/
inductive EntriesOf : List (List Char) → List Definition → Prop
  | nil : EntriesOf [] []
  | entry {line body : List Char} {d : Definition} {ls : List (List Char)} {ds : List Definition} :
    TrimsTo line body → d.IsEntry body → EntriesOf ls ds → EntriesOf (line :: ls) (d :: ds)
  | skip {line body : List Char} {ls : List (List Char)} {ds : List Definition} :
    TrimsTo line body → (∀ d : Definition, ¬ d.IsEntry body) → EntriesOf ls ds →
    EntriesOf (line :: ls) ds

/-- The definitions of lines are those that the reader of lines finds in them. -/
theorem entriesOf_iff {ls : List (List Char)} {ds : List Definition} :
    EntriesOf ls ds ↔ (ls.map trimEnd).filterMap Definition.ofLine? = ds := by
  constructor
  · intro h
    induction h with
    | nil => rfl
    | entry htrim hentry _ ih =>
        rw [List.map_cons, trimEnd_eq_iff.2 htrim,
          List.filterMap_cons_some (ofLine?_eq_some_iff.2 hentry), ih]
    | skip htrim hnone _ ih =>
        rw [List.map_cons, trimEnd_eq_iff.2 htrim, List.filterMap_cons_none, ih]
        rw [Option.eq_none_iff_forall_ne_some]
        intro d hd
        exact hnone d (ofLine?_eq_some_iff.1 hd)
  · rintro rfl
    induction ls with
    | nil => exact .nil
    | cons line ls ih =>
        have htrim : TrimsTo line (trimEnd line) := trimEnd_eq_iff.1 rfl
        cases hline : Definition.ofLine? (trimEnd line) with
        | none =>
            rw [List.map_cons, List.filterMap_cons_none hline]
            refine .skip htrim (fun d hd => ?_) ih
            rw [ofLine?_eq_some_iff.2 hd] at hline
            cases hline
        | some d =>
            rw [List.map_cons, List.filterMap_cons_some hline]
            exact .entry htrim (ofLine?_eq_some_iff.1 hline) ih

end RomImage
