/-
# The texts of words

Which texts are read as a 32-bit word, and as which one (`readWord_accepts`): blanks, a hexadecimal numeral
behind its mark or a decimal one, and blanks again.  The grammar (`IsWordText`) is told with the digits of
core and the value of Mathlib's `Nat.ofDigits`, apart from the reader, and says nothing of the width of the
numeral: zeros in front do not count, and the value decides.
-/
import RomImage.Command.Argument
import RomImage.Proofs.TextPieces

namespace RomImage

/-! ## Blanks at both ends -/

/-- Trimming takes blanks away and nothing else. -/
theorem exists_blanks_trim (cs : List Char) :
    ∃ front back, cs = front ++ trim cs ++ back ∧ ∀ c ∈ front ++ back, isBlank c = true := by
  obtain ⟨back, hback, hblank, _⟩ := trimEnd_eq_iff.1 (rfl : trimEnd (cs.dropWhile isBlank) = _)
  refine ⟨cs.takeWhile isBlank, back, ?_, ?_⟩
  · rw [trim, List.append_assoc, ← hback, List.takeWhile_append_dropWhile]
  · intro c hc
    rcases List.mem_append.1 hc with hfront | hback
    · exact List.mem_takeWhile_imp hfront
    · exact hblank c hback

/-- A word is what is left when the blanks around it are trimmed. -/
theorem trim_append_word {front word back : List Char} (hword : IsWord word)
    (hblank : ∀ c ∈ front ++ back, isBlank c = true) : trim (front ++ word ++ back) = word := by
  obtain ⟨hne, hvisible⟩ := hword
  have hfront : ∀ c ∈ front, isBlank c = true := fun c hc =>
    hblank c (List.mem_append_left back hc)
  have hback : ∀ c ∈ back, isBlank c = true := fun c hc =>
    hblank c (List.mem_append_right front hc)
  have hdrop : (word ++ back).dropWhile isBlank = word ++ back := by
    obtain ⟨c, cs, rfl⟩ := List.exists_cons_of_ne_nil hne
    have hc := hvisible c List.mem_cons_self
    rw [List.cons_append, List.dropWhile_cons_of_neg (by rw [hc]; exact Bool.false_ne_true)]
  rw [trim, List.append_assoc, List.dropWhile_append_of_pos hfront, hdrop,
    trimEnd_append_blanks word hback]
  exact trimEnd_append_word [] ⟨hne, hvisible⟩

/-! ## The reader of words -/

/-- The text behind the mark is found exactly if the mark is in front. -/
theorem afterHexMark?_eq_some_iff {cs digits : List Char} :
    afterHexMark? cs = some digits ↔ cs = '0' :: 'x' :: digits ∨ cs = '0' :: 'X' :: digits := by
  unfold afterHexMark?
  split <;> simp_all

/-- A decimal numeral does not begin with the mark. -/
theorem afterHexMark?_of_spells_ten {n : Nat} {cs : List Char} (h : Spells 10 cs n) :
    afterHexMark? cs = none := by
  obtain ⟨sign, digits, values, rfl, hsign, _, hdigits, _⟩ := h
  rw [Option.eq_none_iff_forall_ne_some]
  intro rest hmark
  rcases hsign with rfl | rfl
  · -- the second character of the mark would be a decimal digit
    have hsecond : ∀ c, c = 'x' ∨ c = 'X' → ¬ HasDigits 10 ('0' :: c :: rest) values := by
      rintro c hc (_ | ⟨_, _ | ⟨hdigit, _⟩⟩)
      have hvalue := (digitIn_eq_some_iff (by decide)).2 hdigit
      rcases hc with rfl | rfl <;> cases hvalue
    rcases afterHexMark?_eq_some_iff.1 hmark with rfl | rfl
    · exact hsecond 'x' (.inl rfl) hdigits
    · exact hsecond 'X' (.inr rfl) hdigits
  · rcases afterHexMark?_eq_some_iff.1 hmark with h | h <;> cases h

/-- What is read as a natural number below the number of words is a numeral for a word. -/
theorem exists_readNatural_iff {radix : Nat} {cs : List Char} {n : UInt32} (hpos : 0 < radix)
    (hradix : radix ≤ 16) :
    (∃ m, readNatural radix UInt32.size cs = .ok m ∧ UInt32.ofNat m = n) ↔
      Spells radix cs n.toNat := by
  have hword : Spells radix cs n.toNat ↔ readNatural radix UInt32.size cs = .ok n.toNat := by
    rw [readNatural_eq_ok_iff hpos hradix (by decide), and_iff_left n.toNat_lt]
  rw [hword]
  constructor
  · rintro ⟨m, hread, rfl⟩
    rw [UInt32.toNat_ofNat_of_lt' (readNatural_lt (by decide) hread), hread]
  · intro hread
    exact ⟨n.toNat, hread, UInt32.ofNat_toNat⟩

/-- A word is read from a hexadecimal numeral behind the mark, or from a decimal one. -/
theorem readWord_eq_ok_iff {text : String} {n : UInt32} :
    readWord text = .ok n ↔
      (∃ digits, afterHexMark? (trim text.toList) = some digits ∧ Spells 16 digits n.toNat) ∨
      Spells 10 (trim text.toList) n.toNat := by
  unfold readWord
  dsimp only
  cases hmark : afterHexMark? (trim text.toList) with
  | some digits =>
      dsimp only
      -- behind a mark nothing is read as a decimal numeral
      have hhex : ((∃ digits', some digits = some digits' ∧ Spells 16 digits' n.toNat) ∨
          Spells 10 (trim text.toList) n.toNat) ↔
            ∃ m, readNatural 16 UInt32.size digits = .ok m ∧ UInt32.ofNat m = n := by
        rw [exists_readNatural_iff (by decide) (by decide)]
        constructor
        · rintro (⟨digits', hdigits, h⟩ | h)
          · obtain rfl := Option.some.inj hdigits
            exact h
          · rw [afterHexMark?_of_spells_ten h] at hmark
            cases hmark
        · exact fun h => .inl ⟨digits, rfl, h⟩
      rw [hhex]
      cases readNatural 16 UInt32.size digits <;> simp
  | none =>
      have hdecimal : ((∃ digits, none = some digits ∧ Spells 16 digits n.toNat) ∨
          Spells 10 (trim text.toList) n.toNat) ↔
            ∃ m, readNatural 10 UInt32.size (trim text.toList) = .ok m ∧ UInt32.ofNat m = n := by
        rw [exists_readNatural_iff (by decide) (by decide)]
        simp
      rw [hdecimal]
      cases readNatural 10 UInt32.size (trim text.toList) <;> simp

/-! ## The grammar -/

/-- The text is one for the word `n`: a hexadecimal numeral behind the mark, or a decimal numeral, with
blanks around it or none. -/
def IsWordText (text : List Char) (n : Nat) : Prop :=
  n < 0x100000000 ∧ ∃ front body back, text = front ++ body ++ back ∧
    (∀ c ∈ front ++ back, isBlank c = true) ∧
    ((∃ mark numeral, (mark = ['0', 'x'] ∨ mark = ['0', 'X']) ∧ body = mark ++ numeral ∧
      Spells 16 numeral n) ∨ Spells 10 body n)

/-- The texts that are read as a word are the texts for it. -/
theorem readWord_eq_ok_iff_isWordText {text : String} {n : UInt32} :
    readWord text = .ok n ↔ IsWordText text.toList n.toNat := by
  rw [readWord_eq_ok_iff]
  simp only [afterHexMark?_eq_some_iff]
  constructor
  · obtain ⟨front, back, htext, hblank⟩ := exists_blanks_trim text.toList
    rintro (⟨numeral, hmark | hmark, hspells⟩ | hspells)
    · exact ⟨n.toNat_lt, front, _, back, htext, hblank,
        .inl ⟨['0', 'x'], numeral, .inl rfl, hmark, hspells⟩⟩
    · exact ⟨n.toNat_lt, front, _, back, htext, hblank,
        .inl ⟨['0', 'X'], numeral, .inr rfl, hmark, hspells⟩⟩
    · exact ⟨n.toNat_lt, front, _, back, htext, hblank, .inr hspells⟩
  · rintro ⟨_, front, body, back, htext, hblank, hbody⟩
    rw [htext]
    rcases hbody with ⟨mark, numeral, hmark, rfl, hspells⟩ | hspells
    · have hword := hspells.isWord (by decide)
      have hbody : IsWord (mark ++ numeral) := by
        rcases hmark with rfl | rfl
        all_goals
          exact ⟨List.cons_ne_nil _ _,
            List.forall_mem_cons.2 ⟨rfl, List.forall_mem_cons.2 ⟨rfl, hword.2⟩⟩⟩
      rw [trim_append_word hbody hblank]
      left
      rcases hmark with rfl | rfl
      · exact ⟨numeral, .inl rfl, hspells⟩
      · exact ⟨numeral, .inr rfl, hspells⟩
    · rw [trim_append_word (hspells.isWord (by decide)) hblank]
      exact .inr hspells

/-- A text is read as a word if and only if it is a text for that word, and refused if it is one for no
word; so the hexadecimal text of a word and its decimal text are both read as the word. -/
theorem readWord_accepts (text : String) (n : UInt32) :
    (readWord text = .ok n ↔ IsWordText text.toList n.toNat) ∧
    ((∃ reason, readWord text = .error reason) ↔ ∀ m, ¬ IsWordText text.toList m) ∧
    readWord (hex n.toNat) = .ok n ∧ readWord (toString n.toNat) = .ok n := by
  refine ⟨readWord_eq_ok_iff_isWordText, ?_, ?_, ?_⟩
  · cases hread : readWord text with
    | ok word =>
        simp only [reduceCtorEq, exists_false, false_iff, not_forall, not_not]
        exact ⟨word.toNat, readWord_eq_ok_iff_isWordText.1 hread⟩
    | error reason =>
        simp only [Except.error.injEq, exists_eq', true_iff]
        intro m hm
        have hok : readWord text = .ok (UInt32.ofNat m) := by
          rw [readWord_eq_ok_iff_isWordText, UInt32.toNat_ofNat_of_lt' hm.1]
          exact hm
        rw [hread] at hok
        cases hok
  · rw [readWord_eq_ok_iff_isWordText]
    refine ⟨n.toNat_lt, [], '0' :: 'x' :: hexDigits n.toNat, [], ?_, List.forall_mem_nil _, .inl
      ⟨['0', 'x'], hexDigits n.toNat, .inl rfl, rfl, spells_toDigits (by decide) _⟩⟩
    rw [hex, String.toList_append, String.toList_ofList, String.toList_ofList]
    simp
  · rw [readWord_eq_ok_iff_isWordText]
    refine ⟨n.toNat_lt, [], Nat.toDigits 10 n.toNat, [], ?_, List.forall_mem_nil _,
      .inr (spells_toDigits (by decide) _)⟩
    rw [List.nil_append, List.append_nil]
    exact String.toList_ofList

end RomImage
