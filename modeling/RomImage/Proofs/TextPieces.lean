/-
# Lines and words of a text

The lines of a text, a line without the blanks at its end, and the words of a line, each said as a relation
that tells nothing of a reader (`HasLines`, `TrimsTo`, `HasWords`): the text is the lines with newlines
between them, the line is what is left with blanks behind it, and words stand with blanks around them.  The
readers find exactly these (`lines_eq_iff`, `trimEnd_eq_iff`, `words_eq_iff`).  So a text that is put
together from lines and words comes apart again (`lines_unlines_append`, `words_append_blank`).
-/
import Mathlib.Data.List.TakeWhile
import RomImage.Proofs.Numerals
import RomImage.Symbol.Listing

namespace RomImage

/-! ## Lines -/

/-- The text is made of the lines, one or more, with a newline between each two of them. -/
def HasLines (text : List Char) (ls : List (List Char)) : Prop :=
  ls ≠ [] ∧ (∀ line ∈ ls, '\n' ∉ line) ∧ text = List.intercalate ['\n'] ls

/-- A separator ends the piece of the elements in front of it. -/
theorem splitOn_append_cons {α : Type} [BEq α] [LawfulBEq α] {a : α} {xs : List α} (ys : List α)
    (h : a ∉ xs) : (xs ++ a :: ys).splitOn a = xs :: ys.splitOn a := by
  have hdiffer : ∀ x ∈ xs, (x == a) = false := by
    intro x hx
    rw [beq_eq_false_iff_ne]
    exact ne_of_mem_of_not_mem hx h
  exact List.splitOnP_append_cons_of_forall_mem hdiffer a (beq_self_eq_true a) ys

/-- A line is ended by its newline. -/
theorem lines_append_newline {line : List Char} (rest : List Char) (h : '\n' ∉ line) :
    lines (line ++ '\n' :: rest) = line :: lines rest :=
  splitOn_append_cons rest h

/-- A text without newlines is one line. -/
theorem lines_eq_singleton {line : List Char} (h : '\n' ∉ line) : lines line = [line] :=
  List.splitOn_eq_singleton h

/-- Lines hold no newlines. -/
theorem newline_not_mem_of_mem_lines (text : List Char) : ∀ line ∈ lines text, '\n' ∉ line := by
  induction hlen : text.length using Nat.strong_induction_on generalizing text with
  | _ n ih =>
    by_cases hnewline : '\n' ∈ text
    · obtain ⟨first, rest, rfl, hfirst⟩ := List.eq_append_cons_of_mem hnewline
      rw [List.length_append, List.length_cons] at hlen
      rw [lines_append_newline rest hfirst, List.forall_mem_cons]
      exact ⟨hfirst, ih rest.length (by omega) rest rfl⟩
    · rw [lines_eq_singleton hnewline, List.forall_mem_singleton]
      exact hnewline

/-- The lines that are read are those of which the text is made. -/
theorem lines_eq_iff {text : List Char} {ls : List (List Char)} :
    lines text = ls ↔ HasLines text ls := by
  constructor
  · rintro rfl
    exact ⟨List.splitOn_ne_nil _ _, newline_not_mem_of_mem_lines text,
      (List.intercalate_splitOn '\n').symm⟩
  · rintro ⟨hne, hlines, rfl⟩
    exact List.splitOn_intercalate '\n' hlines hne

/-- Lines that are each ended by a newline are the first lines of a text. -/
theorem lines_unlines_append {ls : List (List Char)} (rest : List Char)
    (h : ∀ line ∈ ls, '\n' ∉ line) : lines (unlines ls ++ rest) = ls ++ lines rest := by
  induction ls with
  | nil => rfl
  | cons line ls ih =>
      obtain ⟨hline, hrest⟩ := List.forall_mem_cons.1 h
      rw [unlines, List.flatMap_cons, ← unlines, List.append_assoc, List.append_assoc,
        List.singleton_append, lines_append_newline _ hline, ih hrest, List.cons_append]

/-- A newline at the end of a text begins an empty line. -/
theorem lines_concat_newline (text : List Char) : lines (text ++ ['\n']) = lines text ++ [[]] :=
  List.splitOnP_append_cons text [] (beq_self_eq_true '\n')

/-! ## Trimming -/

/-- The line is the text `body` with blanks behind it, and `body` does not end with a blank itself. -/
def TrimsTo (line body : List Char) : Prop :=
  ∃ blanks, line = body ++ blanks ∧ (∀ c ∈ blanks, isBlank c = true) ∧
    ∀ c, body.getLast? = some c → isBlank c = false

/-- A line is trimmed to nothing if all of it is blank. -/
theorem trimsTo_nil_iff {line : List Char} : TrimsTo line [] ↔ ∀ c ∈ line, isBlank c = true := by
  constructor
  · rintro ⟨blanks, rfl, hblanks, _⟩
    exact hblanks
  · intro h
    exact ⟨line, rfl, h, fun c hc => nomatch hc⟩

/-- Blanks behind a line are trimmed away. -/
theorem trimEnd_append_blanks {blanks : List Char} (line : List Char)
    (h : ∀ c ∈ blanks, isBlank c = true) : trimEnd (line ++ blanks) = trimEnd line := by
  rw [trimEnd, List.reverse_append, List.dropWhile_append_of_pos, trimEnd]
  intro c hc
  exact h c (List.mem_reverse.1 hc)

/-- A line that ends with a visible character is left as it is. -/
theorem trimEnd_concat {line : List Char} {c : Char} (h : isBlank c = false) :
    trimEnd (line ++ [c]) = line ++ [c] := by
  rw [trimEnd, List.reverse_append, List.reverse_singleton, List.singleton_append,
    List.dropWhile_cons_of_neg (by rw [h]; exact Bool.false_ne_true), List.reverse_cons,
    List.reverse_reverse]

/-- What is left when a line is trimmed is the line without the blanks at its end. -/
theorem trimEnd_eq_iff {line body : List Char} : trimEnd line = body ↔ TrimsTo line body := by
  constructor
  · rintro rfl
    refine ⟨(line.reverse.takeWhile isBlank).reverse, ?_, ?_, ?_⟩
    · rw [trimEnd, ← List.reverse_append, List.takeWhile_append_dropWhile, List.reverse_reverse]
    · intro c hc
      exact List.mem_takeWhile_imp (List.mem_reverse.1 hc)
    · intro c hc
      rw [trimEnd, List.getLast?_reverse] at hc
      have hhead := List.head?_dropWhile_not isBlank line.reverse
      rwa [hc] at hhead
  · rintro ⟨blanks, rfl, hblanks, hlast⟩
    rw [trimEnd_append_blanks body hblanks]
    rcases List.eq_nil_or_concat body with rfl | ⟨front, c, rfl⟩
    · rfl
    · rw [List.concat_eq_append] at hlast ⊢
      exact trimEnd_concat (hlast c List.getLast?_concat)

/-- The text is a word: it is not empty and holds no blank. -/
def IsWord (cs : List Char) : Prop :=
  cs ≠ [] ∧ ∀ c ∈ cs, isBlank c = false

instance (cs : List Char) : Decidable (IsWord cs) :=
  decidable_of_iff (cs ≠ [] ∧ cs.all (fun c => !isBlank c) = true) (by simp [IsWord])

/-- The hidden mark is a word. -/
theorem isWord_hiddenMark : IsWord hiddenMark := by decide

/-- No blank is in a word. -/
theorem IsWord.not_mem {word : List Char} {c : Char} (h : IsWord word) (hc : isBlank c = true) :
    c ∉ word := by
  intro hmem
  rw [h.2 c hmem] at hc
  cases hc

/-- A line that ends with a word is left as it is. -/
theorem trimEnd_append_word {word : List Char} (line : List Char) (h : IsWord word) :
    trimEnd (line ++ word) = line ++ word := by
  obtain ⟨hne, hvisible⟩ := h
  obtain ⟨front, last, rfl⟩ := (List.eq_nil_or_concat word).resolve_left hne
  rw [List.concat_eq_append] at hvisible ⊢
  rw [← List.append_assoc]
  exact trimEnd_concat (hvisible last (by simp))

/-- A text that spells a number is a word. -/
theorem Spells.isWord {radix n : Nat} {cs : List Char} (hradix : radix ≤ 16)
    (h : Spells radix cs n) : IsWord cs := by
  obtain ⟨sign, digits, values, rfl, hsign, hne, hdigits, _⟩ := h
  have hvisible := hdigits.isBlank_eq_false hradix
  rcases hsign with rfl | rfl
  · exact ⟨hne, hvisible⟩
  · exact ⟨List.cons_ne_nil _ _, List.forall_mem_cons.2 ⟨rfl, hvisible⟩⟩

/-! ## Words -/

/-- The words of the text are these: blanks stand in front of each and behind the last, or none do, but no
two words touch. -/
inductive HasWords : List Char → List (List Char) → Prop
  | nil {blanks : List Char} : (∀ c ∈ blanks, isBlank c = true) → HasWords blanks []
  | cons {blanks word rest : List Char} {ws : List (List Char)} :
    (∀ c ∈ blanks, isBlank c = true) → IsWord word → (∀ c, rest.head? = some c → isBlank c = true) →
    HasWords rest ws → HasWords (blanks ++ word ++ rest) (word :: ws)

/-- A blank ends a word. -/
theorem words_append_blank {word : List Char} {c : Char} (rest : List Char) (h : IsWord word)
    (hc : isBlank c = true) : words (word ++ c :: rest) = word :: words rest := by
  rw [words, List.splitOnP_append_cons_of_forall_mem h.2 c hc, List.filter_cons_of_pos, words]
  simpa using h.1

/-- A word is its only word. -/
theorem words_eq_singleton {word : List Char} (h : IsWord word) : words word = [word] := by
  rw [words, List.splitOnP_eq_singleton h.2, List.filter_cons_of_pos, List.filter_nil]
  simpa using h.1

/-- Blanks in front of a text do not matter. -/
theorem words_blanks_append {blanks : List Char} (rest : List Char)
    (h : ∀ c ∈ blanks, isBlank c = true) : words (blanks ++ rest) = words rest := by
  induction blanks with
  | nil => rfl
  | cons c blanks ih =>
      obtain ⟨hc, hblanks⟩ := List.forall_mem_cons.1 h
      have hpieces := List.splitOnP_append_cons [] (blanks ++ rest) hc
      rw [List.nil_append] at hpieces
      rw [List.cons_append, words, hpieces, List.splitOnP_nil, List.singleton_append,
        List.filter_cons_of_neg Bool.false_ne_true, ← words, ih hblanks]

/-- A word that a blank follows, or nothing, is the first word. -/
theorem words_word_append {word rest : List Char} (h : IsWord word)
    (hrest : ∀ c, rest.head? = some c → isBlank c = true) :
    words (word ++ rest) = word :: words rest := by
  cases rest with
  | nil => rw [List.append_nil, words_eq_singleton h]; rfl
  | cons c rest =>
      have hc := hrest c rfl
      have hblank := words_blanks_append rest (List.forall_mem_singleton.2 hc)
      rw [List.singleton_append] at hblank
      rw [words_append_blank rest h hc, hblank]

/-- One more character in front of a text is a blank in front of its words, or belongs to the first of
them, or is a word. -/
theorem HasWords.exists_cons {text : List Char} {ws : List (List Char)} (c : Char)
    (h : HasWords text ws) : ∃ ws', HasWords (c :: text) ws' := by
  by_cases hc : isBlank c = true
  · cases h with
    | nil hblanks => exact ⟨[], .nil (List.forall_mem_cons.2 ⟨hc, hblanks⟩)⟩
    | @cons blanks word rest ws hblanks hword hend hrest =>
        exact ⟨word :: ws, .cons (List.forall_mem_cons.2 ⟨hc, hblanks⟩) hword hend hrest⟩
  · rw [Bool.not_eq_true] at hc
    have hsingle : IsWord [c] := ⟨List.cons_ne_nil c [], List.forall_mem_singleton.2 hc⟩
    by_cases hhead : ∀ d, text.head? = some d → isBlank d = true
    · exact ⟨[c] :: ws, .cons (List.forall_mem_nil _) hsingle hhead h⟩
    · cases h with
      | nil hblanks =>
          exact absurd (fun d hd => hblanks d (List.mem_of_mem_head? hd)) hhead
      | @cons blanks word rest ws hblanks hword hend hrest =>
          -- the word is at the very front, so that the character joins it
          have hnone : blanks = [] := by
            cases blanks with
            | nil => rfl
            | cons b blanks =>
                refine absurd (fun d hd => ?_) hhead
                rw [List.cons_append, List.cons_append, List.head?_cons, Option.some.injEq] at hd
                exact hd ▸ hblanks b List.mem_cons_self
          obtain rfl := hnone
          have hlonger : IsWord (c :: word) :=
            ⟨List.cons_ne_nil c word, List.forall_mem_cons.2 ⟨hc, hword.2⟩⟩
          exact ⟨(c :: word) :: ws, .cons (List.forall_mem_nil _) hlonger hend hrest⟩

/-- Every text has words, perhaps none. -/
theorem exists_hasWords (text : List Char) : ∃ ws, HasWords text ws := by
  induction text with
  | nil => exact ⟨[], .nil (List.forall_mem_nil _)⟩
  | cons c text ih =>
      obtain ⟨ws, hws⟩ := ih
      exact hws.exists_cons c

/-- The words of a text are read. -/
theorem HasWords.words_eq {text : List Char} {ws : List (List Char)} (h : HasWords text ws) :
    words text = ws := by
  induction h with
  | @nil blanks hblanks =>
      have hnone := words_blanks_append [] hblanks
      rwa [List.append_nil] at hnone
  | cons hblanks hword hend _ ih =>
      rw [List.append_assoc, words_blanks_append _ hblanks, words_word_append hword hend, ih]

/-- The words that are read are the words of the text. -/
theorem words_eq_iff {text : List Char} {ws : List (List Char)} :
    words text = ws ↔ HasWords text ws := by
  refine ⟨?_, HasWords.words_eq⟩
  rintro rfl
  obtain ⟨ws, hws⟩ := exists_hasWords text
  rwa [hws.words_eq]

end RomImage
