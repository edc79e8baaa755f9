/-
# What numerals spell

The natural numerals that a reader accepts, said without the reader: an optional plus sign and at least
one digit, whose value stays below the limit (`Spells`, `readNatural_eq_ok_iff`).  The digits are those of
core and the value is that of Mathlib's `Nat.ofDigits`; the width does not count, for zeros may stand in
front.  Columns of hexadecimal digits spell the number that they were made of (`spells_hexColumn`).
-/
import Mathlib.Data.List.Forall2
import Mathlib.Data.List.Induction
import Mathlib.Data.Nat.Digits.Defs
import RomImage.Text.Basic

namespace RomImage

/-! ## Positional values -/

/-- The number that digits of base `radix` stand for when they follow the digits of `start`. -/
def positional (radix start : Nat) (values : List Nat) : Nat :=
  values.foldl (fun value d => value * radix + d) start

@[simp]
theorem positional_nil (radix start : Nat) : positional radix start [] = start := rfl

@[simp]
theorem positional_cons (radix start d : Nat) (values : List Nat) :
    positional radix start (d :: values) = positional radix (start * radix + d) values := rfl

/-- Digits that follow others go on from the value of those. -/
theorem positional_append (radix start : Nat) (front back : List Nat) :
    positional radix start (front ++ back)
      = positional radix (positional radix start front) back :=
  List.foldl_append

/-- Zeros in front do not count. -/
theorem positional_replicate_zero (radix count : Nat) :
    positional radix 0 (List.replicate count 0) = 0 := by
  induction count with
  | zero => rfl
  | succ count ih => rw [List.replicate_succ, positional_cons, Nat.zero_mul, ih]

/-- A value never shrinks as digits are added. -/
theorem le_positional {radix : Nat} (hradix : 0 < radix) (start : Nat) (values : List Nat) :
    start ≤ positional radix start values := by
  induction values generalizing start with
  | nil => exact Nat.le_refl start
  | cons d values ih =>
      calc start ≤ start * radix := Nat.le_mul_of_pos_right start hradix
        _ ≤ start * radix + d := Nat.le_add_right _ d
        _ ≤ positional radix start (d :: values) := ih _

/-- The value of digits from the left is their value as the library takes it, from the right. -/
theorem positional_eq_ofDigits (radix : Nat) (values : List Nat) :
    positional radix 0 values = Nat.ofDigits radix values.reverse := by
  induction values using List.reverseRecOn with
  | nil => rfl
  | append_singleton values d ih =>
      rw [positional_append, positional_cons, positional_nil, ih, List.reverse_append,
        List.reverse_singleton, List.singleton_append, Nat.ofDigits_cons, Nat.mul_comm, Nat.add_comm]

/-! ## Digits -/

/-- The character is the digit `d` of base `radix`; above nine it is a letter, small or capital. -/
def IsDigitOf (radix : Nat) (c : Char) (d : Nat) : Prop :=
  d < radix ∧ (c = Nat.digitChar d ∨ c = (Nat.digitChar d).toUpper)

instance (radix : Nat) (c : Char) (d : Nat) : Decidable (IsDigitOf radix c d) :=
  inferInstanceAs (Decidable (_ ∧ _))

/-- A digit is an ASCII digit or letter. -/
theorem digitValue_bounds {c : Char} {d : Nat} (h : digitValue c = some d) :
    48 ≤ c.toNat ∧ c.toNat ≤ 122 := by
  simp only [digitValue, Char.le_def, UInt32.le_iff_toNat_le] at h
  simp only [Char.toNat]
  split at h
  · rename_i hc
    exact ⟨hc.1, Nat.le_trans hc.2 (by decide)⟩
  · split at h
    · rename_i hc
      exact ⟨Nat.le_trans (by decide) hc.1, hc.2⟩
    · split at h
      · rename_i hc
        exact ⟨Nat.le_trans (by decide) hc.1, Nat.le_trans hc.2 (by decide)⟩
      · cases h

/-- A character has the value of a hexadecimal digit if and only if it is that digit. -/
theorem digitValue_eq_some_iff {c : Char} {d : Nat} (hd : d < 16) :
    digitValue c = some d ↔ c = Nat.digitChar d ∨ c = (Nat.digitChar d).toUpper := by
  constructor
  · intro h
    -- only the characters up to `z` have a value at all
    have hascii : ∀ n, n < 123 → ∀ d, d < 16 → digitValue (Char.ofNat n) = some d →
        Char.ofNat n = Nat.digitChar d ∨ Char.ofNat n = (Nat.digitChar d).toUpper := by
      decide
    have hle := (digitValue_bounds h).2
    have hc := hascii c.toNat (by omega) d hd
    rw [Char.ofNat_toNat] at hc
    exact hc h
  · have hdigits : ∀ d, d < 16 → digitValue (Nat.digitChar d) = some d ∧
        digitValue (Nat.digitChar d).toUpper = some d := by
      decide
    rintro (rfl | rfl)
    · exact (hdigits d hd).1
    · exact (hdigits d hd).2

/-- The digits that are read are the digits of the base. -/
theorem digitIn_eq_some_iff {radix : Nat} {c : Char} {d : Nat} (hradix : radix ≤ 16) :
    digitIn radix c = some d ↔ IsDigitOf radix c d := by
  rw [digitIn, Option.filter_eq_some_iff, IsDigitOf, decide_eq_true_eq, and_comm]
  refine and_congr_right fun hd => ?_
  exact digitValue_eq_some_iff (Nat.lt_of_lt_of_le hd hradix)

/-- The characters are digits of base `radix`, of the given values. -/
def HasDigits (radix : Nat) (cs : List Char) (values : List Nat) : Prop :=
  List.Forall₂ (IsDigitOf radix) cs values

instance (radix : Nat) (cs : List Char) (values : List Nat) : Decidable (HasDigits radix cs values) :=
  inferInstanceAs (Decidable (List.Forall₂ _ _ _))

/-- A character in front of the digits and letters of ASCII, or after them, is no digit. -/
theorem HasDigits.not_mem {radix : Nat} {cs : List Char} {values : List Nat} {c : Char}
    (h : HasDigits radix cs values) (hradix : radix ≤ 16) (hc : c.toNat < 48 ∨ 122 < c.toNat) :
    c ∉ cs := by
  unfold HasDigits at h
  induction h with
  | nil => exact List.not_mem_nil
  | cons hfirst _ ih =>
      rw [List.mem_cons, not_or]
      refine ⟨?_, ih⟩
      rintro rfl
      have hvalue := (digitIn_eq_some_iff hradix).2 hfirst
      have hbounds := digitValue_bounds (Option.filter_eq_some_iff.1 hvalue).1
      omega

/-- A blank is in front of all digits and letters of ASCII or after them. -/
theorem bounds_of_isBlank {c : Char} (h : isBlank c = true) : c.toNat ≤ 32 ∨ 133 ≤ c.toNat := by
  simp only [isBlank, Bool.or_eq_true, Bool.and_eq_true, decide_eq_true_eq, beq_iff_eq,
    UInt32.le_iff_toNat_le, ← UInt32.toNat_inj, UInt32.reduceToNat] at h
  simp only [Char.toNat]
  omega

/-- Digits are visible. -/
theorem HasDigits.isBlank_eq_false {radix : Nat} {cs : List Char} {values : List Nat}
    (h : HasDigits radix cs values) (hradix : radix ≤ 16) : ∀ c ∈ cs, isBlank c = false := by
  intro c hc
  rw [Bool.eq_false_iff]
  intro hblank
  have hbounds := bounds_of_isBlank hblank
  exact h.not_mem hradix (by omega) hc

/-! ## Numerals -/

/-- The text spells a number in base `radix`: one or more digits, perhaps after a plus sign. -/
def Spells (radix : Nat) (cs : List Char) (n : Nat) : Prop :=
  ∃ sign digits values, cs = sign ++ digits ∧ (sign = [] ∨ sign = ['+']) ∧ digits ≠ [] ∧
    HasDigits radix digits values ∧ n = Nat.ofDigits radix values.reverse

/-- Digits are read exactly if all characters are digits and their value is below the limit.  The reader
compares each value on the way, which is enough because values never shrink. -/
theorem readDigits_eq_ok_iff {radix limit start n : Nat} {cs : List Char} (hpos : 0 < radix)
    (hradix : radix ≤ 16) (hstart : start < limit) :
    readDigits radix limit start cs = .ok n ↔
      ∃ values, HasDigits radix cs values ∧ n = positional radix start values ∧ n < limit := by
  unfold HasDigits
  induction cs generalizing start with
  | nil =>
      rw [readDigits]
      constructor
      · intro h
        obtain rfl := Except.ok.inj h
        exact ⟨[], .nil, rfl, hstart⟩
      · rintro ⟨values, hvalues, rfl, _⟩
        cases hvalues
        rfl
  | cons c cs ih =>
      rw [readDigits]
      cases hc : digitIn radix c with
      | none =>
          -- the first character is no digit, so that no values can match
          constructor
          · intro h
            cases h
          · rintro ⟨values, hvalues, _⟩
            cases hvalues with
            | cons hfirst _ =>
                rw [(digitIn_eq_some_iff hradix).2 hfirst] at hc
                cases hc
      | some d =>
          dsimp only
          constructor
          · intro h
            split at h
            · rename_i hlt
              obtain ⟨values, hvalues, hn, hlimit⟩ := (ih hlt).1 h
              exact ⟨d :: values, .cons ((digitIn_eq_some_iff hradix).1 hc) hvalues, hn, hlimit⟩
            · cases h
          · rintro ⟨values, hvalues, hn, hlimit⟩
            cases hvalues with
            | @cons _ d' _ values hfirst hvalues =>
                rw [(digitIn_eq_some_iff hradix).2 hfirst, Option.some.injEq] at hc
                rw [positional_cons, hc] at hn
                have hle := le_positional hpos (start * radix + d) values
                have hlt : start * radix + d < limit := by omega
                rw [if_pos hlt]
                exact (ih hlt).2 ⟨values, hvalues, hn, hlimit⟩

/-- Digits from the front are read exactly if they spell a number below the limit. -/
theorem readDigits_zero_eq_ok_iff {radix limit n : Nat} {cs : List Char} (hpos : 0 < radix)
    (hradix : radix ≤ 16) (hlimit : 0 < limit) :
    readDigits radix limit 0 cs = .ok n ↔
      (∃ values, HasDigits radix cs values ∧ n = Nat.ofDigits radix values.reverse) ∧ n < limit := by
  rw [readDigits_eq_ok_iff hpos hradix hlimit]
  simp only [positional_eq_ofDigits, ← and_assoc, exists_and_right]

/-- After a plus sign come the digits, at least one. -/
theorem readNatural_plus {radix limit : Nat} {digits : List Char} (h : digits ≠ []) :
    readNatural radix limit ('+' :: digits) = readDigits radix limit 0 digits := by
  cases digits with
  | nil => exact absurd rfl h
  | cons d digits => rfl

/-- Without a plus sign the digits come at once. -/
theorem readNatural_of_ne_plus {radix limit : Nat} {c : Char} {cs : List Char} (h : c ≠ '+') :
    readNatural radix limit (c :: cs) = readDigits radix limit 0 (c :: cs) := by
  unfold readNatural
  split <;> simp_all

/-- The numerals that are read are those that spell a number below the limit, and each is read as what it
spells. -/
theorem readNatural_eq_ok_iff {radix limit n : Nat} {cs : List Char} (hpos : 0 < radix)
    (hradix : radix ≤ 16) (hlimit : 0 < limit) :
    readNatural radix limit cs = .ok n ↔ Spells radix cs n ∧ n < limit := by
  constructor
  · intro h
    cases cs with
    | nil => cases h
    | cons c cs =>
        by_cases hplus : c = '+'
        · subst hplus
          have hne : cs ≠ [] := by
            rintro rfl
            cases h
          rw [readNatural_plus hne, readDigits_zero_eq_ok_iff hpos hradix hlimit] at h
          obtain ⟨⟨values, hvalues, hn⟩, hlt⟩ := h
          exact ⟨⟨['+'], cs, values, rfl, .inr rfl, hne, hvalues, hn⟩, hlt⟩
        · rw [readNatural_of_ne_plus hplus, readDigits_zero_eq_ok_iff hpos hradix hlimit] at h
          obtain ⟨⟨values, hvalues, hn⟩, hlt⟩ := h
          exact ⟨⟨[], c :: cs, values, rfl, .inl rfl, List.cons_ne_nil c cs, hvalues, hn⟩, hlt⟩
  · rintro ⟨⟨sign, digits, values, rfl, hsign, hne, hvalues, hn⟩, hlt⟩
    have hread : readDigits radix limit 0 digits = .ok n :=
      (readDigits_zero_eq_ok_iff hpos hradix hlimit).2 ⟨⟨values, hvalues, hn⟩, hlt⟩
    rcases hsign with rfl | rfl
    · obtain ⟨c, cs, rfl⟩ := List.exists_cons_of_ne_nil hne
      have hplus : c ≠ '+' := by
        rintro rfl
        exact hvalues.not_mem hradix (.inl (by decide)) List.mem_cons_self
      rw [List.nil_append, readNatural_of_ne_plus hplus, hread]
    · rw [List.singleton_append, readNatural_plus hne, hread]

/-- A text spells one number. -/
theorem Spells.eq {radix n m : Nat} {cs : List Char} (hpos : 0 < radix) (hradix : radix ≤ 16)
    (hn : Spells radix cs n) (hm : Spells radix cs m) : n = m := by
  -- below a limit that is greater than both, both are what the reader makes of the text
  have hlimit : 0 < n + m + 1 := Nat.succ_pos _
  have hreadn := (readNatural_eq_ok_iff hpos hradix hlimit).2 ⟨hn, by omega⟩
  have hreadm := (readNatural_eq_ok_iff hpos hradix hlimit).2 ⟨hm, by omega⟩
  exact Except.ok.inj (hreadn.symm.trans hreadm)

/-- A text that spells a number does not begin with a minus sign. -/
theorem Spells.head_ne_minus {radix n : Nat} {cs : List Char} (hradix : radix ≤ 16)
    (h : Spells radix cs n) : cs.head? ≠ some '-' := by
  obtain ⟨sign, digits, values, rfl, rfl | rfl, _, hvalues, _⟩ := h
  · intro hhead
    exact hvalues.not_mem hradix (.inl (by decide)) (List.mem_of_mem_head? hhead)
  · simp

/-! ## Digits of a number -/

/-- A character that stands for a digit is that digit, in every base that has it. -/
theorem isDigitOf_digitChar {radix d : Nat} (h : d < radix) :
    IsDigitOf radix (Nat.digitChar d) d :=
  ⟨h, .inl rfl⟩

/-- The digits of a number stand for the number. -/
theorem exists_hasDigits_toDigits {radix : Nat} (hlt : 1 < radix) (n : Nat) :
    ∃ values, HasDigits radix (Nat.toDigits radix n) values ∧
      n = Nat.ofDigits radix values.reverse := by
  unfold HasDigits
  induction n using Nat.base_induction radix hlt with
  | single d hd =>
      refine ⟨[d], ?_, ?_⟩
      · rw [Nat.toDigits_of_lt_base hd]
        exact .cons (isDigitOf_digitChar hd) .nil
      · rw [List.reverse_singleton, Nat.ofDigits_singleton]
  | digit n d hd hn ih =>
      obtain ⟨values, hvalues, hvalue⟩ := ih
      refine ⟨values ++ [d], ?_, ?_⟩
      · rw [← Nat.toDigits_append_toDigits hlt hn hd, Nat.toDigits_of_lt_base hd]
        exact List.rel_append hvalues (.cons (isDigitOf_digitChar hd) .nil)
      · rw [List.reverse_append, List.reverse_singleton, List.singleton_append, Nat.ofDigits_cons,
          ← hvalue, Nat.add_comm]

/-- The digits of a number in a base spell it. -/
theorem spells_toDigits {radix : Nat} (hlt : 1 < radix) (n : Nat) :
    Spells radix (Nat.toDigits radix n) n := by
  obtain ⟨values, hdigits, hvalue⟩ := exists_hasDigits_toDigits hlt n
  exact ⟨[], Nat.toDigits radix n, values, rfl, .inl rfl, Nat.toDigits_ne_nil, hdigits, hvalue⟩

/-- Numbers with the same digits are the same. -/
theorem toDigits_inj {radix n m : Nat} (hlt : 1 < radix) (hradix : radix ≤ 16)
    (h : Nat.toDigits radix n = Nat.toDigits radix m) : n = m := by
  have hn := spells_toDigits hlt n
  rw [h] at hn
  exact hn.eq (by omega) hradix (spells_toDigits hlt m)

/-! ## Columns of hexadecimal digits -/

/-- The digits of a column are those of the number behind zeros. -/
theorem exists_hasDigits_hexColumn (width n : Nat) :
    ∃ values, HasDigits 16 (hexColumn width n) values ∧ n = Nat.ofDigits 16 values.reverse := by
  have hlt : 1 < 16 := by decide
  obtain ⟨values, hvalues, hvalue⟩ := exists_hasDigits_toDigits hlt n
  have hzeros : ∀ count, HasDigits 16 (List.replicate count '0') (List.replicate count 0) := by
    intro count
    induction count with
    | zero => exact .nil
    | succ count ih => exact .cons (by decide) ih
  refine ⟨List.replicate (width - (hexDigits n).length) 0 ++ values, ?_, ?_⟩
  · exact List.rel_append (hzeros _) hvalues
  · rw [← positional_eq_ofDigits, positional_append, positional_replicate_zero,
      positional_eq_ofDigits, hvalue]

/-- A column of hexadecimal digits spells its number, whatever its width. -/
theorem spells_hexColumn (width n : Nat) : Spells 16 (hexColumn width n) n := by
  obtain ⟨values, hvalues, hvalue⟩ := exists_hasDigits_hexColumn width n
  exact ⟨[], hexColumn width n, values, rfl, .inl rfl,
    List.append_ne_nil_of_right_ne_nil _ Nat.toDigits_ne_nil, hvalues, hvalue⟩

end RomImage
