/-
# Flaws of encoded text

What a decoder makes of arbitrary bytes, said without the decoder (`DecodesTo`): encodings of characters
are those characters, and between them each flaw is a longest part that begins a character which then is not
completed, or a single byte that begins none (`IsFlaw`).  The decoder reports exactly this
(`utf8Units_eq_iff`), so that strict decoding accepts encoded texts alone (`decodeStrict_eq_some_iff`).

The proof keeps track of the bytes that the decoder has taken in since the last character
(`Utf8State.Pending`): its state determines them, and each further byte either keeps them going, completes
a character, or makes a flaw of them (`Utf8State.Pending.feed_cases`).
-/
import Mathlib.Data.List.Induction
import RomImage.Proofs.Utf8Coding

namespace RomImage

/-! ## Characters and flaws -/

/-- The bytes stand at the front of the encoding of some character. -/
def BeginsChar (part : List UInt8) : Prop :=
  ∃ c : Char, part <+: String.utf8EncodeChar c

/-- In front of the rest, the bytes are one flaw: they begin a character without completing it, and with the
next byte they begin none; or they are a single byte that begins no character. -/
inductive IsFlaw : List UInt8 → List UInt8 → Prop
  | broken {part rest : List UInt8} : part ≠ [] → BeginsChar part →
    (∀ c : Char, part ≠ String.utf8EncodeChar c) →
    (∀ b, rest.head? = some b → ¬ BeginsChar (part ++ [b])) → IsFlaw part rest
  | stray {b : UInt8} {rest : List UInt8} : ¬ BeginsChar [b] → IsFlaw [b] rest

/-- The bytes are encoded characters and flaws, in the order of the units. -/
inductive DecodesTo : List UInt8 → List Utf8Unit → Prop
  | nil : DecodesTo [] []
  | char {c : Char} {bytes : List UInt8} {units : List Utf8Unit} :
    DecodesTo bytes units → DecodesTo (String.utf8EncodeChar c ++ bytes) (some c :: units)
  | flaw {part bytes : List UInt8} {units : List Utf8Unit} :
    IsFlaw part bytes → DecodesTo bytes units → DecodesTo (part ++ bytes) (none :: units)

/-! ## The decoder, byte by byte -/

namespace Utf8State

/-- What the decoder reports on bytes from a state on, the end included. -/
def unitsFrom : Utf8State → List UInt8 → List Utf8Unit
  | s, [] => s.finish
  | s, b :: bytes => (s.feed b).2 ++ unitsFrom (s.feed b).1 bytes

@[simp]
theorem unitsFrom_nil (s : Utf8State) : s.unitsFrom [] = s.finish := rfl

theorem unitsFrom_cons (s : Utf8State) (b : UInt8) (bytes : List UInt8) :
    s.unitsFrom (b :: bytes) = (s.feed b).2 ++ (s.feed b).1.unitsFrom bytes := rfl

/-- A decoder that has reports behind it reports what it would without them. -/
theorem reports_foldl_advance (s : Utf8State) (reports : List Utf8Unit) (bytes : List UInt8) :
    ((bytes.foldl advance (s, reports)).1.finish ++ (bytes.foldl advance (s, reports)).2).reverse
      = reports.reverse ++ s.unitsFrom bytes := by
  induction bytes generalizing s reports with
  | nil => cases s <;> simp [finish]
  | cons b bytes ih => rw [List.foldl_cons, advance, ih, unitsFrom_cons]; simp

end Utf8State

open Utf8State

/-- The reports on bytes are those from between characters on. -/
theorem utf8Units_eq_unitsFrom (bytes : List UInt8) : utf8Units bytes = start.unitsFrom bytes :=
  reports_foldl_advance start [] bytes

/-- An encoded character is reported, and nothing of it is left. -/
theorem utf8Units_encodeChar_append (c : Char) (bytes : List UInt8) :
    utf8Units (String.utf8EncodeChar c ++ bytes) = some c :: utf8Units bytes := by
  rw [utf8Units, List.foldl_append, foldl_advance_utf8EncodeChar, reports_foldl_advance,
    utf8Units_eq_unitsFrom]
  rfl

/-! ## Bytes of a character that is begun -/

/-- Every byte that a bound lets through is a continuation byte. -/
theorem exists_continuationByte {bound : Utf8Bound} {b : UInt8} (h : bound.admits b = true) :
    ∃ k < 64, b = continuationByte k := by
  obtain ⟨hlow, hhigh⟩ := Utf8Bound.admits_iff.1 h
  have hbounds : 128 ≤ b.toNat ∧ b.toNat < 192 := by
    cases bound <;> simp only [Utf8Bound.range, UInt8.reduceToNat] at hlow hhigh <;> omega
  refine ⟨b.toNat - 128, by omega, ?_⟩
  apply UInt8.toNat_inj.1
  rw [toNat_continuationByte]
  omega

/-- Only the last six bits count in a continuation byte. -/
theorem continuationByte_add (high k : Nat) :
    continuationByte (high * 64 + k) = continuationByte k := by
  rw [continuationByte, continuationByte, Nat.mul_add_mod']

/-- The value of a character is the number that it is made of, unless this is a surrogate or too great. -/
theorem toNat_ofNat_of_valid {v : Nat} (h : v < 0xd800 ∨ 0xdfff < v ∧ v < 0x110000) :
    (Char.ofNat v).val.toNat = v := by
  have hvalid : v.isValidChar := h
  rw [Char.ofNat, dif_pos hvalid]
  rfl

namespace Utf8State

/-- The bytes that a decoder in this state has taken in since the last character: none, or the first ones of
a character whose value so far is the one in the state. -/
inductive Pending : List UInt8 → Utf8State → Prop
  | nothing : Pending [] .start
  | firstOfTwo {high : Nat} : 2 ≤ high → high < 32 →
    Pending [UInt8.ofNat (high + 192)] (.inside 0 .none high)
  | firstOfThree {high : Nat} : high < 16 →
    Pending [UInt8.ofNat (high + 224)] (.inside 1 (boundOfThree high) high)
  | secondOfThree {v : Nat} : 32 ≤ v → v < 0x360 ∨ 0x37f < v → v < 1024 →
    Pending [UInt8.ofNat (v / 64 + 224), continuationByte v] (.inside 0 .none v)
  | firstOfFour {high : Nat} : high < 5 →
    Pending [UInt8.ofNat (high + 240)] (.inside 2 (boundOfFour high) high)
  | secondOfFour {v : Nat} : 16 ≤ v → v < 272 →
    Pending [UInt8.ofNat (v / 64 + 240), continuationByte v] (.inside 1 .none v)
  | thirdOfFour {v : Nat} : 1024 ≤ v → v < 17408 →
    Pending [UInt8.ofNat (v / 4096 + 240), continuationByte (v / 64), continuationByte v]
      (.inside 0 .none v)

variable {part : List UInt8} {s : Utf8State} {bound : Utf8Bound} {missing value : Nat} {b : UInt8}

/-- A first byte is a character, or begins one, or is a flaw. -/
theorem begin_cases (b : UInt8) :
    (∃ c, begin b = (.start, [some c]) ∧ [b] = String.utf8EncodeChar c) ∨
    (∃ s, begin b = (s, []) ∧ Pending [b] s) ∨ begin b = (.start, [none]) := by
  have hbyte : ∀ base ≤ b.toNat, ∃ high, b.toNat = high + base ∧ b = UInt8.ofNat (high + base) := by
    intro base hbase
    refine ⟨b.toNat - base, by omega, ?_⟩
    rw [Nat.sub_add_cancel hbase, UInt8.ofNat_toNat]
  by_cases hone : b.toNat < 128
  · refine .inl ⟨Char.ofNat b.toNat, by simp [begin, hone], ?_⟩
    have hvalue := toNat_ofNat_of_valid (v := b.toNat) (by omega)
    rw [utf8EncodeChar_one (by omega), hvalue, UInt8.ofNat_toNat]
  by_cases htwo : 194 ≤ b.toNat ∧ b.toNat < 224
  · obtain ⟨high, hhigh, hb⟩ := hbyte 192 (by omega)
    have hlong : 2 ≤ high := by omega
    have hlt : high < 32 := by omega
    rw [hb]
    exact .inr (.inl ⟨_, begin_two hlt hlong, .firstOfTwo hlong hlt⟩)
  by_cases hthree : 224 ≤ b.toNat ∧ b.toNat < 240
  · obtain ⟨high, hhigh, hb⟩ := hbyte 224 (by omega)
    have hlt : high < 16 := by omega
    rw [hb]
    exact .inr (.inl ⟨_, begin_three hlt, .firstOfThree hlt⟩)
  by_cases hfour : 240 ≤ b.toNat ∧ b.toNat < 245
  · obtain ⟨high, hhigh, hb⟩ := hbyte 240 (by omega)
    have hlt : high < 5 := by omega
    rw [hb]
    exact .inr (.inl ⟨_, begin_four hlt, .firstOfFour hlt⟩)
  · refine .inr (.inr ?_)
    simp only [begin]
    split_ifs
    all_goals first | rfl | omega

/-- The byte that the last one missing is completes a character. -/
theorem Pending.feed_last (h : Pending part (.inside 0 bound value)) (hb : bound.admits b = true) :
    ∃ c, (inside 0 bound value).feed b = (.start, [some c]) ∧
      part ++ [b] = String.utf8EncodeChar c := by
  obtain ⟨k, hk, rfl⟩ := exists_continuationByte hb
  refine ⟨_, Utf8State.feed_last value hb, ?_⟩
  rw [Nat.mod_eq_of_lt hk, ← continuationByte_add value k]
  have hdiv : (value * 64 + k) / 64 = value := by omega
  cases h with
  | firstOfTwo hlong hlt =>
      have hvalue := toNat_ofNat_of_valid (v := value * 64 + k) (by omega)
      rw [utf8EncodeChar_two (by omega) (by omega), hvalue, hdiv]
      rfl
  | secondOfThree hlong hvalid hlt =>
      have hvalue := toNat_ofNat_of_valid (v := value * 64 + k) (by omega)
      rw [utf8EncodeChar_three (by omega) (by omega), hvalue, hdiv,
        show (value * 64 + k) / 4096 = value / 64 by omega]
      rfl
  | thirdOfFour hlong hlt =>
      have hvalue := toNat_ofNat_of_valid (v := value * 64 + k) (by omega)
      rw [utf8EncodeChar_four (by omega), hvalue, hdiv,
        show (value * 64 + k) / 4096 = value / 64 by omega,
        show (value * 64 + k) / 262144 = value / 4096 by omega]
      rfl

/-- A byte that a bound lets through keeps a character going that misses more. -/
theorem Pending.feed_more (h : Pending part (.inside (missing + 1) bound value))
    (hb : bound.admits b = true) :
    ∃ s, (inside (missing + 1) bound value).feed b = (s, []) ∧ Pending (part ++ [b]) s := by
  obtain ⟨k, hk, rfl⟩ := exists_continuationByte hb
  refine ⟨_, Utf8State.feed_more missing value hb, ?_⟩
  rw [Nat.mod_eq_of_lt hk, ← continuationByte_add value k]
  have hdiv : (value * 64 + k) / 64 = value := by omega
  cases h with
  | firstOfThree hlt =>
      obtain ⟨hlong, hsurrogate⟩ := admits_boundOfThree_iff.1 hb
      have hpending := Pending.secondOfThree (v := value * 64 + k) (by omega) (by omega) (by omega)
      rwa [hdiv] at hpending
  | firstOfFour hlt =>
      obtain ⟨hlong, hgreat⟩ := admits_boundOfFour_iff.1 hb
      have hpending := Pending.secondOfFour (v := value * 64 + k) (by omega) (by omega)
      rwa [hdiv] at hpending
  | secondOfFour hlong hlt =>
      have hpending := Pending.thirdOfFour (v := value * 64 + k) (by omega) (by omega)
      rwa [hdiv, show (value * 64 + k) / 4096 = value / 64 by omega] at hpending

/-- After bytes that are pending, the decoder goes on from their state. -/
theorem Pending.unitsFrom_append (h : Pending part s) (rest : List UInt8) :
    unitsFrom .start (part ++ rest) = s.unitsFrom rest := by
  cases h with
  | nothing => rfl
  | firstOfTwo hlong hlt =>
      rw [List.singleton_append, unitsFrom_cons, feed, begin_two hlt hlong]
      rfl
  | firstOfThree hlt =>
      rw [List.singleton_append, unitsFrom_cons, feed, begin_three hlt]
      rfl
  | @secondOfThree v hlong hvalid hlt =>
      have hadmits := admits_boundOfThree (v := v * 64) (by omega) (by omega) (by omega)
      rw [Nat.mul_div_cancel v (by decide), show v * 64 / 4096 = v / 64 by omega] at hadmits
      have hmore := Utf8State.feed_more 0 (v / 64) hadmits
      rw [Nat.div_add_mod'] at hmore
      rw [List.cons_append, unitsFrom_cons, feed, begin_three (by omega), List.singleton_append,
        unitsFrom_cons, hmore]
      rfl
  | firstOfFour hlt =>
      rw [List.singleton_append, unitsFrom_cons, feed, begin_four hlt]
      rfl
  | @secondOfFour v hlong hlt =>
      have hadmits := admits_boundOfFour (v := v * 4096) (by omega) (by omega)
      rw [Nat.mul_div_cancel v (by decide), show v * 4096 / 262144 = v / 64 by omega] at hadmits
      have hmore := Utf8State.feed_more 1 (v / 64) hadmits
      rw [Nat.div_add_mod'] at hmore
      rw [List.cons_append, unitsFrom_cons, feed, begin_four (by omega), List.singleton_append,
        unitsFrom_cons, hmore]
      rfl
  | @thirdOfFour v hlong hlt =>
      have hadmits := admits_boundOfFour (v := v * 64) (by omega) (by omega)
      rw [show v * 64 / 4096 = v / 64 by omega, show v * 64 / 262144 = v / 4096 by omega] at hadmits
      have hsecond := Utf8State.feed_more 1 (v / 4096) hadmits
      rw [show v / 4096 * 64 + v / 64 % 64 = v / 64 by omega] at hsecond
      have hthird := Utf8State.feed_more 0 (v / 64) (admits_none v)
      rw [Nat.div_add_mod'] at hthird
      rw [List.cons_append, unitsFrom_cons, feed, begin_four (by omega), List.cons_append,
        unitsFrom_cons, hsecond, List.singleton_append, unitsFrom_cons, hthird]
      rfl

/-- A report of a flaw rules out that the bytes begin a character. -/
theorem Pending.not_beginsChar (h : Pending part s) (hflaw : none ∈ (s.feed b).2) :
    ¬ BeginsChar (part ++ [b]) := by
  rintro ⟨c, rest, hc⟩
  have hunits := utf8Units_encodeChar_append c []
  rw [List.append_nil, ← hc, List.append_assoc, utf8Units_eq_unitsFrom, h.unitsFrom_append,
    List.singleton_append, unitsFrom_cons] at hunits
  have hmem : none ∈ [some c] := hunits ▸ List.mem_append_left _ hflaw
  simp at hmem

/-- What one more byte does: it keeps a character going, completes one, or shows that the bytes before it
and itself begin none, so that they are a flaw up to it, or it is one alone if there are none. -/
theorem Pending.feed_cases (h : Pending part s) (b : UInt8) :
    (∃ s', s.feed b = (s', []) ∧ Pending (part ++ [b]) s') ∨
    (∃ c, s.feed b = (.start, [some c]) ∧ part ++ [b] = String.utf8EncodeChar c) ∨
    ¬ BeginsChar (part ++ [b]) ∧
      (part = [] ∧ s.feed b = (.start, [none]) ∨
        part ≠ [] ∧ s.feed b = ((begin b).1, none :: (begin b).2)) := by
  cases s with
  | start =>
      obtain rfl : part = [] := by cases h; rfl
      rcases begin_cases b with ⟨c, hbegin, hc⟩ | ⟨s', hbegin, hs'⟩ | hbegin
      · exact .inr (.inl ⟨c, hbegin, hc⟩)
      · exact .inl ⟨s', hbegin, hs'⟩
      · refine .inr (.inr ⟨h.not_beginsChar ?_, .inl ⟨rfl, hbegin⟩⟩)
        show none ∈ (begin b).2
        rw [hbegin]
        exact List.mem_singleton_self none
  | inside missing bound value =>
      by_cases hb : bound.admits b = true
      · cases missing with
        | zero => exact .inr (.inl (h.feed_last hb))
        | succ missing => exact .inl (h.feed_more hb)
      · have hfeed : (inside missing bound value).feed b = ((begin b).1, none :: (begin b).2) :=
          if_neg hb
        have hne : part ≠ [] := by
          rintro rfl
          cases h
        refine .inr (.inr ⟨h.not_beginsChar ?_, .inr ⟨hne, hfeed⟩⟩)
        rw [hfeed]
        exact List.mem_cons_self

/-- A character that is begun can be completed. -/
theorem Pending.beginsChar (h : Pending part s) : BeginsChar part := by
  cases s with
  | start =>
      obtain rfl : part = [] := by cases h; rfl
      exact ⟨'a', List.nil_prefix⟩
  | inside missing bound value =>
      -- the least byte that is let through brings the character nearer to its end
      have hleast : ∀ bound : Utf8Bound, bound.admits bound.range.1 = true := by
        intro bound
        cases bound <;> decide
      induction missing generalizing part bound value with
      | zero =>
          obtain ⟨c, _, hc⟩ := h.feed_last (hleast bound)
          exact ⟨c, _, hc⟩
      | succ missing ih =>
          obtain ⟨s, hs, hpending⟩ := h.feed_more (hleast bound)
          rw [feed, if_pos (hleast bound)] at hs
          obtain ⟨rfl, _⟩ := Prod.mk.inj hs
          obtain ⟨c, hc⟩ := ih _ _ hpending
          exact ⟨c, (List.prefix_append part _).trans hc⟩

/-- Bytes that are pending are no whole character. -/
theorem Pending.ne_encodeChar (h : Pending part s) (c : Char) : part ≠ String.utf8EncodeChar c := by
  rintro rfl
  have hunits := utf8Units_encodeChar_append c []
  rw [utf8Units_eq_unitsFrom, h.unitsFrom_append] at hunits
  cases s <;> cases hunits

end Utf8State

/-! ## What the decoder reports -/

open Utf8State (Pending)

variable {part bytes : List UInt8} {s : Utf8State} {units : List Utf8Unit}

/-- From a state on, the decoder reports characters and flaws of the bytes that are pending and of those to
come. -/
theorem Utf8State.Pending.decodesTo (h : Pending part s) (bytes : List UInt8) :
    DecodesTo (part ++ bytes) (s.unitsFrom bytes) := by
  induction bytes generalizing part s with
  | nil =>
      rw [List.append_nil, unitsFrom_nil]
      cases s with
      | start =>
          cases h
          exact .nil
      | inside missing bound value =>
          have hne : part ≠ [] := by
            rintro rfl
            cases h
          have hflaw : IsFlaw part [] :=
            .broken hne h.beginsChar h.ne_encodeChar fun b hb => by cases hb
          have hdecodes := DecodesTo.flaw hflaw .nil
          rwa [List.append_nil] at hdecodes
  | cons b bytes ih =>
      -- if the byte makes a flaw of those before it, it is taken between characters
      have hstep : ∀ {part s}, Pending part s →
          (part ≠ [] → DecodesTo (b :: bytes) (Utf8State.start.unitsFrom (b :: bytes))) →
          DecodesTo (part ++ b :: bytes) (s.unitsFrom (b :: bytes)) := by
        intro part s h hagain
        rcases h.feed_cases b with ⟨s', hfeed, hs'⟩ | ⟨c, hfeed, hc⟩ | ⟨hnone, hflaw⟩
        · have hdecodes := ih hs'
          rw [List.append_assoc, List.singleton_append] at hdecodes
          rw [unitsFrom_cons, hfeed]
          exact hdecodes
        · have hdecodes := DecodesTo.char (c := c) (ih .nothing)
          rw [← hc, List.append_assoc, List.singleton_append] at hdecodes
          rw [unitsFrom_cons, hfeed]
          exact hdecodes
        · rcases hflaw with ⟨rfl, hfeed⟩ | ⟨hne, hfeed⟩
          · rw [unitsFrom_cons, hfeed]
            have hstray : IsFlaw [b] bytes := .stray hnone
            have hdecodes := DecodesTo.flaw hstray (ih .nothing)
            exact hdecodes
          · have hflaw : IsFlaw part (b :: bytes) := by
              refine .broken hne h.beginsChar h.ne_encodeChar fun b' hb' => ?_
              obtain rfl := Option.some.inj hb'
              exact hnone
            rw [unitsFrom_cons, hfeed]
            exact .flaw hflaw (hagain hne)
      exact hstep h fun _ => hstep .nothing fun hne => absurd rfl hne

/-- The decoder reports nothing only if there is nothing. -/
theorem eq_nil_of_utf8Units_eq_nil (h : utf8Units bytes = []) : bytes = [] := by
  have hdecodes := Pending.nothing.decodesTo bytes
  rw [← utf8Units_eq_unitsFrom, h, List.nil_append] at hdecodes
  cases hdecodes
  rfl

/-- No character begins with the whole of another. -/
theorem append_eq_nil_of_encodeChar {c d : Char} {rest : List UInt8}
    (h : String.utf8EncodeChar c ++ rest = String.utf8EncodeChar d) : rest = [] := by
  have hunits := utf8Units_encodeChar_append d []
  rw [List.append_nil, ← h, utf8Units_encodeChar_append] at hunits
  exact eq_nil_of_utf8Units_eq_nil (List.cons.inj hunits).2

/-- Bytes that begin a character without completing it are pending in some state. -/
theorem exists_pending (h : BeginsChar part) (hpart : ∀ c : Char, part ≠ String.utf8EncodeChar c) :
    ∃ s, Pending part s := by
  obtain ⟨d, rest, hd⟩ := h
  induction part using List.reverseRecOn generalizing rest with
  | nil => exact ⟨.start, .nothing⟩
  | append_singleton part b ih =>
      rw [List.append_assoc, List.singleton_append] at hd
      have hfront : ∀ c : Char, part ≠ String.utf8EncodeChar c := by
        rintro c rfl
        cases append_eq_nil_of_encodeChar hd
      obtain ⟨s, hs⟩ := ih hfront _ hd
      rcases hs.feed_cases b with ⟨s', _, hs'⟩ | ⟨c, _, hc⟩ | ⟨hnone, _⟩
      · exact ⟨s', hs'⟩
      · exact absurd hc (hpart c)
      · refine absurd ⟨d, rest, ?_⟩ hnone
        rw [List.append_assoc, List.singleton_append, hd]

/-- A flaw is reported, and nothing of it is left. -/
theorem utf8Units_flaw_append {rest : List UInt8} (h : IsFlaw part rest) :
    utf8Units (part ++ rest) = none :: utf8Units rest := by
  rw [utf8Units_eq_unitsFrom, utf8Units_eq_unitsFrom]
  cases h with
  | @stray b rest hb =>
      rcases Pending.nothing.feed_cases b with
        ⟨s', _, hs'⟩ | ⟨c, _, hc⟩ | ⟨_, ⟨_, hfeed⟩ | ⟨hne, _⟩⟩
      · exact absurd hs'.beginsChar hb
      · exact absurd ⟨c, hc ▸ List.prefix_rfl⟩ hb
      · rw [List.singleton_append, unitsFrom_cons, hfeed]
        rfl
      · exact absurd rfl hne
  | broken hne hbegins hpart hnext =>
      obtain ⟨s, hs⟩ := exists_pending hbegins hpart
      rw [hs.unitsFrom_append]
      cases rest with
      | nil =>
          cases s with
          | start =>
              cases hs
              exact absurd rfl hne
          | inside missing bound value => rfl
      | cons b rest =>
          have hb := hnext b rfl
          rcases hs.feed_cases b with ⟨s', _, hs'⟩ | ⟨c, _, hc⟩ | ⟨_, ⟨hnil, _⟩ | ⟨_, hfeed⟩⟩
          · exact absurd hs'.beginsChar hb
          · exact absurd ⟨c, hc ▸ List.prefix_rfl⟩ hb
          · exact absurd hnil hne
          · rw [unitsFrom_cons, hfeed]
            rfl

/-- The decoder reports the characters and the flaws of the bytes. -/
theorem utf8Units_eq_iff : utf8Units bytes = units ↔ DecodesTo bytes units := by
  constructor
  · rintro rfl
    rw [utf8Units_eq_unitsFrom]
    exact Pending.nothing.decodesTo bytes
  · intro h
    induction h with
    | nil => rfl
    | char _ ih => rw [utf8Units_encodeChar_append, ih]
    | flaw hflaw _ ih => rw [utf8Units_flaw_append hflaw, ih]

/-- Only an encoded text is decoded without a flaw. -/
theorem eq_encodeUtf8_of_decodesTo {cs : List Char} (h : DecodesTo bytes (cs.map some)) :
    bytes = encodeUtf8 cs := by
  induction cs generalizing bytes with
  | nil =>
      cases h
      rfl
  | cons c cs ih =>
      cases h with
      | char h => rw [ih h, encodeUtf8_cons]

/-- Reports are the characters of a text if all of them are characters. -/
theorem mapM_id_eq_some_iff {cs : List Char} : units.mapM id = some cs ↔ units = cs.map some := by
  induction units generalizing cs with
  | nil => cases cs <;> simp
  | cons unit units ih =>
      rw [List.mapM_cons]
      cases unit with
      | none => cases cs <;> simp
      | some c => cases cs <;> simp [Option.bind_eq_some_iff, ih, and_comm]

/-- Strict decoding accepts encoded texts and nothing else. -/
theorem decodeStrict_eq_some_iff {cs : List Char} :
    decodeStrict bytes = some cs ↔ bytes = encodeUtf8 cs := by
  constructor
  · intro h
    exact eq_encodeUtf8_of_decodesTo (utf8Units_eq_iff.1 (mapM_id_eq_some_iff.1 h))
  · rintro rfl
    exact decodeStrict_encodeUtf8 cs

end RomImage
