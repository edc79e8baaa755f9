/-
# Version strings, byte by byte

What the scan for version strings finds, told without the scan.  A version string ends with a number
`D.D`, holds a mark of a version, and goes back from its number as far as bytes are visible, but not more
than 124 of them (`IsVersionString`).  The scan lists just these, one for each number that has one, in the
order of position (`findVersions_lists`).
-/
import Mathlib.Data.List.Infix
import Mathlib.Order.Bounds.Basic
import RomImage.Proofs.CheckedScans

namespace RomImage

variable {image text : Bytes} {f : Finding}

/-! ## Numbers -/

/-- The byte is an ASCII digit. -/
def IsDigit (b : UInt8) : Prop :=
  0x30 ≤ b ∧ b ≤ 0x39

instance (b : UInt8) : Decidable (IsDigit b) :=
  inferInstanceAs (Decidable (_ ∧ _))

/-- A number `D.D` begins at the position. -/
def IsNumberAt (image : Bytes) (position : Nat) : Prop :=
  ∃ a b, IsDigit a ∧ IsDigit b ∧ image[position]? = some a ∧ image[position + 1]? = some 0x2e ∧
    image[position + 2]? = some b

theorem isDigitByte_iff {b : UInt8} : isDigitByte b = true ↔ IsDigit b := by
  simp [isDigitByte, IsDigit]

/-- A number stands in three bytes. -/
theorem isVersionNumber_iff :
    isVersionNumber text = true ↔ ∃ a b, IsDigit a ∧ IsDigit b ∧ text = [a, 0x2e, b] := by
  constructor
  · intro h
    unfold isVersionNumber at h
    split at h
    · rename_i a point b
      rw [Bool.and_eq_true, Bool.and_eq_true, beq_iff_eq, isDigitByte_iff, isDigitByte_iff] at h
      obtain ⟨⟨ha, rfl⟩, hb⟩ := h
      exact ⟨a, b, ha, hb, rfl⟩
    · cases h
  · rintro ⟨a, b, ha, hb, rfl⟩
    rw [isVersionNumber, isDigitByte_iff.2 ha, isDigitByte_iff.2 hb]
    rfl

/-- A window of three bytes, one by one. -/
theorem windowAt_eq_triple_iff {i : Nat} {a b c : UInt8} :
    windowAt image.toArray i (i + 3) = [a, b, c] ↔
      image[i]? = some a ∧ image[i + 1]? = some b ∧ image[i + 2]? = some c := by
  have hget : ∀ k, image[i + k]? = (image.drop i)[k]? := fun k => List.getElem?_drop.symm
  rw [windowAt_toArray, Nat.add_sub_cancel_left, hget 1, hget 2, ← Nat.add_zero i, hget 0,
    Nat.add_zero]
  rcases image.drop i with _ | ⟨x, _ | ⟨y, _ | ⟨z, rest⟩⟩⟩ <;> simp

/-- The scan stops at the numbers. -/
theorem isVersionNumber_windowAt_iff {i : Nat} :
    isVersionNumber (windowAt image.toArray i (i + 3)) = true ↔ IsNumberAt image i := by
  simp only [isVersionNumber_iff, windowAt_eq_triple_iff, IsNumberAt]

/-- All three bytes of a number lie in the image. -/
theorem IsNumberAt.lt_length {position : Nat} (h : IsNumberAt image position) :
    position + 2 < image.length := by
  obtain ⟨a, b, _, _, _, _, hb⟩ := h
  exact (List.getElem?_eq_some_iff.1 hb).1

/-! ## Marks -/

/-- The bytes that announce a version: `Ver`, `Rev`, `Rel`, and `v` with a digit behind it, a space between
them or none. -/
inductive IsMark : Bytes → Prop
  | ver : IsMark [0x56, 0x65, 0x72]
  | rev : IsMark [0x52, 0x65, 0x76]
  | rel : IsMark [0x52, 0x65, 0x6c]
  | digit {d : UInt8} (h : IsDigit d) : IsMark [0x76, d]
  | spaced {d : UInt8} (h : IsDigit d) : IsMark [0x76, 0x20, d]

/-- A mark stands somewhere in the text. -/
def Marked (text : Bytes) : Prop :=
  ∃ mark, IsMark mark ∧ mark <:+: text

theorem IsMark.ne_nil {mark : Bytes} (h : IsMark mark) : mark ≠ [] := by
  cases h <;> simp

/-- A text keeps its mark when more stands in front. -/
theorem Marked.of_suffix {longer : Bytes} (h : Marked text) (hsuffix : text <:+ longer) :
    Marked longer := by
  obtain ⟨mark, hmark, hin⟩ := h
  exact ⟨mark, hmark, hin.trans hsuffix.isInfix⟩

theorem beginsWithV_iff :
    beginsWithV text = true ↔
      ∃ d, IsDigit d ∧ ([0x76, d] <+: text ∨ [0x76, 0x20, d] <+: text) := by
  constructor
  · intro h
    unfold beginsWithV at h
    split at h
    · rename_i v b rest
      rw [Bool.and_eq_true, beq_iff_eq, Bool.or_eq_true, isDigitByte_iff] at h
      obtain ⟨rfl, hb | hspaced⟩ := h
      · exact ⟨b, hb, .inl (by simp)⟩
      · rw [Bool.and_eq_true, beq_iff_eq, Option.any_eq_true] at hspaced
        obtain ⟨rfl, d, hd, hdigit⟩ := hspaced
        obtain ⟨rest', rfl⟩ := List.head?_eq_some_iff.1 hd
        exact ⟨d, isDigitByte_iff.1 hdigit, .inr (by simp)⟩
    · cases h
  · rintro ⟨d, hd, ⟨rest, rfl⟩ | ⟨rest, rfl⟩⟩
    · simp [beginsWithV, isDigitByte_iff.2 hd]
    · simp [beginsWithV, isDigitByte_iff.2 hd]

theorem beginsWithMark_iff :
    beginsWithMark text = true ↔ ∃ mark, IsMark mark ∧ mark <+: text := by
  rw [beginsWithMark, Bool.or_eq_true, beginsWithV_iff, List.any_eq_true]
  constructor
  · rintro (⟨word, hword, hbegins⟩ | ⟨d, hd, hbegins | hbegins⟩)
    · refine ⟨word, ?_, List.isPrefixOf_iff_prefix.1 hbegins⟩
      simp only [versionWords, List.mem_cons, List.not_mem_nil, or_false] at hword
      rcases hword with rfl | rfl | rfl
      · exact .ver
      · exact .rev
      · exact .rel
    · exact ⟨_, .digit hd, hbegins⟩
    · exact ⟨_, .spaced hd, hbegins⟩
  · rintro ⟨mark, hmark, hbegins⟩
    cases hmark with
    | digit hd => exact .inr ⟨_, hd, .inl hbegins⟩
    | spaced hd => exact .inr ⟨_, hd, .inr hbegins⟩
    | _ => exact .inl ⟨_, by simp [versionWords], List.isPrefixOf_iff_prefix.2 hbegins⟩

/-- The search for a mark finds the texts that hold one. -/
theorem hasVersionMark_iff : hasVersionMark text = true ↔ Marked text := by
  unfold Marked
  induction text with
  | nil =>
      refine iff_of_false nofun ?_
      rintro ⟨mark, hmark, hin⟩
      exact hmark.ne_nil (List.infix_nil.1 hin)
  | cons b text ih =>
      rw [hasVersionMark, Bool.or_eq_true, ih, beginsWithMark_iff, ← exists_or]
      simp only [List.infix_cons_iff, and_or_left]

/-! ## The way back from a number -/

/-- All bytes from `start` up to `stop` may stand in front of a number: none is below the space, and none is
a dollar sign. -/
def VisibleIn (image : Bytes) (start stop : Nat) : Prop :=
  ∀ j, start ≤ j → j < stop → ∃ b, image[j]? = some b ∧ 0x20 ≤ b ∧ b ≠ 0x24

theorem isVersionByte_iff {b : UInt8} : isVersionByte b = true ↔ 0x20 ≤ b ∧ b ≠ 0x24 := by
  simp [isVersionByte]

/-- One byte more at the end. -/
theorem visibleIn_succ_iff {start stop : Nat} (h : start ≤ stop) :
    VisibleIn image start (stop + 1) ↔
      VisibleIn image start stop ∧ ∃ b, image[stop]? = some b ∧ 0x20 ≤ b ∧ b ≠ 0x24 := by
  constructor
  · intro hall
    exact ⟨fun j hj hlt => hall j hj (by omega), hall stop h (by omega)⟩
  · rintro ⟨hall, hlast⟩ j hj hlt
    rcases Nat.lt_or_ge j stop with hbefore | hafter
    · exact hall j hj hbefore
    · obtain rfl : j = stop := by omega
      exact hlast

/-- One byte more in front. -/
theorem VisibleIn.extend {start stop : Nat} (h : VisibleIn image (start + 1) stop)
    (hbyte : ∃ b, image[start]? = some b ∧ 0x20 ≤ b ∧ b ≠ 0x24) : VisibleIn image start stop := by
  intro j hj hlt
  rcases Nat.eq_or_lt_of_le hj with rfl | hbehind
  · exact hbyte
  · exact h j hbehind hlt

/-- The way back from a place ends at the first place from which on all bytes are visible, of those that
are not below the bound. -/
theorem isLeast_versionStart {lower stop : Nat} (h : lower ≤ stop) :
    IsLeast {s | lower ≤ s ∧ VisibleIn image s stop} (versionStart image.toArray lower stop) := by
  induction stop with
  | zero => exact ⟨⟨h, fun j _ hj => absurd hj (Nat.not_lt_zero j)⟩, fun s _ => Nat.zero_le s⟩
  | succ stop ih =>
      rw [versionStart, List.getElem?_toArray]
      simp only [Option.any_eq_true, isVersionByte_iff]
      split
      · -- the byte is passed: what was the first place up to it is the first place with it
        rename_i hpassed
        obtain ⟨hlower, hbyte⟩ := hpassed
        have hle := versionStart_le image.toArray lower stop
        obtain ⟨⟨hbound, hvisible⟩, hleast⟩ := ih hlower
        refine ⟨⟨hbound, (visibleIn_succ_iff hle).2 ⟨hvisible, hbyte⟩⟩, ?_⟩
        rintro s ⟨hs, hall⟩
        rcases Nat.lt_or_ge stop s with hbehind | hin
        · omega
        · exact hleast ⟨hs, ((visibleIn_succ_iff hin).1 hall).1⟩
      · -- the way ends here, since each earlier place would have to pass the byte
        rename_i hends
        refine ⟨⟨h, fun j hj hlt => by omega⟩, ?_⟩
        rintro s ⟨hs, hall⟩
        by_contra hlt
        exact hends ⟨by omega, ((visibleIn_succ_iff (by omega)).1 hall).2⟩

/-- Where a version string can begin whose number is at the position: not more than 124 bytes in front of
the number, all bytes up to it visible. -/
def versionStarts (image : Bytes) (position : Nat) : Set Nat :=
  {s | position - 124 ≤ s ∧ VisibleIn image s position}

/-- The scan begins a version string as early as it can. -/
theorem isLeast_versionStarts (image : Bytes) (position : Nat) :
    IsLeast (versionStarts image position)
      (versionStart image.toArray (position + 3 - versionWindow) position) := by
  have hlower : position + 3 - versionWindow = position - 124 := by
    rw [versionWindow]
    omega
  rw [hlower]
  exact isLeast_versionStart (Nat.sub_le _ _)

/-! ## Version strings -/

/-- The finding is a version string: a number, with the text in front of it from the first place where it
can begin, in which a mark stands. -/
structure IsVersionString (image : Bytes) (start : Nat) (f : Finding) : Prop where
  number : IsNumberAt image f.position
  start_least : IsLeast (versionStarts image f.position) start
  text_eq : f.text = (image.take (f.position + 3)).drop start
  marked : Marked f.text

/-- The scan finds at each place the version string whose number begins there. -/
theorem versionAt?_eq_some_iff {i : Nat} :
    versionAt? image.toArray i = some f ↔
      f.position = i ∧ ∃ start, IsVersionString image start f := by
  have hwindow : ∀ start, windowAt image.toArray start (i + 3) = (image.take (i + 3)).drop start := by
    intro start
    rw [windowAt_toArray, List.drop_take]
  have hstart := isLeast_versionStarts image i
  rw [versionAt?]
  dsimp only
  rw [hwindow (versionStart _ _ _)]
  constructor
  · intro h
    split at h
    · rename_i hnumber
      split at h
      · rename_i hmark
        cases h
        exact ⟨rfl, _, isVersionNumber_windowAt_iff.1 hnumber, hstart, rfl,
          hasVersionMark_iff.1 hmark⟩
      · cases h
    · cases h
  · rintro ⟨rfl, start, h⟩
    obtain rfl := h.start_least.unique hstart
    rw [if_pos (isVersionNumber_windowAt_iff.2 h.number), ← h.text_eq,
      if_pos (hasVersionMark_iff.2 h.marked)]

/-- The findings of the scan are the version strings of the image. -/
theorem mem_findVersions_iff :
    f ∈ findVersions image ↔ ∃ start, IsVersionString image start f := by
  rw [findVersions, mem_scan_iff, versionAt?_eq_some_iff, eq_self, true_and]
  · intro i f h
    exact (versionAt?_eq_some_iff.1 h).1
  · intro i hi
    exact versionAt?_eq_none (by omega)

namespace IsVersionString

variable {start : Nat}

theorem start_le (h : IsVersionString image start f) : start ≤ f.position :=
  h.start_least.2 ⟨Nat.sub_le _ _, fun j hj hlt => by omega⟩

/-- The text goes from its start to the end of the number. -/
theorem add_length_text (h : IsVersionString image start f) :
    start + f.text.length = f.position + 3 := by
  have hle := h.start_le
  have hin := h.number.lt_length
  rw [h.text_eq, List.length_drop, List.length_take]
  omega

theorem length_text_le (h : IsVersionString image start f) : f.text.length ≤ 127 := by
  have hlen := h.add_length_text
  have hbound := h.start_least.1.1
  omega

/-- The text ends with the number. -/
theorem number_suffix (h : IsVersionString image start f) :
    (image.take (f.position + 3)).drop f.position <:+ f.text := by
  rw [h.text_eq]
  exact List.drop_suffix_drop_left _ h.start_le

/-- The text goes back to the beginning of the image, to its greatest length, or to a byte that may not
stand in it. -/
theorem start_eq_zero_or (h : IsVersionString image start f) :
    start = 0 ∨ f.text.length = 127 ∨
      ∃ b, image[start - 1]? = some b ∧ (b < 0x20 ∨ b = 0x24) := by
  have hlen := h.add_length_text
  have hin := h.number.lt_length
  have hle := h.start_le
  obtain ⟨⟨hbound, hvisible⟩, hleast⟩ := h.start_least
  cases start with
  | zero => exact .inl rfl
  | succ before =>
      rcases Nat.lt_or_ge before (f.position - 124) with hcap | hroom
      · exact .inr (.inl (by omega))
      · obtain ⟨b, hb⟩ : ∃ b, image[before]? = some b :=
          ⟨_, List.getElem?_eq_getElem (by omega)⟩
        refine .inr (.inr ⟨b, hb, ?_⟩)
        by_contra hgo
        have hfurther : VisibleIn image before f.position := hvisible.extend
          ⟨b, hb, UInt8.not_lt.1 fun hlow => hgo (.inl hlow), fun hdollar => hgo (.inr hdollar)⟩
        exact absurd (hleast ⟨hroom, hfurther⟩) (Nat.not_succ_le_self before)

end IsVersionString

/-- The scan lists the version strings of an image and nothing else, by increasing position and each once.
A version string has at most 127 bytes, ends with its number, and goes back as far as the beginning of the
image, this length and the bytes that may not stand in it allow. -/
theorem findVersions_lists (image : Bytes) :
    ((findVersions image).Pairwise fun f g => f.position < g.position) ∧
    (∀ f, f ∈ findVersions image ↔ ∃ start, IsVersionString image start f) ∧
    ∀ f start, IsVersionString image start f →
      f.text.length ≤ 127 ∧
      (image.take (f.position + 3)).drop f.position <:+ f.text ∧
      (start = 0 ∨ f.text.length = 127 ∨
        ∃ b, image[start - 1]? = some b ∧ (b < 0x20 ∨ b = 0x24)) := by
  refine ⟨?_, fun f => mem_findVersions_iff, fun f start h => ?_⟩
  · apply pairwise_position_scan
    intro i f h
    exact (versionAt?_eq_some_iff.1 h).1
  · exact ⟨h.length_text_le, h.number_suffix, h.start_eq_zero_or⟩

/-- The text `$Rel v1.2.3`, which holds two version strings. -/
def releaseText : Bytes :=
  [0x24, 0x52, 0x65, 0x6c, 0x20, 0x76, 0x31, 0x2e, 0x32, 0x2e, 0x33]

/-- Both begin behind the dollar sign. -/
theorem findVersions_lists_releaseText :
    findVersions releaseText
        = [⟨(releaseText.drop 1).take 8, 6⟩, ⟨releaseText.drop 1, 8⟩] ∧
      IsVersionString releaseText 1 ⟨releaseText.drop 1, 8⟩ ∧
      (releaseText.take 11).drop 8 <:+ releaseText.drop 1 := by
  have hfound : findVersions releaseText
      = [⟨(releaseText.drop 1).take 8, 6⟩, ⟨releaseText.drop 1, 8⟩] := by
    decide
  obtain ⟨_, hmem, hbounds⟩ := findVersions_lists releaseText
  obtain ⟨start, h⟩ := (hmem ⟨releaseText.drop 1, 8⟩).1 (by rw [hfound]; simp)
  have hlen : start + 10 = 8 + 3 := h.add_length_text
  obtain rfl : start = 1 := by omega
  exact ⟨hfound, h, (hbounds _ 1 h).2.1⟩

end RomImage
