/-
# Advisories

What a log says about the dates and version strings of an image: at most one warning of each kind, dates
first.  A scan finds texts of an image with the places where they stand; a list of findings is shown with
each text quoted, so that it can be read only one way.

A date is written `DD/DD/DD`.  An image should hold exactly one, which systems take for the release date;
overlapping dates count each.  A version string is a number `D.D` together with the visible characters in
front of it, if a word for a version is among them.  Systems show such strings as the version of the
firmware.
-/
import RomImage.Bytes
import RomImage.Log
import RomImage.Text.Quoted
import RomImage.Text.Utf8

namespace RomImage

/-! ## Findings -/

/-- Bytes of an image that a scan reports, with the position that stands for them. -/
structure Finding where
  text : Bytes
  position : Nat
  deriving DecidableEq, Repr

/-- The finding as it is shown: its text, decoded and quoted, and its position. -/
def Finding.render (f : Finding) : List Char :=
  '(' :: (quoted (decodeLossy f.text) ++ [',', ' '] ++ (toString f.position).toList ++ [')'])

/-- The findings as a listing shows them. -/
def Finding.renderAll (fs : List Finding) : List Char :=
  '[' :: (List.intercalate [',', ' '] (fs.map render) ++ [']'])

/-- Whether a byte is an ASCII digit. -/
def isDigitByte (b : UInt8) : Bool :=
  0x30 ≤ b && b ≤ 0x39

/-- The bytes of an image from `start` up to `stop`, cut off at its end. -/
def windowAt (image : Array UInt8) (start stop : Nat) : Bytes :=
  (image.extract start stop).toList

/-- A window of the image is one of its list of bytes. -/
theorem windowAt_toArray (image : Bytes) (start stop : Nat) :
    windowAt image.toArray start stop = (image.drop start).take (stop - start) := by
  simp [windowAt]

/-- What a scan finds at the positions of an image, from the first to the last. -/
def scan (image : Bytes) (hit? : Array UInt8 → Nat → Option Finding) : List Finding :=
  (List.range image.length).filterMap (hit? image.toArray)

section

variable {image : Bytes} {hit? : Array UInt8 → Nat → Option Finding} {f : Finding}

/-- If findings stand where they are found, and none behind the image, a finding of the scan is one that
is found at its position. -/
theorem mem_scan_iff (hposition : ∀ i f, hit? image.toArray i = some f → f.position = i)
    (hend : ∀ i, image.length ≤ i → hit? image.toArray i = none) :
    f ∈ scan image hit? ↔ hit? image.toArray f.position = some f := by
  rw [scan, List.mem_filterMap]
  constructor
  · rintro ⟨i, _, hi⟩
    rw [hposition i f hi, hi]
  · intro h
    refine ⟨f.position, List.mem_range.2 (Nat.lt_of_not_le fun hle => ?_), h⟩
    rw [hend _ hle] at h
    cases h

/-- If findings stand where they are found, the scan lists them by increasing position, each once. -/
theorem pairwise_position_scan
    (hposition : ∀ i f, hit? image.toArray i = some f → f.position = i) :
    (scan image hit?).Pairwise fun f g => f.position < g.position := by
  rw [scan, List.pairwise_filterMap]
  apply List.pairwise_lt_range.imp
  intro i j hij f hf g hg
  rw [hposition i f hf, hposition j g hg]
  exact hij

/-- If nothing is found where no `width` bytes lie in the image, the scan can stop at the last place where
they do. -/
theorem scan_eq_of_width {width : Nat} (hwidth : 0 < width)
    (hnone : ∀ i, image.length < i + width → hit? image.toArray i = none) :
    scan image hit?
      = (List.range (image.length + 1 - width)).filterMap (hit? image.toArray) := by
  obtain ⟨rest, hrest⟩ := Nat.exists_eq_add_of_le
    (show image.length + 1 - width ≤ image.length by omega)
  have hbehind : ((List.range rest).map (image.length + 1 - width + ·)).filterMap
      (hit? image.toArray) = [] := by
    apply List.filterMap_eq_nil_iff.2
    intro i hi
    obtain ⟨j, _, rfl⟩ := List.mem_map.1 hi
    exact hnone _ (by omega)
  have hrange : List.range image.length = List.range (image.length + 1 - width) ++
      (List.range rest).map (image.length + 1 - width + ·) := by
    rw [← List.range_add, ← hrest]
  rw [scan, hrange, List.filterMap_append, hbehind, List.append_nil]

end

/-! ## Dates -/

/-- Whether the bytes are a date. -/
def isDate : Bytes → Bool
  | [a, b, slash, c, d, slash', e, f] =>
    slash == 0x2f && slash' == 0x2f && [a, b, c, d, e, f].all isDigitByte
  | _ => false

/-- The date that begins at a position of the image. -/
def dateAt? (image : Array UInt8) (position : Nat) : Option Finding :=
  let text := windowAt image position (position + 8)
  if isDate text then some ⟨text, position⟩ else none

/-- Every date of an image, in the order of position. -/
def findDates (image : Bytes) : List Finding :=
  scan image dateAt?

/-- What is to be said about the dates of an image. -/
inductive DateAdvisory
  | missing
  | multiple (dates : List Finding)
  deriving DecidableEq, Repr

/-- The wording of the advisory. -/
def DateAdvisory.message : DateAdvisory → String
  | missing =>
    "No dates were detected in rom.\n" ++
    "   This may cause Windows OS to report incorrect date."
  | multiple dates =>
    "More than one date was detected in rom.\n" ++
    "   This may cause Windows OS to report incorrect date:\n" ++
    "   " ++ String.ofList (Finding.renderAll dates)

/-- The advisory on an image, unless it holds exactly one date. -/
def checkDates (image : Bytes) : Option DateAdvisory :=
  match findDates image with
  | [] => some .missing
  | [_] => none
  | dates => some (.multiple dates)

/-! ## Words for a version -/

/-- Words that announce a version. -/
def versionWords : List Bytes :=
  [[0x56, 0x65, 0x72], [0x52, 0x65, 0x76], [0x52, 0x65, 0x6c]]

/-- Whether the bytes begin with `v` and a digit, a space between them or none. -/
def beginsWithV : Bytes → Bool
  | v :: b :: rest => v == 0x76 && (isDigitByte b || (b == 0x20 && rest.head?.any isDigitByte))
  | _ => false

/-- Whether the bytes begin with a mark of a version. -/
def beginsWithMark (text : Bytes) : Bool :=
  versionWords.any (·.isPrefixOf text) || beginsWithV text

/-- Whether a mark of a version stands anywhere in the bytes. -/
def hasVersionMark : Bytes → Bool
  | [] => false
  | b :: text => beginsWithMark (b :: text) || hasVersionMark text

/-! ## The text around a number -/

/-- The greatest length of a version string. -/
def versionWindow : Nat := 127

/-- Whether a byte may stand in a version string in front of its number: it is visible, a space or
above ASCII, and no dollar sign. -/
def isVersionByte (b : UInt8) : Bool :=
  0x20 ≤ b && b != 0x24

/-- The place from which on all bytes up to `stop` may stand in a version string, not below
`lower`. -/
def versionStart (image : Array UInt8) (lower : Nat) : Nat → Nat
  | 0 => 0
  | stop + 1 =>
    if lower ≤ stop ∧ image[stop]?.any isVersionByte then versionStart image lower stop
    else stop + 1

/-- Whether a number `D.D` stands at the front of the bytes. -/
def isVersionNumber : Bytes → Bool
  | [a, point, b] => isDigitByte a && point == 0x2e && isDigitByte b
  | _ => false

/-- The version string whose number begins at a position of the image. -/
def versionAt? (image : Array UInt8) (position : Nat) : Option Finding :=
  let stop := position + 3
  if isVersionNumber (windowAt image position stop) then
    let text := windowAt image (versionStart image (stop - versionWindow) position) stop
    if hasVersionMark text then some ⟨text, position⟩ else none
  else none

/-- Every version string of an image, in the order of position. -/
def findVersions (image : Bytes) : List Finding :=
  scan image versionAt?

/-! ## The advisory on version strings -/

/-- What is to be said about the version strings of an image. -/
structure VersionAdvisory where
  versions : List Finding
  deriving DecidableEq, Repr

/-- The wording of the advisory. -/
def VersionAdvisory.message (a : VersionAdvisory) : String :=
  "Version strings were detected in rom.\n" ++
  "   This may cause Windows OS to report incorrect version:\n" ++
  "   " ++ String.ofList (Finding.renderAll a.versions)

/-- The advisory on an image, if it holds a version string. -/
def checkVersions (image : Bytes) : Option VersionAdvisory :=
  match findVersions image with
  | [] => none
  | versions => some ⟨versions⟩

/-! ## Reports -/

/-- Warns if there is something to say. -/
def warnIf {ε : Type} : Option String → Logged ε Unit
  | some message => .log .warn message
  | none => pure ()

/-- Warns about the dates and then about the version strings of an image. -/
def warnAbout {ε : Type} (image : Bytes) : Logged ε Unit := do
  warnIf ((checkDates image).map DateAdvisory.message)
  warnIf ((checkVersions image).map VersionAdvisory.message)

/-- Warning never fails. -/
theorem result_warnAbout {ε : Type} (image : Bytes) :
    (warnAbout image : Logged ε Unit).result = .ok () := by
  unfold warnAbout
  cases checkDates image <;> cases checkVersions image <;> rfl

end RomImage
