/-
# UTF-8

Decoding bytes one at a time.  The decoder reports a character when its last byte has come, and a
flaw for each longest run of bytes that begins a character which then does not continue, or for a byte
that can begin none.  Strict decoding refuses flaws; lossy decoding shows each as U+FFFD.
A byte below `0x80` always ends what came before it (`feed_ascii`), so a flaw never swallows one.
-/

namespace RomImage

/-- What the second byte of a character has to respect, beyond being a continuation byte. -/
inductive Utf8Bound
  /-- Nothing more. -/
  | none
  /-- After `0xe0`: the character needs three bytes. -/
  | threeBytes
  /-- After `0xed`: the character is no surrogate. -/
  | noSurrogate
  /-- After `0xf0`: the character needs four bytes. -/
  | fourBytes
  /-- After `0xf4`: the character is at most U+10FFFF. -/
  | lastPlane
  deriving DecidableEq, Repr

/-- The least and the greatest byte that a bound lets through. -/
def Utf8Bound.range : Utf8Bound → UInt8 × UInt8
  | none => (0x80, 0xbf)
  | threeBytes => (0xa0, 0xbf)
  | noSurrogate => (0x80, 0x9f)
  | fourBytes => (0x90, 0xbf)
  | lastPlane => (0x80, 0x8f)

/-- Whether a byte continues a character under a bound. -/
def Utf8Bound.admits (bound : Utf8Bound) (b : UInt8) : Bool :=
  bound.range.1 ≤ b && b ≤ bound.range.2

/-- Where a decoder stands: between characters, or inside one whose scalar value so far is `value`,
with `missing` bytes to come after the next one. -/
inductive Utf8State
  | start
  | inside (missing : Nat) (bound : Utf8Bound) (value : Nat)
  deriving DecidableEq, Repr

/-- What the decoder reports: a character, or `none` for a flaw. -/
abbrev Utf8Unit := Option Char

/-- The state after a byte that begins a character, and the report it gives at once, if any. -/
def Utf8State.begin (b : UInt8) : Utf8State × List Utf8Unit :=
  let n := b.toNat
  if n < 0x80 then (.start, [some (Char.ofNat n)])
  else if n < 0xc2 then (.start, [none])
  else if n < 0xe0 then (.inside 0 .none (n - 0xc0), [])
  else if n = 0xe0 then (.inside 1 .threeBytes 0, [])
  else if n = 0xed then (.inside 1 .noSurrogate (n - 0xe0), [])
  else if n < 0xf0 then (.inside 1 .none (n - 0xe0), [])
  else if n = 0xf0 then (.inside 2 .fourBytes 0, [])
  else if n < 0xf4 then (.inside 2 .none (n - 0xf0), [])
  else if n = 0xf4 then (.inside 2 .lastPlane (n - 0xf0), [])
  else (.start, [none])

/-- The state after byte `b`, and what it reports: nothing, a character, a flaw, or a flaw followed
by what `b` gives on its own. -/
def Utf8State.feed (s : Utf8State) (b : UInt8) : Utf8State × List Utf8Unit :=
  match s with
  | .start => begin b
  | .inside missing bound value =>
    if bound.admits b then
      match missing with
      | 0 => (.start, [some (Char.ofNat (value * 64 + (b.toNat - 0x80)))])
      | m + 1 => (.inside m .none (value * 64 + (b.toNat - 0x80)), [])
    else
      ((begin b).1, none :: (begin b).2)

/-- What is reported when the bytes end: a flaw when they end inside a character. -/
def Utf8State.finish : Utf8State → List Utf8Unit
  | .start => []
  | .inside .. => [none]

/-- A byte below `0x80` continues no character. -/
theorem Utf8Bound.admits_ascii (bound : Utf8Bound) {b : UInt8} (h : b < 0x80) :
    bound.admits b = false := by
  have hb : b.toNat < 128 := h
  cases bound <;> simp [admits, range, UInt8.le_iff_toNat_le] <;> omega

/-- A byte below `0x80` leaves the decoder between characters, its own character reported last. -/
theorem Utf8State.feed_ascii (s : Utf8State) {b : UInt8} (h : b < 0x80) :
    s.feed b = (.start, s.finish ++ [some (Char.ofNat b.toNat)]) := by
  have hb : b.toNat < 0x80 := h
  have hbegin : begin b = (.start, [some (Char.ofNat b.toNat)]) := by
    simp [begin, hb]
  cases s with
  | start => exact hbegin
  | inside missing bound value => simp [feed, finish, bound.admits_ascii h, hbegin]

/-! ## Whole texts -/

/-- The state and the reports, latest first, after one more byte. -/
def Utf8State.advance (p : Utf8State × List Utf8Unit) (b : UInt8) : Utf8State × List Utf8Unit :=
  ((p.1.feed b).1, (p.1.feed b).2.reverse ++ p.2)

/-- Everything a decoder reports on `bytes`. -/
def utf8Units (bytes : List UInt8) : List Utf8Unit :=
  let last := bytes.foldl Utf8State.advance (.start, [])
  (last.1.finish ++ last.2).reverse

/-- The text that `bytes` encode, with U+FFFD for each flaw. -/
def decodeLossy (bytes : List UInt8) : List Char :=
  (utf8Units bytes).map (·.getD '\uFFFD')

/-- The bytes that encode a text. -/
def encodeUtf8 (cs : List Char) : List UInt8 :=
  cs.flatMap String.utf8EncodeChar

/-- The text that `bytes` encode, if there is no flaw. -/
def decodeStrict (bytes : List UInt8) : Option (List Char) :=
  (utf8Units bytes).mapM id

end RomImage
