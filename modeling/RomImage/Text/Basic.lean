/-
# Columns and numbers

What readers and writers of text share.  A reader of columns trims lines and splits them into words at the
Unicode white space characters; a no-break space is a blank here, a zero-width space and a byte order
mark are not.

Messages and listings write a number in base sixteen: lower-case digits, as few as the number needs
(`hexDigits`), filled up with zeros to a column (`hexColumn`), or marked by `0x` (`hex`).

A natural numeral is an optional plus sign and at least one digit; an integer numeral may have a minus sign
instead.  Digits are read from the left, and the first fault met decides the error: a character that is no
digit, or a value that has outgrown the limit.

A binary floating-point number is written with exactly one digit after the point: its exact value, a
quotient of natural numbers, is rounded to the nearest tenth, a tie going to the even one.
-/

namespace RomImage

/-! ## Blanks -/

/-- The characters with the Unicode property White_Space. -/
def isBlank (c : Char) : Bool :=
  (0x9 ≤ c.val && c.val ≤ 0xd) || c.val == 0x20 || c.val == 0x85 || c.val == 0xa0 ||
    c.val == 0x1680 || (0x2000 ≤ c.val && c.val ≤ 0x200a) || c.val == 0x2028 ||
    c.val == 0x2029 || c.val == 0x202f || c.val == 0x205f || c.val == 0x3000

/-- The line without the blanks at its end. -/
def trimEnd (cs : List Char) : List Char :=
  (cs.reverse.dropWhile isBlank).reverse

/-- The text without the blanks at both ends. -/
def trim (cs : List Char) : List Char :=
  trimEnd (cs.dropWhile isBlank)

/-- The lines of a text: its pieces between newlines. -/
def lines (cs : List Char) : List (List Char) :=
  cs.splitOn '\n'

/-- The words of a line: its non-empty pieces between blanks. -/
def words (cs : List Char) : List (List Char) :=
  (cs.splitOnP isBlank).filter (!·.isEmpty)

/-! ## Hexadecimal text -/

/-- The hexadecimal digits of `n`, most significant first and without leading zeros. -/
def hexDigits (n : Nat) : List Char :=
  Nat.toDigits 16 n

/-- The hexadecimal digits of `n`, with zeros in front until there are at least `width` of them. -/
def hexColumn (width n : Nat) : List Char :=
  List.replicate (width - (hexDigits n).length) '0' ++ hexDigits n

/-- The hexadecimal text of `n`, marked by `0x`. -/
def hex (n : Nat) : String :=
  "0x" ++ String.ofList (hexDigits n)

/-- The hexadecimal text of `n` with at least `width` digits after the mark `0x`. -/
def hexWide (width n : Nat) : String :=
  "0x" ++ String.ofList (hexColumn width n)

/-! ## Faults of numerals -/

/-- What is wrong with a numeral. -/
inductive NumeralError
  /-- There is no character at all. -/
  | empty
  /-- A character is not a digit, or only a sign is there. -/
  | invalidDigit
  /-- The value is above the greatest one allowed. -/
  | tooLarge
  /-- The value is below the least one allowed. -/
  | tooSmall
  deriving DecidableEq, Repr

/-- The wording of each fault. -/
def NumeralError.message : NumeralError → String
  | empty => "cannot parse integer from empty string"
  | invalidDigit => "invalid digit found in string"
  | tooLarge => "number too large to fit in target type"
  | tooSmall => "number too small to fit in target type"

/-! ## Digits -/

/-- The value of an ASCII digit; letters of either case stand for ten to thirty-five. -/
def digitValue (c : Char) : Option Nat :=
  if '0' ≤ c ∧ c ≤ '9' then some (c.toNat - '0'.toNat)
  else if 'a' ≤ c ∧ c ≤ 'z' then some (c.toNat - 'a'.toNat + 10)
  else if 'A' ≤ c ∧ c ≤ 'Z' then some (c.toNat - 'A'.toNat + 10)
  else none

/-- The value of a digit of base `radix`. -/
def digitIn (radix : Nat) (c : Char) : Option Nat :=
  (digitValue c).filter (· < radix)

/-- Reads the digits that follow those of `value`, as long as the value stays below `limit`. -/
def readDigits (radix limit : Nat) (value : Nat) : List Char → Except NumeralError Nat
  | [] => .ok value
  | c :: cs =>
    match digitIn radix c with
    | none => .error .invalidDigit
    | some d =>
      if value * radix + d < limit then readDigits radix limit (value * radix + d) cs
      else .error .tooLarge

/-! ## Natural and integer numerals -/

/-- Reads a natural numeral of base `radix` whose value is below `limit`. -/
def readNatural (radix limit : Nat) (cs : List Char) : Except NumeralError Nat :=
  match cs with
  | [] => .error .empty
  | ['+'] => .error .invalidDigit
  | '+' :: ds => readDigits radix limit 0 ds
  | ds => readDigits radix limit 0 ds

/-- Reads a decimal integer numeral whose value lies in `-2^63 ≤ n < 2^63`. -/
def readInteger (cs : List Char) : Except NumeralError Int :=
  match cs with
  | [] => .error .empty
  | ['+'] => .error .invalidDigit
  | ['-'] => .error .invalidDigit
  | '-' :: ds =>
    match readDigits 10 0x8000000000000001 0 ds with
    | .ok n => .ok (-(n : Int))
    | .error .tooLarge => .error .tooSmall
    | .error e => .error e
  | '+' :: ds => (readDigits 10 0x8000000000000000 0 ds).map Int.ofNat
  | ds => (readDigits 10 0x8000000000000000 0 ds).map Int.ofNat

/-- What has been read never shrinks, and stays below the limit when a digit follows it. -/
theorem readDigits_lt {radix limit value n : Nat} {cs : List Char} (h : value < limit)
    (hr : readDigits radix limit value cs = .ok n) : n < limit := by
  induction cs generalizing value with
  | nil => cases hr; exact h
  | cons c cs ih =>
    rw [readDigits] at hr
    split at hr
    · cases hr
    · split at hr
      · rename_i hd
        exact ih hd hr
      · cases hr

/-- A numeral that is read has a value below the limit. -/
theorem readNatural_lt {radix limit n : Nat} {cs : List Char} (h : 0 < limit)
    (hr : readNatural radix limit cs = .ok n) : n < limit := by
  unfold readNatural at hr
  split at hr
  · cases hr
  · cases hr
  · exact readDigits_lt h hr
  · exact readDigits_lt h hr

/-! ## Numbers with one decimal place -/

/-- The quotient of `num` by `den` rounded to the nearest natural number, a tie to the even one. -/
def roundHalfEven (num den : Nat) : Nat :=
  let whole := num / den
  let twice := 2 * (num % den)
  if den < twice ∨ (twice = den ∧ whole % 2 = 1) then whole + 1 else whole

/-- A quotient of natural numbers with one decimal place. -/
def tenths (num den : Nat) : String :=
  let t := roundHalfEven (10 * num) den
  toString (t / 10) ++ "." ++ toString (t % 10)

/-- Two to the power `n`. -/
def powerOfTwo (n : Nat) : Nat :=
  1 <<< n

/-- The exact magnitude of a finite binary64 number as a quotient, read off its bits. -/
def binaryMagnitude (bits : UInt64) : Nat × Nat :=
  let exponent := (bits.toNat / powerOfTwo 52) % powerOfTwo 11
  let fraction := bits.toNat % powerOfTwo 52
  if exponent = 0 then (fraction, powerOfTwo 1074)
  else ((powerOfTwo 52 + fraction) * powerOfTwo (exponent - 1075), powerOfTwo (1075 - exponent))

/-- A binary floating-point number with one decimal place. -/
def floatTenths (x : Float) : String :=
  if x.isNaN then "NaN"
  else
    let bits := x.toBits
    let sign := if bits.toNat < powerOfTwo 63 then "" else "-"
    let magnitude :=
      if x.isInf then "inf"
      else tenths (binaryMagnitude bits).1 (binaryMagnitude bits).2
    sign ++ magnitude

end RomImage
