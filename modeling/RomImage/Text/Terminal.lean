/-
# Text for a terminal

What is left of a text when the controls meant for a terminal are taken out: control characters other
than blanks, and sequences that begin with an escape character.  A line end or another blank control
inside a sequence is kept, and the text after it shows again until the next control; a sequence that
the text leaves open hides no more than its end.
-/

namespace RomImage

/-! ## Sequences -/

/-- Where a reader of terminal text stands. -/
inductive TerminalState
  /-- Outside of every sequence. -/
  | text
  /-- After an escape character. -/
  | escape
  /-- In an escape sequence, after an intermediate character. -/
  | escapeMiddle
  /-- In a control sequence, which a letter or a like character ends. -/
  | control
  /-- At the front of a device control string. -/
  | device
  /-- In the parameters of a device control string. -/
  | deviceParameters
  /-- After an intermediate character at the front of a device control string. -/
  | deviceMiddle
  /-- In a string that the byte `0x9c` ends. -/
  | string
  /-- In an operating system command, which a bell ends. -/
  | command
  deriving DecidableEq, Repr

/-- Whether `c` lies between two characters. -/
def isBetween (first last c : Char) : Bool :=
  first ≤ c && c ≤ last

/-- The state after a character at the front of a device control string or later in its front part,
if the character moves on at all. -/
def TerminalState.deviceNext (s : TerminalState) (c : Char) : TerminalState :=
  if isBetween '@' '~' c then .string
  else if isBetween ' ' '/' c then .deviceMiddle
  else if isBetween '0' '?' c then
    match s with
    | .device => .deviceParameters
    | .deviceParameters => if c ≤ ';' then .deviceParameters else .string
    | _ => .string
  else s

/-- The state after a hidden character.  An escape character begins a new sequence wherever it stands,
and the two cancelling characters end every sequence. -/
def TerminalState.next (s : TerminalState) (c : Char) : TerminalState :=
  if c = '\x18' ∨ c = '\x1a' then .text
  else if c = '\x1b' then .escape
  else
    match s with
    | .text => .text
    | .escape =>
      if c = '[' then .control
      else if c = ']' then .command
      else if c = 'P' then .device
      else if c = 'X' ∨ c = '^' ∨ c = '_' then .string
      else if isBetween ' ' '/' c then .escapeMiddle
      else if isBetween '0' '~' c then .text
      else .escape
    | .escapeMiddle => if isBetween '0' '~' c then .text else .escapeMiddle
    | .control => if isBetween '@' '~' c then .text else .control
    | .device | .deviceParameters | .deviceMiddle => s.deviceNext c
    | .string => if 0x9c ∈ String.utf8EncodeChar c then .text else .string
    | .command => if c = '\x07' then .text else .command

/-- Whether a character is a control that moves to another column or line, and so shows as a blank. -/
def isBlankControl (c : Char) : Bool :=
  c = '\t' || c = '\n' || c = '\x0c' || c = '\r'

/-- Whether a character shows. -/
def TerminalState.shows (s : TerminalState) (c : Char) : Bool :=
  match s with
  | .text => isBlankControl c || ' ' ≤ c && c ≠ '\x7f'
  | .escape | .escapeMiddle | .control => isBlankControl c
  | _ => false

/-! ## Whole texts -/

/-- What a reader of terminal text has seen so far. -/
structure TerminalView where
  /-- The state, which an open sequence keeps while the text after a blank control shows. -/
  state : TerminalState
  /-- Whether the last character showed. -/
  showing : Bool
  /-- The characters that showed, latest first. -/
  shown : List Char
  deriving DecidableEq, Repr

/-- The view after one more character.  After a character that showed, the next one is taken as plain
text; a character beyond ASCII closes an open sequence. -/
def TerminalView.feed (v : TerminalView) (c : Char) : TerminalView :=
  if (if v.showing then .text else v.state : TerminalState).shows c then
    ⟨if c.toNat < 0x80 then v.state else .text, true, c :: v.shown⟩
  else
    ⟨v.state.next c, false, v.shown⟩

/-- What shows of a text. -/
def visibleText (cs : List Char) : List Char :=
  (cs.foldl TerminalView.feed ⟨.text, false, []⟩).shown.reverse

end RomImage
