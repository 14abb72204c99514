/-
ApiModels.Yaml.Cursor — a place in a YAML text.

A cursor is what is left of the text, with the place's line and column.
Past the end of the text it stands at the character NUL, which no YAML
text holds.
-/

namespace ApiModels.Yaml

/-- A place in a text: what is left, and where it is. -/
structure Cursor where
  rest : List Char
  /-- The number of characters of the whole text: no loop over what is left takes more rounds. -/
  size : Nat := rest.length
  index : Nat := 0
  line : Nat := 0
  column : Nat := 0

/-- The character at which a cursor stands past the end of the text. -/
def endChar : Char := '\x00'

/-- Characters that end a line. -/
def isBreak (c : Char) : Bool :=
  c == '\n' || c == '\r' || c == '\x85' || c == '\u2028' || c == '\u2029'

/-- The end of a line or of the text. -/
def isLineEnd (c : Char) : Bool := c == endChar || isBreak c

/-- A space, or the end of a line or of the text. -/
def isSpaceOrEnd (c : Char) : Bool := c == ' ' || isLineEnd c

/-- A space, a tab, or the end of a line or of the text. -/
def isGap (c : Char) : Bool := c == '\t' || isSpaceOrEnd c

/-- Characters that a YAML text may hold. -/
def isAllowed (c : Char) : Bool :=
  let n := c.toNat
  n == 0x09 || n == 0x0A || n == 0x0D || (0x20 ≤ n && n ≤ 0x7E) || n == 0x85
    || (0xA0 ≤ n && n ≤ 0xFFFD) || 0x10000 ≤ n

namespace Cursor

/-- The character at the cursor. -/
def peek (c : Cursor) : Char :=
  match c.rest with
  | [] => endChar
  | x :: _ => x

/-- The character `n` places further. -/
def peekAt (c : Cursor) (n : Nat) : Char :=
  match c.rest.drop n with
  | [] => endChar
  | x :: _ => x

/-- One character further. A carriage return before a line feed does not end a line by itself. -/
def next (c : Cursor) : Cursor :=
  match c.rest with
  | [] => c
  | x :: rest =>
    let endsLine := isBreak x && !(x == '\r' && rest.head? == some '\n')
    if endsLine then { c with rest, index := c.index + 1, line := c.line + 1, column := 0 }
    else
      { c with
        rest, index := c.index + 1
        column := if x == '\uFEFF' then c.column else c.column + 1 }

/-- So many characters further. -/
def skip (c : Cursor) : Nat → Cursor
  | 0 => c
  | n + 1 => c.next.skip n

/-- The characters up to the first that fails a test, and the place of that one. -/
def takeWhile (c : Cursor) (p : Char → Bool) : List Char × Cursor :=
  let taken := c.rest.takeWhile p
  (taken, c.skip taken.length)

/-- The place after characters that pass a test. -/
def dropWhile (c : Cursor) (p : Char → Bool) : Cursor :=
  (c.takeWhile p).2

/-- The line break at the cursor as the one character that it stands for, and the place after it. -/
def lineBreak? (c : Cursor) : Option (Char × Cursor) :=
  match c.rest with
  | '\r' :: '\n' :: _ => some ('\n', c.skip 2)
  | x :: _ =>
    if x == '\u2028' || x == '\u2029' then some (x, c.next)
    else if isBreak x then some ('\n', c.next)
    else none
  | [] => none

/-- Three marks that separate documents stand here, if a line starts here. -/
def atSeparator (c : Cursor) : Bool :=
  (c.rest.take 3 == ['-', '-', '-'] || c.rest.take 3 == ['.', '.', '.']) && isGap (c.peekAt 3)

/-- The place after spaces and a comment, if the line ends there; after the line's end. -/
def endOfLine? (c : Cursor) : Option Cursor :=
  let c := c.dropWhile (· == ' ')
  let c := if c.peek == '#' then c.dropWhile (fun x => !isLineEnd x) else c
  if isLineEnd c.peek then
    match c.lineBreak? with
    | some (_, c) => some c
    | none => some c
  else none

end Cursor

end ApiModels.Yaml
