/-
ApiModels.Yaml.Scalar — the texts of scalars: in quotation marks, as
blocks, and plain.

Inside quotation marks a line break with the spaces around it is one
space, and further line breaks stay. A literal block keeps its lines; a
folded one joins neighbouring lines that are not indented further. A plain
scalar ends where a `:` or `#` could be read as an indicator.

Loops go once through what is left of the text; the size of the whole
text bounds the number of rounds.
-/
import ApiModels.Yaml.Cursor
import ApiModels.Yaml.Problem
import ApiModels.Json.Parser

namespace ApiModels.Yaml

/-- A text read so far, backwards, and the place after it. -/
abbrev Scanned := List Char × Cursor

/-! ## Quotation marks -/

/-- The character that a letter after a backslash stands for. -/
def letterEscape? : Char → Option Char
  | '0' => some '\x00'
  | 'a' => some '\x07'
  | 'b' => some '\x08'
  | 't' => some '\t'
  | '\t' => some '\t'
  | 'n' => some '\n'
  | 'v' => some '\x0b'
  | 'f' => some '\x0c'
  | 'r' => some '\r'
  | 'e' => some '\x1b'
  | ' ' => some ' '
  | '"' => some '"'
  | '\\' => some '\\'
  | '/' => some '/'
  | 'N' => some '\x85'
  | '_' => some '\xa0'
  | 'L' => some '\u2028'
  | 'P' => some '\u2029'
  | _ => none

/-- The number of hexadecimal digits after a letter that starts a code. -/
def codeLength? : Char → Option Nat
  | 'x' => some 2
  | 'u' => some 4
  | 'U' => some 8
  | _ => none

/-- The number that hexadecimal digits denote. -/
def hexNumber? (cs : List Char) : Option Nat :=
  cs.foldlM (fun n c => (Json.hexValue? c).map (16 * n + ·)) 0

/-- Line breaks and the spaces before them, where no document may end. -/
def quotedBreaks : Nat → List Char → Cursor → Option Scanned
  | 0, _, _ => none
  | n + 1, acc, c =>
    if c.atSeparator then none
    else
      let c := c.dropWhile (fun x => x == ' ' || x == '\t')
      match c.lineBreak? with
      | some (x, c) => quotedBreaks n (x :: acc) c
      | none => some (acc, c)

/-- Spaces inside quotation marks, or a line break with what surrounds it. -/
def quotedSpaces (c : Cursor) : Option Scanned :=
  let (spaces, after) := c.takeWhile (fun x => x == ' ' || x == '\t')
  if after.peek == endChar then none
  else
    match after.lineBreak? with
    | none => some (spaces.reverse, after)
    | some (x, after) =>
      match quotedBreaks (after.size + 1) [] after with
      | none => none
      | some (breaks, after) =>
        let first := if x != '\n' then [x] else if breaks.isEmpty then [' '] else []
        some (breaks ++ first, after)

/-- A number in so many hexadecimal digits, and the place after it. -/
def code? (length : Nat) (c : Cursor) : Option (Nat × Cursor) :=
  let digits := c.rest.take length
  if digits.length == length then (hexNumber? digits).map fun n => (n, c.skip length) else none

/-- The letter of a code. -/
def codeEscape (length : Nat) (c : Cursor) : Reading (Letter × Cursor) := do
  let (n, c) ← orUnreadable (code? length c)
  match Letter.ofCode? n with
  | some x => .ok (x, c)
  | none => .error (.failure (.notACharacter n))

/-- What an escape stands for, backwards, and the place after it. The cursor is at its letter. -/
def escape (c : Cursor) : Reading (Letters × Cursor) :=
  match letterEscape? c.peek with
  | some y => .ok ([.char y], c.next)
  | none =>
    match codeLength? c.peek with
    | some length => (codeEscape length c.next).map fun (y, c) => ([y], c)
    | none =>
      match c.lineBreak? with
      | some (_, c) =>
        (orUnreadable (quotedBreaks (c.size + 1) [] c)).map fun (cs, c) => (cs.map .char, c)
      | none => .error .unreadable

/-- The rest of a scalar after its opening mark, and what follows the closing one. -/
def quotedBody (double : Bool) : Nat → Letters → Cursor → Reading (Letters × Cursor)
  | 0, _, _ => .error .unreadable
  | n + 1, acc, c => do
    let x := c.peek
    if x == ' ' || x == '\t' || isLineEnd x then
      let (cs, c) ← orUnreadable (quotedSpaces c)
      quotedBody double n (cs.map .char ++ acc) c
    else if double then
      if x == '"' then .ok (acc, c.next)
      else if x == '\\' then
        let (cs, c) ← escape c.next
        quotedBody double n (cs ++ acc) c
      else quotedBody double n (.char x :: acc) c.next
    else if x == '\'' then
      if c.peekAt 1 == '\'' then quotedBody double n (.char '\'' :: acc) (c.skip 2)
      else .ok (acc, c.next)
    else quotedBody double n (.char x :: acc) c.next

/-- A scalar in quotation marks, and the place after it. -/
def quoted (double : Bool) (c : Cursor) : Reading (Letters × Cursor) :=
  (quotedBody double (c.size + 1) [] c.next).map fun (acc, c) => (acc.reverse, c)

/-! ## Blocks -/

/-- What becomes of the line breaks at the end of a block. -/
inductive Chomping where
  /-- None stays. -/
  | strip
  /-- One stays. -/
  | clip
  /-- All stay. -/
  | keep
  deriving DecidableEq

/-- A digit from one to nine. -/
def indentation? (c : Char) : Option Nat :=
  if '1' ≤ c && c ≤ '9' then some (c.toNat - 0x30) else none

/-- A mark that says what becomes of the line breaks at the end. -/
def chomping? : Char → Option Chomping
  | '+' => some .keep
  | '-' => some .strip
  | _ => none

/-- The marks after a block's indicator, in either order, up to the end of the line. -/
def blockHeader (c : Cursor) : Option (Chomping × Option Nat × Cursor) :=
  let (chomping, increment, c) := match chomping? c.peek with
    | some chomping =>
      match indentation? c.next.peek with
      | some n => (chomping, some n, c.skip 2)
      | none => (chomping, none, c.next)
    | none =>
      match indentation? c.peek with
      | some n =>
        match chomping? c.next.peek with
        | some chomping => (chomping, some n, c.skip 2)
        | none => (.clip, some n, c.next)
      | none => (.clip, none, c)
  if isSpaceOrEnd c.peek then c.endOfLine?.map fun c => (chomping, increment, c) else none

/-- Empty lines at the start of a block, and the widest indentation up to the first line. -/
def blockIndentation : Nat → List Char → Nat → Cursor → List Char × Nat × Cursor
  | 0, acc, widest, c => (acc, widest, c)
  | n + 1, acc, widest, c =>
    if c.peek == ' ' then
      blockIndentation n acc (max widest (c.column + 1)) c.next
    else
      match c.lineBreak? with
      | some (x, c) => blockIndentation n (x :: acc) widest c
      | none => (acc, widest, c)

/-- Up to so many columns of spaces. -/
def spacesTo (indent : Nat) (c : Cursor) : Cursor :=
  c.skip ((c.rest.takeWhile (· == ' ')).length.min (indent - c.column))

/-- Empty lines inside a block. -/
def blockBreaks (indent : Nat) : Nat → List Char → Cursor → Scanned
  | 0, acc, c => (acc, c)
  | n + 1, acc, c =>
    let c := spacesTo indent c
    match c.lineBreak? with
    | some (x, c) => blockBreaks indent n (x :: acc) c
    | none => (acc, c)

/-- Lines of a block. `breaks` are the empty lines before this one, backwards. -/
def blockLines (folded : Bool) (chomping : Chomping) (indent : Nat) :
    Nat → List Char → List Char → List Char → Cursor → Scanned
  | 0, acc, _, _, c => (acc, c)
  | n + 1, acc, lineBreak, breaks, c =>
    if c.column == indent && c.peek != endChar then
      let acc := breaks ++ acc
      let flush := c.peek != ' ' && c.peek != '\t'
      let (line, c) := c.takeWhile (fun x => !isLineEnd x)
      let acc := line.reverse ++ acc
      let (lineBreak, c) := match c.lineBreak? with
        | some (x, c) => ([x], c)
        | none => ([], c)
      let (breaks, c) := blockBreaks indent (c.size + 1) [] c
      if c.column == indent && c.peek != endChar then
        let folds := folded && lineBreak == ['\n'] && flush && c.peek != ' ' && c.peek != '\t'
        let joint := if folds then (if breaks.isEmpty then [' '] else []) else lineBreak
        blockLines folded chomping indent n (joint ++ acc) [] breaks c
      else finish acc lineBreak breaks c
    else finish acc lineBreak breaks c
where
  /-- The end of a block. -/
  finish (acc lineBreak breaks : List Char) (c : Cursor) : Scanned :=
    match chomping with
    | .strip => (acc, c)
    | .clip => (lineBreak ++ acc, c)
    | .keep => (breaks ++ lineBreak ++ acc, c)

/-- A block in a node of some indentation, and the place after it. -/
def block (folded : Bool) (parent : Int) (c : Cursor) : Option (String × Cursor) :=
  match blockHeader c.next with
  | none => none
  | some (chomping, increment, c) =>
    let least := (max (parent + 1) 1).toNat
    let rounds := c.size + 1
    let (breaks, indent, c) := match increment with
      | none =>
        let (breaks, widest, c) := blockIndentation rounds [] 0 c
        (breaks, max least widest, c)
      | some n =>
        let indent := least + n - 1
        let (breaks, c) := blockBreaks indent rounds [] c
        (breaks, indent, c)
    let (acc, c) := blockLines folded chomping indent rounds [] [] breaks c
    some (String.ofList acc.reverse, c)

/-! ## Plain scalars -/

/-- Where a plain scalar ends before the next character. -/
def endsPlain (inFlow : Bool) (x following : Char) : Bool :=
  isGap x
    || (x == ':' && (isGap following ||
      (inFlow && [',', '[', ']', '\x7b', '\x7d'].contains following)))
    || (inFlow && [',', '?', '[', ']', '\x7b', '\x7d'].contains x)

/-- Characters of a plain scalar up to where it ends. -/
def plainChars (inFlow : Bool) : List Char → List Char
  | [] => []
  | x :: rest =>
    if endsPlain inFlow x (rest.head?.getD endChar) then [] else x :: plainChars inFlow rest

/-- Spaces and line breaks before the next line of a plain scalar; none at a separator. -/
def plainBreaks : Nat → List Char → Cursor → Option Scanned
  | 0, acc, c => some (acc, c)
  | n + 1, acc, c =>
    let c := c.dropWhile (· == ' ')
    match c.lineBreak? with
    | some (x, c) => if c.atSeparator then none else plainBreaks n (x :: acc) c
    | none => some (acc, c)

/-- What stands between two parts of a plain scalar. -/
structure PlainGap where
  /-- The text that the gap stands for, backwards; empty if the scalar ends here. -/
  text : List Char
  cursor : Cursor
  /-- The gap holds a line break. -/
  broke : Bool

/-- The place of the first separator after line breaks. -/
def plainSeparator : Nat → Cursor → Cursor
  | 0, c => c
  | n + 1, c =>
    let c := c.dropWhile (· == ' ')
    match c.lineBreak? with
    | some (_, c) => if c.atSeparator then c else plainSeparator n c
    | none => c

/-- The gap at a place. -/
def plainGap (c : Cursor) : PlainGap :=
  let (spaces, after) := c.takeWhile (· == ' ')
  match after.lineBreak? with
  | none => ⟨spaces, after, false⟩
  | some (x, after) =>
    if after.atSeparator then ⟨[], after, true⟩
    else
      let rounds := after.size + 1
      match plainBreaks rounds [] after with
      | none => ⟨[], plainSeparator rounds after, true⟩
      | some (breaks, after) =>
        let first := if x != '\n' then [x] else if breaks.isEmpty then [' '] else []
        ⟨breaks ++ first, after, true⟩

/-- Parts of a plain scalar. `gap` stands before the next part; `broke` tells of the last gap. -/
def plainParts (inFlow : Bool) (indent : Int) :
    Nat → List Char → List Char → Bool → Cursor → List Char × Bool × Cursor
  | 0, acc, _, broke, c => (acc, broke, c)
  | n + 1, acc, gap, broke, c =>
    if c.peek == '#' then (acc, broke, c)
    else
      match plainChars inFlow c.rest with
      | [] => (acc, broke, c)
      | part =>
        let acc := part.reverse ++ gap ++ acc
        let between := plainGap (c.skip part.length)
        let after := between.cursor
        if between.text.isEmpty || after.peek == '#' || (!inFlow && after.column < indent) then
          (acc, between.broke, after)
        else plainParts inFlow indent n acc between.text between.broke after

/-- A plain scalar in a node of some indentation, whether a line break follows it, and the place. -/
def plain (inFlow : Bool) (parent : Int) (c : Cursor) : String × Bool × Cursor :=
  let (acc, broke, c) := plainParts inFlow (parent + 1) (c.size + 1) [] [] false c
  (String.ofList acc.reverse, broke, c)

end ApiModels.Yaml
