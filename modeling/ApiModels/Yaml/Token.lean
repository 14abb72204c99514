/-
ApiModels.Yaml.Token — a YAML text as a row of tokens.

Blocks are marked by indentation alone, so the tokens that open and close
them are made up: `Lexer.indent` is the column of the block that is open,
and a token further to the left closes blocks.

That something was a key shows only at the `:` behind it. So the lexer
remembers, for every level of brackets, the last place where a key may have
started, and puts the tokens for a key in there when the `:` comes. A key
stands on one line and is not longer than 1024 characters.

A scalar that names no character ends the row, and so does a directive
with a number that is too long. What stands before it is still looked at
first, but for the token that may be a key until that scalar has been read.
-/
import ApiModels.Yaml.Scalar

namespace ApiModels.Yaml

/-- The tokens of a YAML text. -/
inductive Token where
  | versionDirective (major : Nat)
  | tagDirective (handle stem : String)
  | otherDirective
  | documentStart
  | documentEnd
  | blockSequenceStart
  | blockMappingStart
  | blockEnd
  | flowSequenceStart
  | flowSequenceEnd
  | flowMappingStart
  | flowMappingEnd
  | blockEntry
  | flowEntry
  | key
  | value
  | alias (name : String)
  | anchor (name : String)
  /-- A tag: its handle, if it has one, and its suffix. -/
  | tag (handle : Option String) (suffix : String)
  /-- The text of a scalar, and whether it is plain. -/
  | scalar (text : Letters) (isPlain : Bool)
  /-- The code that a scalar gives for a character that is none. No token follows. -/
  | noCharacter (code : Nat)
  /-- The number of digits of a version that has too many. No token follows. -/
  | longVersion (digits : Nat)
  deriving DecidableEq, Repr

/-- A place where a key may have started. -/
structure KeyStart where
  /-- The number of tokens before it. -/
  position : Nat
  /-- Nothing but a key may start here. -/
  required : Bool
  index : Nat
  line : Nat
  column : Nat

/-- What the lexer knows at a place in the text. -/
structure Lexer where
  cursor : Cursor
  /-- The number of brackets that are open. -/
  flow : Nat := 0
  /-- The column of the innermost open block. -/
  indent : Int := -1
  /-- The columns of the blocks around it. -/
  indents : List Int := []
  /-- A key may start here. -/
  allowKey : Bool := true
  /-- The places where keys may have started, by the number of brackets around. -/
  keys : List (Nat × KeyStart) := []
  /-- The tokens so far, backwards. -/
  tokens : List Token := []
  /-- The number of tokens so far. -/
  count : Nat := 0

namespace Lexer

/-- The greatest length of a key. -/
def greatestKey : Nat := 1024

/-- Adds a token. -/
def push (l : Lexer) (t : Token) : Lexer :=
  { l with tokens := t :: l.tokens, count := l.count + 1 }

/-- Puts a token in after the first `position` tokens. -/
def insert (l : Lexer) (position : Nat) (t : Token) : Lexer :=
  let after := l.count - position
  { l with tokens := l.tokens.take after ++ t :: l.tokens.drop after, count := l.count + 1 }

/-- A place is too far back for a key that has not ended. -/
def isStale (l : Lexer) (k : KeyStart) : Bool :=
  k.line != l.cursor.line || greatestKey < l.cursor.index - k.index

/-- Forgets places that are too far back; a place that must start a key may not be forgotten. -/
def forgetStale (l : Lexer) : Option Lexer :=
  if l.keys.any (fun k => l.isStale k.2 && k.2.required) then none
  else some { l with keys := l.keys.filter (fun k => !l.isStale k.2) }

/-- Forgets the place on the level of brackets here. -/
def forgetKey (l : Lexer) : Option Lexer :=
  if l.keys.any (fun k => k.1 == l.flow && k.2.required) then none
  else some { l with keys := l.keys.filter (fun k => k.1 != l.flow) }

/-- Remembers that a key may start here, where keys are allowed. -/
def saveKey (l : Lexer) : Option Lexer :=
  if l.allowKey then
    l.forgetKey.map fun l =>
      let start : KeyStart :=
        { position := l.count
          required := l.flow == 0 && l.indent == l.cursor.column
          index := l.cursor.index
          line := l.cursor.line
          column := l.cursor.column }
      { l with keys := (l.flow, start) :: l.keys }
  else some l

/-- Closes the blocks that are further to the right than a column. -/
def closeBlocks (column : Int) : List Int → Lexer → Lexer
  | [], l => l
  | outer :: indents, l =>
    if column < l.indent then
      closeBlocks column indents
        (({ l with indent := outer, indents := indents } : Lexer).push .blockEnd)
    else l

/-- Closes the blocks that end before a column; brackets keep blocks open. -/
def unwind (l : Lexer) (column : Int) : Lexer :=
  if l.flow == 0 then closeBlocks column l.indents l else l

/-- A block that starts at a column further to the right than the one that is open. -/
def openBlock (l : Lexer) (column position : Nat) (t : Token) : Lexer :=
  if l.indent < column then
    ({ l with indents := l.indent :: l.indents, indent := column } : Lexer).insert position t
  else l

/-- The cursor after so many characters, and a token for them. -/
def take (l : Lexer) (n : Nat) (t : Token) : Lexer :=
  ({ l with cursor := l.cursor.skip n } : Lexer).push t

/-! ## Indicators -/

/-- The next place that is not a space, in a comment or a line break. -/
def toNextToken : Nat → Lexer → Lexer
  | 0, l => l
  | n + 1, l =>
    let c := l.cursor.dropWhile (· == ' ')
    let c := if c.peek == '#' then c.dropWhile (fun x => !isLineEnd x) else c
    match c.lineBreak? with
    | some (_, c) => toNextToken n { l with cursor := c, allowKey := l.allowKey || l.flow == 0 }
    | none => { l with cursor := c }

/-- The opening of a document or its end: three marks at the start of a line. -/
def documentMark (l : Lexer) (t : Token) : Option Lexer :=
  (l.unwind (-1)).forgetKey.map fun l => ({ l with allowKey := false } : Lexer).take 3 t

/-- An opening bracket, which may start a key. -/
def flowStart (l : Lexer) (t : Token) : Option Lexer :=
  l.saveKey.map fun l => ({ l with flow := l.flow + 1, allowKey := true } : Lexer).take 1 t

/-- A closing bracket. -/
def flowEnd (l : Lexer) (t : Token) : Option Lexer :=
  l.forgetKey.map fun l => ({ l with flow := l.flow - 1, allowKey := false } : Lexer).take 1 t

/-- A comma. -/
def flowEntry (l : Lexer) : Option Lexer :=
  ({ l with allowKey := true } : Lexer).forgetKey.map fun l => l.take 1 .flowEntry

/-- The mark of an entry of a block. -/
def blockEntry (l : Lexer) : Option Lexer :=
  if l.flow == 0 && !l.allowKey then none
  else
    let l := if l.flow == 0 then
        l.openBlock l.cursor.column l.count .blockSequenceStart
      else l
    ({ l with allowKey := true } : Lexer).forgetKey.map fun l => l.take 1 .blockEntry

/-- The mark of a key. -/
def keyMark (l : Lexer) : Option Lexer :=
  if l.flow == 0 && !l.allowKey then none
  else
    let l := if l.flow == 0 then
        l.openBlock l.cursor.column l.count .blockMappingStart
      else l
    ({ l with allowKey := l.flow == 0 } : Lexer).forgetKey.map fun l => l.take 1 .key

/-- The mark of a value: what stands before it was a key. -/
def valueMark (l : Lexer) : Option Lexer :=
  match l.keys.lookup l.flow with
  | some k =>
    let l := { l with keys := l.keys.filter (fun k => k.1 != l.flow) }
    let l := l.insert k.position .key
    let l := if l.flow == 0 then l.openBlock k.column k.position .blockMappingStart else l
    some (({ l with allowKey := false } : Lexer).take 1 .value)
  | none =>
    if l.flow == 0 && !l.allowKey then none
    else
      let l := if l.flow == 0 then
          l.openBlock l.cursor.column l.count .blockMappingStart
        else l
      ({ l with allowKey := l.flow == 0 } : Lexer).forgetKey.map fun l => l.take 1 .value

/-! ## Names, tags and directives -/

/-- Characters of names. -/
def isNameChar (c : Char) : Bool :=
  c.isAlphanum || c == '-' || c == '_'

/-- A name after an indicator. -/
def nameAfter (l : Lexer) (make : String → Token) : Option Lexer :=
  let (name, c) := l.cursor.next.takeWhile isNameChar
  let x := c.peek
  if name.isEmpty then none
  else if isGap x || ['?', ':', ',', ']', '\x7d', '%', '@', Char.ofNat 0x60].contains x then
    some (({ l with cursor := c } : Lexer).push (make (String.ofList name)))
  else none

/-- An anchor or an alias, which may start a key. -/
def reference (l : Lexer) (make : String → Token) : Option Lexer :=
  l.saveKey.bind fun l => ({ l with allowKey := false } : Lexer).nameAfter make

/-- Characters of tags. -/
def isTagChar (c : Char) : Bool :=
  c.isAlphanum || "-;/?:@&=+$,_.!~*'()[]%".toList.contains c

/-- The characters that bytes, told backwards, encode. -/
def encoded (bytes : List UInt8) : Option (List Char) :=
  (String.fromUTF8? ⟨bytes.reverse.toArray⟩).map String.toList

/-- The characters of a tag; codes after percent signs are the bytes of encoded characters. -/
def tagText (codes : List UInt8) : List Char → Option (List Char)
  | [] => encoded codes
  | '%' :: a :: b :: rest => do tagText (UInt8.ofNat (← hexNumber? [a, b]) :: codes) rest
  | '%' :: _ => none
  | c :: rest => do some ((← encoded codes) ++ c :: (← tagText [] rest))

/-- The text of a tag at a place, and the place after it. -/
def tagSuffix (c : Cursor) : Option (String × Cursor) :=
  let (cs, c) := c.takeWhile isTagChar
  if cs.isEmpty then none else (tagText [] cs).map fun cs => (String.ofList cs, c)

/-- A handle: an exclamation mark before a space, or a name between two of them. -/
def tagHandle (c : Cursor) : Option (String × Cursor) :=
  if c.peek != '!' then none
  else
    let (name, after) := c.next.takeWhile isNameChar
    if after.peek == '!' then some ("!" ++ String.ofList name ++ "!", after.next)
    else if c.next.peek == ' ' then some ("!", c.next)
    else none

/-- A tag, which may start a key. -/
def tag (l : Lexer) : Option Lexer :=
  l.saveKey.bind fun l =>
    let c := l.cursor
    let found : Option (Token × Cursor) :=
      if c.peekAt 1 == '<' then do
        let (suffix, c) ← tagSuffix (c.skip 2)
        if c.peek == '>' then some (.tag none suffix, c.next) else none
      else if isGap (c.peekAt 1) then some (.tag none "!", c.next)
      else if (c.next.rest.takeWhile (fun x => !isSpaceOrEnd x)).contains '!' then do
        let (handle, c) ← tagHandle c
        let (suffix, c) ← tagSuffix c
        some (.tag (some handle) suffix, c)
      else do
        let (suffix, c) ← tagSuffix c.next
        some (.tag (some "!") suffix, c)
    found.bind fun (t, c) =>
      if isSpaceOrEnd c.peek then
        some (({ l with cursor := c, allowKey := false } : Lexer).push t)
      else none

/-- A number in a directive. -/
def directiveNumber (c : Cursor) : Reading (Nat × Cursor) :=
  let (ds, c) := c.takeWhile Char.isDigit
  if ds.isEmpty then .error .unreadable
  else if Number.greatestLength < ds.length then
    .error (.failure (.tooManyDigits (some ds.length)))
  else .ok (Json.decimalValue ds, c)

/-- The version that a directive tells: two numbers. -/
def version (c : Cursor) : Reading (Token × Cursor) := do
  let (major, c) ← directiveNumber (c.dropWhile (· == ' '))
  if c.peek != '.' then .error .unreadable
  else
    let (_, c) ← directiveNumber c.next
    if isSpaceOrEnd c.peek then .ok (.versionDirective major, c) else .error .unreadable

/-- The handle that a directive tells, and what it stands for. -/
def tagMeaning (c : Cursor) : Option (Token × Cursor) := do
  let (handle, c) ← tagHandle (c.dropWhile (· == ' '))
  if c.peek != ' ' then none
  else
    let (stem, c) ← tagSuffix (c.dropWhile (· == ' '))
    if isSpaceOrEnd c.peek then some (.tagDirective handle stem, c) else none

/-- What a directive of some name says. -/
def directiveBody (name : String) (c : Cursor) : Reading (Token × Cursor) :=
  if name == "YAML" then version c
  else if name == "TAG" then orUnreadable (tagMeaning c)
  else .ok (.otherDirective, c.dropWhile (fun x => !isLineEnd x))

/-- A directive on a line of its own. -/
def directive (l : Lexer) : Reading Lexer := do
  let l ← orUnreadable (l.unwind (-1)).forgetKey
  let (name, c) := l.cursor.next.takeWhile isNameChar
  if name.isEmpty || !isSpaceOrEnd c.peek then .error .unreadable
  else
    let (t, c) ← directiveBody (String.ofList name) c
    let c ← orUnreadable c.endOfLine?
    .ok (({ l with cursor := c, allowKey := false } : Lexer).push t)

/-! ## Scalars -/

/-- A scalar in quotation marks, which may start a key. -/
def quotedScalar (l : Lexer) (double : Bool) : Reading Lexer := do
  let l ← orUnreadable l.saveKey
  let (text, c) ← quoted double l.cursor
  .ok (({ l with cursor := c, allowKey := false } : Lexer).push (.scalar text false))

/-- A block, after which a key may start. -/
def blockScalar (l : Lexer) (folded : Bool) : Option Lexer :=
  l.forgetKey.bind fun l =>
    (block folded l.indent l.cursor).map fun (text, c) =>
      ({ l with cursor := c, allowKey := true } : Lexer).push (.scalar (.ofString text) false)

/-- A plain scalar, which may start a key; after a line break a key may start. -/
def plainScalar (l : Lexer) : Option Lexer :=
  l.saveKey.map fun l =>
    let (text, broke, c) := plain (0 < l.flow) l.indent l.cursor
    ({ l with cursor := c, allowKey := broke } : Lexer).push (.scalar (.ofString text) true)

/-- Whether a plain scalar may start with these two characters. -/
def startsPlain (inFlow : Bool) (x following : Char) : Bool :=
  !(isGap x || "-?:,[]\x7b\x7d#&*!|>'\"%@".toList.contains x || x == Char.ofNat 0x60)
    || (!isGap following && (x == '-' || (!inFlow && (x == '?' || x == ':'))))

/-! ## The row -/

/-- Three equal marks at the start of a line. -/
def atMark (l : Lexer) (x : Char) : Bool :=
  l.cursor.column == 0 && l.cursor.rest.take 3 == [x, x, x] && isGap (l.cursor.peekAt 3)

/-- The next token, or tokens, at a place where no directive and no quotation mark stands. -/
def step (l : Lexer) : Option Lexer :=
  let x := l.cursor.peek
  let following := l.cursor.peekAt 1
  let inFlow := 0 < l.flow
  if l.atMark '-' then l.documentMark .documentStart
  else if l.atMark '.' then l.documentMark .documentEnd
  else if x == '[' then l.flowStart .flowSequenceStart
  else if x == '\x7b' then l.flowStart .flowMappingStart
  else if x == ']' then l.flowEnd .flowSequenceEnd
  else if x == '\x7d' then l.flowEnd .flowMappingEnd
  else if x == ',' then l.flowEntry
  else if x == '-' && isGap following then l.blockEntry
  else if x == '?' && (inFlow || isGap following) then l.keyMark
  else if x == ':' && (inFlow || isGap following) then l.valueMark
  else if x == '*' then l.reference .alias
  else if x == '&' then l.reference .anchor
  else if x == '!' then l.tag
  else if x == '|' && !inFlow then l.blockScalar false
  else if x == '>' && !inFlow then l.blockScalar true
  else if startsPlain inFlow x following then l.plainScalar
  else none

/-- The next token, or tokens, at a place that is no space. -/
def advance (l : Lexer) : Reading Lexer :=
  let x := l.cursor.peek
  if x == '%' && l.cursor.column == 0 then l.directive
  else if x == '"' || x == '\'' then l.quotedScalar (x == '"')
  else orUnreadable l.step

/-- The token that stands for a failure. -/
def failed? : Problem → Option Token
  | .failure (.notACharacter code) => some (.noCharacter code)
  | .failure (.tooManyDigits digits) => digits.map .longVersion
  | _ => none

/-- The tokens that are settled: those before the first one that may still turn out to be a key. -/
def settled (l : Lexer) : List Token :=
  let pending := l.keys.filter (fun k => !l.isStale k.2)
  l.tokens.reverse.take ((pending.map (fun k => k.2.position)).foldl min l.count)

/-- All tokens from a place on. -/
def run : Nat → Lexer → Option (List Token)
  | 0, _ => none
  | n + 1, before => do
    let l ← (toNextToken (before.cursor.size + 1) before).forgetStale
    let l := l.unwind l.cursor.column
    if l.cursor.rest.isEmpty then
      (l.unwind (-1)).forgetKey.map (fun l => l.tokens.reverse)
    else
      match l.advance with
      | .ok l => run n l
      | .error problem => (failed? problem).map fun t => before.settled ++ [t]

end Lexer

/-- The tokens of a text, if it can be cut into tokens. -/
def tokensOf? (s : String) : Option (List Token) :=
  let cs := s.toList
  if cs.all isAllowed then
    let cs := match cs with
      | '\uFEFF' :: rest => rest
      | cs => cs
    Lexer.run (cs.length + 2) { cursor := { rest := cs } }
  else none

end ApiModels.Yaml
