/-
ApiModels.Json.Parser — values from JSON text.

Beyond the standard grammar the words `NaN`, `Infinity` and `-Infinity`
are doubles. A number without fraction and exponent is a whole number of
any size, every other number the nearest double. Of equal keys the last
value counts, in the place of the first. A text may have halves of
characters; two that follow each other are read as their character.

The text is read from left to right, and the first problem counts: a whole
number with too many digits is one as soon as it is read.

The recursion takes a number of levels that the text itself bounds: every
item and every nesting costs a character.
-/
import ApiModels.Value.Basic
import ApiModels.Number.Literal
import ApiModels.Text.Letter

namespace ApiModels.Json

/-- Why a text is not read. -/
inductive Problem where
  | badSyntax
  /-- A whole number has so many digits, which are too many. -/
  | tooManyDigits (count : Nat)
  deriving DecidableEq, Repr

/-- What is read at a place, and what follows it. -/
abbrev Read (α : Type) := Except Problem (α × List Char)

/-- What is left after blanks. -/
def skipBlanks (cs : List Char) : List Char :=
  cs.dropWhile (fun c => c == ' ' || c == '\t' || c == '\n' || c == '\r')

/-- The value of a hexadecimal digit. -/
def hexValue? (c : Char) : Option Nat :=
  let n := c.toNat
  if 0x30 ≤ n && n ≤ 0x39 then some (n - 0x30)
  else if 0x61 ≤ n && n ≤ 0x66 then some (n - 0x57)
  else if 0x41 ≤ n && n ≤ 0x46 then some (n - 0x37)
  else none

/-- The unit that four hexadecimal digits stand for. -/
def unit? (a b c d : Char) : Option Nat := do
  some (((← hexValue? a) * 16 + (← hexValue? b)) * 256 + (← hexValue? c) * 16 + (← hexValue? d))

/-- The character that a letter after a backslash stands for. -/
def letterEscape? : Char → Option Char
  | '"' => some '"'
  | '\\' => some '\\'
  | '/' => some '/'
  | 'b' => some '\x08'
  | 'f' => some '\x0c'
  | 'n' => some '\n'
  | 'r' => some '\r'
  | 't' => some '\t'
  | _ => none

/-- The rest of a string after its opening mark; `acc` holds the letters before, backwards. -/
def stringBody (acc : Letters) : List Char → Option (Letters × List Char)
  | '"' :: rest => some (Letters.joined acc.reverse, rest)
  | '\\' :: 'u' :: a :: b :: c :: d :: rest =>
    match (unit? a b c d).bind Letter.ofCode? with
    | some x => stringBody (x :: acc) rest
    | none => none
  | '\\' :: c :: rest =>
    match letterEscape? c with
    | some x => stringBody (.char x :: acc) rest
    | none => none
  | c :: rest => if c.toNat < 0x20 then none else stringBody (.char c :: acc) rest
  | [] => none

/-- The text of a string after its opening mark, and what follows the closing one. -/
def string? (cs : List Char) : Option (Letters × List Char) :=
  stringBody [] cs

/-- A run of digits and what follows it. -/
def digits (cs : List Char) : List Char × List Char :=
  (cs.takeWhile Char.isDigit, cs.dropWhile Char.isDigit)

/-- The number that decimal digits denote. -/
def decimalValue (ds : List Char) : Nat :=
  ds.foldl (fun n d => 10 * n + (d.toNat - 0x30)) 0

/-- The fraction after a whole part: digits after a point. -/
def fraction (cs : List Char) : List Char × List Char :=
  match cs with
  | '.' :: rest =>
    let (ds, after) := digits rest
    if ds.isEmpty then ([], cs) else (ds, after)
  | _ => ([], cs)

/-- The exponent of a number, if one follows. -/
def exponent (cs : List Char) : Option Int × List Char :=
  let unsigned (negative : Bool) (rest : List Char) : Option Int × List Char :=
    let (ds, after) := digits rest
    if ds.isEmpty then (none, cs)
    else (some (if negative then -(decimalValue ds : Int) else decimalValue ds), after)
  match cs with
  | c :: rest =>
    if c == 'e' || c == 'E' then
      match rest with
      | '-' :: r => unsigned true r
      | '+' :: r => unsigned false r
      | r => unsigned false r
    else (none, cs)
  | [] => (none, cs)

/-- A number after its sign. -/
def number (negative : Bool) (cs : List Char) : Read (Scalar Empty) :=
  let whole := match cs with
    | '0' :: rest => (['0'], rest)
    | cs => digits cs
  match whole with
  | ([], _) => .error .badSyntax
  | (ws, rest) =>
    let (fs, rest) := fraction rest
    let (e, rest) := exponent rest
    let value := decimalValue (ws ++ fs)
    if fs.isEmpty && e.isNone then
      if Number.greatestLength < ws.length then .error (.tooManyDigits ws.length)
      else .ok (.int (if negative then -(value : Int) else value), rest)
    else
      .ok (.float (Binary64.ofDecimal negative value (e.getD 0 - fs.length)), rest)

/-- A word at the start of a text, and what follows it. -/
def word? (w : String) (cs : List Char) : Option (List Char) :=
  if w.toList.isPrefixOf cs then some (cs.drop w.length) else none

/-- The words that are values, in the order in which they are tried. -/
def words : List (String × Scalar Empty) :=
  [("null", .null), ("true", .bool true), ("false", .bool false), ("NaN", .float .nan),
   ("Infinity", .float (.infinite false)), ("-Infinity", .float (.infinite true))]

/-- A scalar that is no text. -/
def atom (cs : List Char) : Read (Scalar Empty) :=
  match words.findSome? (fun w => (word? w.1 cs).map (fun rest => (w.2, rest))) with
  | some found => .ok found
  | none =>
    match cs with
    | '-' :: rest => number true rest
    | cs => number false cs

variable {τ : Type}

/-- A scalar that is no text, as a value. -/
def ofAtom (found : Read (Scalar Empty)) : Read (Value τ) :=
  found.map fun (s, rest) => (.scalar (s.map Empty.elim), rest)

variable [DecidableEq τ] [Spelled τ]

mutual

/-- One value and what follows it. -/
def value : Nat → List Char → Read (Value τ)
  | 0, _ => .error .badSyntax
  | n + 1, cs =>
    match cs with
    | '"' :: rest =>
      match string? rest with
      | some (s, after) => .ok (.text (Spelled.ofLetters s), after)
      | none => .error .badSyntax
    | '[' :: rest =>
      match skipBlanks rest with
      | ']' :: after => .ok (.list [], after)
      | rest => items n [] rest
    | '\x7b' :: rest =>
      match skipBlanks rest with
      | '\x7d' :: after => .ok (.object [], after)
      | rest => members n [] rest
    | cs => ofAtom (atom cs)

/-- One more item of a list, then the others; `acc` holds the items before, backwards. -/
def items : Nat → List (Value τ) → List Char → Read (Value τ)
  | 0, _, _ => .error .badSyntax
  | n + 1, acc, cs =>
    match value n cs with
    | .error e => .error e
    | .ok (v, rest) =>
      match skipBlanks rest with
      | ',' :: rest => items n (v :: acc) (skipBlanks rest)
      | ']' :: rest => .ok (.list (v :: acc).reverse, rest)
      | _ => .error .badSyntax

/-- One more member of an object, then the others; `acc` holds the members before, backwards. -/
def members : Nat → Members τ → List Char → Read (Value τ)
  | 0, _, _ => .error .badSyntax
  | n + 1, acc, cs =>
    match cs with
    | '"' :: rest =>
      match string? rest with
      | none => .error .badSyntax
      | some (k, rest) =>
        match skipBlanks rest with
        | ':' :: rest =>
          match value n (skipBlanks rest) with
          | .error e => .error e
          | .ok (v, rest) =>
            match skipBlanks rest with
            | ',' :: rest =>
              members n ((.text (Spelled.ofLetters k), v) :: acc) (skipBlanks rest)
            | '\x7d' :: rest =>
              .ok (.object (Members.ofPairs ((.text (Spelled.ofLetters k), v) :: acc).reverse),
                rest)
            | _ => .error .badSyntax
        | _ => .error .badSyntax
    | _ => .error .badSyntax

end

/-- The value of a JSON text, blanks around it allowed. -/
def parse (s : String) : Except Problem (Value τ) :=
  match value (2 * s.length + 2) (skipBlanks s.toList) with
  | .ok (v, rest) => if (skipBlanks rest).isEmpty then .ok v else .error .badSyntax
  | .error e => .error e

end ApiModels.Json
