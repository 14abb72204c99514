/-
ApiModels.Number.Literal — numbers written as text.

A literal may have blanks around it and a sign in front, and its digits may
come from any script. In a whole number single underscores may stand
between digits; in a base other than ten its digits may go on with letters,
and the base may be told in front of them. Numbers of more than 4300
decimal digits are neither read nor written.

Main definitions: `ofTextIn`, the whole number that a text denotes in a
base; `doubleOf?`, the double that a text denotes.
-/
import ApiModels.Number.Binary64
import ApiModels.Text.Blank
import ApiModels.Text.DecimalDigit

namespace ApiModels.Number

/-- The most decimal digits that a whole number may have as text. -/
def greatestLength : Nat := 4300

/-- A whole number has too many digits to be written. -/
def isTooLong (n : Int) : Bool := decide (Nat.pow 10 greatestLength ≤ n.natAbs)

/-- Why a text is not read as a whole number. -/
inductive Problem where
  | notANumber
  | tooLong (digits : Nat)
  deriving DecidableEq, Repr

/-! ## Digits -/

/-- The value of a letter that goes on with the digits from ten on. -/
def letterDigit? (c : Char) : Option Nat :=
  if 'a' ≤ c && c ≤ 'z' then some (c.toNat - 0x57)
  else if 'A' ≤ c && c ≤ 'Z' then some (c.toNat - 0x37)
  else none

/-- The value of a digit of a base. -/
def digit? (base : Nat) (c : Char) : Option Nat :=
  ((Text.decimalDigit? c).or (letterDigit? c)).filter (· < base)

/-- The value of digits after `value`; an underscore must be followed by a digit. -/
def digitsAfter (base value : Nat) : List Char → Option Nat
  | [] => some value
  | '_' :: c :: cs =>
    match digit? base c with
    | some d => digitsAfter base (base * value + d) cs
    | none => none
  | c :: cs =>
    match digit? base c with
    | some d => digitsAfter base (base * value + d) cs
    | none => none

/-- The value of one or more digits. -/
def unsigned? (base : Nat) : List Char → Option Nat
  | [] => none
  | c :: cs => (digit? base c).bind (digitsAfter base · cs)

/-- A digit, or an underscore between digits. -/
def isPart (base : Nat) (c : Char) : Bool := c == '_' || (digit? base c).isSome

/--
The value of a text of digits. Decimal digits at its start are counted before the rest is looked at.
-/
def unsigned (base : Nat) (cs : List Char) : Except Problem Nat :=
  let start := cs.takeWhile (isPart base)
  let digits := (start.filter (· != '_')).length
  match unsigned? base start with
  | none => .error .notANumber
  | some n =>
    if base == 10 && greatestLength < digits then .error (.tooLong digits)
    else if (cs.dropWhile (isPart base)).isEmpty then .ok n
    else .error .notANumber

/-! ## Whole numbers -/

/-- The blanks that may stand around a literal: every blank but the separator controls. -/
def isLiteralBlank (c : Char) : Bool :=
  Text.isBlank c && !(0x1C ≤ c.toNat && c.toNat ≤ 0x1F)

/-- A text without the blanks around it. -/
def withoutBlanks (cs : List Char) : List Char :=
  ((cs.dropWhile isLiteralBlank).reverse.dropWhile isLiteralBlank).reverse

/-- The letters that tell a base after a zero. -/
def baseLetters : List (Nat × List Char) := [(2, ['b', 'B']), (8, ['o', 'O']), (16, ['x', 'X'])]

/-- Digits without what tells their base in front of them; an underscore may follow that. -/
def withoutBase (base : Nat) (cs : List Char) : List Char :=
  match cs with
  | '0' :: c :: rest =>
    if ((baseLetters.lookup base).getD []).contains c then
      match rest with
      | '_' :: rest => rest
      | rest => rest
    else cs
  | cs => cs

/-- The whole number that a text denotes in a base. -/
def ofTextIn (base : Nat) (s : String) : Except Problem Int :=
  let magnitude (cs : List Char) : Except Problem Int :=
    (unsigned base (withoutBase base cs)).map (fun n => (n : Int))
  match withoutBlanks s.toList with
  | '-' :: cs => (magnitude cs).map (fun n => -n)
  | '+' :: cs => magnitude cs
  | cs => magnitude cs

/-- The whole number that a text denotes. -/
def ofText (s : String) : Except Problem Int := ofTextIn 10 s

/-! ## Doubles -/

/-- A run of decimal digits as their values, and what follows it. -/
def decimalRun (cs : List Char) : List Nat × List Char :=
  let isDigit (c : Char) : Bool := (Text.decimalDigit? c).isSome
  ((cs.takeWhile isDigit).filterMap Text.decimalDigit?, cs.dropWhile isDigit)

/-- The number that decimal digits denote. -/
def decimalValue (digits : List Nat) : Nat :=
  digits.foldl (fun n d => 10 * n + d) 0

/-- The digits of a fraction, and what follows them. -/
def fractionRun : List Char → List Nat × List Char
  | '.' :: cs => decimalRun cs
  | cs => ([], cs)

/-- The exponent that the rest of a literal tells; nothing else may be left. -/
def exponent? (cs : List Char) : Option Int :=
  let run (negative : Bool) (cs : List Char) : Option Int :=
    match decimalRun cs with
    | ([], _) => none
    | (digits, []) =>
      some (if negative then -(decimalValue digits : Int) else decimalValue digits)
    | _ => none
  match cs with
  | [] => some 0
  | e :: cs =>
    if e == 'e' || e == 'E' then
      match cs with
      | '-' :: cs => run true cs
      | '+' :: cs => run false cs
      | cs => run false cs
    else none

/-- The double that digits, a point among them, and an exponent denote; there must be a digit. -/
def decimalDouble? (negative : Bool) (cs : List Char) : Option Binary64 := do
  let (whole, rest) := decimalRun cs
  let (fraction, rest) := fractionRun rest
  if whole.isEmpty && fraction.isEmpty then none
  else
    let exponent ← exponent? rest
    some (Binary64.ofDecimal negative (decimalValue (whole ++ fraction))
      (exponent - fraction.length))

/-- The double that a text without blanks and sign denotes; it may be a word. -/
def unsignedDouble? (negative : Bool) (cs : List Char) : Option Binary64 :=
  match String.ofList (cs.map Char.toLower) with
  | "inf" => some (.infinite negative)
  | "infinity" => some (.infinite negative)
  | "nan" => some .nan
  | _ => decimalDouble? negative cs

/-- The double that a text denotes. -/
def doubleOf? (s : String) : Option Binary64 :=
  match withoutBlanks s.toList with
  | '-' :: cs => unsignedDouble? true cs
  | '+' :: cs => unsignedDouble? false cs
  | cs => unsignedDouble? false cs

end ApiModels.Number
