/-
ApiModels.Number.Shortest — the text of a double.

A double is written with the fewest decimal digits that read back to the
same double, and of those the decimal nearest to it, the even one of two that
are equally near. `shortest` finds digits and exponent in exact
arithmetic: for one digit, two digits, and so on it tries the two
neighbours of the value on that decimal grid.
`DecimalStyle` then says how digits and exponent are laid out.
-/
import ApiModels.Number.Binary64

namespace ApiModels

/-- The decimal number `digits · 10 ^ exponent`. -/
structure Decimal where
  digits : Nat
  exponent : Int
  deriving DecidableEq, Repr, Inhabited

namespace Decimal

/-- The double that a decimal number reads as. -/
def toBinary64 (d : Decimal) : Binary64 := Binary64.ofDecimal false d.digits d.exponent

/-- The decimal exponent of the first digit of `num / den`. -/
def decimalLog (num den : Nat) : Int :=
  if den ≤ num then (Binary64.digitCount (num / den) : Int) - 1
  else
    let d := Binary64.digitCount (den / num)
    if num * Nat.pow 10 (d - 1) = den then -((d : Int) - 1) else -(d : Int)

/--
The value's neighbour on the grid of `count` digits that reads back to `x`: the nearer one if both
do, the even one if they are equally near.
-/
def onGrid? (x : Binary64) (num den : Nat) (log : Int) (count : Nat) : Option Decimal :=
  let step := log + 1 - count
  let (a, b) := match step with
    | .ofNat k => (num, den * Nat.pow 10 k)
    | .negSucc k => (num * Nat.pow 10 (k + 1), den)
  let low : Decimal := ⟨a / b, step⟩
  let high : Decimal := ⟨a / b + 1, step⟩
  let up := b < 2 * (a % b) || (b == 2 * (a % b) && a / b % 2 == 1)
  let nearer := if up then high else low
  let other := if up then low else high
  if nearer.toBinary64 = x then some nearer
  else if other.toBinary64 = x then some other
  else none

/-- The decimal with the fewest digits that reads back to the positive double `x = num / den`. -/
def shortest (x : Binary64) (num den : Nat) : Decimal :=
  let log := decimalLog num den
  match (List.range' 1 17).findSome? (onGrid? x num den log) with
  | some d => d
  | none => ⟨0, 0⟩

end Decimal

/-- How the digits of a double are laid out. -/
structure DecimalStyle where
  /-- First digits of these decimal exponents are written without an exponent: from here … -/
  positionalFrom : Int
  /-- … to below here. -/
  positionalBelow : Int
  /-- The least number of digits of a written exponent. -/
  exponentWidth : Nat
  infinity : String
  notANumber : String

namespace DecimalStyle

/-- Doubles inside texts and lists. -/
def display : DecimalStyle := ⟨-4, 16, 2, "inf", "nan"⟩

/-- Doubles in written documents. -/
def document : DecimalStyle := ⟨-4, 16, 2, "Infinity", "NaN"⟩

/-- The digits of a number without its trailing zeros. -/
def significant (n : Nat) : List Char :=
  ((Nat.toDigits 10 n).reverse.dropWhile (· == '0')).reverse

/-- The exponent with its sign, at least `exponentWidth` digits. -/
def exponentText (style : DecimalStyle) (x : Int) : List Char :=
  let digits := Nat.toDigits 10 x.natAbs
  (if x < 0 then '-' else '+') ::
    (List.replicate (style.exponentWidth - digits.length) '0' ++ digits)

/-- Significant digits laid out with the first digit at decimal exponent `log`. -/
def layOut (style : DecimalStyle) (digits : List Char) (log : Int) : List Char :=
  if style.positionalFrom ≤ log ∧ log < style.positionalBelow then
    match log with
    | .ofNat k =>
      let whole := digits.take (k + 1)
      let fraction := digits.drop (k + 1)
      whole ++ List.replicate (k + 1 - whole.length) '0' ++ '.' ::
        (if fraction.isEmpty then ['0'] else fraction)
    | .negSucc k => '0' :: '.' :: (List.replicate k '0' ++ digits)
  else
    let fraction := digits.drop 1
    digits.take 1 ++ (if fraction.isEmpty then [] else '.' :: fraction) ++ 'e' ::
      style.exponentText log

/-- The text of a double. -/
def write (style : DecimalStyle) : Binary64 → String
  | .nan => style.notANumber
  | .infinite s => if s then "-" ++ style.infinity else style.infinity
  | .finite s m e =>
    let sign : String := if s then "-" else ""
    if m = 0 then sign ++ "0.0"
    else
      let (num, den) := Binary64.scale m 1 (-e)
      let d := Decimal.shortest (.finite false m e) num den
      let log := d.exponent + (Binary64.digitCount d.digits : Int) - 1
      sign ++ String.ofList (style.layOut (significant d.digits) log)

end DecimalStyle

end ApiModels
