/-
ApiModels.Number.Binary64 — double-precision numbers as exact values.

A finite double is a signed mantissa times a power of two, kept in one
form: the mantissa has 53 bits, or the exponent is the least one. So two
finite doubles are equal as terms exactly when they are the same double,
and negative zero is a value of its own.

Main definitions: `ofRatio`, the double nearest to a ratio, ties to the
even mantissa; `ofInt?` and `ofDecimal`, which use it for whole numbers
and for decimal notation; `toRatio?`, the exact value back; `truncate?`,
the value cut toward zero.
-/

namespace ApiModels

/-- A double: plus or minus `mantissa · 2 ^ exponent`, an infinity, or not a number. -/
inductive Binary64 where
  | finite (negative : Bool) (mantissa : Nat) (exponent : Int)
  | infinite (negative : Bool)
  | nan
  deriving DecidableEq, Repr, Inhabited

namespace Binary64

/-- The mantissa of a double has this many bits. -/
def precision : Nat := 53

/-- The least exponent; doubles that have it may have a short mantissa. -/
def leastExponent : Int := -1074

/-- The greatest exponent of a finite double. -/
def greatestExponent : Int := 971

/-- Zero with a sign. -/
def zero (negative : Bool) : Binary64 := .finite negative 0 leastExponent

/-- A quotient rounded to the nearest whole number, a tie to the even one. -/
def roundHalfEven (num den : Nat) : Nat :=
  let q := num / den
  let r := num % den
  if 2 * r < den then q
  else if den < 2 * r then q + 1
  else if q % 2 = 0 then q else q + 1

/-- Numerator and denominator of `num / den / 2 ^ e`. -/
def scale (num den : Nat) (e : Int) : Nat × Nat :=
  match e with
  | .ofNat k => (num, den * Nat.pow 2 k)
  | .negSucc k => (num * Nat.pow 2 (k + 1), den)

/-- The exponent of the greatest power of two that is at most `num / den`. -/
def binaryLog (num den : Nat) : Int :=
  let guess : Int := (num.log2 : Int) - (den.log2 : Int)
  let (a, b) := scale num den guess
  if b ≤ a then guess else guess - 1

/-- The double nearest to `num / den`, a tie to the even mantissa. -/
def ofRatio (negative : Bool) (num den : Nat) : Binary64 :=
  if num = 0 then zero negative
  else
    let e := max (binaryLog num den - (precision - 1)) leastExponent
    let (a, b) := scale num den e
    let m := roundHalfEven a b
    let (m, e) := if m = Nat.pow 2 precision then (Nat.pow 2 (precision - 1), e + 1) else (m, e)
    if greatestExponent < e then .infinite negative else .finite negative m e

/-- The double nearest to a signed ratio. -/
def ofSignedRatio (num : Int) (den : Nat) : Binary64 :=
  ofRatio (num < 0) num.natAbs den

/-- The double nearest to a whole number; none when that lies beyond the greatest double. -/
def ofInt? (n : Int) : Option Binary64 :=
  match ofSignedRatio n 1 with
  | .finite s m e => some (.finite s m e)
  | _ => none

/-- The number of decimal digits of a number; zero has one. -/
def digitCount (n : Nat) : Nat := (Nat.toDigits 10 n).length

/--
The double nearest to `digits · 10 ^ exponent`.

Exponents far outside the range of doubles are answered without computing the power.
-/
def ofDecimal (negative : Bool) (digits : Nat) (exponent : Int) : Binary64 :=
  if digits = 0 then zero negative
  else if 310 < (digitCount digits : Int) + exponent then .infinite negative
  else if (digitCount digits : Int) + exponent < -330 then zero negative
  else match exponent with
    | .ofNat k => ofRatio negative (digits * Nat.pow 10 k) 1
    | .negSucc k => ofRatio negative digits (Nat.pow 10 (k + 1))

/-- The exact value of a finite double as numerator and denominator. -/
def toRatio? : Binary64 → Option (Int × Nat)
  | .finite s m e =>
    let sign : Int := if s then -1 else 1
    match e with
    | .ofNat k => some (sign * (m * Nat.pow 2 k : Nat), 1)
    | .negSucc k => some (sign * m, Nat.pow 2 (k + 1))
  | _ => none

/-- The whole part of a finite double. -/
def truncate? (x : Binary64) : Option Int :=
  x.toRatio?.map fun (num, den) => Int.tdiv num den

/-- A double is zero. -/
def isZero : Binary64 → Bool
  | .finite _ m _ => m == 0
  | _ => false

/-- The double is exactly the whole number. -/
def equalsInt (x : Binary64) (n : Int) : Bool :=
  match x.toRatio? with
  | some (num, den) => num == n * den
  | none => false

/-- Numeric equality: the zeros are equal and nothing equals what is not a number. -/
def same (x y : Binary64) : Bool :=
  match x, y with
  | .nan, _ => false
  | _, .nan => false
  | .infinite s, .infinite t => s == t
  | _, _ =>
    match x.toRatio?, y.toRatio? with
    | some (a, b), some (c, d) => a * d == c * b
    | _, _ => false

/-- Numeric order; nothing is below or above what is not a number. -/
def below (x y : Binary64) : Bool :=
  match x, y with
  | .nan, _ => false
  | _, .nan => false
  | .infinite s, .infinite t => s && !t
  | .infinite s, _ => s
  | _, .infinite t => !t
  | _, _ =>
    match x.toRatio?, y.toRatio? with
    | some (a, b), some (c, d) => a * d < c * b
    | _, _ => false

/-- The negative of a double. -/
def neg : Binary64 → Binary64
  | .finite s m e => .finite (!s) m e
  | .infinite s => .infinite (!s)
  | .nan => .nan

/-- The double nearest to a sum. Opposite infinities have none, and only negative zeros make one. -/
def add : Binary64 → Binary64 → Binary64
  | .nan, _ => .nan
  | _, .nan => .nan
  | .infinite s, .infinite t => if s = t then .infinite s else .nan
  | .infinite s, _ => .infinite s
  | _, .infinite t => .infinite t
  | .finite s 0 _, .finite t 0 _ => zero (s && t)
  | x, y =>
    match x.toRatio?, y.toRatio? with
    | some (a, b), some (c, d) => ofSignedRatio (a * d + c * b) (b * d)
    | _, _ => .nan

/-- The sign of a double; what is not a number has none. -/
def isNegative : Binary64 → Bool
  | .finite s _ _ => s
  | .infinite s => s
  | .nan => false

/-- The double nearest to a product. An infinity times zero has none. -/
def mul (x y : Binary64) : Binary64 :=
  let negative := x.isNegative != y.isNegative
  match x.toRatio?, y.toRatio? with
  | some (a, b), some (c, d) => ofRatio negative (a * c).natAbs (b * d)
  | _, _ => if x = .nan || y = .nan || x.isZero || y.isZero then .nan else .infinite negative

end Binary64

end ApiModels
