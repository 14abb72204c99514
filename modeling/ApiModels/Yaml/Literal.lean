/-
ApiModels.Yaml.Literal — the values of scalars.

A scalar is read as its type demands. Its text need not have the form by
which a plain scalar would have been taken for one of that type, so a
reader may refuse it: a number, a date or a truth value of another form is
a failure of its own, bytes that cannot be read make the text unreadable.

Main definition: `Tag.read`, the value of a text of a type.
-/
import ApiModels.Number.Literal
import ApiModels.Text.Base64
import ApiModels.Text.Case
import ApiModels.Text.Split
import ApiModels.Yaml.Problem
import ApiModels.Yaml.Tag

namespace ApiModels.Yaml

/-- A failure while a scalar is read. -/
def fail {α : Type} (cause : Failure) : Reading α := .error (.failure cause)

/-- Numbers may hold underscores anywhere, which say nothing. -/
def withoutLows (text : String) : List Char := text.toList.filter (· != '_')

/-- A number by its sign and what follows it. There must be something to read. -/
def signed {α : Type} (negate : α → α) (magnitude : List Char → Reading α) :
    List Char → Reading α
  | [] => fail .wrongShape
  | '-' :: cs => (magnitude cs).map negate
  | '+' :: cs => magnitude cs
  | cs => magnitude cs

/-! ## Whole numbers -/

/-- The whole number that a text denotes in a base. -/
def inBase (base : Nat) (cs : List Char) : Reading Int :=
  let text := String.ofList cs
  match Number.ofTextIn base text with
  | .ok n => .ok n
  | .error .notANumber => fail (.notAWholeNumber base (.text text))
  | .error (.tooLong digits) => fail (.tooManyDigits (some digits))

/-- The whole number that a text without a sign denotes. -/
def unsignedInt : List Char → Reading Int
  | [] => fail .wrongShape
  | ['0'] => .ok 0
  | '0' :: 'b' :: cs => inBase 2 cs
  | '0' :: 'x' :: cs => inBase 16 cs
  | '0' :: cs => inBase 8 ('0' :: cs)
  | cs => do
    let parts ← (Text.splitOn ':' cs).mapM (inBase 10)
    .ok (parts.foldl (fun n part => 60 * n + part) 0)

/-- The whole number that a text denotes. -/
def readInt (text : String) : Reading Int :=
  signed (fun n => -n) unsignedInt (withoutLows text)

/-! ## Doubles -/

/-- The double that a text denotes. -/
def double (cs : List Char) : Reading Binary64 :=
  let text := String.ofList cs
  match Number.doubleOf? text with
  | some x => .ok x
  | none => fail (.notADouble text)

/--
Parts of sixty added up, the last one first, each product and each sum rounded. `base` is what the
next part counts, which must not lie beyond the doubles.
-/
def sumOfSixtieths : Int → Binary64 → List Binary64 → Reading Binary64
  | _, sum, [] => .ok sum
  | base, sum, part :: parts =>
    match Binary64.ofInt? base with
    | some unit => sumOfSixtieths (60 * base) (sum.add (part.mul unit)) parts
    | none => fail .beyondDoubles

/-- The double that a text in lower case without a sign denotes. -/
def unsignedDouble (cs : List Char) : Reading Binary64 :=
  match String.ofList cs with
  | ".inf" => .ok (.infinite false)
  | ".nan" => .ok .nan
  | _ =>
    if cs.contains ':' then do
      let parts ← (Text.splitOn ':' cs).mapM double
      sumOfSixtieths 1 (.zero false) parts.reverse
    else double cs

/-- The double that a text denotes. -/
def readFloat (text : String) : Reading Binary64 :=
  signed Binary64.neg unsignedDouble (Text.lower (String.ofList (withoutLows text))).toList

/-! ## Dates -/

/-- A day in seconds. -/
def daySeconds : Nat := 86400

/-- The distance from universal time that a date states, if it is a day or more. -/
def wideOffset? (d : Date) : Option Int :=
  d.clock.bind fun c => c.offsetSeconds.bind fun s => if s.natAbs < daySeconds then none else some s

/-- What is wrong with a date, if anything. -/
def dateProblem? (d : Date) : Option DateProblem :=
  match wideOffset? d with
  | some s => some (.offset s)
  | none =>
    if d.year == 0 then some .year
    else if d.month == 0 || 12 < d.month then some .month
    else if d.day == 0 || Date.daysOf d.year d.month < d.day then some .day
    else match d.clock with
      | none => none
      | some c =>
        if 23 < c.hour then some .hour
        else if 59 < c.minute then some .minute
        else if 59 < c.second then some .second
        else none

/-- The date that a text states. -/
def readTimestamp (text : String) : Reading Date :=
  match timestamp? text.toList with
  | none => fail .wrongShape
  | some d =>
    match dateProblem? d with
    | some p => fail (.notADate d.year p)
    | none => .ok d

/-! ## Truth values and bytes -/

/-- The truth value that a word stands for, in any case of its letters. -/
def readBool (text : String) : Reading Bool :=
  let word := Text.lower text
  if trueWords.contains word then .ok true
  else if falseWords.contains word then .ok false
  else fail .wrongShape

/-- The bytes that a text stands for. -/
def readBinary (text : String) : Reading (List UInt8) :=
  let cs := text.toList
  if cs.all (fun c => c.toNat < 0x80) then orUnreadable (Text.Base64.decode? cs)
  else .error .unreadable

/-- The value of a text of a type; not every type has values that are scalars. -/
def Tag.read (t : Tag) (text : Letters) : Reading (Scalar Letters) :=
  match t with
  | .null => .ok .null
  | .bool => (readBool text.toText).map .bool
  | .int => (readInt text.toText).map .int
  | .float => (readFloat text.toText).map .float
  | .timestamp => (readTimestamp text.toText).map .date
  | .binary => (readBinary text.toText).map .bytes
  | .str => .ok (.text text)
  | _ => .error .unreadable

end ApiModels.Yaml
