/-
ApiModels.Yaml.Tag — the types of nodes.

A tag names the type of a node. A plain scalar without a tag has a type by
its form: null, a truth value, a whole number, a double, a date, or else a
text. Whole numbers may be binary, octal, hexadecimal, or have parts of
sixty; a double needs a point, and a sign in its exponent. One line break
at the end of a text does not count for its form.

Main definitions: `Tag.ofName`, the type that a tag names; `Tag.ofPlain`,
the type of a plain scalar; `timestamp?`, the date that a text states.
-/
import ApiModels.Json.Parser
import ApiModels.Value.Date

namespace ApiModels.Yaml

/-- The type of a node. -/
inductive Tag where
  | null
  | bool
  | int
  | float
  | timestamp
  | binary
  | str
  | seq
  | map
  | set
  /-- A sequence of pairs whose keys are meant to differ. -/
  | omap
  /-- A sequence of pairs. -/
  | pairs
  /-- A key that merges other mappings in. -/
  | merge
  /-- A key for the value that a mapping has where a scalar is meant. -/
  | value
  /-- A type that is not known. -/
  | unknown
  deriving DecidableEq, Repr

/-! ## Named types -/

/-- What the names of types start with. -/
def Tag.stem : String := "tag:yaml.org,2002:"

/-- The types that have names. -/
def Tag.named : List (String × Tag) :=
  [("null", .null), ("bool", .bool), ("int", .int), ("float", .float), ("timestamp", .timestamp),
   ("binary", .binary), ("str", .str), ("seq", .seq), ("map", .map), ("set", .set),
   ("omap", .omap), ("pairs", .pairs), ("merge", .merge), ("value", .value)]

/-- The type of a name. -/
def Tag.ofName (name : String) : Tag :=
  ((Tag.named.find? (fun n => Tag.stem ++ n.1 == name)).map (·.2)).getD .unknown

/-- The type is one of collections, whose parts are looked at later than the node itself. -/
def Tag.isCollection (t : Tag) : Bool :=
  [.seq, .map, .set, .omap, .pairs].contains t

/-! ## Forms of plain scalars -/

/-- Words for truth. -/
def trueWords : List String :=
  ["yes", "Yes", "YES", "true", "True", "TRUE", "on", "On", "ON"]

/-- Words for falsehood. -/
def falseWords : List String :=
  ["no", "No", "NO", "false", "False", "FALSE", "off", "Off", "OFF"]

/-- Words for null. -/
def nullWords : List String := ["", "~", "null", "Null", "NULL"]

/-- A digit or an underscore. -/
def isDigitOrLow (c : Char) : Bool := c.isDigit || c == '_'

/-- What follows a sign, if there is one. -/
def afterSign : List Char → List Char
  | '+' :: cs => cs
  | '-' :: cs => cs
  | cs => cs

/-- A part of sixty after a colon: one digit or two. -/
def sixtieth : List Char → Option (List Char)
  | ':' :: a :: b :: cs =>
    if ('0' ≤ a && a ≤ '5') && b.isDigit then some cs
    else if a.isDigit then some (b :: cs) else none
  | [':', a] => if a.isDigit then some [] else none
  | _ => none

/-- What follows one or more parts of sixty, of which the last may be read shorter. -/
def afterSixtieths : Nat → Bool → List Char → Option (List Char)
  | 0, _, _ => none
  | n + 1, any, cs =>
    match sixtieth cs with
    | some rest => afterSixtieths n true rest
    | none => if any then some cs else none

/-- An exponent with a sign. -/
def isExponent : List Char → Bool
  | [] => true
  | e :: s :: c :: cs =>
    (e == 'e' || e == 'E') && (s == '+' || s == '-') && (c :: cs).all Char.isDigit
  | _ => false

/-- The form of a whole number. -/
def isInt (cs : List Char) : Bool :=
  match afterSign cs with
  | '0' :: 'b' :: c :: ds => (c :: ds).all (fun d => d == '0' || d == '1' || d == '_')
  | '0' :: 'x' :: c :: ds => (c :: ds).all (fun d => (Json.hexValue? d).isSome || d == '_')
  | ['0'] => true
  | '0' :: ds => ds.all (fun d => ('0' ≤ d && d ≤ '7') || d == '_')
  | d :: ds =>
    d.isDigit &&
      (ds.all isDigitOrLow ||
        afterSixtieths (ds.length + 1) false (ds.dropWhile isDigitOrLow) == some [])
  | [] => false

/-- The form of a double. -/
def isFloat (cs : List Char) : Bool :=
  let unsigned := afterSign cs
  [".inf", ".Inf", ".INF"].contains (String.ofList unsigned)
    || [".nan", ".NaN", ".NAN"].contains (String.ofList cs)
    || (match unsigned with
      | d :: ds =>
        d.isDigit &&
          (match ds.dropWhile isDigitOrLow with
          | '.' :: rest => isExponent (rest.dropWhile isDigitOrLow)
          | ':' :: rest =>
            (match afterSixtieths (rest.length + 2) false (':' :: rest) with
            | some ('.' :: rest) => rest.all isDigitOrLow
            | _ => false)
          | _ => false)
      | [] => false)
    || (match cs with
      | '.' :: d :: ds => d.isDigit && isExponent (ds.dropWhile isDigitOrLow)
      | _ => false)

/-- A number of one or two digits, and what follows it. -/
def oneOrTwo : List Char → Option (Nat × List Char)
  | a :: b :: cs =>
    if a.isDigit then
      if b.isDigit then some (Json.decimalValue [a, b], cs)
      else some (Json.decimalValue [a], b :: cs)
    else none
  | [a] => if a.isDigit then some (Json.decimalValue [a], []) else none
  | [] => none

/-- A number of exactly two digits, and what follows it. -/
def two : List Char → Option (Nat × List Char)
  | a :: b :: cs => if a.isDigit && b.isDigit then some (Json.decimalValue [a, b], cs) else none
  | _ => none

/-- What follows a character. -/
def after (x : Char) : List Char → Option (List Char)
  | c :: cs => if c == x then some cs else none
  | [] => none

/-- The distance from universal time, in seconds, at the end of a timestamp. -/
def zone (cs : List Char) : Option (Option Int) :=
  match cs.dropWhile (fun c => c == ' ' || c == '\t') with
  | [] => if cs.isEmpty then some none else none
  | ['Z'] => some (some 0)
  | s :: rest =>
    if s == '+' || s == '-' then do
      let (hours, rest) ← oneOrTwo rest
      let minutes ← match rest with
        | [] => some 0
        | rest => do
          let (minutes, rest) ← two (← after ':' rest)
          if rest.isEmpty then some minutes else none
      let seconds : Int := hours * 3600 + minutes * 60
      some (some (if s == '-' then -seconds else seconds))
    else none

/-- The time of day after a date. -/
def clock (cs : List Char) : Option Clock := do
  let (hour, cs) ← oneOrTwo cs
  let (minute, cs) ← two (← after ':' cs)
  let (second, cs) ← two (← after ':' cs)
  let (fraction, cs) := match cs with
    | '.' :: rest => Json.digits rest
    | cs => ([], cs)
  let offset ← zone cs
  let digits := fraction.take 6
  some ⟨hour, minute, second,
    Json.decimalValue (digits ++ List.replicate (6 - digits.length) '0'), offset⟩

/-- A text without one line break at its end. -/
def withoutFinalBreak (cs : List Char) : List Char :=
  if cs.getLast? == some '\n' then cs.dropLast else cs

/-- A date, possibly with a time of day, by its form alone. -/
def timestamp? (cs : List Char) : Option Date :=
  match withoutFinalBreak cs with
  | a :: b :: c :: d :: '-' :: rest =>
    if [a, b, c, d].all Char.isDigit then do
      let year := Json.decimalValue [a, b, c, d]
      let (month, afterMonth) ← oneOrTwo rest
      let (day, afterDay) ← oneOrTwo (← after '-' afterMonth)
      match afterDay with
      | [] => some ⟨year, month, day, none⟩
      | t :: more =>
        if t == 'T' || t == 't' then do
          some ⟨year, month, day, some (← clock more)⟩
        else if t == ' ' || t == '\t' then do
          some ⟨year, month, day,
            some (← clock (more.dropWhile (fun c => c == ' ' || c == '\t')))⟩
        else none
    else none
  | _ => none

/-- The length of a date in full. -/
def fullDateLength : Nat := 10

/-- The form of a date: in full, or with a time of day. -/
def isTimestamp (cs : List Char) : Bool :=
  match timestamp? cs with
  | none => false
  | some d => d.clock.isSome || (withoutFinalBreak cs).length == fullDateLength

/-- The indicators that are of no known type when they stand alone. -/
def loneIndicators : List String := ["!", "&", "*"]

/-- The type of a text by its form, which is not empty. -/
def Tag.ofForm (cs : List Char) : Tag :=
  let text := String.ofList cs
  if trueWords.contains text || falseWords.contains text then .bool
  else if isFloat cs then .float
  else if isInt cs then .int
  else if text == "<<" then .merge
  else if nullWords.contains text then .null
  else if isTimestamp cs then .timestamp
  else if text == "=" then .value
  else if loneIndicators.contains text then .unknown
  else .str

/-- The type of a plain scalar. -/
def Tag.ofPlain (text : String) : Tag :=
  if text.isEmpty then .null
  else
    match withoutFinalBreak text.toList with
    | [] => .str
    | cs => Tag.ofForm cs

end ApiModels.Yaml
